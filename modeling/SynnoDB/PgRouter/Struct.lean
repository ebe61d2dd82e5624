import Mathlib.Algebra.Order.Ring.Int
import SynnoDB.Hotpatch.Wire

/-!
# `struct.pack` and `struct.unpack` of signed words in network order

`!h`, `!i` and `!q` are the words of 2, 4 and 8 bytes. Packing raises outside the word's range,
unpacking on any other number of bytes; inside they undo each other (`unpack_pack`, `pack_unpack`).
-/

namespace SynnoDB.PgRouter.Struct

open Hotpatch (Bytes leBytes leValue length_leBytes leValue_leBytes leValue_lt leBytes_leValue)

/-- An unsigned word, most significant byte first. -/
def word (w n : Nat) : Bytes := (leBytes w n).reverse

def unsigned (raw : Bytes) : Nat := leValue raw.reverse

/-- The two's complement reading of a word of `w` bytes. -/
def signed (w n : Nat) : Int := if 2 * n < 256 ^ w then n else n - 256 ^ w

/-- `none` is `struct.error`. -/
def unpack (w : Nat) (raw : Bytes) : Option Int :=
  if raw.length = w then some (signed w (unsigned raw)) else none

def InRange (w : Nat) (n : Int) : Prop := -(256 ^ w : Int) ≤ 2 * n ∧ 2 * n < (256 ^ w : Int)

instance (w : Nat) (n : Int) : Decidable (InRange w n) := inferInstanceAs (Decidable (_ ∧ _))

def pack (w : Nat) (n : Int) : Option Bytes :=
  if InRange w n then some (word w (n % 256 ^ w).toNat) else none

@[simp] theorem length_word (w n : Nat) : (word w n).length = w := by
  rw [word, List.length_reverse, length_leBytes]

@[simp] theorem unsigned_word (w n : Nat) : unsigned (word w n) = n % 256 ^ w := by
  rw [unsigned, word, List.reverse_reverse, leValue_leBytes]

theorem word_unsigned (raw : Bytes) : word raw.length (unsigned raw) = raw := by
  have h := leBytes_leValue raw.reverse
  rw [List.length_reverse] at h
  rw [word, unsigned, h, List.reverse_reverse]

theorem unsigned_lt (raw : Bytes) : unsigned raw < 256 ^ raw.length := by
  have h := leValue_lt raw.reverse
  rwa [List.length_reverse] at h

theorem unpack_word {w n : Nat} (h : n < 256 ^ w) : unpack w (word w n) = some (signed w n) := by
  rw [unpack, if_pos (length_word w n), unsigned_word, Nat.mod_eq_of_lt h]

theorem pack_of_inRange {w : Nat} {n : Int} (h : InRange w n) : pack w n = some (word w (n % 256 ^ w).toNat) := if_pos h

theorem unpack_pack {w : Nat} {n : Int} {raw : Bytes} (h : pack w n = some raw) : unpack w raw = some n := by
  unfold pack at h
  split at h
  · rename_i hrange
    rw [← Option.some.inj h]
    have hpos : (0 : Int) < 256 ^ w := Int.pow_pos (by decide)
    have hmod := Int.emod_nonneg n hpos.ne'
    have hlt := Int.emod_lt_of_pos n hpos
    rw [unpack_word (by exact_mod_cast (Int.toNat_of_nonneg hmod).symm ▸ hlt), Option.some.injEq, signed]
    have hnat := Int.toNat_of_nonneg hmod
    unfold InRange at hrange
    have hcases : n % 256 ^ w = n ∨ n % 256 ^ w = n + 256 ^ w := by
      rcases lt_or_ge n 0 with hneg | hnn
      · right
        rw [← Int.add_emod_right, Int.emod_eq_of_lt (by omega) (by omega)]
      · left
        exact Int.emod_eq_of_lt hnn (by omega)
    have hiff : 2 * (n % 256 ^ w).toNat < 256 ^ w ↔ 2 * (n % 256 ^ w) < 256 ^ w := by
      rw [← hnat]
      norm_cast
    split
    · rename_i hlow
      have := hiff.1 hlow
      omega
    · rename_i hhigh
      have : ¬ 2 * (n % 256 ^ w) < 256 ^ w := fun h => hhigh (hiff.2 h)
      omega
  · cases h

theorem length_pack {w : Nat} {n : Int} {raw : Bytes} (h : pack w n = some raw) : raw.length = w := by
  unfold pack at h
  split at h
  · rw [← Option.some.inj h, length_word]
  · cases h

theorem pack_unpack {w : Nat} {n : Int} {raw : Bytes} (h : unpack w raw = some n) : pack w n = some raw := by
  unfold unpack at h
  split at h
  · rename_i hlen
    subst hlen
    rw [← Option.some.inj h, signed]
    have hlt := unsigned_lt raw
    have hltZ : (unsigned raw : Int) < 256 ^ raw.length := by exact_mod_cast hlt
    have hword := word_unsigned raw
    split
    · rename_i hlow
      have hlowZ : 2 * (unsigned raw : Int) < 256 ^ raw.length := by exact_mod_cast hlow
      rw [pack, if_pos ⟨by omega, hlowZ⟩, Int.emod_eq_of_lt (by omega) hltZ, Int.toNat_natCast, hword]
    · rename_i hhigh
      have hhighZ : ¬ 2 * (unsigned raw : Int) < 256 ^ raw.length := by exact_mod_cast hhigh
      rw [pack, if_pos ⟨by omega, by omega⟩, ← Int.add_emod_right, Int.sub_add_cancel,
        Int.emod_eq_of_lt (by omega) hltZ, Int.toNat_natCast, hword]
  · cases h

end SynnoDB.PgRouter.Struct
