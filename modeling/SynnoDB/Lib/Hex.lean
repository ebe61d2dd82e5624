import Mathlib.Data.List.Basic

/-!
# Bytes as hexadecimal text

Two lowercase digits a byte; the digits of either case are read back (`ofText_text`).
-/

namespace Hex

def digits (b : UInt8) : List Char := [Nat.digitChar (b.toNat / 16), Nat.digitChar (b.toNat % 16)]

def text (bs : List UInt8) : List Char := bs.flatMap digits

def digitValue (c : Char) : Option Nat :=
  if '0' ≤ c ∧ c ≤ '9' then some (c.toNat - 48)
  else if 'a' ≤ c ∧ c ≤ 'f' then some (c.toNat - 87)
  else if 'A' ≤ c ∧ c ≤ 'F' then some (c.toNat - 55)
  else none

def ofText : List Char → Option (List UInt8)
  | [] => some []
  | [_] => none
  | hi :: lo :: rest => do
    let hi ← digitValue hi
    let lo ← digitValue lo
    let bs ← ofText rest
    pure (UInt8.ofNat (16 * hi + lo) :: bs)

theorem digitValue_digitChar : ∀ n < 16, digitValue (Nat.digitChar n) = some n := by decide

@[simp] theorem text_nil : text [] = [] := rfl

theorem text_cons (b : UInt8) (bs : List UInt8) :
    text (b :: bs) = Nat.digitChar (b.toNat / 16) :: Nat.digitChar (b.toNat % 16) :: text bs := rfl

theorem length_text (bs : List UInt8) : (text bs).length = 2 * bs.length := by
  induction bs with
  | nil => rfl
  | cons b bs ih =>
    rw [text_cons, List.length_cons, List.length_cons, List.length_cons, ih]
    omega

/-- The two digits of a byte. -/
theorem digitValue_high (b : UInt8) : digitValue (Nat.digitChar (b.toNat / 16)) = some (b.toNat / 16) :=
  digitValue_digitChar _ (Nat.div_lt_of_lt_mul b.toNat_lt)

theorem digitValue_low (b : UInt8) : digitValue (Nat.digitChar (b.toNat % 16)) = some (b.toNat % 16) :=
  digitValue_digitChar _ (Nat.mod_lt _ (by decide))

theorem ofNat_digits (b : UInt8) : UInt8.ofNat (16 * (b.toNat / 16) + b.toNat % 16) = b := by
  rw [Nat.div_add_mod, UInt8.ofNat_toNat]

theorem ofText_text (bs : List UInt8) : ofText (text bs) = some bs := by
  induction bs with
  | nil => rfl
  | cons b bs ih =>
    rw [text_cons, ofText, digitValue_high, digitValue_low, ih]
    simp only [Option.bind_eq_bind, Option.bind_some, Option.pure_def, ofNat_digits]

theorem isDigit_of_mem {bs : List UInt8} {c : Char} (h : c ∈ text bs) : (digitValue c).isSome := by
  obtain ⟨b, -, hb⟩ := List.mem_flatMap.1 h
  rcases List.mem_cons.1 hb with rfl | hb
  · rw [digitValue_high]
    rfl
  · rw [List.mem_singleton.1 hb, digitValue_low]
    rfl

theorem notMem_text {c : Char} (hc : digitValue c = none) (bs : List UInt8) : c ∉ text bs := fun h => by
  have := isDigit_of_mem h
  rw [hc] at this
  cases this

end Hex
