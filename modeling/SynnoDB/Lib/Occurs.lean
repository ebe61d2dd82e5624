import Mathlib.Data.List.Basic
import Mathlib.Data.List.Infix

/-!
# Occurrences of a list in another

Where a pattern occurs (`At`), its first occurrence (`find`), the number of occurrences found one after the other
without an overlap (`count`), and what is left when the part at a place is replaced (`splice`).
-/

namespace Occurs

variable {α β : Type*}

/-- The pattern occurs at the index; an empty pattern occurs everywhere. -/
def At (pat s : List α) (i : Nat) : Prop := pat <+: s.drop i

/-- `s` with the `n` elements from `i` on replaced. -/
def splice (s : List α) (i n : Nat) (new : List α) : List α := s.take i ++ new ++ s.drop (i + n)

section
variable [DecidableEq α]

instance (pat s : List α) (i : Nat) : Decidable (At pat s i) := inferInstanceAs (Decidable (_ <+: _))

/-- The first occurrence. -/
def find (pat : List α) : List α → Option Nat
  | [] => if pat = [] then some 0 else none
  | c :: cs => if pat.isPrefixOf (c :: cs) then some 0 else (find pat cs).map (· + 1)

/-- How often the pattern is found from left to right, each time after the end of the last; `skip` elements are
passed over. -/
def count (pat : List α) : Nat → List α → Nat
  | _, [] => 0
  | skip + 1, _ :: cs => count pat skip cs
  | 0, c :: cs => if pat.isPrefixOf (c :: cs) then count pat (pat.length - 1) cs + 1 else count pat 0 cs

/-- All occurrences that `count` counts are replaced. -/
def replaceAll (pat new : List α) : Nat → List α → List α
  | _, [] => []
  | skip + 1, _ :: cs => replaceAll pat new skip cs
  | 0, c :: cs => if pat.isPrefixOf (c :: cs) then new ++ replaceAll pat new (pat.length - 1) cs else c :: replaceAll pat new 0 cs

end

variable {pat s new : List α} {i : Nat}

@[simp] theorem at_zero {c : α} {cs : List α} : At pat (c :: cs) 0 ↔ pat <+: c :: cs := Iff.rfl

@[simp] theorem at_succ {c : α} {cs : List α} : At pat (c :: cs) (i + 1) ↔ At pat cs i := Iff.rfl

theorem not_at_nil (hpat : pat ≠ []) : ¬At pat [] i := by
  intro h
  rw [At, List.drop_nil, List.prefix_nil] at h
  exact hpat h

theorem At.length_le (h : At pat s i) (hpat : pat ≠ []) : i + pat.length ≤ s.length := by
  have hle := List.IsPrefix.length_le h
  rw [List.length_drop] at hle
  have hpos : 0 < pat.length := List.length_pos_iff.2 hpat
  omega

theorem At.split (h : At pat s i) : s = s.take i ++ pat ++ s.drop (i + pat.length) := by
  obtain ⟨t, ht⟩ := h
  have hdrop : s.drop (i + pat.length) = t := by
    rw [← List.drop_drop, ← ht, List.drop_left]
  rw [hdrop, List.append_assoc, ht, List.take_append_drop]

theorem splice_eq_self (h : At pat s i) : splice s i pat.length new = s ↔ new = pat := by
  constructor
  · intro hs
    have heq := hs.trans h.split
    exact List.append_cancel_left (List.append_cancel_right heq)
  · rintro rfl
    exact h.split.symm

theorem At.map (f : α → β) (h : At pat s i) : At (pat.map f) (s.map f) i := by
  rw [At, ← List.map_drop]
  exact List.IsPrefix.map f h

/-- What stands where a pattern occurs up to `f`. -/
theorem At.actual {f : α → β} {pat : List α} (h : At (pat.map f) (s.map f) i) :
    At ((s.drop i).take pat.length) s i ∧ ((s.drop i).take pat.length).map f = pat.map f := by
  refine ⟨List.take_prefix _ _, ?_⟩
  rw [At, ← List.map_drop, List.prefix_iff_eq_take] at h
  rw [List.map_take, h, List.length_map]

section
variable [DecidableEq α]

theorem find_eq_none (hpat : pat ≠ []) : find pat s = none ↔ ∀ i, ¬At pat s i := by
  induction s with
  | nil => simp [find, hpat, not_at_nil hpat]
  | cons c cs ih =>
    by_cases hp : pat <+: c :: cs
    · rw [find, if_pos (List.isPrefixOf_iff_prefix.2 hp)]
      exact iff_of_false (by simp) fun h => h 0 hp
    · rw [find, if_neg (fun h => hp (List.isPrefixOf_iff_prefix.1 h)), Option.map_eq_none_iff, ih]
      constructor
      · rintro h (_ | i)
        · exact hp
        · exact h i
      · exact fun h i => h (i + 1)

theorem find_eq_some (hpat : pat ≠ []) : find pat s = some i ↔ At pat s i ∧ ∀ j < i, ¬At pat s j := by
  induction s generalizing i with
  | nil => simp [find, hpat, not_at_nil hpat]
  | cons c cs ih =>
    by_cases hp : pat <+: c :: cs
    · rw [find, if_pos (List.isPrefixOf_iff_prefix.2 hp), Option.some.injEq]
      constructor
      · rintro rfl
        exact ⟨hp, fun j hj => absurd hj (Nat.not_lt_zero j)⟩
      · rintro ⟨-, hfirst⟩
        by_contra hi
        exact hfirst 0 (Nat.pos_of_ne_zero (Ne.symm hi)) hp
    · rw [find, if_neg (fun h => hp (List.isPrefixOf_iff_prefix.1 h))]
      cases i with
      | zero => exact iff_of_false (by simp) fun h => hp h.1
      | succ i =>
        rw [Option.map_eq_some_iff]
        constructor
        · rintro ⟨k, hk, hki⟩
          cases hki
          obtain ⟨hat, hfirst⟩ := ih.1 hk
          refine ⟨hat, ?_⟩
          rintro (_ | j) hj
          · exact hp
          · exact hfirst j (Nat.lt_of_succ_lt_succ hj)
        · rintro ⟨hat, hfirst⟩
          exact ⟨i, ih.2 ⟨hat, fun j hj => hfirst (j + 1) (Nat.succ_lt_succ hj)⟩, rfl⟩

theorem count_pos (hpat : pat ≠ []) {skip : Nat} : 0 < count pat skip s ↔ ∃ i, skip ≤ i ∧ At pat s i := by
  induction s generalizing skip with
  | nil => simp [count, not_at_nil hpat]
  | cons c cs ih =>
    cases skip with
    | succ skip =>
      rw [count, ih]
      constructor
      · rintro ⟨i, hi, hat⟩
        exact ⟨i + 1, Nat.succ_le_succ hi, hat⟩
      · rintro ⟨_ | i, hi, hat⟩
        · cases hi
        · exact ⟨i, Nat.le_of_succ_le_succ hi, hat⟩
    | zero =>
      by_cases hp : pat <+: c :: cs
      · rw [count, if_pos (List.isPrefixOf_iff_prefix.2 hp)]
        exact iff_of_true (Nat.succ_pos _) ⟨0, Nat.le_refl 0, hp⟩
      · rw [count, if_neg (fun h => hp (List.isPrefixOf_iff_prefix.1 h)), ih]
        constructor
        · rintro ⟨i, -, hat⟩
          exact ⟨i + 1, Nat.zero_le _, hat⟩
        · rintro ⟨_ | i, -, hat⟩
          · exact absurd hat hp
          · exact ⟨i, Nat.zero_le _, hat⟩

/-- **More than one is counted** where two occurrences do not overlap. -/
theorem one_lt_count (hpat : pat ≠ []) {skip : Nat} :
    1 < count pat skip s ↔ ∃ i j, skip ≤ i ∧ At pat s i ∧ At pat s j ∧ i + pat.length ≤ j := by
  have hpos : 0 < pat.length := List.length_pos_iff.2 hpat
  induction s generalizing skip with
  | nil => simp [count, not_at_nil hpat]
  | cons c cs ih =>
    cases skip with
    | succ skip =>
      rw [count]
      refine (@ih skip).trans ?_
      constructor
      · rintro ⟨i, j, hi, hat, hat', hij⟩
        exact ⟨i + 1, j + 1, Nat.succ_le_succ hi, hat, hat', by omega⟩
      · rintro ⟨_ | i, _ | j, hi, hat, hat', hij⟩
        · cases hi
        · cases hi
        · omega
        · exact ⟨i, j, Nat.le_of_succ_le_succ hi, hat, hat', by omega⟩
    | zero =>
      by_cases hp : pat <+: c :: cs
      · rw [count, if_pos (List.isPrefixOf_iff_prefix.2 hp), Nat.lt_add_left_iff_pos, count_pos hpat]
        constructor
        · rintro ⟨i, hi, hat⟩
          exact ⟨0, i + 1, Nat.le_refl 0, hp, hat, by omega⟩
        · rintro ⟨i, _ | j, -, -, hat', hij⟩
          · omega
          · exact ⟨j, by omega, hat'⟩
      · rw [count, if_neg (fun h => hp (List.isPrefixOf_iff_prefix.1 h))]
        refine (@ih 0).trans ?_
        constructor
        · rintro ⟨i, j, -, hat, hat', hij⟩
          exact ⟨i + 1, j + 1, Nat.zero_le _, hat, hat', by omega⟩
        · rintro ⟨_ | i, _ | j, -, hat, hat', hij⟩
          · exact absurd hat hp
          · exact absurd hat hp
          · omega
          · exact ⟨i, j, Nat.zero_le _, hat, hat', by omega⟩

end

end Occurs
