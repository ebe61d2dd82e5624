import Mathlib.Algebra.Order.Field.Basic
import Mathlib.Tactic.FieldSimp
import Mathlib.Tactic.Ring

/-!
# Texts of decimal digits

A text of digits read as a natural number (`value`), and as what stands after a decimal point
(`fraction`). `cut k` extends or truncates such a text to `k` digits; it loses nothing when the
fraction has no more than `k` of them (`value_cut`).
-/

namespace Digits

abbrev Text := List Char

def value (t : Text) : Nat := Nat.ofDigitChars 10 t 0

def zeros (n : Nat) : Text := List.replicate n '0'

def AllDigits (t : Text) : Prop := ∀ c ∈ t, c.isDigit = true

instance (t : Text) : Decidable (AllDigits t) := decidable_of_iff (t.all Char.isDigit = true) List.all_eq_true

/-- `t.zfill(w)` of digits. -/
def zfill (w : Nat) (t : Text) : Text := zeros (w - t.length) ++ t

@[simp] theorem value_nil : value [] = 0 := rfl

theorem value_append (a b : Text) : value (a ++ b) = value a * 10 ^ b.length + value b := by
  rw [value, Nat.ofDigitChars_append, Nat.ofDigitChars_eq_ofDigitChars_zero, Nat.mul_comm]
  rfl

@[simp] theorem value_zeros (n : Nat) : value (zeros n) = 0 := by
  rw [value, zeros, Nat.ofDigitChars_replicate_zero, Nat.mul_zero]

@[simp] theorem length_zeros (n : Nat) : (zeros n).length = n := List.length_replicate

@[simp] theorem value_toDigits (n : Nat) : value (Nat.toDigits 10 n) = n := Nat.ofDigitChars_ten_toDigits

@[simp] theorem value_zfill (w : Nat) (t : Text) : value (zfill w t) = value t := by
  rw [zfill, value_append, value_zeros, Nat.zero_mul, Nat.zero_add]

theorem length_zfill (w : Nat) (t : Text) : (zfill w t).length = max w t.length := by
  rw [zfill, List.length_append, length_zeros]
  omega

theorem zfill_of_le {w : Nat} {t : Text} (h : w ≤ t.length) : zfill w t = t := by
  rw [zfill, Nat.sub_eq_zero_of_le h]
  rfl

theorem allDigits_append {a b : Text} : AllDigits (a ++ b) ↔ AllDigits a ∧ AllDigits b := List.forall_mem_append

theorem allDigits_zeros (n : Nat) : AllDigits (zeros n) := fun c h => by
  rw [List.eq_of_mem_replicate h]
  rfl

theorem allDigits_toDigits (n : Nat) : AllDigits (Nat.toDigits 10 n) :=
  fun _ h => Nat.isDigit_of_mem_toDigits (by decide) (by decide) h

theorem allDigits_zfill {w : Nat} {t : Text} (h : AllDigits t) : AllDigits (zfill w t) :=
  allDigits_append.2 ⟨allDigits_zeros _, h⟩

theorem value_lt {t : Text} (h : AllDigits t) : value t < 10 ^ t.length := by
  induction t with
  | nil => exact Nat.one_pos
  | cons c t ih =>
    have hc := h c (List.mem_cons_self ..)
    have ht := ih fun d hd => h d (List.mem_cons_of_mem _ hd)
    have hdigit : value [c] ≤ 9 := by
      have : value [c] = c.toNat - 48 := by simp [value, Nat.ofDigitChars_cons]
      have hle : c.toNat ≤ 57 := by
        simp only [Char.isDigit, Bool.and_eq_true, decide_eq_true_eq] at hc
        exact hc.2
      omega
    rw [← List.singleton_append, value_append, List.length_append, List.length_singleton, Nat.add_comm 1, Nat.pow_succ]
    have := Nat.mul_le_mul_right (10 ^ t.length) hdigit
    omega

/-- Leading zeros do not count. -/
theorem value_dropZeros (t : Text) : value (t.dropWhile (· = '0')) = value t := by
  induction t with
  | nil => rfl
  | cons c t ih =>
    by_cases hc : c = '0'
    · subst hc
      rw [List.dropWhile_cons_of_pos (by decide), ih, ← List.singleton_append, value_append,
        show value ['0'] = 0 from rfl, Nat.zero_mul, Nat.zero_add]
    · rw [List.dropWhile_cons_of_neg (by simpa using hc)]

/-- Texts of one length are told apart by their values. -/
theorem eq_of_value_eq : ∀ {a b : Text}, AllDigits a → AllDigits b → a.length = b.length → value a = value b → a = b
  | [], [], _, _, _, _ => rfl
  | c :: a, d :: b, ha, hb, hlen, hv => by
    rw [List.length_cons, List.length_cons, Nat.succ_inj] at hlen
    have ha' : AllDigits a := fun e he => ha e (List.mem_cons_of_mem _ he)
    have hb' : AllDigits b := fun e he => hb e (List.mem_cons_of_mem _ he)
    have hla := value_lt ha'
    have hlb := value_lt hb'
    rw [← List.singleton_append, ← List.singleton_append (l := b), value_append, value_append, hlen] at hv
    rw [hlen] at hla
    have hpos : 0 < 10 ^ b.length := Nat.pow_pos (by decide)
    have hhead : value [c] = value [d] := by
      have h := congrArg (· / 10 ^ b.length) hv
      simpa only [Nat.add_comm (_ * 10 ^ b.length), Nat.add_mul_div_right _ _ hpos,
        Nat.div_eq_of_lt hla, Nat.div_eq_of_lt hlb, Nat.zero_add] using h
    have hrest : value a = value b := by
      rw [hhead] at hv
      exact Nat.add_left_cancel hv
    rw [eq_of_value_eq ha' hb' hlen hrest]
    congr 1
    have hc := ha c (List.mem_cons_self ..)
    have hd := hb d (List.mem_cons_self ..)
    simp only [Char.isDigit, Bool.and_eq_true, decide_eq_true_eq, value, Nat.ofDigitChars_cons,
      Nat.ofDigitChars_nil] at hc hd hhead
    refine Char.ext (UInt32.toNat_inj.1 ?_)
    have h1 : 48 ≤ c.val.toNat := hc.1
    have h2 : 48 ≤ d.val.toNat := hd.1
    have h3 : 10 * 0 + (c.val.toNat - 48) = 10 * 0 + (d.val.toNat - 48) := hhead
    omega

/-- A text that does not start with a zero is the numeral of its value. -/
theorem toDigits_value {c : Char} {t : Text} (h : AllDigits (c :: t)) (hc : c ≠ '0') :
    Nat.toDigits 10 (value (c :: t)) = c :: t := by
  have hlow : 10 ^ t.length ≤ value (c :: t) := by
    have hne : value [c] ≠ 0 := fun h0 =>
      hc (List.singleton_inj.1 (eq_of_value_eq (a := [c]) (b := ['0'])
        (fun e he => h e (by rw [List.mem_singleton.1 he]; exact List.mem_cons_self ..)) (by decide) rfl h0))
    rw [← List.singleton_append, value_append]
    have := Nat.mul_le_mul_right (10 ^ t.length) (Nat.one_le_iff_ne_zero.2 hne)
    omega
  have hhigh := value_lt h
  have hlen : (Nat.toDigits 10 (value (c :: t))).length = t.length + 1 := by
    refine le_antisymm ((Nat.length_toDigits_le_iff (by decide) (Nat.succ_pos _)).2 hhigh) ?_
    by_contra hshort
    have hlt : (Nat.toDigits 10 (value (c :: t))).length ≤ t.length := by omega
    rcases Nat.eq_zero_or_pos t.length with h0 | hpos
    · have := Nat.length_toDigits_pos (b := 10) (n := value (c :: t))
      omega
    · have := (Nat.length_toDigits_le_iff (by decide) hpos).1 hlt
      omega
  exact eq_of_value_eq (allDigits_toDigits _) h (by rw [hlen, List.length_cons]) (value_toDigits _)

/-- `t.lstrip("0") or "0"`. -/
def strip (t : Text) : Text := if t.dropWhile (· = '0') = [] then ['0'] else t.dropWhile (· = '0')

theorem strip_eq {t : Text} (h : AllDigits t) : strip t = Nat.toDigits 10 (value t) := by
  have hsub : AllDigits (t.dropWhile (· = '0')) := fun c hc => h c ((List.dropWhile_sublist _).subset hc)
  have hvalue := value_dropZeros t
  unfold strip
  cases hdrop : t.dropWhile (· = '0') with
  | nil =>
    rw [hdrop] at hvalue
    rw [if_pos rfl, ← hvalue]
    rfl
  | cons c rest =>
    have hc : c ≠ '0' := by
      have := List.head_dropWhile_not (fun c : Char => decide (c = '0')) (l := t)
        (by rw [hdrop]; exact List.cons_ne_nil _ _)
      simpa [hdrop] using this
    rw [hdrop] at hvalue hsub
    rw [if_neg (List.cons_ne_nil _ _), ← hvalue, toDigits_value hsub hc]

theorem zfill_toDigits {t : Text} (h : AllDigits t) (hne : t ≠ []) :
    zfill t.length (Nat.toDigits 10 (value t)) = t := by
  have hle : (Nat.toDigits 10 (value t)).length ≤ t.length :=
    (Nat.length_toDigits_le_iff (by decide) (List.length_pos_iff.2 hne)).2 (value_lt h)
  refine eq_of_value_eq (allDigits_zfill (allDigits_toDigits _)) h ?_ ?_
  · rw [length_zfill, Nat.max_eq_left hle]
  · rw [value_zfill, value_toDigits]

/-! ## Behind the point -/

/-- The number written `0.t`. -/
def fraction (t : Text) : ℚ := value t / 10 ^ t.length

theorem fraction_append (a b : Text) : fraction (a ++ b) = fraction a + fraction b / 10 ^ a.length := by
  rw [fraction, fraction, fraction, value_append, List.length_append, pow_add]
  push_cast
  field_simp

theorem fraction_zeros (n : Nat) : fraction (zeros n) = 0 := by
  rw [fraction, value_zeros, Nat.cast_zero, zero_div]

/-- `(t + "0" * k)[:k]`. -/
def cut (k : Nat) (t : Text) : Text := (t ++ zeros k).take k

@[simp] theorem length_cut (k : Nat) (t : Text) : (cut k t).length = k := by
  rw [cut, List.length_take, List.length_append, length_zeros]
  omega

theorem allDigits_cut {k : Nat} {t : Text} (h : AllDigits t) : AllDigits (cut k t) :=
  fun c hc => allDigits_append.2 ⟨h, allDigits_zeros k⟩ c (List.mem_of_mem_take hc)

/-- **What is cut off is zero when the fraction has at most `k` digits.** -/
theorem value_cut {k c : Nat} {t : Text} (ht : AllDigits t) (hc : fraction t * 10 ^ k = c) : value (cut k t) = c := by
  have hwhole : value (t ++ zeros k) = value (cut k t) * 10 ^ t.length + value ((t ++ zeros k).drop k) := by
    have hlen : ((t ++ zeros k).drop k).length = t.length := by
      rw [List.length_drop, List.length_append, length_zeros, Nat.add_sub_cancel]
    rw [cut, ← hlen, ← value_append, List.take_append_drop]
  have hrest : value ((t ++ zeros k).drop k) < 10 ^ t.length := by
    have hlt := value_lt (t := (t ++ zeros k).drop k)
      fun d hd => allDigits_append.2 ⟨ht, allDigits_zeros k⟩ d (List.mem_of_mem_drop hd)
    rwa [List.length_drop, List.length_append, length_zeros, Nat.add_sub_cancel] at hlt
  have hexact : value (t ++ zeros k) = c * 10 ^ t.length := by
    rw [value_append, value_zeros, length_zeros, Nat.add_zero]
    have hpos : (10 : ℚ) ^ t.length ≠ 0 := pow_ne_zero _ (by norm_num)
    rw [fraction, div_mul_eq_mul_div, div_eq_iff hpos] at hc
    exact_mod_cast hc
  have hpos : 0 < 10 ^ t.length := Nat.pow_pos (by decide)
  have hdiv : value (t ++ zeros k) / 10 ^ t.length = value (cut k t) := by
    rw [hwhole, Nat.add_comm, Nat.add_mul_div_right _ _ hpos, Nat.div_eq_of_lt hrest, Nat.zero_add]
  rw [← hdiv, hexact, Nat.mul_div_cancel _ hpos]

/-! ## Reading off a text -/

theorem takeWhile_digits {t rest : Text} (ht : AllDigits t) (hrest : ∀ c ∈ rest.head?, c.isDigit = false) :
    (t ++ rest).takeWhile Char.isDigit = t := by
  rw [List.takeWhile_append_of_pos ht]
  cases rest with
  | nil => rw [List.takeWhile_nil, List.append_nil]
  | cons c rest => rw [List.takeWhile_cons_of_neg (by simp [hrest c rfl]), List.append_nil]

theorem dropWhile_digits {t rest : Text} (ht : AllDigits t) (hrest : ∀ c ∈ rest.head?, c.isDigit = false) :
    (t ++ rest).dropWhile Char.isDigit = rest := by
  rw [List.dropWhile_append_of_pos ht]
  cases rest with
  | nil => rfl
  | cons c rest => rw [List.dropWhile_cons_of_neg (by simp [hrest c rfl])]

end Digits
