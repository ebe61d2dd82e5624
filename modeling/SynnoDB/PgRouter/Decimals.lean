import Mathlib.Data.Rat.Cast.Order
import SynnoDB.Lib.Digits

/-!
# `decimal.Decimal` and its texts

| here | there |
| --- | --- |
| `Decimal`           | the fields `_sign`, `_int`, `_exp` of a decimal |
| `Decimal.ofText`    | `Decimal(text)` (ASCII, no underscores, no payload of a NaN) |
| `Decimal.str`       | `str(d)` |
| `plainText n k`     | `n` units of the `k`-th digit behind the point, without an exponent |

**A decimal is read back from what `str` prints** (`ofText_str`), and `str` prints the plain text iff
the number is not too small (`str_plain`, `str_ne_plain`).
-/

namespace SynnoDB.PgRouter.NumericText

open Digits

abbrev Text := Digits.Text

/-! ## `decimal.Decimal` -/

/-- `_sign`, `_int`, `_exp`. -/
inductive Decimal where
  | finite (sign : Bool) (int : Nat) (exp : Int)
  | infinity (sign : Bool)
  | nan
deriving DecidableEq, Repr

def signText (sign : Bool) : Text := if sign then ['-'] else []

namespace Decimal

def readSign : Text → Bool × Text
  | '-' :: t => (true, t)
  | '+' :: t => (false, t)
  | t => (false, t)

def readExp : Text → Option Int
  | [] => some 0
  | e :: t =>
    let (neg, ds) := readSign t
    if (e = 'E' ∨ e = 'e') ∧ ds ≠ [] ∧ AllDigits ds then some (if neg then -(value ds : Int) else value ds) else none

def readFrac : Text → Text × Text
  | '.' :: t => (t.takeWhile Char.isDigit, t.dropWhile Char.isDigit)
  | t => ([], t)

/-- `Decimal(text)`; `none` is `InvalidOperation`. -/
def ofText (text : Text) : Option Decimal :=
  let (sign, t) := readSign text
  let whole := t.takeWhile Char.isDigit
  let (frac, t') := readFrac (t.dropWhile Char.isDigit)
  if whole = [] ∧ frac = [] then
    if t.map Char.toLower = "nan".toList then some .nan
    else if t.map Char.toLower = "inf".toList ∨ t.map Char.toLower = "infinity".toList then some (.infinity sign)
    else none
  else
    match readExp t' with
    | none => none
    | some e => some (.finite sign (value (whole ++ frac)) (e - frac.length))

/-- The digits before the point, if the number is written without an exponent. -/
def leftDigits (int : Nat) (exp : Int) : Int := exp + (Nat.toDigits 10 int).length

def mantissa (digits : Text) (dotplace : Int) : Text :=
  if dotplace ≤ 0 then '0' :: '.' :: (zeros (-dotplace).toNat ++ digits)
  else if (digits.length : Int) ≤ dotplace then digits ++ zeros (dotplace - digits.length).toNat
  else digits.take dotplace.toNat ++ '.' :: digits.drop dotplace.toNat

def expText (e : Int) : Text :=
  if e = 0 then [] else 'E' :: (if e < 0 then '-' else '+') :: Nat.toDigits 10 e.natAbs

/-- `str(d)`. -/
def str : Decimal → Text
  | .nan => "NaN".toList
  | .infinity sign => signText sign ++ "Infinity".toList
  | .finite sign int exp =>
    let left := leftDigits int exp
    let dotplace := if exp ≤ 0 ∧ -6 < left then left else 1
    signText sign ++ mantissa (Nat.toDigits 10 int) dotplace ++ expText (left - dotplace)

end Decimal

/-- `n` units of the `k`-th digit behind the point. -/
def plainText (n k : Nat) : Text :=
  Nat.toDigits 10 (n / 10 ^ k) ++ (if k = 0 then [] else '.' :: zfill k (Nat.toDigits 10 (n % 10 ^ k)))

/-- The decimals are one number, with one sign. -/
def Decimal.Same : Decimal → Decimal → Prop
  | .finite s n e, .finite s' n' e' => s = s' ∧ (n : ℚ) * 10 ^ e = n' * (10 : ℚ) ^ e'
  | .infinity s, .infinity s' => s = s'
  | .nan, .nan => True
  | _, _ => False

/-- The texts are read as one number. -/
def SameValue (a b : Text) : Prop := ∃ d e, Decimal.ofText a = some d ∧ Decimal.ofText b = some e ∧ d.Same e

/-! ## Reading the text again -/

/-- A number written out: sign, digits, maybe a point and digits, maybe an exponent. -/
def numeral (sign : Bool) (whole : Text) (frac : Option Text) (e : Int) : Text :=
  signText sign ++ (whole ++ (frac.elim [] ('.' :: ·) ++ Decimal.expText e))

theorem readSign_digits {c : Char} {t : Text} (hc : c.isDigit = true) :
    Decimal.readSign (c :: t) = (false, c :: t) := by
  unfold Decimal.readSign
  split
  · rename_i h
    rw [(List.cons.inj h).1] at hc
    exact absurd hc (by decide)
  · rename_i h
    rw [(List.cons.inj h).1] at hc
    exact absurd hc (by decide)
  · rfl

theorem readExp_expText (e : Int) : Decimal.readExp (Decimal.expText e) = some e := by
  unfold Decimal.expText
  by_cases h0 : e = 0
  · rw [if_pos h0, h0]
    rfl
  · rw [if_neg h0, Decimal.readExp]
    by_cases hneg : e < 0
    · have habs : ((e.natAbs : Nat) : Int) = -e := by omega
      simp only [if_pos hneg, Decimal.readSign, value_toDigits, habs, neg_neg, if_true]
      rw [if_pos ⟨.inl trivial, Nat.toDigits_ne_nil, allDigits_toDigits _⟩]
    · have habs : ((e.natAbs : Nat) : Int) = e := by omega
      simp only [if_neg hneg, Decimal.readSign, value_toDigits, habs]
      rw [if_pos ⟨.inl trivial, Nat.toDigits_ne_nil, allDigits_toDigits _⟩]
      rfl

theorem expText_head (e : Int) : ∀ c ∈ (Decimal.expText e).head?, c = 'E' := by
  unfold Decimal.expText
  split
  · simp
  · simp

/-- **A numeral is read as the number it is written from.** -/
theorem ofText_numeral {sign : Bool} {whole : Text} {frac : Option Text} (e : Int) (hwhole : AllDigits whole)
    (hne : whole ≠ []) (hfrac : ∀ f ∈ frac, AllDigits f) :
    Decimal.ofText (numeral sign whole frac e) =
      some (.finite sign (value (whole ++ frac.getD [])) (e - (frac.getD []).length)) := by
  obtain ⟨c, rest, rfl⟩ := List.exists_cons_of_ne_nil hne
  have hc := hwhole c (List.mem_cons_self ..)
  have hsign : Decimal.readSign (numeral sign (c :: rest) frac e) =
      (sign, c :: rest ++ (frac.elim [] ('.' :: ·) ++ Decimal.expText e)) := by
    cases sign with
    | true => rfl
    | false => exact readSign_digits hc
  have hstops : ∀ d ∈ (frac.elim [] ('.' :: ·) ++ Decimal.expText e).head?, d.isDigit = false := by
    cases frac with
    | some f =>
      intro d hd
      obtain rfl : '.' = d := Option.some.inj hd
      decide
    | none =>
      intro d hd
      rw [expText_head e d hd]
      decide
  have hread : Decimal.readFrac (frac.elim [] ('.' :: ·) ++ Decimal.expText e) = (frac.getD [], Decimal.expText e) := by
    cases frac with
    | some f =>
      have hf := hfrac f rfl
      have hend : ∀ d ∈ (Decimal.expText e).head?, d.isDigit = false := fun d hd => by
        rw [expText_head e d hd]
        decide
      show ((f ++ Decimal.expText e).takeWhile Char.isDigit, (f ++ Decimal.expText e).dropWhile Char.isDigit) = _
      rw [takeWhile_digits hf hend, dropWhile_digits hf hend]
      rfl
    | none =>
      show Decimal.readFrac (Decimal.expText e) = ([], Decimal.expText e)
      unfold Decimal.readFrac
      split
      · rename_i t h
        have := expText_head e '.' (by rw [h]; rfl)
        exact absurd this (by decide)
      · rfl
  rw [Decimal.ofText, hsign]
  simp only [takeWhile_digits hwhole hstops, dropWhile_digits hwhole hstops, hread, readExp_expText]
  rw [if_neg fun h => List.cons_ne_nil _ _ h.1]

theorem length_toDigits_mod {n k : Nat} (hk : 0 < k) : (zfill k (Nat.toDigits 10 (n % 10 ^ k))).length = k := by
  have hle := (Nat.length_toDigits_le_iff (b := 10) (by decide) hk).2 (Nat.mod_lt n (Nat.pow_pos (by decide : 0 < 10)))
  rw [length_zfill, Nat.max_eq_left hle]

theorem plain_numeral (sign : Bool) (n k : Nat) :
    signText sign ++ plainText n k = numeral sign (Nat.toDigits 10 (n / 10 ^ k))
      (if k = 0 then none else some (zfill k (Nat.toDigits 10 (n % 10 ^ k)))) 0 := by
  unfold plainText numeral
  by_cases hk : k = 0
  · rw [if_pos hk, if_pos hk]
    rfl
  · rw [if_neg hk, if_neg hk, Option.elim_some, show Decimal.expText 0 = [] from rfl, List.append_nil]

theorem ofText_plain (sign : Bool) (n k : Nat) :
    Decimal.ofText (signText sign ++ plainText n k) = some (.finite sign n (-k)) := by
  rw [plain_numeral, ofText_numeral _ (allDigits_toDigits _) Nat.toDigits_ne_nil]
  · by_cases hk : k = 0
    · subst hk
      simp
    · have hlen := length_toDigits_mod (n := n) (Nat.pos_of_ne_zero hk)
      have hdiv := Nat.div_add_mod' n (10 ^ k)
      rw [if_neg hk, Option.getD_some, value_append, hlen, value_zfill, value_toDigits, value_toDigits, hdiv, zero_sub]
  · intro f hf
    split at hf
    · cases hf
    · rw [← Option.some.inj hf]
      exact allDigits_zfill (allDigits_toDigits _)

/-! ## `str` of a decimal -/

theorem toDigits_take {n k : Nat} (hk : k < (Nat.toDigits 10 n).length) :
    (Nat.toDigits 10 n).take ((Nat.toDigits 10 n).length - k) = Nat.toDigits 10 (n / 10 ^ k) ∧
      value ((Nat.toDigits 10 n).drop ((Nat.toDigits 10 n).length - k)) = n % 10 ^ k := by
  obtain ⟨L, hL⟩ : ∃ L, L = (Nat.toDigits 10 n).length := ⟨_, rfl⟩
  rw [← hL] at hk ⊢
  have hall := allDigits_toDigits n
  have htake : AllDigits ((Nat.toDigits 10 n).take (L - k)) := fun c hc => hall c (List.mem_of_mem_take hc)
  have hdrop : AllDigits ((Nat.toDigits 10 n).drop (L - k)) := fun c hc => hall c (List.mem_of_mem_drop hc)
  have hdroplen : ((Nat.toDigits 10 n).drop (L - k)).length = k := by
    rw [List.length_drop, ← hL]
    omega
  have hsum : value ((Nat.toDigits 10 n).take (L - k)) * 10 ^ k + value ((Nat.toDigits 10 n).drop (L - k)) = n := by
    conv_rhs => rw [← value_toDigits n, ← List.take_append_drop (L - k) (Nat.toDigits 10 n), value_append, hdroplen]
  have hlt : value ((Nat.toDigits 10 n).drop (L - k)) < 10 ^ k := by
    have hlt := value_lt hdrop
    rwa [hdroplen] at hlt
  have hpos : 0 < 10 ^ k := Nat.pow_pos (by decide)
  have hquot : value ((Nat.toDigits 10 n).take (L - k)) = n / 10 ^ k := by
    have h := congrArg (· / 10 ^ k) hsum
    simpa only [Nat.add_comm (_ * 10 ^ k), Nat.add_mul_div_right _ _ hpos, Nat.div_eq_of_lt hlt, Nat.zero_add] using h
  refine ⟨eq_of_value_eq htake (allDigits_toDigits _) ?_ (by rw [hquot, value_toDigits]), ?_⟩
  · have hiff {m : Nat} (hm : 0 < m) : (Nat.toDigits 10 (n / 10 ^ k)).length ≤ m ↔ L ≤ m + k := by
      rw [Nat.length_toDigits_le_iff (by decide) hm, Nat.div_lt_iff_lt_mul hpos, ← Nat.pow_add, hL,
        Nat.length_toDigits_le_iff (by decide) (by omega)]
    have hpositive := Nat.length_toDigits_pos (b := 10) (n := n / 10 ^ k)
    have hle := (hiff (m := L - k) (by omega)).2 (by omega)
    have hge : ¬ (Nat.toDigits 10 (n / 10 ^ k)).length < L - k := fun h => by
      have := (hiff (m := (Nat.toDigits 10 (n / 10 ^ k)).length) hpositive).1 le_rfl
      omega
    rw [List.length_take, ← hL]
    omega
  · have h := congrArg (· % 10 ^ k) hsum
    simpa only [Nat.add_comm (_ * 10 ^ k), Nat.add_mul_mod_self_right, Nat.mod_eq_of_lt hlt] using h

/-- A number that is not too small is printed as it stands. -/
theorem str_plain {n k : Nat} (sign : Bool) (h : -6 < Decimal.leftDigits n (-k)) :
    Decimal.str (.finite sign n (-k)) = signText sign ++ plainText n k := by
  have hleft : Decimal.leftDigits n (-k) = ((Nat.toDigits 10 n).length : Int) - k := by
    rw [Decimal.leftDigits]
    omega
  have hpos := Nat.length_toDigits_pos (b := 10) (n := n)
  rw [Decimal.str]
  simp only [if_pos (show (-(k : Int)) ≤ 0 ∧ -6 < Decimal.leftDigits n (-k) from ⟨by omega, h⟩), sub_self]
  rw [show Decimal.expText 0 = [] from rfl, List.append_nil, hleft]
  congr 1
  unfold Decimal.mantissa
  rcases Nat.lt_or_ge k (Nat.toDigits 10 n).length with hlt | hge
  · rw [if_neg (by omega)]
    obtain ⟨htake, hdrop⟩ := toDigits_take hlt
    by_cases hk : k = 0
    · subst hk
      rw [if_pos (by omega)]
      simp [plainText, zeros]
    · have hnat : (((Nat.toDigits 10 n).length : Int) - k).toNat = (Nat.toDigits 10 n).length - k := by omega
      have hall : AllDigits ((Nat.toDigits 10 n).drop ((Nat.toDigits 10 n).length - k)) :=
        fun c hc => allDigits_toDigits n c (List.mem_of_mem_drop hc)
      have hlen : ((Nat.toDigits 10 n).drop ((Nat.toDigits 10 n).length - k)).length = k := by
        rw [List.length_drop]
        omega
      have hback := zfill_toDigits hall fun h0 => by
        rw [h0] at hlen
        exact hk hlen.symm
      rw [hlen, hdrop] at hback
      rw [if_neg (by omega), hnat, htake, plainText, if_neg hk, hback]
  · have hsmall : n < 10 ^ k := (Nat.length_toDigits_le_iff (by decide) (by omega)).1 hge
    have hzeros : (-(((Nat.toDigits 10 n).length : Int) - k)).toNat = k - (Nat.toDigits 10 n).length := by omega
    rw [if_pos (by omega), plainText, Nat.div_eq_of_lt hsmall, Nat.mod_eq_of_lt hsmall, if_neg (by omega), hzeros]
    rfl

theorem str_scientific {n k : Nat} (sign : Bool) (h : Decimal.leftDigits n (-k) ≤ -6) :
    ∃ whole frac e, Decimal.str (.finite sign n (-k)) = numeral sign whole frac e ∧ e ≠ 0 ∧ AllDigits whole ∧
      whole ≠ [] ∧
      (∀ f ∈ frac, AllDigits f) ∧ value (whole ++ frac.getD []) = n ∧ e - (frac.getD []).length = -(k : Int) := by
  have hleft : Decimal.leftDigits n (-k) = ((Nat.toDigits 10 n).length : Int) - k := by
    rw [Decimal.leftDigits]
    omega
  have hpos := Nat.length_toDigits_pos (b := 10) (n := n)
  have hall := allDigits_toDigits n
  have hstr : Decimal.str (.finite sign n (-k)) = signText sign ++ Decimal.mantissa (Nat.toDigits 10 n) 1 ++
      Decimal.expText (((Nat.toDigits 10 n).length : Int) - k - 1) := by
    have hscale : ¬ ((-(k : Int)) ≤ 0 ∧ -6 < Decimal.leftDigits n (-k)) := by omega
    simp only [Decimal.str, if_neg hscale]
    rw [hleft]
  rw [hstr, List.append_assoc]
  by_cases hone : (Nat.toDigits 10 n).length = 1
  · refine ⟨Nat.toDigits 10 n, none, ((Nat.toDigits 10 n).length : Int) - k - 1, ?_, by omega, hall,
      Nat.toDigits_ne_nil, by simp, ?_, ?_⟩
    · rw [Decimal.mantissa, if_neg (by decide), if_pos (by omega), numeral, hone,
        show ((1 : Int) - ((1 : Nat) : Int)).toNat = 0 from rfl,
        show zeros 0 = [] from rfl, List.append_nil]
      rfl
    · simp
    · simp only [Option.getD_none, List.length_nil]
      omega
  · refine ⟨(Nat.toDigits 10 n).take 1, some ((Nat.toDigits 10 n).drop 1), ((Nat.toDigits 10 n).length : Int) - k - 1,
      ?_, by omega, ?_, ?_, ?_, ?_, ?_⟩
    · rw [Decimal.mantissa, if_neg (by decide), if_neg (by omega), numeral]
      simp
    · exact fun c hc => hall c (List.mem_of_mem_take hc)
    · intro h0
      have := congrArg List.length h0
      rw [List.length_take] at this
      simp only [List.length_nil] at this
      omega
    · intro f hf
      rw [← Option.some.inj hf]
      exact fun c hc => hall c (List.mem_of_mem_drop hc)
    · rw [Option.getD_some, List.take_append_drop, value_toDigits]
    · rw [Option.getD_some, List.length_drop]
      omega

/-- A number is read back from what `str` prints, with or without an exponent. -/
theorem ofText_str (sign : Bool) (n k : Nat) :
    Decimal.ofText (Decimal.str (.finite sign n (-k))) = some (.finite sign n (-k)) := by
  rcases lt_or_ge (-6) (Decimal.leftDigits n (-k)) with hplain | hsci
  · rw [str_plain sign hplain, ofText_plain]
  · obtain ⟨whole, frac, e, hstr, -, hwhole, hne, hfrac, hvalue, hexp⟩ := str_scientific sign hsci
    rw [hstr, ofText_numeral e hwhole hne hfrac, hvalue, hexp]

/-- An exponent is never what the plain text has. -/
theorem str_ne_plain {n k : Nat} (sign : Bool) (h : Decimal.leftDigits n (-k) ≤ -6) :
    Decimal.str (.finite sign n (-k)) ≠ signText sign ++ plainText n k := by
  obtain ⟨whole, frac, e, hstr, he, -⟩ := str_scientific sign h
  intro heq
  have hin : 'E' ∈ signText sign ++ plainText n k := by
    rw [← heq, hstr, numeral, Decimal.expText, if_neg he]
    simp
  have hdigit (m : Nat) : 'E' ∉ Nat.toDigits 10 m := fun hm => absurd (allDigits_toDigits m _ hm) (by decide)
  have hzfill (m : Nat) : 'E' ∉ zfill k (Nat.toDigits 10 m) :=
    fun hm => absurd (allDigits_zfill (allDigits_toDigits m) _ hm) (by decide)
  have hsign : 'E' ∉ signText sign := by cases sign <;> decide
  rw [plainText, List.mem_append, List.mem_append] at hin
  rcases hin with hin | hin | hin
  · exact hsign hin
  · exact hdigit _ hin
  · split at hin
    · cases hin
    · rcases List.mem_cons.1 hin with hin | hin
      · exact absurd hin (by decide)
      · exact hzfill _ hin

end SynnoDB.PgRouter.NumericText
