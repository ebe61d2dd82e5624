import Mathlib
import SynnoDB.Router.Statement
import SynnoDB.Workload.ArgsLine

/-!
# Python's floats, decimals and dates

| here | there |
| --- | --- |
| `Finite.digits`, `PyFloat.repr` | `repr(float)`: the shortest decimal that is read as the float |
| `PyFloat.ofInt`                 | `float(int)`; `none` = `OverflowError` |
| `Dec`                           | `decimal.Decimal`, finite; the sign of a zero is not kept |
| `Dec.round`, `Dec.steps`        | the default context: 28 digits, half to even |
| `ordToDate`, `isoformat`, `fromisoformat` | `datetime.date` by its ordinal |

A result of the context is exact iff its value has a coefficient of 28 digits (`Dec.value_round`).
-/

namespace SynnoDB.Workload.PyNumbers

open Router (decRound decimalPrec roundDigits roundHalfEven)

/-! ## Floats -/

/-- `± m · 2 ^ k`, with all 53 bits in use unless the exponent is the smallest one. -/
structure Finite where
  neg : Bool
  m : Nat
  k : Int
  bits : m < 2 ^ 53
  range : -1074 ≤ k ∧ k ≤ 971
  normal : 2 ^ 52 ≤ m ∨ k = -1074
  deriving DecidableEq

inductive PyFloat where
  | finite (f : Finite)
  | inf (neg : Bool)
  | nan
  deriving DecidableEq

namespace Finite

variable (f : Finite)

def num : Nat := f.m * 2 ^ f.k.toNat

def den : Nat := 2 ^ (-f.k).toNat

def value : ℚ := (if f.neg then -1 else 1) * f.num / f.den

/-- `x / y` lies between the midpoints to the neighbours; a midpoint is read as the even one. -/
def reads (x y : Nat) : Bool :=
  let lower := if f.m = 2 ^ 52 ∧ -1074 < f.k then 4 * f.m - 1 else 4 * f.m - 2
  let x' := x * 2 ^ (2 - f.k).toNat
  let y' := y * 2 ^ (f.k - 2).toNat
  if f.m % 2 = 0 then lower * y' ≤ x' ∧ x' ≤ (4 * f.m + 2) * y' else lower * y' < x' ∧ x' < (4 * f.m + 2) * y'

/-- Where the decimal point stands in the digits. -/
def point : Int := (Nat.log 10 (f.num * 10 ^ 400 / f.den) : Int) + 1 - 400

/-- The two decimals of `n` digits around the float; the one that is closer, if it is read as the float. -/
def candidate (n : Nat) : Option (Nat × Int) :=
  let e := f.point - n
  let x := f.num * 10 ^ (-e).toNat
  let y := f.den * 10 ^ e.toNat
  let c := x / y
  let r := x % y
  let below := f.reads (c * 10 ^ e.toNat) (10 ^ (-e).toNat)
  let above := f.reads ((c + 1) * 10 ^ e.toNat) (10 ^ (-e).toNat)
  if below ∧ (¬above ∨ 2 * r < y ∨ 2 * r = y ∧ c % 2 = 0) then some (c, e) else if above then some (c + 1, e) else none

def stripZeros : Nat → Nat × Int → Nat × Int
  | 0, d => d
  | n + 1, (c, e) => if c % 10 = 0 then stripZeros n (c / 10, e + 1) else (c, e)

/-- Coefficient and exponent of the shortest decimal; 17 digits are always enough. -/
def digits : Nat × Int :=
  if f.m = 0 then (0, 0) else stripZeros 20 (((List.range 17).findSome? fun i => f.candidate (i + 1)).getD (0, 0))

end Finite

def zeros (n : Nat) : Text := List.replicate n '0'

def natText (n : Nat) : Text := Nat.toDigits 10 n

def intText (n : Int) : Text := if n < 0 then '-' :: natText n.natAbs else natText n.natAbs

/-- Format code `r` of the digits of a float. -/
def reprDigits (c : Nat) (e : Int) : Text :=
  let ds := natText c
  let point : Int := ds.length + e
  if -4 < point ∧ point ≤ 16 then
    if point ≤ 0 then '0' :: '.' :: (zeros (-point).toNat ++ ds)
    else if (ds.length : Int) ≤ point then ds ++ (zeros (point - ds.length).toNat ++ ['.', '0'])
    else ds.take point.toNat ++ '.' :: ds.drop point.toNat
  else
    let x := point - 1
    let mantissa := if ds.length = 1 then ds else ds.take 1 ++ '.' :: ds.drop 1
    let exponent := natText x.natAbs
    mantissa ++ 'e' :: (if x < 0 then '-' else '+') :: (if exponent.length < 2 then '0' :: exponent else exponent)

def PyFloat.repr : PyFloat → Text
  | .finite f => (if f.neg then ['-'] else []) ++ reprDigits f.digits.1 f.digits.2
  | .inf neg => if neg then "-inf".toList else "inf".toList
  | .nan => "nan".toList

theorem roundHalfEven_bounds (n d : Nat) : n / d ≤ roundHalfEven n d ∧ roundHalfEven n d ≤ n / d + 1 := by
  unfold roundHalfEven
  split <;> omega

theorem ofInt_small {m : Nat} (hm : m ≠ 0) (h : Nat.log 2 m ≤ 52) :
    m * 2 ^ (52 - Nat.log 2 m) < 2 ^ 53 ∧ 2 ^ 52 ≤ m * 2 ^ (52 - Nat.log 2 m) := by
  have hlow := Nat.pow_log_le_self 2 hm
  have hhigh := Nat.lt_pow_succ_log_self (show 1 < 2 by decide) m
  have hadd : 2 ^ Nat.log 2 m * 2 ^ (52 - Nat.log 2 m) = 2 ^ 52 := by
    rw [← Nat.pow_add]
    congr 1
    omega
  have hpos : 0 < 2 ^ (52 - Nat.log 2 m) := Nat.pow_pos (by decide)
  constructor
  · calc m * 2 ^ (52 - Nat.log 2 m) < 2 ^ (Nat.log 2 m + 1) * 2 ^ (52 - Nat.log 2 m) :=
      Nat.mul_lt_mul_of_pos_right hhigh hpos
      _ = 2 ^ 53 := by
        rw [Nat.pow_succ, Nat.mul_right_comm, hadd]
        rfl
  · rw [← hadd]
    exact Nat.mul_le_mul_right _ hlow

theorem ofInt_large {m : Nat} (hm : m ≠ 0) (h : 52 < Nat.log 2 m)
    (hne : roundHalfEven m (2 ^ (Nat.log 2 m - 52)) ≠ 2 ^ 53) :
    roundHalfEven m (2 ^ (Nat.log 2 m - 52)) < 2 ^ 53 ∧ 2 ^ 52 ≤ roundHalfEven m (2 ^ (Nat.log 2 m - 52)) := by
  have hlow := Nat.pow_log_le_self 2 hm
  have hhigh := Nat.lt_pow_succ_log_self (show 1 < 2 by decide) m
  have hpos : 0 < 2 ^ (Nat.log 2 m - 52) := Nat.pow_pos (by decide)
  have hquot : 2 ^ 52 ≤ m / 2 ^ (Nat.log 2 m - 52) ∧ m / 2 ^ (Nat.log 2 m - 52) < 2 ^ 53 := by
    rw [Nat.le_div_iff_mul_le hpos, Nat.div_lt_iff_lt_mul hpos, ← Nat.pow_add, ← Nat.pow_add,
      show 52 + (Nat.log 2 m - 52) = Nat.log 2 m by omega, show 53 + (Nat.log 2 m - 52) = Nat.log 2 m + 1 by omega]
    exact ⟨hlow, hhigh⟩
  have hround := roundHalfEven_bounds m (2 ^ (Nat.log 2 m - 52))
  omega

/-- `float(n)`. -/
def PyFloat.ofInt (n : Int) : Option PyFloat :=
  if hm : n.natAbs = 0 then some (.finite ⟨false, 0, -1074, by decide, by decide, .inr rfl⟩)
  else if h : Nat.log 2 n.natAbs ≤ 52 then
    some (.finite ⟨n < 0, n.natAbs * 2 ^ (52 - Nat.log 2 n.natAbs), Nat.log 2 n.natAbs - 52, (ofInt_small hm h).1, by omega,
      .inl (ofInt_small hm h).2⟩)
  else
    if hq : roundHalfEven n.natAbs (2 ^ (Nat.log 2 n.natAbs - 52)) = 2 ^ 53 then
      if hk : Nat.log 2 n.natAbs - 52 + 1 ≤ 971 then
        some (.finite ⟨n < 0, 2 ^ 52, (Nat.log 2 n.natAbs - 52 + 1 : Nat), by decide, by omega, .inl le_rfl⟩)
      else none
    else
      if hk : Nat.log 2 n.natAbs - 52 ≤ 971 then
        some (.finite ⟨n < 0, roundHalfEven n.natAbs (2 ^ (Nat.log 2 n.natAbs - 52)), (Nat.log 2 n.natAbs - 52 : Nat),
          (ofInt_large hm (by omega) hq).1, by omega, .inl (ofInt_large hm (by omega) hq).2⟩)
      else none

/-! ## Decimals -/

structure Dec where
  coeff : Int
  exp : Int
  deriving DecidableEq, Repr

namespace Dec

def value (d : Dec) : ℚ := d.coeff * (10 : ℚ) ^ d.exp

/-- Rounded to the context. -/
def round (d : Dec) : Dec :=
  if d.coeff.natAbs < decimalPrec then d
  else ⟨d.coeff.sign * (roundDigits d.coeff.natAbs).1, d.exp + (roundDigits d.coeff.natAbs).2⟩

/-- The coefficient at an exponent that is not larger. -/
def atExp (d : Dec) (e : Int) : Int := d.coeff * 10 ^ (d.exp - e).toNat

def add (a b : Dec) : Dec := round ⟨a.atExp (min a.exp b.exp) + b.atExp (min a.exp b.exp), min a.exp b.exp⟩

def sub (a b : Dec) : Dec := round ⟨a.atExp (min a.exp b.exp) - b.atExp (min a.exp b.exp), min a.exp b.exp⟩

/-- `d * n` for an int. -/
def mulInt (d : Dec) (n : Int) : Dec := round ⟨d.coeff * n, d.exp⟩

/-- The integral part of `x / y`, rounded to 28 digits: the quotient is between `10 ^ l` and `10 ^ (l + 1)`. -/
def quotient (x y : Nat) : Nat :=
  let m := Nat.log 10 y + 1
  let l : Int := (Nat.log 10 (x * 10 ^ m / y) : Int) - m
  let k := l - 27
  roundHalfEven (x * 10 ^ (-k).toNat) (y * 10 ^ k.toNat) * 10 ^ k.toNat / 10 ^ (-k).toNat

/-- `int(a / b)` for `0 <= a` and `0 < b`. -/
def steps (a b : Dec) : Nat :=
  let e := min a.exp b.exp
  if a.coeff = 0 then 0 else quotient (a.atExp e).toNat (b.atExp e).toNat

/-- `format(d, "f")`. -/
def format (d : Dec) : Text :=
  let ds := natText d.coeff.natAbs
  let body :=
    if 0 ≤ d.exp then if d.coeff = 0 then ['0'] else ds ++ zeros d.exp.toNat
    else
      let places := (-d.exp).toNat
      let full := zeros (places + 1 - ds.length) ++ ds
      full.take (full.length - places) ++ '.' :: full.drop (full.length - places)
  if d.coeff < 0 then '-' :: body else body

end Dec

/-- `Decimal(str(f))`; `none` for an infinity or a NaN. -/
def PyFloat.decimal : PyFloat → Option Dec
  | .finite f =>
    let c := f.digits.1
    let e := f.digits.2
    let point : Int := (natText c).length + e
    let sign : Int := if f.neg then -1 else 1
    -- a float that is printed without an exponent has a digit after the point
    if 0 ≤ e ∧ point ≤ 16 then some ⟨sign * (c * 10 ^ (e.toNat + 1) : Nat), -1⟩ else some ⟨sign * c, e⟩
  | _ => none

/-! ## What the context keeps -/

/-- A number of 28 digits. -/
def Fits (x : ℚ) : Prop := ∃ c e : ℤ, c.natAbs ≤ 10 ^ 28 ∧ x = c * (10 : ℚ) ^ e

theorem roundHalfEven_of_dvd {n d : Nat} (hd : 0 < d) (h : d ∣ n) : roundHalfEven n d = n / d := by
  rw [roundHalfEven, Nat.mod_eq_zero_of_dvd h, if_neg]
  omega

/-- Only zeros are dropped. -/
theorem roundDigits_exact {n c j : Nat} (hc : c ≤ 10 ^ 28) (hn : n = c * 10 ^ j) (hbig : 10 ^ 28 ≤ n) :
    (roundDigits n).1 * 10 ^ (roundDigits n).2 = n := by
  have hdvd : 10 ^ (Nat.log 10 n + 1 - 28) ∣ n := by
    rcases Nat.lt_or_eq_of_le hc with hlt | heq
    · have hlog : Nat.log 10 n < 28 + j := by
        refine Nat.log_lt_of_lt_pow (by omega) ?_
        rw [hn, Nat.pow_add]
        exact Nat.mul_lt_mul_of_pos_right hlt (Nat.pow_pos (by decide))
      have hdvd : 10 ^ j ∣ n := ⟨c, by rw [hn, Nat.mul_comm]⟩
      exact (Nat.pow_dvd_pow 10 (by omega)).trans hdvd
    · have hpow : n = 10 ^ (28 + j) := by rw [hn, heq, Nat.pow_add]
      rw [hpow, Nat.log_pow (by decide)]
      exact Nat.pow_dvd_pow 10 (by omega)
  have hexact := roundHalfEven_of_dvd (Nat.pow_pos (by decide)) hdvd
  have hback := Nat.div_mul_cancel hdvd
  rw [roundDigits, hexact]
  by_cases hq : n / 10 ^ (Nat.log 10 n + 1 - 28) = decimalPrec
  · rw [if_pos hq]
    calc 10 ^ 27 * 10 ^ (Nat.log 10 n + 1 - 28 + 1) = decimalPrec * 10 ^ (Nat.log 10 n + 1 - 28) := by
          rw [decimalPrec]
          ring
      _ = n := hq ▸ hback
  · rw [if_neg hq]
    exact hback

namespace Dec

/-- **A number of 28 digits is kept.** -/
theorem value_round {d : Dec} (h : Fits d.value) : d.round.value = d.value := by
  rw [round]
  by_cases hsmall : d.coeff.natAbs < decimalPrec
  · rw [if_pos hsmall]
  obtain ⟨c, e, hc, heq⟩ := h
  have hten : (10 : ℚ) ≠ 0 := by norm_num
  have hbig : 10 ^ 28 ≤ d.coeff.natAbs := Nat.le_of_not_lt hsmall
  have hshift : (d.coeff : ℚ) = c * (10 : ℚ) ^ (e - d.exp) := by
    rw [zpow_sub₀ hten, ← mul_div_assoc, ← heq, value, mul_div_assoc, div_self (zpow_ne_zero _ hten), mul_one]
  obtain ⟨j, hj⟩ : ∃ j : Nat, e - d.exp = j := by
    refine Int.eq_ofNat_of_zero_le (Int.le_of_not_gt fun hneg => ?_)
    -- otherwise the coefficient would have more digits, not fewer
    obtain ⟨i, hi⟩ := Int.eq_ofNat_of_zero_le (show 0 ≤ d.exp - e - 1 by omega)
    have hcoeff : c = d.coeff * 10 ^ (i + 1) := by
      have : (c : ℚ) = d.coeff * (10 : ℚ) ^ (i + 1 : Nat) := by
        rw [hshift, show e - d.exp = -((i + 1 : Nat) : ℤ) by omega, zpow_neg, zpow_natCast, mul_assoc,
          inv_mul_cancel₀ (pow_ne_zero _ hten), mul_one]
      exact_mod_cast this
    rw [hcoeff, Int.natAbs_mul, Int.natAbs_pow, Nat.pow_succ] at hc
    have hpos : 0 < (10 : ℤ).natAbs ^ i := Nat.pow_pos (by decide)
    have hle : d.coeff.natAbs * (1 * 10) ≤ d.coeff.natAbs * ((10 : ℤ).natAbs ^ i * (10 : ℤ).natAbs) :=
      Nat.mul_le_mul_left _ (Nat.mul_le_mul_right 10 hpos)
    omega
  have hnat : d.coeff.natAbs = c.natAbs * 10 ^ j := by
    rw [hj, zpow_natCast] at hshift
    have : d.coeff = c * 10 ^ j := by exact_mod_cast hshift
    rw [this, Int.natAbs_mul, Int.natAbs_pow]
    rfl
  have hexact := roundDigits_exact hc hnat hbig
  rw [if_neg hsmall, value, value]
  dsimp only
  rw [zpow_add₀ hten, zpow_natCast]
  conv_rhs => rw [← Int.sign_mul_natAbs d.coeff, ← hexact]
  push_cast
  ring

theorem value_atExp {d : Dec} {e : Int} (h : e ≤ d.exp) : (d.atExp e : ℚ) * (10 : ℚ) ^ e = d.value := by
  obtain ⟨i, hi⟩ := Int.eq_ofNat_of_zero_le (show 0 ≤ d.exp - e by omega)
  rw [atExp, value, hi, Int.toNat_natCast]
  push_cast
  rw [mul_assoc, ← zpow_natCast, ← zpow_add₀ (by norm_num), ← hi, Int.sub_add_cancel]

theorem value_add {a b : Dec} (h : Fits (a.value + b.value)) : (a.add b).value = a.value + b.value := by
  have hsum : value ⟨a.atExp (min a.exp b.exp) + b.atExp (min a.exp b.exp), min a.exp b.exp⟩ = a.value + b.value := by
    rw [value]
    push_cast
    rw [add_mul, value_atExp (min_le_left _ _), value_atExp (min_le_right _ _)]
  rw [add, value_round (hsum ▸ h), hsum]

theorem value_sub {a b : Dec} (h : Fits (a.value - b.value)) : (a.sub b).value = a.value - b.value := by
  have hdiff : value ⟨a.atExp (min a.exp b.exp) - b.atExp (min a.exp b.exp), min a.exp b.exp⟩ = a.value - b.value := by
    rw [value]
    push_cast
    rw [sub_mul, value_atExp (min_le_left _ _), value_atExp (min_le_right _ _)]
  rw [sub, value_round (hdiff ▸ h), hdiff]

theorem value_mulInt {d : Dec} {n : Int} (h : Fits (n * d.value)) : (d.mulInt n).value = n * d.value := by
  have hprod : value ⟨d.coeff * n, d.exp⟩ = n * d.value := by
    rw [value, value]
    push_cast
    ring
  rw [mulInt, value_round (hprod ▸ h), hprod]

end Dec

theorem roundHalfEven_le {n d : Nat} : 2 * (roundHalfEven n d * d) ≤ 2 * n + d := by
  have hdiv := Nat.div_add_mod' n d
  rw [roundHalfEven]
  split
  · rename_i h
    rw [Nat.add_mul, Nat.one_mul]
    rcases h with h | ⟨h, -⟩ <;> omega
  · omega

/-- **The quotient is not rounded up** past an integer, if the dividend is not too long. -/
theorem quotient_le {x y : Nat} (hx : 0 < x) (hy : 0 < y) (hbound : x < 2 * 10 ^ 27) : Dec.quotient x y * y ≤ x := by
  rw [Dec.quotient]
  have hpos : 0 < 10 ^ (Nat.log 10 y + 1) := Nat.pow_pos (by decide)
  have hone : x * 10 ^ (Nat.log 10 y + 1) / y ≠ 0 := by
    have hy' := Nat.lt_pow_succ_log_self (show 1 < 10 by decide) y
    have hle : y ≤ x * 10 ^ (Nat.log 10 y + 1) := hy'.le.trans (Nat.le_mul_of_pos_left _ hx)
    exact (Nat.div_pos hle hy).ne'
  have hlog := (Nat.le_div_iff_mul_le hy).1 (Nat.pow_log_le_self 10 hone)
  generalize Nat.log 10 y + 1 = m at hpos hlog ⊢
  generalize Nat.log 10 (x * 10 ^ m / y) = l at hlog ⊢
  generalize hk : (l : Int) - m - 27 = k
  have hround := @roundHalfEven_le (x * 10 ^ (-k).toNat) (y * 10 ^ k.toNat)
  generalize roundHalfEven (x * 10 ^ (-k).toNat) (y * 10 ^ k.toNat) = r at hround ⊢
  have hfloor := Nat.div_mul_le_self (r * 10 ^ k.toNat) (10 ^ (-k).toNat)
  generalize r * 10 ^ k.toNat / 10 ^ (-k).toNat = q at hfloor ⊢
  have hapos : 0 < 10 ^ (-k).toNat := Nat.pow_pos (by decide)
  -- the unit of the last digit is less than twice the divisor's unit
  have hunit : y * 10 ^ k.toNat < 2 * 10 ^ (-k).toNat := by
    have hscale : y * 10 ^ k.toNat * 10 ^ 27 ≤ x * 10 ^ (-k).toNat := by
      refine Nat.le_of_mul_le_mul_left ?_ hpos
      calc 10 ^ m * (y * 10 ^ k.toNat * 10 ^ 27) = y * 10 ^ (m + k.toNat + 27) := by ring
        _ = y * 10 ^ (l + (-k).toNat) := by rw [show m + k.toNat + 27 = l + (-k).toNat by omega]
        _ = 10 ^ l * y * 10 ^ (-k).toNat := by ring
        _ ≤ x * 10 ^ m * 10 ^ (-k).toNat := Nat.mul_le_mul_right _ hlog
        _ = 10 ^ m * (x * 10 ^ (-k).toNat) := by ring
    have hlt : x * 10 ^ (-k).toNat < 2 * 10 ^ 27 * 10 ^ (-k).toNat := Nat.mul_lt_mul_of_pos_right hbound hapos
    refine Nat.lt_of_mul_lt_mul_right (a := 10 ^ 27) ?_
    calc y * 10 ^ k.toNat * 10 ^ 27 < 2 * 10 ^ 27 * 10 ^ (-k).toNat := hscale.trans_lt hlt
      _ = 2 * 10 ^ (-k).toNat * 10 ^ 27 := by ring
  by_contra hgt
  have hmore : (x + 1) * 10 ^ (-k).toNat ≤ q * y * 10 ^ (-k).toNat := Nat.mul_le_mul_right _ (by omega)
  have hless : q * y * 10 ^ (-k).toNat ≤ r * (y * 10 ^ k.toNat) := by
    calc q * y * 10 ^ (-k).toNat = q * 10 ^ (-k).toNat * y := by ring
      _ ≤ r * 10 ^ k.toNat * y := Nat.mul_le_mul_right _ hfloor
      _ = r * (y * 10 ^ k.toNat) := by ring
  rw [Nat.add_mul, Nat.one_mul] at hmore
  omega

/-! ## Dates -/

def isLeap (y : Nat) : Bool := y % 4 = 0 ∧ (y % 100 ≠ 0 ∨ y % 400 = 0)

def daysInMonth (y m : Nat) : Nat := ([31, if isLeap y then 29 else 28, 31, 30, 31, 30, 31, 31, 30, 31, 30, 31][m - 1]?).getD 0

def daysBeforeYear (y : Nat) : Nat := (y - 1) * 365 + (y - 1) / 4 - (y - 1) / 100 + (y - 1) / 400

def daysBeforeMonth (y m : Nat) : Nat := ((List.range (m - 1)).map fun i => daysInMonth y (i + 1)).sum

/-- The ordinal of a date, if there is one. -/
def dateToOrd (y m d : Nat) : Option Nat :=
  if 1 ≤ y ∧ y ≤ 9999 ∧ 1 ≤ m ∧ m ≤ 12 ∧ 1 ≤ d ∧ d ≤ daysInMonth y m then some (daysBeforeYear y + daysBeforeMonth y m + d) else none

/-- `_ord2ymd`. -/
def ordToDate (ord : Nat) : Nat × Nat × Nat :=
  let n := ord - 1
  let n400 := n / 146097
  let n := n % 146097
  let n100 := n / 36524
  let n := n % 36524
  let n4 := n / 1461
  let n := n % 1461
  let n1 := n / 365
  let n := n % 365
  let year := n400 * 400 + 1 + n100 * 100 + n4 * 4 + n1
  if n1 = 4 ∨ n100 = 4 then (year - 1, 12, 31)
  else
    let month := (n + 50) / 32
    let month := if n < daysBeforeMonth year month then month - 1 else month
    (year, month, n - daysBeforeMonth year month + 1)

def padded (width n : Nat) : Text := zeros (width - (natText n).length) ++ natText n

def isoformat (ord : Nat) : Text :=
  let (y, m, d) := ordToDate ord
  padded 4 y ++ '-' :: (padded 2 m ++ '-' :: padded 2 d)

def digitsToNat (s : Text) : Option Nat :=
  if s.all fun c => '0' ≤ c && c ≤ '9' then some (s.foldl (fun n c => 10 * n + (c.toNat - 48)) 0) else none

/-- Day `d` of week `w` of an ISO year; week 1 has the year's first Thursday. -/
def isoWeekToOrd (y w d : Nat) : Option Nat :=
  let first := daysBeforeYear y + 1
  let weekday := (first + 6) % 7
  let long := weekday = 3 ∨ weekday = 2 ∧ isLeap y
  if 1 ≤ y ∧ y ≤ 9999 ∧ 1 ≤ w ∧ (w ≤ 52 ∨ w = 53 ∧ long) ∧ 1 ≤ d ∧ d ≤ 7 then
    let monday := if weekday > 3 then first + 7 - weekday else first - weekday
    let ord := monday + (w - 1) * 7 + (d - 1)
    if 1 ≤ ord ∧ ord ≤ 3652059 then some ord else none
  else none

/-- `date.fromisoformat`: `YYYY-MM-DD`, `YYYYMMDD`, `YYYY-Www-D`, `YYYYWwwD` and the last two without a day. -/
def fromisoformat (s : Text) : Option Nat :=
  match s with
  | [a, b, c, d, '-', 'W', e, f] => do isoWeekToOrd (← digitsToNat [a, b, c, d]) (← digitsToNat [e, f]) 1
  | [a, b, c, d, '-', 'W', e, f, '-', g] => do isoWeekToOrd (← digitsToNat [a, b, c, d]) (← digitsToNat [e, f]) (← digitsToNat [g])
  | [a, b, c, d, 'W', e, f] => do isoWeekToOrd (← digitsToNat [a, b, c, d]) (← digitsToNat [e, f]) 1
  | [a, b, c, d, 'W', e, f, g] => do isoWeekToOrd (← digitsToNat [a, b, c, d]) (← digitsToNat [e, f]) (← digitsToNat [g])
  | [a, b, c, d, '-', e, f, '-', g, h] => do dateToOrd (← digitsToNat [a, b, c, d]) (← digitsToNat [e, f]) (← digitsToNat [g, h])
  | [a, b, c, d, e, f, g, h] => do dateToOrd (← digitsToNat [a, b, c, d]) (← digitsToNat [e, f]) (← digitsToNat [g, h])
  | _ => none

end SynnoDB.Workload.PyNumbers
