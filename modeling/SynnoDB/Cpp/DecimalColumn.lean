import SynnoDB.Lib.Digits
import SynnoDB.Ssd.IntegerColumn

/-!
# Decimal columns out and in (`cpp_helpers/column_egress.hpp:112-136`, `:223-268`,
`cpp_helpers/column_ingest.hpp:83-106`, `:198-235`)

| here | there |
| --- | --- |
| `Int128`            | `__int128` by its bits; `u < v` is that of `unsigned __int128` |
| `Stop.overflow`     | a signed operation leaves the range of `__int128`: the program has no meaning |
| `Decimal128`, `Decimal256` | the words Arrow stores, least significant first |
| `Array`             | an Arrow array of decimals by its rows; the builders take what is appended, in order |
| `decimalColumn`     | `decimal_column` |
| `scaledInteger`     | `scaled_integer<T>`, `T` by its sign and its bits |

**A column holds exactly the values, or throws because one does not fit** (`decimal_column_exact`); up
to 38 digits they are read back exactly.
-/

namespace SynnoDB.Cpp.DecimalColumn

open Ssd (Decimal128 decimalToCheckedInteger)

abbrev Int128 := BitVec 128

inductive Stop where
  | overflow
  | threw (what : String)
deriving DecidableEq

/-! ## The arithmetic -/

def mulInt128 (a b : Int128) : Except Stop Int128 := if a.smulOverflow b then .error .overflow else .ok (a * b)

def addInt128 (a b : Int128) : Except Stop Int128 := if a.saddOverflow b then .error .overflow else .ok (a + b)

def pow10Loop : Nat → Int128 → Except Stop Int128
  | 0, r => .ok r
  | n + 1, r => mulInt128 r 10 >>= pow10Loop n

/-- `pow10_i128`. -/
def pow10 (p : Nat) : Except Stop Int128 := pow10Loop p 1

/-- `abs_u128`: `~static_cast<unsigned __int128>(v) + 1`, unsigned, below zero. -/
def absU128 (v : Int128) : Int128 := if v.toInt < 0 then ~~~v + 1 else v

/-- The loop of `i128_to_string` on an unsigned word. -/
def digitsLoop (u : Int128) (s : List Char) : List Char :=
  if u.toNat = 0 then s else digitsLoop (u / 10) (Char.ofNat (48 + (u % 10).toNat) :: s)
termination_by u.toNat
decreasing_by
  rw [BitVec.toNat_udiv]
  exact Nat.div_lt_self (Nat.pos_of_ne_zero ‹_›) (by decide)

def i128ToString (v : Int128) : List Char :=
  if v.toInt = 0 then ['0'] else if v.toInt < 0 then '-' :: digitsLoop (absU128 v) [] else digitsLoop (absU128 v) []

/-! ## Decimals and arrays -/

/-- `arrow::Decimal128(static_cast<int64_t>(v >> 64), static_cast<uint64_t>(v))`. -/
def split (v : Int128) : Decimal128 := ⟨(v.sshiftRight 64).setWidth 64, v.setWidth 64⟩

structure Decimal256 where
  word0 : BitVec 64
  word1 : BitVec 64
  word2 : BitVec 64
  word3 : BitVec 64
deriving DecidableEq

/-- `BasicDecimal256(lo)`: the sign fills the high words. -/
def Decimal256.ofDecimal128 (lo : Decimal128) : Decimal256 :=
  let sign := if lo.highBits.toInt < 0 then BitVec.allOnes 64 else 0
  ⟨lo.lowBits, lo.highBits, sign, sign⟩

def Decimal256.value (d : Decimal256) : Int :=
  d.word3.toInt * 2 ^ 192 + d.word2.toNat * 2 ^ 128 + d.word1.toNat * 2 ^ 64 + d.word0.toNat

inductive DecimalArray where
  | decimal128 (precision : Nat) (scale : Int) (rows : List (Option Decimal128))
  | decimal256 (precision : Nat) (scale : Int) (rows : List (Option Decimal256))
deriving DecidableEq

/-- The numbers of the rows; `none` is a null. -/
def DecimalArray.values : DecimalArray → List (Option Int)
  | .decimal128 _ _ rows => rows.map (Option.map Decimal128.value)
  | .decimal256 _ _ rows => rows.map (Option.map Decimal256.value)

/-- An empty mask marks every row present. -/
abbrev Validity := List UInt8

def isNull (valid : Validity) (i : Nat) : Bool := !valid.isEmpty && valid[i]? == some 0

/-! ## Egress -/

def checkValidity (n : Nat) (valid : Validity) (what : String) : Except Stop Unit :=
  if !valid.isEmpty && valid.length != n then
    .error (.threw ("column_egress: " ++ what ++ ": validity size " ++ toString valid.length ++ " != values size " ++ toString n))
  else .ok ()

def notFitting (v : Int128) (precision : Nat) (scale : Int) : String :=
  "column_egress: decimal value " ++ String.ofList (i128ToString v) ++ " does not fit DECIMAL(" ++ toString precision ++ "," ++
    toString scale ++ ") - the accumulator overflowed the column's precision"

/-- Either loop: a null where the mask says so, else what `append` makes of the value. -/
def rowsLoop {δ : Type} (append : Int128 → Except Stop δ) (valid : Validity) : Nat → List Int128 → Except Stop (List (Option δ))
  | _, [] => .ok []
  | i, v :: values =>
    if isNull valid i then (rowsLoop append valid (i + 1) values).map (none :: ·)
    else do
      let d ← append v
      let rows ← rowsLoop append valid (i + 1) values
      pure (some d :: rows)

def append128 (bound : Int128) (precision : Nat) (scale : Int) (v : Int128) : Except Stop Decimal128 :=
  if bound ≤ absU128 v then .error (.threw (notFitting v precision scale)) else .ok (split v)

def append256 (v : Int128) : Except Stop Decimal256 := .ok (.ofDecimal128 (split v))

def decimalColumn (values : List Int128) (precision : Nat) (scale : Int) (valid : Validity) : Except Stop DecimalArray := do
  checkValidity values.length valid "decimal"
  if precision ≤ 38 then
    let bound ← pow10 precision
    let rows ← rowsLoop (append128 bound precision scale) valid 0 values
    pure (.decimal128 precision scale rows)
  else
    let rows ← rowsLoop append256 valid 0 values
    pure (.decimal256 precision scale rows)

def hugeintColumn (values : List Int128) (valid : Validity) : Except Stop DecimalArray := decimalColumn values 38 0 valid

/-! ## Ingest -/

/-- `value` of `decimal_to_checked_integer`, each operation in `__int128`. -/
def int128Value (d : Decimal128) : Except Stop Int128 := do
  let high ← mulInt128 (d.highBits.signExtend 128) ((1 : Int128) <<< 64)
  addInt128 high (d.lowBits.setWidth 128)

def checkedInteger (signed : Bool) (w : Nat) (d : Decimal128) (scale : Int) : Except Stop (BitVec w) := do
  let _ ← int128Value d
  (decimalToCheckedInteger signed w d scale).mapError .threw

/-- One chunk: the values, and the validity that goes with them. -/
def readRows (signed : Bool) (w : Nat) (scale : Int) : List (Option Decimal128) → Except Stop (List (BitVec w × Bool))
  | [] => .ok []
  | none :: rows => (readRows signed w scale rows).map ((0, false) :: ·)
  | some d :: rows => do
    let x ← checkedInteger signed w d scale
    let xs ← readRows signed w scale rows
    pure ((x, true) :: xs)

/-- `scaled_integer<T>` of one chunk; `canonicalize` is Arrow's cast to `decimal128(38, scale)`. -/
def scaledInteger (canonicalize : DecimalArray → Int → Except Stop (List (Option Decimal128))) (signed : Bool) (w : Nat)
    (col : DecimalArray) (scale : Int) : Except Stop (List (BitVec w × Bool)) :=
  match col with
  | .decimal128 _ s rows =>
    if s = scale then readRows signed w scale rows
    else canonicalize col scale >>= readRows signed w scale
  | .decimal256 _ _ _ => canonicalize col scale >>= readRows signed w scale

/-- The number that a word of the type stands for. -/
def number (signed : Bool) {w : Nat} (x : BitVec w) : Int := if signed then x.toInt else x.toNat

/-- The type can hold it. -/
def Holds (signed : Bool) (w : Nat) (v : Int) : Prop :=
  if signed then -2 ^ (w - 1) ≤ v ∧ v < 2 ^ (w - 1) else 0 ≤ v ∧ v < 2 ^ w

/-! ## No operation overflows -/

theorem toInt_range (v : Int128) : -2 ^ 127 ≤ v.toInt ∧ v.toInt < 2 ^ 127 :=
  ⟨BitVec.le_toInt v, BitVec.toInt_lt⟩

theorem mulInt128_eq {a b : Int128} (h : -2 ^ 127 ≤ a.toInt * b.toInt ∧ a.toInt * b.toInt < 2 ^ 127) :
    ∃ c, mulInt128 a b = .ok c ∧ c.toInt = a.toInt * b.toInt := by
  have hno : ¬ a.smulOverflow b = true := by
    simp only [BitVec.smulOverflow, Bool.or_eq_true, decide_eq_true_eq, not_or, Nat.reduceSub]
    omega
  exact ⟨a * b, if_neg hno, BitVec.toInt_mul_of_not_smulOverflow hno⟩

theorem addInt128_eq {a b : Int128} (h : -2 ^ 127 ≤ a.toInt + b.toInt ∧ a.toInt + b.toInt < 2 ^ 127) :
    ∃ c, addInt128 a b = .ok c ∧ c.toInt = a.toInt + b.toInt := by
  have hno : ¬ a.saddOverflow b = true := by
    simp only [BitVec.saddOverflow, Bool.or_eq_true, decide_eq_true_eq, not_or, Nat.reduceSub]
    omega
  exact ⟨a + b, if_neg hno, BitVec.toInt_add_of_not_saddOverflow hno⟩

/-- `10 ^ 38` is below `2 ^ 127`, and every product on the way is at most that. -/
theorem pow10Loop_spec {n k : Nat} (h : k + n ≤ 38) {r : Int128} (hr : r.toInt = 10 ^ k) :
    ∃ c, pow10Loop n r = .ok c ∧ c.toInt = 10 ^ (k + n) := by
  induction n generalizing k r with
  | zero => exact ⟨r, rfl, hr⟩
  | succ n ih =>
    have hpow : (10 : Int) ^ (k + 1) ≤ 10 ^ 38 := by
      exact_mod_cast Nat.pow_le_pow_right (show 0 < 10 by decide) (show k + 1 ≤ 38 by omega)
    have hpos : (0 : Int) < 10 ^ (k + 1) := Int.pow_pos (by decide)
    have hprod : r.toInt * (10 : Int128).toInt = 10 ^ (k + 1) := by
      rw [hr, pow_succ]
      rfl
    obtain ⟨c, hc, hval⟩ := mulInt128_eq (a := r) (b := 10) (by rw [hprod]; omega)
    rw [pow10Loop, hc]
    obtain ⟨c', hc', hval'⟩ := ih (k := k + 1) (by omega) (hval.trans hprod)
    exact ⟨c', hc', by rw [hval', Nat.add_right_comm, Nat.add_assoc]⟩

theorem pow10_spec {p : Nat} (hp : p ≤ 38) : ∃ bound, pow10 p = .ok bound ∧ bound.toNat = 10 ^ p := by
  obtain ⟨c, hc, hval⟩ := pow10Loop_spec (n := p) (k := 0) (by omega) (r := 1) rfl
  refine ⟨c, hc, ?_⟩
  rw [Nat.zero_add] at hval
  have hnonneg : 0 ≤ c.toInt := by
    rw [hval]
    exact (Int.pow_pos (by decide)).le
  have hcond := BitVec.toInt_eq_toNat_cond c
  have : ((c.toNat : Nat) : Int) = 10 ^ p := by
    split at hcond
    · rw [← hcond, hval]
    · have := c.isLt
      omega
  exact_mod_cast this

/-- The absolute value is exact, that of the minimum included. -/
theorem toNat_absU128 (v : Int128) : (absU128 v).toNat = v.toInt.natAbs := by
  have hcond := BitVec.toInt_eq_toNat_cond v
  have hlt := v.isLt
  unfold absU128
  by_cases hneg : v.toInt < 0
  · rw [if_pos hneg]
    show (~~~v + 1#128).toNat = _
    rw [← BitVec.neg_eq_not_add, BitVec.toNat_neg]
    split at hcond <;> omega
  · rw [if_neg hneg]
    split at hcond <;> omega

theorem digitsLoop_eq (u : Int128) (s : List Char) :
    digitsLoop u s = (if u.toNat = 0 then [] else Nat.toDigits 10 u.toNat) ++ s := by
  induction u, s using digitsLoop.induct with
  | case1 u s h => rw [digitsLoop, if_pos h, if_pos h, List.nil_append]
  | case2 u s h ih =>
    have hdiv : (u / 10).toNat = u.toNat / 10 := BitVec.toNat_udiv
    have hmod : (u % 10).toNat = u.toNat % 10 := BitVec.toNat_umod
    have hdigits : ∀ d < 10, Char.ofNat (48 + d) = Nat.digitChar d := by decide
    have hdigit := hdigits _ (Nat.mod_lt u.toNat (show 10 > 0 by decide))
    rw [digitsLoop, if_neg h, ih, hdiv, hmod, hdigit, if_neg h]
    by_cases hsmall : u.toNat < 10
    · rw [if_pos (Nat.div_eq_of_lt hsmall), Nat.mod_eq_of_lt hsmall, Nat.toDigits_of_lt_base hsmall]
      rfl
    · rw [if_neg (by omega), Nat.toDigits_of_base_le (by decide) (show 10 ≤ u.toNat by omega),
        List.append_assoc, List.singleton_append]

/-- The message has the number itself. -/
theorem i128ToString_eq (v : Int128) :
    i128ToString v = if v.toInt < 0 then '-' :: Nat.toDigits 10 v.toInt.natAbs else Nat.toDigits 10 v.toInt.natAbs := by
  unfold i128ToString
  by_cases h0 : v.toInt = 0
  · rw [if_pos h0, h0]
    rfl
  · have hne : ¬ v.toInt.natAbs = 0 := by omega
    rw [if_neg h0, digitsLoop_eq, toNat_absU128, if_neg hne, List.append_nil]

/-! ## The words -/

theorem split_eq (v : Int128) : split v = Decimal128.ofInt v.toInt := by
  have hrange := toInt_range v
  have hcond := BitVec.toInt_eq_toNat_cond v
  have hlt := v.isLt
  rw [split, Decimal128.ofInt, Decimal128.mk.injEq]
  constructor
  · apply BitVec.eq_of_toInt_eq
    have hshift : v.toInt >>> (64 : Nat) = v.toInt / 2 ^ 64 := Int.shiftRight_eq_div_pow _ _
    have hhigh : (BitVec.ofInt 64 (v.toInt / 2 ^ 64)).toInt = v.toInt / 2 ^ 64 :=
      BitVec.toInt_ofInt_eq_self (by decide) (by omega) (by omega)
    rw [hhigh, BitVec.sshiftRight, hshift, BitVec.toInt_setWidth, BitVec.toNat_ofInt, Int.bmod_def]
    split <;> omega
  · apply BitVec.eq_of_toNat_eq
    rw [BitVec.toNat_setWidth, BitVec.toNat_ofInt]
    split at hcond <;> omega

theorem value_split (v : Int128) : (split v).value = v.toInt := by
  rw [split_eq, Decimal128.value_ofInt (toInt_range v).1 (toInt_range v).2]

/-- Widening keeps the value. -/
theorem value_ofDecimal128 (d : Decimal128) : (Decimal256.ofDecimal128 d).value = d.value := by
  have hcond := BitVec.toInt_eq_toNat_cond d.highBits
  have hlt := d.highBits.isLt
  unfold Decimal256.ofDecimal128 Decimal256.value Decimal128.value
  by_cases hneg : d.highBits.toInt < 0
  · simp only [if_pos hneg]
    rw [show (BitVec.allOnes 64).toInt = -1 by decide, show (BitVec.allOnes 64).toNat = 2 ^ 64 - 1 by decide]
    split at hcond <;> omega
  · simp only [if_neg hneg]
    rw [show (0 : BitVec 64).toInt = 0 by decide, show (0 : BitVec 64).toNat = 0 by decide]
    split at hcond <;> omega

theorem int128Value_spec (d : Decimal128) : ∃ c, int128Value d = .ok c ∧ c.toInt = d.value := by
  have hhigh : (d.highBits.signExtend 128).toInt = d.highBits.toInt := BitVec.toInt_signExtend_of_le (by decide)
  have hone : ((1 : Int128) <<< 64).toInt = 2 ^ 64 := by decide
  have hlow : (d.lowBits.setWidth 128).toInt = d.lowBits.toNat := by
    have := d.lowBits.isLt
    rw [BitVec.toInt_setWidth, Int.bmod_eq_of_le] <;> omega
  have hlo := BitVec.le_toInt d.highBits
  have hhi : d.highBits.toInt < 2 ^ 63 := BitVec.toInt_lt
  have hlowlt := d.lowBits.isLt
  obtain ⟨c, hc, hcv⟩ := mulInt128_eq (a := d.highBits.signExtend 128) (b := (1 : Int128) <<< 64) (by
    rw [hhigh, hone]
    omega)
  rw [hhigh, hone] at hcv
  obtain ⟨c', hc', hcv'⟩ := addInt128_eq (a := c) (b := d.lowBits.setWidth 128) (by
    rw [hcv, hlow]
    omega)
  refine ⟨c', ?_, by rw [hcv', hcv, hlow, Decimal128.value]⟩
  rw [int128Value, hc]
  exact hc'

/-! ## The rows -/

section
variable {δ : Type} {append : Int128 → Except Stop δ} {Good : Int128 → Prop} {g : Int128 → δ}

/-- The loop ends with a row for each value if every value present is good, and throws otherwise. -/
theorem rowsLoop_spec (hgood : ∀ v, Good v → append v = .ok (g v))
    (hbad : ∀ v, ¬ Good v → ∃ what, append v = .error (.threw what))
    (valid : Validity) : ∀ (values : List Int128) (i : Nat),
    (∃ what, rowsLoop append valid i values = .error (.threw what)) ∧
      (∃ j v, values[j]? = some v ∧ isNull valid (i + j) = false ∧ ¬ Good v) ∨
    (∃ rows, rowsLoop append valid i values = .ok rows ∧ rows.length = values.length ∧
      ∀ j v, values[j]? = some v →
        (isNull valid (i + j) = false → Good v) ∧ rows[j]? = some (if isNull valid (i + j) then none else some (g v)))
  | [], i => .inr ⟨[], rfl, rfl, fun _ _ h => by cases h⟩
  | v :: values, i => by
    have ih := rowsLoop_spec hgood hbad valid values (i + 1)
    have hshift (j : Nat) : i + 1 + j = i + (j + 1) := by omega
    rw [rowsLoop]
    cases hnull : isNull valid i with
    | true =>
      rw [if_pos rfl]
      obtain ⟨⟨what, hwhat⟩, j, u, hu, hn, hb⟩ | ⟨rows, hrows, hlen, hall⟩ := ih
      · exact .inl ⟨⟨what, by rw [hwhat]; rfl⟩, j + 1, u, hu, by rwa [← hshift], hb⟩
      · refine .inr ⟨none :: rows, by rw [hrows]; rfl, congrArg (· + 1) hlen, fun j u hu => ?_⟩
        cases j with
        | zero => exact ⟨(fun h => by rw [Nat.add_zero, hnull] at h; cases h), by rw [Nat.add_zero, hnull]; rfl⟩
        | succ j => rw [← hshift]; exact hall j u hu
    | false =>
      rw [if_neg (by decide)]
      by_cases hv : Good v
      · rw [hgood v hv]
        obtain ⟨⟨what, hwhat⟩, j, u, hu, hn, hb⟩ | ⟨rows, hrows, hlen, hall⟩ := ih
        · exact .inl ⟨⟨what, by rw [hwhat]; rfl⟩, j + 1, u, hu, by rwa [← hshift], hb⟩
        · refine .inr ⟨some (g v) :: rows, by rw [hrows]; rfl, congrArg (· + 1) hlen, fun j u hu => ?_⟩
          cases j with
          | zero =>
            obtain rfl : v = u := Option.some.inj hu
            exact ⟨fun _ => hv, by rw [Nat.add_zero, hnull]; rfl⟩
          | succ j => rw [← hshift]; exact hall j u hu
      · obtain ⟨what, hwhat⟩ := hbad v hv
        exact .inl ⟨⟨what, by rw [hwhat]; rfl⟩, 0, v, rfl, by rw [Nat.add_zero]; exact hnull, hv⟩

end

theorem append128_spec {bound : Int128} {p : Nat} (hbound : bound.toNat = 10 ^ p) (scale : Int) (v : Int128) :
    (v.toInt.natAbs < 10 ^ p → append128 bound p scale v = .ok (split v)) ∧
      (¬ v.toInt.natAbs < 10 ^ p → ∃ what, append128 bound p scale v = .error (.threw what)) := by
  have hle : bound ≤ absU128 v ↔ 10 ^ p ≤ v.toInt.natAbs := by rw [BitVec.le_def, hbound, toNat_absU128]
  unfold append128
  constructor
  · intro h
    rw [if_neg fun h' => absurd (hle.1 h') (by omega)]
  · intro h
    exact ⟨_, by rw [if_pos (hle.2 (by omega))]⟩

/-- What `decimal_column` does with a mask that fits: a column of the values, or the exception of one that is too
large. -/
theorem decimalColumn_spec (p : Nat) (scale : Int) (values : List Int128) (valid : Validity)
    (hvalid : valid = [] ∨ valid.length = values.length) :
    (∃ what, decimalColumn values p scale valid = .error (.threw what)) ∧
      (∃ i v, values[i]? = some v ∧ isNull valid i = false ∧ 10 ^ p ≤ v.toInt.natAbs) ∨
    (∃ arr, decimalColumn values p scale valid = .ok arr ∧ arr.values.length = values.length ∧
      (p ≤ 38 → ∃ rows, arr = .decimal128 p scale rows) ∧
      ∀ i v, values[i]? = some v → (isNull valid i = false → v.toInt.natAbs < 10 ^ p) ∧
        arr.values[i]? = some (if isNull valid i then none else some v.toInt)) := by
  have hcheck : checkValidity values.length valid "decimal" = .ok () := by
    refine if_neg ?_
    rcases hvalid with rfl | h
    · simp
    · simp [h]
  unfold decimalColumn
  rw [hcheck]
  by_cases hp : p ≤ 38
  · obtain ⟨bound, hpow, hbound⟩ := pow10_spec hp
    have hspec := rowsLoop_spec (fun v => (append128_spec hbound scale v).1)
      (fun v => (append128_spec hbound scale v).2)
      valid values 0
    simp only [Nat.zero_add] at hspec
    obtain ⟨⟨what, hwhat⟩, i, v, hv, hn, hb⟩ | ⟨rows, hrows, hlen, hall⟩ := hspec
    · refine .inl ⟨⟨what, ?_⟩, i, v, hv, hn, Nat.le_of_not_lt hb⟩
      simp only [bind, Except.bind, if_pos hp, hpow, hwhat]
    · refine .inr ⟨.decimal128 p scale rows, ?_, ?_, fun _ => ⟨rows, rfl⟩, fun i v hv => ⟨(hall i v hv).1, ?_⟩⟩
      · simp only [bind, Except.bind, if_pos hp, hpow, hrows]
        rfl
      · rw [DecimalArray.values, List.length_map, hlen]
      · rw [DecimalArray.values, List.getElem?_map, (hall i v hv).2]
        cases isNull valid i with
        | true => rfl
        | false => simp [value_split]
  · have hgood (v : Int128) (_ : True) : append256 v = .ok (.ofDecimal128 (split v)) := rfl
    have hspec := rowsLoop_spec hgood (fun _ h => absurd trivial h) valid values 0
    simp only [Nat.zero_add] at hspec
    obtain ⟨-, i, v, hv, hn, hb⟩ | ⟨rows, hrows, hlen, hall⟩ := hspec
    · exact absurd trivial hb
    · refine .inr ⟨.decimal256 p scale rows, ?_, ?_, fun h => absurd h hp, fun i v hv => ⟨fun _ => ?_, ?_⟩⟩
      · simp only [bind, Except.bind, if_neg hp, hrows]
        rfl
      · rw [DecimalArray.values, List.length_map, hlen]
      · -- 39 digits hold every value of 128 bits
        have hpow : 10 ^ 39 ≤ 10 ^ p := Nat.pow_le_pow_right (by decide) (by omega)
        have hrange := toInt_range v
        omega
      · rw [DecimalArray.values, List.getElem?_map, (hall i v hv).2]
        cases isNull valid i with
        | true => rfl
        | false => simp [value_ofDecimal128, value_split]

/-! ## Reading back -/

theorem decimalToCheckedInteger_fits {signed : Bool} {w : Nat} (hw : 0 < w) {d : Decimal128}
    (h : Holds signed w d.value)
    (scale : Int) : ∃ x, decimalToCheckedInteger signed w d scale = .ok x ∧ number signed x = d.value := by
  cases signed with
  | true =>
    simp only [Holds, ↓reduceIte] at h
    refine ⟨BitVec.ofInt w d.value, if_pos ?_, BitVec.toInt_ofInt_eq_self hw h.1 h.2⟩
    exact decide_eq_true ⟨h.1, by omega⟩
  | false =>
    simp only [Holds, Bool.false_eq_true, ↓reduceIte] at h
    have hcast : ((2 ^ w : Nat) : Int) = 2 ^ w := by push_cast; rfl
    refine ⟨BitVec.ofInt w d.value, if_pos ?_, ?_⟩
    · exact decide_eq_true ⟨h.1, by omega⟩
    · rw [number, if_neg (by decide), BitVec.toNat_ofInt, hcast, Int.emod_eq_of_lt h.1 h.2, Int.toNat_of_nonneg h.1]

theorem decimalToCheckedInteger_throws {signed : Bool} {w : Nat} {d : Decimal128} (h : ¬ Holds signed w d.value)
    (scale : Int) :
    ∃ e, decimalToCheckedInteger signed w d scale = .error e := by
  cases signed with
  | true =>
    simp only [Holds, ↓reduceIte] at h
    refine ⟨_, if_neg fun hfits => h ?_⟩
    have := of_decide_eq_true hfits
    exact ⟨this.1, by omega⟩
  | false =>
    simp only [Holds, Bool.false_eq_true, ↓reduceIte] at h
    refine ⟨_, if_neg fun hfits => h ?_⟩
    have := of_decide_eq_true hfits
    exact ⟨this.1, by omega⟩

theorem checkedInteger_spec (signed : Bool) {w : Nat} (hw : 0 < w) (d : Decimal128) (scale : Int) :
    (Holds signed w d.value → ∃ x, checkedInteger signed w d scale = .ok x ∧ number signed x = d.value) ∧
      (¬ Holds signed w d.value → ∃ what, checkedInteger signed w d scale = .error (.threw what)) := by
  obtain ⟨c, hc, -⟩ := int128Value_spec d
  have hread : checkedInteger signed w d scale = (decimalToCheckedInteger signed w d scale).mapError .threw := by
    rw [checkedInteger, hc]
    rfl
  rw [hread]
  constructor
  · intro h
    obtain ⟨x, hx, hnum⟩ := decimalToCheckedInteger_fits hw h scale
    exact ⟨x, by rw [hx]; rfl, hnum⟩
  · intro h
    obtain ⟨e, he⟩ := decimalToCheckedInteger_throws h scale
    exact ⟨e, by rw [he]; rfl⟩

theorem readRows_spec (signed : Bool) {w : Nat} (hw : 0 < w) (scale : Int) : ∀ rows : List (Option Decimal128),
    (∃ what, readRows signed w scale rows = .error (.threw what)) ∧ (∃ d, some d ∈ rows ∧ ¬ Holds signed w d.value) ∨
    (∃ xs, readRows signed w scale rows = .ok xs ∧ xs.length = rows.length ∧
      (∀ d, some d ∈ rows → Holds signed w d.value) ∧
      ∀ (i : Nat) (row : Option Decimal128), rows[i]? = some row →
        ∃ x, xs[i]? = some (x, row.isSome) ∧ ∀ d ∈ row, number signed x = d.value)
  | [] => .inr ⟨[], rfl, rfl, (fun _ h => by cases h), (fun _ _ h => by cases h)⟩
  | none :: rows => by
    rw [readRows]
    obtain ⟨⟨what, hwhat⟩, d, hd, hb⟩ | ⟨xs, hxs, hlen, hall, hget⟩ := readRows_spec signed hw scale rows
    · exact .inl ⟨⟨what, by rw [hwhat]; rfl⟩, d, List.mem_cons_of_mem _ hd, hb⟩
    · refine .inr ⟨(0, false) :: xs, by rw [hxs]; rfl, congrArg (· + 1) hlen, fun d hd => ?_, fun i row hrow => ?_⟩
      · rcases List.mem_cons.1 hd with h | h
        · cases h
        · exact hall d h
      · cases i with
        | zero =>
          obtain rfl : none = row := Option.some.inj hrow
          exact ⟨0, rfl, fun _ h => by cases h⟩
        | succ i => exact hget i row hrow
  | some d :: rows => by
    rw [readRows]
    by_cases hd : Holds signed w d.value
    · obtain ⟨x, hx, hnum⟩ := (checkedInteger_spec signed hw d scale).1 hd
      rw [hx]
      obtain ⟨⟨what, hwhat⟩, e, he, hb⟩ | ⟨xs, hxs, hlen, hall, hget⟩ := readRows_spec signed hw scale rows
      · exact .inl ⟨⟨what, by rw [hwhat]; rfl⟩, e, List.mem_cons_of_mem _ he, hb⟩
      · refine .inr ⟨(x, true) :: xs, by rw [hxs]; rfl, congrArg (· + 1) hlen, fun e he => ?_, fun i row hrow => ?_⟩
        · rcases List.mem_cons.1 he with h | h
          · cases h
            exact hd
          · exact hall e h
        · cases i with
          | zero =>
            obtain rfl : some d = row := Option.some.inj hrow
            exact ⟨x, rfl, fun e he => Option.some.inj he ▸ hnum⟩
          | succ i => exact hget i row hrow
    · obtain ⟨what, hwhat⟩ := (checkedInteger_spec signed hw d scale).2 hd
      exact .inl ⟨⟨what, by rw [hwhat]; rfl⟩, d, List.mem_cons_self .., hd⟩

/-- **Decimal egress is exact and total**: no operation overflows; the column throws iff a value that is present has
more digits than the precision; else every row is a null or holds exactly its value; and up to 38 digits
`scaled_integer` at the scale gives each value back if the integer type can hold them all, and throws otherwise. -/
theorem decimal_column_exact (p : Nat) (scale : Int) (values : List Int128) (valid : Validity)
    (hvalid : valid = [] ∨ valid.length = values.length) :
    decimalColumn values p scale valid ≠ .error .overflow ∧
    ((∃ what, decimalColumn values p scale valid = .error (.threw what)) ↔
      ∃ i v, values[i]? = some v ∧ isNull valid i = false ∧ (10 : Int) ^ p ≤ |v.toInt|) ∧
    ∀ arr, decimalColumn values p scale valid = .ok arr →
      arr.values.length = values.length ∧
      (∀ i v, values[i]? = some v → arr.values[i]? = some (if isNull valid i then none else some v.toInt)) ∧
      (p ≤ 38 → ∀ canonicalize signed w, 0 < w →
        scaledInteger canonicalize signed w arr scale ≠ .error .overflow ∧
        ((∃ what, scaledInteger canonicalize signed w arr scale = .error (.threw what)) ↔
          ∃ v, some v ∈ arr.values ∧ ¬ Holds signed w v) ∧
        ∀ xs, scaledInteger canonicalize signed w arr scale = .ok xs → xs.length = values.length ∧
          ∀ (i : Nat) (row : Option Int), arr.values[i]? = some row →
            ∃ x, xs[i]? = some (x, row.isSome) ∧ ∀ v ∈ row, number signed x = v) := by
  have hbig (v : Int128) : (10 : Int) ^ p ≤ |v.toInt| ↔ 10 ^ p ≤ v.toInt.natAbs := by
    rw [Int.abs_eq_natAbs]
    norm_cast
  simp only [hbig]
  obtain ⟨⟨what, hwhat⟩, i, v, hv, hn, hb⟩ | ⟨arr, harr, hlen, h128, hall⟩ := decimalColumn_spec p scale values valid hvalid
  · rw [hwhat]
    exact ⟨by simp, iff_of_true ⟨what, rfl⟩ ⟨i, v, hv, hn, hb⟩, fun _ h => by cases h⟩
  · rw [harr]
    refine ⟨by simp, iff_of_false (fun ⟨_, h⟩ => by cases h) ?_, ?_⟩
    · rintro ⟨i, v, hv, hn, hb⟩
      have := (hall i v hv).1 hn
      omega
    · intro arr' h
      obtain rfl : arr = arr' := Except.ok.inj h
      refine ⟨hlen, fun i v hv => (hall i v hv).2, fun hp canonicalize signed w hw => ?_⟩
      obtain ⟨rows, rfl⟩ := h128 hp
      have hread : scaledInteger canonicalize signed w (.decimal128 p scale rows) scale = readRows signed w scale rows :=
        if_pos rfl
      have hmem (v : Int) : some v ∈ (DecimalArray.decimal128 p scale rows).values ↔ ∃ d, some d ∈ rows ∧ d.value = v := by
        rw [DecimalArray.values, List.mem_map]
        constructor
        · rintro ⟨row, hrow, hv⟩
          obtain ⟨d, rfl, hd⟩ := Option.map_eq_some_iff.1 hv
          exact ⟨d, hrow, hd⟩
        · rintro ⟨d, hd, rfl⟩
          exact ⟨some d, hd, rfl⟩
      rw [hread]
      rw [DecimalArray.values, List.length_map] at hlen
      obtain ⟨⟨what, hwhat⟩, d, hd, hb⟩ | ⟨xs, hxs, hlen', hholds, hget⟩ := readRows_spec signed hw scale rows
      · rw [hwhat]
        exact ⟨by simp, iff_of_true ⟨what, rfl⟩ ⟨d.value, (hmem _).2 ⟨d, hd, rfl⟩, hb⟩, fun _ h => by cases h⟩
      · rw [hxs]
        refine ⟨by simp, iff_of_false (fun ⟨_, h⟩ => by cases h) ?_, fun xs' h => ?_⟩
        · rintro ⟨v, hv, hnot⟩
          obtain ⟨d, hd, rfl⟩ := (hmem v).1 hv
          exact hnot (hholds d hd)
        · obtain rfl : xs = xs' := Except.ok.inj h
          refine ⟨hlen'.trans hlen, fun i row hrow => ?_⟩
          rw [DecimalArray.values, List.getElem?_map, Option.map_eq_some_iff] at hrow
          obtain ⟨row', hrow', rfl⟩ := hrow
          obtain ⟨x, hx, hnum⟩ := hget i row' hrow'
          refine ⟨x, by rw [hx, Option.isSome_map], fun v hv => ?_⟩
          obtain ⟨d, rfl, rfl⟩ := Option.map_eq_some_iff.1 hv
          exact hnum d rfl

/-- A column of one null and the minimum, with 39 digits. -/
theorem decimal_column_exact_min :
    decimalColumn [0, BitVec.intMin 128] 39 2 [0, 1] ≠ .error .overflow :=
  (decimal_column_exact 39 2 [0, BitVec.intMin 128] [0, 1] (.inr (by decide))).1

end SynnoDB.Cpp.DecimalColumn
