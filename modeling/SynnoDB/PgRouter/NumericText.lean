import Mathlib.Tactic.Linarith
import Mathlib.Tactic.NormNum
import SynnoDB.Lib.MapM
import SynnoDB.PgRouter.Decimals
import SynnoDB.PgRouter.Struct

/-!
# Binary numerics (`protocols/postgres/value_decoding.py:70-103`)

| here | there |
| --- | --- |
| `Numeric`, `Numeric.raw`   | a well-formed binary numeric, and its bytes on the wire |
| `decodeNumericBinary`      | `decode_numeric_binary` |
| `decodeNumericText`        | the `NUMERIC_OID` branch of `decode_text_value` (`:62-66`) |
| `Numeric.numericOut`       | the text a server sends for the same value |

The code drops the leading zeros of the first group wherever the group stands, reads the sign word as
a signed number and the count of digits too. **It decodes exactly iff none of the three matters**
(`decode_numeric_iff`): 0.0005 is decoded as 0.5000.
-/

namespace SynnoDB.PgRouter.NumericText

open Hotpatch (Bytes)
open Digits
open Struct

/-- `try: return str(Decimal(text))`, `except Exception: return text`. -/
def decodeNumericText (text : Text) : Text :=
  match Decimal.ofText text with
  | some d => d.str
  | none => text

/-! ## The decoder -/

/-- `str(n)`. -/
def intText (n : Int) : Text := if n < 0 then '-' :: Nat.toDigits 10 n.natAbs else Nat.toDigits 10 n.natAbs

/-- `f"{n:04d}"`. -/
def fmt04 (n : Int) : Text :=
  if n < 0 then '-' :: zfill 3 (Nat.toDigits 10 n.natAbs) else zfill 4 (Nat.toDigits 10 n.natAbs)

def groupTexts (digits : List Int) : List Text :=
  digits.mapIdx fun idx digit => if idx = 0 then intText digit else fmt04 digit

def pad : Text := "0000".toList

/-- `whole` and `frac` before they are fitted to the scale. -/
def wholeFrac (ndigits wholeGroupCount : Int) (groups : List Text) : Text × Text :=
  if ndigits = 0 then (['0'], [])
  else if wholeGroupCount ≤ 0 then (['0'], (List.replicate (-wholeGroupCount).toNat pad ++ groups).flatten)
  else
    let wholeGroups := groups.take wholeGroupCount.toNat
    let wholeGroups := wholeGroups ++ List.replicate (wholeGroupCount.toNat - wholeGroups.length) pad
    let fracGroups := groups.drop wholeGroupCount.toNat
    ((wholeGroups.head?).getD [] ++ ((wholeGroups.drop 1).map (zfill 4)).flatten, fracGroups.flatten)

def fitScale (dscale : Int) (whole frac : Text) : Text :=
  if 0 < dscale then whole ++ '.' :: cut dscale.toNat frac else whole

/-- `value.lstrip("0") or "0"`, and a zero before a point that came to stand first. -/
def lstripZeros (value : Text) : Text :=
  let stripped := strip value
  if stripped.head? = some '.' then '0' :: stripped else stripped

def signed16 (sign : Int) (value : Text) : Text :=
  if sign = 0x4000 then '-' :: value else if sign = 0xC000 then "NaN".toList else value

/-- `none` is `struct.error`. -/
def decodeNumericBinary (raw : Bytes) : Option Text := do
  let ndigits ← unpack 2 (raw.take 2)
  let weight ← unpack 2 ((raw.drop 2).take 2)
  let sign ← unpack 2 ((raw.drop 4).take 2)
  let dscale ← unpack 2 ((raw.drop 6).take 2)
  let digits ← (List.range ndigits.toNat).mapM fun i => unpack 2 ((raw.drop (8 + i * 2)).take 2)
  let (whole, frac) := wholeFrac ndigits (weight + 1) (groupTexts digits)
  pure (signed16 sign (lstripZeros (fitScale dscale whole frac)))

/-! ## Well-formed numerics -/

inductive Sign where
  | positive
  | negative
  | nan
deriving DecidableEq, Repr

def Sign.word : Sign → Nat
  | .positive => 0x0000
  | .negative => 0x4000
  | .nan => 0xC000

/-- `sum digit_i * 10000 ^ (weight - i)`. -/
def magnitude : List Nat → Int → ℚ
  | [], _ => 0
  | d :: ds, weight => d * (10000 : ℚ) ^ weight + magnitude ds (weight - 1)

structure Numeric where
  digits : List Nat
  weight : Int
  sign : Sign
  dscale : Nat
  count : digits.length < 2 ^ 16
  base : ∀ d ∈ digits, d < 10000
  weightRange : InRange 2 weight
  dscaleRange : dscale < 2 ^ 14
  /-- The digits beyond `dscale` are zero. -/
  exact : ∃ c : Nat, magnitude digits weight * 10 ^ dscale = c

namespace Numeric

def raw (x : Numeric) : Bytes :=
  word 2 x.digits.length ++ word 2 (x.weight % 256 ^ 2).toNat ++ word 2 x.sign.word ++ word 2 x.dscale ++
    x.digits.flatMap (word 2)

def value (x : Numeric) : ℚ := (if x.sign = .negative then -1 else 1) * magnitude x.digits x.weight

/-- The magnitude in units of the last digit. -/
def units (x : Numeric) : Nat := (magnitude x.digits x.weight * 10 ^ x.dscale).num.toNat

def numericOut (x : Numeric) : Text :=
  if x.sign = .nan then "NaN".toList
  else
    signText (x.sign = .negative) ++ Nat.toDigits 10 (x.units / 10 ^ x.dscale) ++
      (if x.dscale = 0 then [] else '.' :: zfill x.dscale (Nat.toDigits 10 (x.units % 10 ^ x.dscale)))

end Numeric

/-! ## Reading the wire -/

theorem take_word (w n : Nat) (rest : Bytes) : (word w n ++ rest).take w = word w n := by
  rw [List.take_append_of_le_length (by simp), List.take_of_length_le (by simp)]

theorem drop_word (w n i : Nat) (rest : Bytes) : (word w n ++ rest).drop (w + i) = rest.drop i := by
  rw [← List.drop_drop, List.drop_left' (length_word w n)]

theorem flatMap_word_slice : ∀ {ds : List Nat} {i d : Nat}, ds[i]? = some d →
    ((ds.flatMap (word 2)).drop (i * 2)).take 2 = word 2 d
  | d :: ds, 0, e, h => by
    rw [List.getElem?_cons_zero, Option.some.injEq] at h
    subst h
    exact take_word 2 d _
  | d :: ds, i + 1, e, h => by
    rw [List.getElem?_cons_succ] at h
    rw [List.flatMap_cons, Nat.add_mul, Nat.one_mul, Nat.add_comm, drop_word]
    exact flatMap_word_slice h

theorem signed_digit {d : Nat} (h : d < 10000) : unpack 2 (word 2 d) = some (d : Int) := by
  rw [unpack_word (by omega), signed, if_pos (by omega)]

namespace Numeric

/-- The groups the decoder sees: a count from `2 ^ 15` on is read as a negative number. -/
def readDigits (x : Numeric) : List Nat := if x.digits.length < 2 ^ 15 then x.digits else []

/-- The text before the sign is looked at. -/
def unsignedText (x : Numeric) : Text :=
  let (whole, frac) := wholeFrac (signed 2 x.digits.length) (x.weight + 1) (groupTexts (x.readDigits.map (↑)))
  lstripZeros (fitScale x.dscale whole frac)

theorem digits_read (x : Numeric) :
    (List.range (signed 2 x.digits.length).toNat).mapM (fun i => unpack 2 ((x.raw.drop (8 + i * 2)).take 2)) =
      some (x.readDigits.map (↑)) := by
  have hcount := x.count
  unfold readDigits
  by_cases hlt : x.digits.length < 2 ^ 15
  · rw [if_pos hlt, signed, if_pos (by omega), Int.toNat_natCast]
    refine MapM.range_eq_some (by rw [List.length_map]) fun i y hy => ?_
    rw [List.getElem?_map, Option.map_eq_some_iff] at hy
    obtain ⟨d, hd, rfl⟩ := hy
    have hslice : (x.raw.drop (8 + i * 2)).take 2 = word 2 d := by
      rw [raw, List.append_assoc, List.append_assoc, List.append_assoc,
        show 8 + i * 2 = 2 + (2 + (2 + (2 + i * 2))) by omega,
        drop_word, drop_word, drop_word, drop_word]
      exact flatMap_word_slice hd
    rw [hslice, signed_digit (x.base d (List.mem_of_getElem? hd))]
  · rw [if_neg hlt, signed, if_neg (by omega)]
    have hneg : ((x.digits.length : Int) - 256 ^ 2).toNat = 0 := by omega
    rw [hneg]
    rfl

/-- What the decoder makes of a well-formed numeric. -/
theorem decode_raw (x : Numeric) :
    decodeNumericBinary x.raw = some (signed16 (signed 2 x.sign.word) x.unsignedText) := by
  have hraw : x.raw = word 2 x.digits.length ++ (word 2 (x.weight % 256 ^ 2).toNat ++ (word 2 x.sign.word ++
      (word 2 x.dscale ++ x.digits.flatMap (word 2)))) := by
    rw [raw, List.append_assoc, List.append_assoc, List.append_assoc]
  have hcount : unpack 2 (x.raw.take 2) = some (signed 2 x.digits.length) := by
    rw [hraw, take_word, unpack_word x.count]
  have hweight : unpack 2 ((x.raw.drop 2).take 2) = some x.weight := by
    rw [hraw, show (2 : Nat) = 2 + 0 from rfl, drop_word, List.drop_zero, take_word]
    exact unpack_pack (pack_of_inRange x.weightRange)
  have hsign : unpack 2 ((x.raw.drop 4).take 2) = some (signed 2 x.sign.word) := by
    rw [hraw, show (4 : Nat) = 2 + (2 + 0) from rfl, drop_word, drop_word, List.drop_zero, take_word]
    exact unpack_word (by cases x.sign <;> decide)
  have hscale : unpack 2 ((x.raw.drop 6).take 2) = some (x.dscale : Int) := by
    have hdscale := x.dscaleRange
    rw [hraw, show (6 : Nat) = 2 + (2 + (2 + 0)) from rfl, drop_word, drop_word, drop_word, List.drop_zero, take_word,
      unpack_word (by omega), signed, if_pos (by omega)]
  rw [decodeNumericBinary, hcount, hweight, hsign, hscale]
  simp only [Option.bind_eq_bind, Option.bind_some, digits_read]
  rfl

end Numeric

/-! ## Groups of four digits -/

def groupsValue : List Nat → Nat
  | [] => 0
  | d :: ds => d * 10000 ^ ds.length + groupsValue ds

theorem magnitude_eq (ds : List Nat) (w : Int) :
    magnitude ds w = groupsValue ds * (10000 : ℚ) ^ (w + 1 - ds.length) := by
  induction ds generalizing w with
  | nil => simp [magnitude, groupsValue]
  | cons d ds ih =>
    have hw : (10000 : ℚ) ^ w = 10000 ^ ds.length * (10000 : ℚ) ^ (w - ds.length) := by
      rw [← zpow_natCast, ← zpow_add₀ (by norm_num), add_sub_cancel]
    rw [magnitude, groupsValue, ih, List.length_cons, show w - 1 + 1 - (ds.length : ℤ) = w - ds.length by ring,
      show w + 1 - ((ds.length + 1 : ℕ) : ℤ) = w - ds.length by push_cast; ring, hw]
    push_cast
    ring

theorem magnitude_append (as bs : List Nat) (w : Int) :
    magnitude (as ++ bs) w = magnitude as w + magnitude bs (w - as.length) := by
  induction as generalizing w with
  | nil => simp [magnitude]
  | cons d as ih =>
    rw [List.cons_append, magnitude, magnitude, ih, List.length_cons,
      show w - 1 - (as.length : ℤ) = w - ((as.length + 1 : ℕ) : ℤ) by push_cast; ring, add_assoc]

theorem groupsValue_eq_zero {ds : List Nat} : groupsValue ds = 0 ↔ ∀ d ∈ ds, d = 0 := by
  induction ds with
  | nil => simp [groupsValue]
  | cons d ds ih =>
    have hpos : 10000 ^ ds.length ≠ 0 := (Nat.pow_pos (by decide)).ne'
    rw [groupsValue, Nat.add_eq_zero_iff, Nat.mul_eq_zero, or_iff_left hpos, ih, List.forall_mem_cons]

theorem magnitude_eq_zero {ds : List Nat} {w : Int} : magnitude ds w = 0 ↔ ∀ d ∈ ds, d = 0 := by
  have hpow : (10000 : ℚ) ^ (w + 1 - ds.length) ≠ 0 := zpow_ne_zero _ (by norm_num)
  rw [magnitude_eq, mul_eq_zero, or_iff_left hpow, Nat.cast_eq_zero, groupsValue_eq_zero]

/-- Groups written with all their zeros. -/
def padded (ds : List Nat) : Text := (ds.map fun d => zfill 4 (Nat.toDigits 10 d)).flatten

theorem length_group {d : Nat} (h : d < 10000) : (Nat.toDigits 10 d).length ≤ 4 :=
  (Nat.length_toDigits_le_iff (by decide) (by decide)).2 h

theorem length_padded {ds : List Nat} (h : ∀ d ∈ ds, d < 10000) : (padded ds).length = 4 * ds.length := by
  induction ds with
  | nil => rfl
  | cons d ds ih =>
    have hd := length_group (h d (List.mem_cons_self ..))
    have ih := ih fun e he => h e (List.mem_cons_of_mem _ he)
    rw [padded] at ih ⊢
    rw [List.map_cons, List.flatten_cons, List.length_append, ih, length_zfill, List.length_cons]
    omega

theorem value_padded {ds : List Nat} (h : ∀ d ∈ ds, d < 10000) : value (padded ds) = groupsValue ds := by
  induction ds with
  | nil => rfl
  | cons d ds ih =>
    have hds : ∀ e ∈ ds, e < 10000 := fun e he => h e (List.mem_cons_of_mem _ he)
    have hlen := length_padded hds
    have ih := ih hds
    rw [padded] at ih hlen ⊢
    rw [List.map_cons, List.flatten_cons, value_append, hlen, ih, value_zfill, value_toDigits, groupsValue, pow_mul]
    rfl

theorem allDigits_padded (ds : List Nat) : AllDigits (padded ds) := by
  intro c hc
  rw [padded, List.mem_flatten] at hc
  obtain ⟨t, ht, hc⟩ := hc
  obtain ⟨d, -, rfl⟩ := List.mem_map.1 ht
  exact allDigits_zfill (allDigits_toDigits d) c hc

theorem flatten_pads (n : Nat) : (List.replicate n pad).flatten = zeros (4 * n) := by
  rw [show pad = List.replicate 4 '0' from rfl, List.flatten_replicate_replicate, Nat.mul_comm]
  rfl

theorem groupTexts_cons (d : Nat) (ds : List Nat) :
    groupTexts ((d :: ds).map (↑)) = Nat.toDigits 10 d :: ds.map fun d => zfill 4 (Nat.toDigits 10 d) := by
  have hint (n : Nat) : intText n = Nat.toDigits 10 n := if_neg (by omega)
  have hfmt (n : Nat) : fmt04 n = zfill 4 (Nat.toDigits 10 n) := if_neg (by omega)
  rw [groupTexts, List.map_cons, List.mapIdx_cons, if_pos rfl, hint]
  congr 1
  refine List.ext_getElem (by simp) fun i h1 h2 => ?_
  simp [hfmt]

/-- The places the digits behind the point move up: the first group loses its zeros. -/
def shift : List Nat → Int → Nat
  | d :: _, w => if w < 0 then 4 - (Nat.toDigits 10 d).length else 0
  | [], _ => 0

/-- **The first group behind the point**: what is written is the number times a power of ten. -/
theorem fraction_shifted {d : Nat} {ds : List Nat} {w : Int} (h : ∀ e ∈ d :: ds, e < 10000) (hw : w < 0) :
    fraction (zeros (4 * (-(w + 1)).toNat) ++ Nat.toDigits 10 d ++ padded ds) =
      magnitude (d :: ds) w * 10 ^ shift (d :: ds) w := by
  have hds : ∀ e ∈ ds, e < 10000 := fun e he => h e (List.mem_cons_of_mem _ he)
  have hlen := length_group (h d (List.mem_cons_self ..))
  obtain ⟨m, hm⟩ := Int.eq_ofNat_of_zero_le (show 0 ≤ -(w + 1) by omega)
  obtain ⟨s, hs⟩ := Nat.exists_eq_add_of_le hlen
  have hten : (10 : ℚ) ≠ 0 := by norm_num
  have hbase (z : ℤ) : (10000 : ℚ) ^ z = 10 ^ (4 * z) := by
    rw [show (10000 : ℚ) = 10 ^ (4 : ℤ) by norm_num, ← zpow_mul]
  have hshift : shift (d :: ds) w = s := by
    rw [shift, if_pos hw]
    omega
  rw [hshift, List.append_assoc, fraction_append, fraction_zeros, zero_add, length_zeros, fraction_append,
    fraction, fraction,
    value_toDigits, value_padded hds, length_padded hds, magnitude, magnitude_eq, hbase, hbase, hm, Int.toNat_natCast]
  simp only [← zpow_natCast]
  have hw' : w = -(m : ℤ) - 1 := by omega
  have hl : (((Nat.toDigits 10 d).length : ℕ) : ℤ) = 4 - s := by omega
  subst hw'
  rw [hl, div_eq_mul_inv, div_eq_mul_inv, div_eq_mul_inv, div_eq_mul_inv, ← zpow_neg, ← zpow_neg, ← zpow_neg,
    add_mul, add_mul,
    mul_assoc, mul_assoc, mul_assoc, mul_assoc, mul_assoc, ← zpow_add₀ hten, ← zpow_add₀ hten, ← zpow_add₀ hten,
    ← zpow_add₀ hten]
  congr 3
  · push_cast
    ring
  · push_cast
    ring

/-- Before the point the zeros of the first group are the ones nobody writes. -/
theorem value_whole {d c : Nat} {ds : List Nat} (h : ∀ e ∈ d :: ds, e < 10000) (r : Nat)
    (hr : r = c - (ds.take c).length) :
    (value (Nat.toDigits 10 d ++ (padded (ds.take c) ++ zeros (4 * r))) : ℚ) + fraction (padded (ds.drop c)) =
      magnitude (d :: ds) c := by
  have hds : ∀ e ∈ ds, e < 10000 := fun e he => h e (List.mem_cons_of_mem _ he)
  have htake : ∀ e ∈ ds.take c, e < 10000 := fun e he => hds e (List.mem_of_mem_take he)
  have hdrop : ∀ e ∈ ds.drop c, e < 10000 := fun e he => hds e (List.mem_of_mem_drop he)
  have hsplit : magnitude (d :: ds) c = magnitude (d :: ds.take c) c + magnitude (ds.drop c)
    (c - ((ds.take c).length + 1)) := by
    conv_lhs => rw [← List.take_append_drop c ds, ← List.cons_append, magnitude_append]
    rw [List.length_cons]
    push_cast
    rfl
  have hwhole : (value (Nat.toDigits 10 d ++ (padded (ds.take c) ++ zeros (4 * r))) : ℚ) =
    magnitude (d :: ds.take c) c := by
    have hle : (ds.take c).length ≤ c := List.length_take_le ..
    rw [← List.append_assoc, value_append, value_append, value_toDigits, value_padded htake,
      length_padded htake, value_zeros,
      length_zeros, magnitude_eq, groupsValue, List.length_cons, pow_mul, pow_mul,
      show (c : ℤ) + 1 - ((ds.take c).length + 1 : ℕ) = (r : ℕ) by omega, zpow_natCast]
    push_cast
    norm_num
  have hfrac : fraction (padded (ds.drop c)) = magnitude (ds.drop c) (c - ((ds.take c).length + 1)) := by
    rcases Nat.lt_or_ge c ds.length with hlt | hge
    · have hlen : (ds.take c).length = c := by rw [List.length_take, Nat.min_eq_left hlt.le]
      rw [fraction, value_padded hdrop, length_padded hdrop, magnitude_eq, hlen,
        show (c : ℤ) - (c + 1) + 1 - ((ds.drop c).length : ℤ) = -((ds.drop c).length : ℤ) by ring, zpow_neg,
          zpow_natCast,
        pow_mul, div_eq_mul_inv]
      norm_num
    · rw [List.drop_of_length_le hge]
      simp [padded, fraction, magnitude]
  rw [hsplit, hwhole, hfrac]

/-! ## Whole and fraction -/

/-- The two texts before the scale is fitted, and the number they are read as. -/
structure Reads (wf : Text × Text) (r : ℚ) : Prop where
  whole : AllDigits wf.1
  frac : AllDigits wf.2
  number : (value wf.1 : ℚ) + fraction wf.2 = r

theorem reads_zeros (a b : Nat) : Reads (zeros a, zeros b) 0 where
  whole := allDigits_zeros a
  frac := allDigits_zeros b
  number := by rw [value_zeros, fraction_zeros, Nat.cast_zero, add_zero]

/-- Without groups there are only zeros, whatever the count says. -/
theorem reads_none (n count : Int) : Reads (wholeFrac n count []) 0 := by
  unfold wholeFrac
  by_cases hn : n = 0
  · rw [if_pos hn]
    exact reads_zeros 1 0
  · rw [if_neg hn]
    by_cases hcount : count ≤ 0
    · rw [if_pos hcount, List.append_nil, flatten_pads]
      exact reads_zeros 1 _
    · rw [if_neg hcount]
      obtain ⟨c, hc⟩ := Int.eq_ofNat_of_zero_le (show 0 ≤ count - 1 by omega)
      have hnat : count.toNat = c + 1 := by omega
      have hpads : ((List.replicate c pad).map (zfill 4)).flatten = zeros (4 * c) := by
        rw [List.map_replicate, show zfill 4 pad = pad from rfl, flatten_pads]
      rw [hnat]
      simp only [List.take_nil, List.nil_append, List.length_nil, Nat.sub_zero, List.replicate_succ, List.head?_cons,
        Option.getD_some, List.drop_succ_cons, List.drop_zero, List.drop_nil, List.flatten_nil]
      rw [hpads]
      show Reads (zeros 4 ++ zeros (4 * c), zeros 0) 0
      have : zeros 4 ++ zeros (4 * c) = zeros (4 + 4 * c) := List.replicate_append_replicate ..
      rw [this]
      exact reads_zeros _ _

theorem zfill_groups {ds : List Nat} :
    (ds.map fun d => zfill 4 (Nat.toDigits 10 d)).map (zfill 4) = ds.map fun d => zfill 4 (Nat.toDigits 10 d) := by
  rw [List.map_map]
  exact List.map_congr_left fun d _ => zfill_of_le (by rw [length_zfill]; omega)

/-- **What the groups are read as.** -/
theorem reads_groups {n : Int} (hn : n ≠ 0) {d : Nat} {ds : List Nat} {w : Int} (h : ∀ e ∈ d :: ds, e < 10000) :
    Reads (wholeFrac n (w + 1) (groupTexts ((d :: ds).map (↑)))) (magnitude (d :: ds) w * 10 ^ shift (d :: ds) w) := by
  unfold wholeFrac
  rw [if_neg hn, groupTexts_cons]
  by_cases hw : w + 1 ≤ 0
  · have hfrac : (List.replicate (-(w + 1)).toNat pad ++
        Nat.toDigits 10 d :: ds.map fun d => zfill 4 (Nat.toDigits 10 d)).flatten =
          zeros (4 * (-(w + 1)).toNat) ++ Nat.toDigits 10 d ++ padded ds := by
      rw [List.flatten_append, flatten_pads, List.flatten_cons, List.append_assoc]
      rfl
    rw [if_pos hw, hfrac]
    refine ⟨allDigits_zeros 1, ?_, ?_⟩
    · exact allDigits_append.2 ⟨allDigits_append.2 ⟨allDigits_zeros _, allDigits_toDigits d⟩, allDigits_padded ds⟩
    · rw [fraction_shifted h (by omega)]
      show ((0 : Nat) : ℚ) + _ = _
      rw [Nat.cast_zero, zero_add]
  · obtain ⟨c, rfl⟩ := Int.eq_ofNat_of_zero_le (show 0 ≤ w by omega)
    have hnat : ((c : Int) + 1).toNat = c + 1 := by omega
    have hshift : shift (d :: ds) c = 0 := by
      rw [shift, if_neg (by omega)]
    rw [if_neg hw, hnat, hshift, pow_zero, mul_one]
    simp only [List.take_succ_cons, List.length_cons, List.cons_append, List.head?_cons, Option.getD_some,
      List.drop_succ_cons, List.drop_zero, ← List.map_take, ← List.map_drop, List.map_append, zfill_groups,
      List.map_replicate, List.flatten_append, List.length_map]
    rw [show zfill 4 pad = pad from rfl, flatten_pads]
    have hr : c + 1 - ((ds.take c).length + 1) = c - (ds.take c).length := Nat.add_sub_add_right ..
    have hvalue := value_whole (c := c) h _ hr
    refine ⟨?_, allDigits_padded (ds.drop c), hvalue⟩
    exact allDigits_append.2 ⟨allDigits_toDigits d, allDigits_append.2
      ⟨allDigits_padded (ds.take c), allDigits_zeros _⟩⟩

theorem strip_append_point {t rest : Text} (ht : AllDigits t) :
    (let stripped := strip (t ++ '.' :: rest)
     if stripped.head? = some '.' then '0' :: stripped else stripped) = strip t ++ '.' :: rest := by
  have hdrop : (t ++ '.' :: rest).dropWhile (· = '0') = t.dropWhile (· = '0') ++ '.' :: rest := by
    induction t with
    | nil => rfl
    | cons c t ih =>
      have ih := ih fun d hd => ht d (List.mem_cons_of_mem _ hd)
      by_cases hc : c = '0'
      · subst hc
        rw [List.cons_append, List.dropWhile_cons_of_pos (by decide), List.dropWhile_cons_of_pos (by decide), ih]
      · rw [List.cons_append, List.dropWhile_cons_of_neg (by simpa using hc),
          List.dropWhile_cons_of_neg (by simpa using hc), List.cons_append]
  have hne : t.dropWhile (· = '0') ++ '.' :: rest ≠ [] := by simp
  unfold strip
  rw [hdrop, if_neg hne]
  cases hs : t.dropWhile (· = '0') with
  | nil => rfl
  | cons c s =>
    have hc : c.isDigit = true := ht c ((List.dropWhile_sublist _).subset (hs ▸ List.mem_cons_self ..))
    have hpoint : c ≠ '.' := by
      rintro rfl
      exact absurd hc (by decide)
    rw [if_neg (List.cons_ne_nil _ _)]
    simp [hpoint]

/-- The text of what was read, fitted to a scale that it has no digits beyond. -/
theorem Reads.fit {whole frac : Text} {r : ℚ} (h : Reads (whole, frac) r) {k n : Nat} (hn : r * 10 ^ k = n) :
    lstripZeros (fitScale k whole frac) = plainText n k := by
  have hwhole : AllDigits whole := h.whole
  have hfrac : AllDigits frac := h.frac
  have hnumber : (value whole : ℚ) + fraction frac = r := h.number
  -- the digits behind the point, in units of the last
  obtain ⟨f, hf⟩ : ∃ f : Nat, fraction frac * 10 ^ k = f ∧ n = value whole * 10 ^ k + f := by
    have hsum : (n : ℚ) = value whole * 10 ^ k + fraction frac * 10 ^ k := by rw [← hn, ← hnumber, add_mul]
    have hnonneg : 0 ≤ fraction frac * 10 ^ k :=
      mul_nonneg (div_nonneg (Nat.cast_nonneg _) (by positivity)) (by positivity)
    have hle : value whole * 10 ^ k ≤ n := by
      have : ((value whole * 10 ^ k : Nat) : ℚ) ≤ n := by
        push_cast
        linarith
      exact_mod_cast this
    refine ⟨n - value whole * 10 ^ k, ?_, (Nat.add_sub_cancel' hle).symm⟩
    rw [Nat.cast_sub hle]
    push_cast
    linarith
  obtain ⟨hf, rfl⟩ := hf
  have hcut := value_cut hfrac hf
  have hlt : f < 10 ^ k := by
    rw [← hcut]
    simpa using value_lt (allDigits_cut (k := k) hfrac)
  have hpos : 0 < 10 ^ k := Nat.pow_pos (by decide)
  have hdiv : (value whole * 10 ^ k + f) / 10 ^ k = value whole := by
    rw [Nat.add_comm, Nat.add_mul_div_right _ _ hpos, Nat.div_eq_of_lt hlt, Nat.zero_add]
  have hmod : (value whole * 10 ^ k + f) % 10 ^ k = f := by
    rw [Nat.add_comm, Nat.add_mul_mod_self_right, Nat.mod_eq_of_lt hlt]
  rw [plainText, hdiv, hmod, ← strip_eq hwhole]
  rcases Nat.eq_zero_or_pos k with rfl | hk
  · have hpoint : (strip whole).head? ≠ some '.' := by
      intro hhead
      rw [strip_eq hwhole] at hhead
      exact absurd (allDigits_toDigits _ '.' (List.mem_of_mem_head? hhead)) (by decide)
    rw [fitScale, if_neg (by decide), if_pos rfl, List.append_nil]
    exact if_neg hpoint
  · have hne : cut k frac ≠ [] := fun h0 => by
      have := length_cut k frac
      rw [h0] at this
      simp only [List.length_nil] at this
      omega
    have hzfill := zfill_toDigits (allDigits_cut (k := k) hfrac) hne
    rw [length_cut, hcut] at hzfill
    rw [fitScale, if_pos (by omega), if_neg (by omega), hzfill, Int.toNat_natCast]
    exact strip_append_point hwhole

namespace Numeric

theorem units_spec (x : Numeric) : magnitude x.digits x.weight * 10 ^ x.dscale = x.units := by
  obtain ⟨c, hc⟩ := x.exact
  rw [units, hc]
  simp

/-- What the decoder reads, in units of the last digit. -/
def readUnits (x : Numeric) : Nat :=
  if x.digits.length < 2 ^ 15 then x.units * 10 ^ shift x.digits x.weight else 0

theorem unsignedText_eq (x : Numeric) : x.unsignedText = plainText x.readUnits x.dscale := by
  have hcount := x.count
  have hreads : ∃ r, Reads (wholeFrac (signed 2 x.digits.length) (x.weight + 1) (groupTexts (x.readDigits.map (↑)))) r ∧
      r * 10 ^ x.dscale = x.readUnits := by
    unfold readDigits readUnits
    by_cases hlt : x.digits.length < 2 ^ 15
    · rw [if_pos hlt, if_pos hlt]
      refine ⟨magnitude x.digits x.weight * 10 ^ shift x.digits x.weight, ?_, ?_⟩
      · cases hds : x.digits with
        | nil =>
          rw [show magnitude [] x.weight = 0 from rfl, zero_mul]
          exact reads_none _ _
        | cons d ds =>
          have hn : signed 2 (d :: ds).length ≠ 0 := by
            rw [signed, ← hds, if_pos (by omega), hds, List.length_cons]
            omega
          exact reads_groups hn (hds ▸ x.base)
      · rw [mul_right_comm, x.units_spec]
        push_cast
        rfl
    · rw [if_neg hlt, if_neg hlt]
      exact ⟨0, reads_none _ _, by rw [zero_mul, Nat.cast_zero]⟩
  obtain ⟨r, hr, hn⟩ := hreads
  exact hr.fit hn

end Numeric

/-! ## The decoder against the number -/

namespace Numeric

/-- The text denotes the number with its sign, with `dscale` digits behind the point; of a NaN it is `NaN`. -/
def Exact (x : Numeric) (text : Text) : Prop :=
  if x.sign = .nan then text = "NaN".toList
  else
    ∃ int, Decimal.ofText text = some (.finite (x.sign = .negative) int (-x.dscale)) ∧
      (if x.sign = .negative then -1 else 1) * ((int : ℚ) * 10 ^ (-(x.dscale : ℤ))) = x.value

/-- No NaN; and a zero, or at most 32767 groups of which the first has four digits if it stands
behind the point. -/
def Decodes (x : Numeric) : Prop :=
  x.sign ≠ .nan ∧
    ((∀ d ∈ x.digits, d = 0) ∨ x.digits.length < 2 ^ 15 ∧ (0 ≤ x.weight ∨ ∀ d ∈ x.digits.head?, 1000 ≤ d))

theorem shift_eq_zero {ds : List Nat} {w : Int} :
    shift ds w = 0 ↔ 0 ≤ w ∨ ∀ d ∈ ds.head?, 1000 ≤ d := by
  cases ds with
  | nil => simp [shift]
  | cons d ds =>
    have hlen : 4 ≤ (Nat.toDigits 10 d).length ↔ 1000 ≤ d := by
      have h := Nat.length_toDigits_le_iff (b := 10) (n := d) (k := 3) (by decide) (by decide)
      omega
    rw [shift]
    by_cases hw : w < 0
    · rw [if_pos hw]
      simp only [List.head?_cons, Option.mem_some_iff, forall_eq', ← hlen]
      omega
    · rw [if_neg hw]
      simp only [true_iff]
      exact .inl (by omega)

theorem units_eq_zero (x : Numeric) : x.units = 0 ↔ ∀ d ∈ x.digits, d = 0 := by
  have hpow : (10 : ℚ) ^ x.dscale ≠ 0 := pow_ne_zero _ (by norm_num)
  rw [← magnitude_eq_zero (w := x.weight), ← Nat.cast_eq_zero (R := ℚ), ← x.units_spec, mul_eq_zero, or_iff_left hpow]

/-- What is read is the number, exactly under the condition. -/
theorem readUnits_eq (x : Numeric) : x.readUnits = x.units ↔
    (∀ d ∈ x.digits, d = 0) ∨ x.digits.length < 2 ^ 15 ∧ (0 ≤ x.weight ∨ ∀ d ∈ x.digits.head?, 1000 ≤ d) := by
  rw [← x.units_eq_zero, ← shift_eq_zero, readUnits]
  by_cases hlt : x.digits.length < 2 ^ 15
  · rw [if_pos hlt, and_iff_right hlt]
    rcases Nat.eq_zero_or_pos x.units with h0 | hpos
    · simp [h0]
    · rw [or_iff_right hpos.ne']
      refine ⟨fun h => ?_, fun h => by rw [h, Nat.pow_zero, Nat.mul_one]⟩
      have hone : 10 ^ shift x.digits x.weight = 1 := Nat.eq_of_mul_eq_mul_left hpos (by rw [h, Nat.mul_one])
      exact (Nat.pow_eq_one.1 hone).resolve_left (by decide)
  · rw [if_neg hlt, eq_comm, or_iff_left fun h => hlt h.1]

theorem decode_finite {x : Numeric} (hx : x.sign ≠ .nan) :
    decodeNumericBinary x.raw = some (signText (x.sign = .negative) ++ plainText x.readUnits x.dscale) := by
  rw [decode_raw, unsignedText_eq]
  cases hs : x.sign with
  | positive => rfl
  | negative => rfl
  | nan => exact absurd hs hx

theorem numericOut_finite {x : Numeric} (hx : x.sign ≠ .nan) :
    x.numericOut = signText (x.sign = .negative) ++ plainText x.units x.dscale := by
  rw [numericOut, if_neg hx, plainText, List.append_assoc]

theorem plainText_ne_nan (n k : Nat) : plainText n k ≠ "NaN".toList := by
  intro h
  have hall := allDigits_toDigits (n / 10 ^ k)
  unfold plainText at h
  cases hd : Nat.toDigits 10 (n / 10 ^ k) with
  | nil => exact Nat.toDigits_ne_nil hd
  | cons c t =>
    rw [hd] at h hall
    have hc := hall c (List.mem_cons_self ..)
    rw [List.cons_append] at h
    rw [(List.cons.inj h).1] at hc
    exact absurd hc (by decide)

/-- The sign word of a NaN is read as a negative number and never recognised. -/
theorem decode_nan {x : Numeric} (hx : x.sign = .nan) :
    decodeNumericBinary x.raw = some (plainText x.readUnits x.dscale) := by
  rw [decode_raw, unsignedText_eq, hx]
  rfl

theorem exact_read_iff {x : Numeric} (hx : x.sign ≠ .nan) {n : Nat} :
    x.Exact (signText (x.sign = .negative) ++ plainText n x.dscale) ↔ n = x.units := by
  have hten : (10 : ℚ) ^ (-(x.dscale : ℤ)) ≠ 0 := zpow_ne_zero _ (by norm_num)
  have hsign : (if x.sign = .negative then -1 else 1 : ℚ) ≠ 0 := by split <;> norm_num
  have hmag : magnitude x.digits x.weight = x.units * (10 : ℚ) ^ (-(x.dscale : ℤ)) := by
    rw [← x.units_spec, zpow_neg, zpow_natCast, mul_assoc, mul_inv_cancel₀ (pow_ne_zero _ (by norm_num)), mul_one]
  rw [Exact, if_neg hx, ofText_plain, value, hmag]
  constructor
  · rintro ⟨int, hread, hnumber⟩
    rw [Option.some.injEq, Decimal.finite.injEq] at hread
    obtain ⟨-, rfl, -⟩ := hread
    exact_mod_cast mul_right_cancel₀ hten (mul_left_cancel₀ hsign hnumber)
  · rintro rfl
    exact ⟨x.units, rfl, rfl⟩

/-- What the decoder returns is exact iff the numeric is one it decodes. -/
theorem decode_exact (x : Numeric) : (∃ text, decodeNumericBinary x.raw = some text ∧ x.Exact text) ↔ x.Decodes := by
  unfold Decodes
  by_cases hx : x.sign = .nan
  · simp only [decode_nan hx, Option.some.injEq, exists_eq_left', hx, ne_eq, not_true_eq_false, false_and, iff_false]
    rw [Exact, if_pos hx]
    exact plainText_ne_nan _ _
  · simp only [decode_finite hx, Option.some.injEq, exists_eq_left', exact_read_iff hx, readUnits_eq, ne_eq, hx,
      not_false_eq_true, true_and]

/-- An exact text is the one the server sends. -/
theorem decode_numericOut {x : Numeric} (h : x.Decodes) : decodeNumericBinary x.raw = some x.numericOut := by
  rw [decode_finite h.1, numericOut_finite h.1, x.readUnits_eq.2 h.2]

theorem decodeNumericText_numericOut {x : Numeric} (hx : x.sign ≠ .nan) :
    decodeNumericText x.numericOut = Decimal.str (.finite (x.sign = .negative) x.units (-x.dscale)) := by
  rw [decodeNumericText, numericOut_finite hx, ofText_plain]

/-- **The binary form is decoded exactly, and to the number that the text form gives, iff the
numeric is one of those; the two texts are the same iff the number is not so small that `str` writes
it with an exponent.** -/
theorem decode_numeric_iff (x : Numeric) :
    ((∃ text, decodeNumericBinary x.raw = some text ∧ x.Exact text ∧
        SameValue (decodeNumericText x.numericOut) text) ↔ x.Decodes) ∧
    ((∃ text, decodeNumericBinary x.raw = some text ∧ x.Exact text ∧ decodeNumericText x.numericOut = text) ↔
      x.Decodes ∧ -6 < Decimal.leftDigits x.units (-x.dscale)) := by
  refine ⟨⟨fun ⟨text, htext, hexact, _⟩ => x.decode_exact.1 ⟨text, htext, hexact⟩, fun h => ?_⟩,
    fun ⟨text, htext, hexact, hsame⟩ => ?_, fun ⟨h, hplain⟩ => ?_⟩
  · obtain ⟨text, htext, hexact⟩ := x.decode_exact.2 h
    refine ⟨text, htext, hexact, .finite (x.sign = .negative) x.units (-x.dscale), .finite (x.sign = .negative) x.units (-x.dscale),
      ?_, ?_, rfl, rfl⟩
    · rw [decodeNumericText_numericOut h.1, ofText_str]
    · obtain rfl : x.numericOut = text := Option.some.inj ((decode_numericOut h).symm.trans htext)
      rw [numericOut_finite h.1, ofText_plain]
  · have h := x.decode_exact.1 ⟨text, htext, hexact⟩
    obtain rfl : x.numericOut = text := Option.some.inj ((decode_numericOut h).symm.trans htext)
    refine ⟨h, ?_⟩
    by_contra hsmall
    rw [decodeNumericText_numericOut h.1, numericOut_finite h.1] at hsame
    exact str_ne_plain _ (by omega) hsame
  · obtain ⟨text, htext, hexact⟩ := x.decode_exact.2 h
    obtain rfl : x.numericOut = text := Option.some.inj ((decode_numericOut h).symm.trans htext)
    refine ⟨x.numericOut, htext, hexact, ?_⟩
    rw [decodeNumericText_numericOut h.1, numericOut_finite h.1, str_plain _ hplain]

/-- 0.0005: one group behind the point, four digits. -/
def small : Numeric where
  digits := [5]
  weight := -1
  sign := .positive
  dscale := 4
  count := by decide
  base := by decide
  weightRange := by decide
  dscaleRange := by decide
  exact := ⟨5, by norm_num [magnitude]⟩

/-- It is decoded as 0.5000. -/
theorem small_wrong : decodeNumericBinary small.raw = some "0.5000".toList ∧
    ¬ ∃ text, decodeNumericBinary small.raw = some text ∧ small.Exact text := by
  have hraw : decodeNumericBinary small.raw = some "0.5000".toList := by decide
  refine ⟨hraw, ?_⟩
  rintro ⟨text, htext, hexact⟩
  obtain rfl := Option.some.inj (hraw.symm.trans htext)
  rw [Exact, if_neg (by decide)] at hexact
  obtain ⟨int, hread, hnumber⟩ := hexact
  have h5000 : Decimal.ofText "0.5000".toList = some (.finite false 5000 (-4)) := by decide
  rw [h5000, Option.some.injEq, Decimal.finite.injEq] at hread
  obtain ⟨-, rfl, -⟩ := hread
  have hsign : (if small.sign = .negative then -1 else 1 : ℚ) = 1 := if_neg (by decide)
  rw [value, hsign] at hnumber
  norm_num [small, magnitude] at hnumber

end Numeric

end SynnoDB.PgRouter.NumericText
