import SynnoDB.Hotpatch.Framing
import SynnoDB.Ssd.FileLoader
import Mathlib.Data.List.Forall2

/-!
# Integer columns (`templates/olap/ssd/file_loader_utils.cpp:91-138`, `:208-271`,
`cpp_helpers/column_ingest.hpp:83-106`)

| here | there |
| --- | --- |
| `IntegerArray`     | an array of one of the ten integer types as Arrow lays it out, `bits i w` what `Value(i)` reads |
| `IntegerType.other` | a type that the `switch` of `extract_int64` has no case for |
| `BitVec 64`        | `int64_t`, and `uint64_t` before it is cast |
| `Decimal128`       | `arrow::Decimal128` by its `high_bits()` and `low_bits()` |
| `IntegerArray.value` | the number of a row; not in the source |

A `static_cast` between integers keeps the low bits, and so does the `memcpy` of eight bytes of a decimal: **what
does not fit is cut off, and nothing throws** (`large_decimal_cut`), where `scaled_integer` of the ingest helpers
does. The cases `FLOAT` and `DOUBLE` are left out.
-/

namespace SynnoDB.Ssd

open Hotpatch (Bytes leBytes leValue length_leBytes leValue_leBytes)

inductive IntegerType where
  | int8 | int16 | int32 | int64 | uint8 | uint16 | uint32 | uint64 | date32 | decimal128
  | other (name : String)
  deriving DecidableEq, Repr

namespace IntegerType

/-- The bytes of a value. -/
def width : IntegerType → Nat
  | int8 | uint8 => 1
  | int16 | uint16 => 2
  | int32 | uint32 | date32 => 4
  | int64 | uint64 => 8
  | decimal128 => 16
  | other _ => 0

def signed : IntegerType → Bool
  | uint8 | uint16 | uint32 | uint64 => false
  | _ => true

def isOther : IntegerType → Bool
  | other _ => true
  | _ => false

end IntegerType

/-! ## The check of the ingest helpers -/

structure Decimal128 where
  highBits : BitVec 64
  lowBits : BitVec 64
  deriving DecidableEq, Repr

/-- `value` of `decimal_to_checked_integer`; no `__int128` of this form overflows. -/
def Decimal128.value (d : Decimal128) : Int := d.highBits.toInt * 2 ^ 64 + d.lowBits.toNat

/-- `decimal_to_checked_integer<T>` of an integer type with `w` bits. -/
def decimalToCheckedInteger (signed : Bool) (w : Nat) (d : Decimal128) (scale : Int) : Except String (BitVec w) :=
  let fits :=
    if signed then decide (-2 ^ (w - 1) ≤ d.value ∧ d.value ≤ 2 ^ (w - 1) - 1)
    else decide (0 ≤ d.value ∧ d.value ≤ 2 ^ w - 1)
  if fits then .ok (BitVec.ofInt w d.value)
  else .error ("column_ingest::scaled_integer: value does not fit requested C++ integer type at scale=" ++ toString scale)

/-- The decimal of an integer: what `GetValue` has for a decimal of this unscaled value, and what a cast to scale 0
makes of it. -/
def Decimal128.ofInt (v : Int) : Decimal128 := ⟨BitVec.ofInt 64 (v / 2 ^ 64), BitVec.ofInt 64 v⟩

/-! ## Arrays -/

/-- A slice of a parent array starts at `offset`. -/
structure IntegerArray where
  type : IntegerType
  offset : Nat := 0
  length : Nat
  data : Bytes
  inside : (offset + length) * type.width ≤ data.length

namespace IntegerArray

variable (arr : IntegerArray)

/-- The bytes of a row. -/
def cell (i : Nat) : Bytes := slice arr.data ((arr.offset + i) * arr.type.width) ((arr.offset + i + 1) * arr.type.width)

/-- `Value(i)` of an array of `w`-bit integers. -/
def bits (i w : Nat) : BitVec w := BitVec.ofNat w (leValue (arr.cell i))

/-- The decimal that `GetValue(i)` points to. -/
def decimalAt (i : Nat) : Decimal128 :=
  ⟨BitVec.ofNat 64 (leValue ((arr.cell i).drop 8)), BitVec.ofNat 64 (leValue ((arr.cell i).take 8))⟩

/-- `memcpy` of the first eight bytes that `GetValue(i)` points to. -/
def lowWord (i : Nat) : BitVec 64 := BitVec.ofNat 64 (leValue ((arr.cell i).take 8))

def extractInt64 (i : Nat) : Except String (BitVec 64) :=
  match arr.type with
  | .int8 => .ok ((arr.bits i 8).signExtend 64)
  | .int16 => .ok ((arr.bits i 16).signExtend 64)
  | .int32 => .ok ((arr.bits i 32).signExtend 64)
  | .int64 => .ok (arr.bits i 64)
  | .uint8 => .ok ((arr.bits i 8).setWidth 64)
  | .uint16 => .ok ((arr.bits i 16).setWidth 64)
  | .uint32 => .ok ((arr.bits i 32).setWidth 64)
  | .uint64 => .ok (arr.bits i 64)
  | .decimal128 => .ok (arr.lowWord i)
  | .date32 => .ok ((arr.bits i 32).signExtend 64)
  | .other name => .error ("extract_int64: unsupported Arrow type " ++ name)

def extractInt32 (i : Nat) : Except String (BitVec 32) := (arr.extractInt64 i).map fun x => x.setWidth 32

/-- The number of a row. -/
def value (i : Nat) : Option Int :=
  if arr.type.isOther then none
  else if arr.type.signed then some (arr.bits i (8 * arr.type.width)).toInt
  else some (leValue (arr.cell i))

end IntegerArray

/-! ## Chunks -/

/-- The integers of `tmp` as they lie in memory. -/
def encodeInts {w : Nat} (tmp : List (BitVec w)) : Bytes := tmp.flatMap fun x => leBytes (w / 8) x.toNat

/-- `BATCH` in both chunk writers. -/
def intBatch : Nat := 65536

/-- The loop of a chunk writer over batches, from row `i`. -/
def intBatchLoop {w : Nat} (extract : Nat → Except String (BitVec w)) (len : Nat) :
    Nat → Nat → FdStream → Except String FdStream
  | 0, _, out => .ok out
  | fuel + 1, i, out =>
    if i < len then
      let n := min intBatch (len - i)
      match (List.range n).mapM fun j => extract (i + j) with
      | .error e => .error e
      | .ok tmp => intBatchLoop extract len fuel (i + n) (out.write (encodeInts tmp))
    else .ok out

section
variable (out : FdStream) (chunk : IntegerArray)

/-- The values as they lie in the buffer. -/
def IntegerArray.raw (w : Nat) : Bytes := slice chunk.data (chunk.offset * w) (chunk.offset * w + chunk.length * w)

def writeInt32ChunkFast : Except String FdStream :=
  if chunk.length = 0 then .ok out
  else if chunk.type = .int32 ∨ chunk.type = .date32 then .ok (out.write (chunk.raw 4))
  else intBatchLoop chunk.extractInt32 chunk.length chunk.length 0 out

def writeInt64ChunkFast : Except String FdStream :=
  if chunk.length = 0 then .ok out
  else if chunk.type = .int64 then .ok (out.write (chunk.raw 8))
  else if chunk.type = .decimal128 then intBatchLoop (fun i => .ok (chunk.lowWord i)) chunk.length chunk.length 0 out
  else intBatchLoop chunk.extractInt64 chunk.length chunk.length 0 out

end

/-! ## Cells -/

/-- Sixteen bytes are two words. -/
theorem leValue_words {bs : Bytes} (h : bs.length = 16) :
    leValue bs = leValue (bs.take 8) + 2 ^ 64 * leValue (bs.drop 8) := by
  conv_lhs => rw [← List.take_append_drop 8 bs, Hotpatch.leValue_append]
  rw [List.length_take, h]
  rfl

theorem length_slice {bytes : Bytes} {i n : Nat} (h : i + n ≤ bytes.length) : (slice bytes i (i + n)).length = n := by
  rw [slice, List.length_take, List.length_drop]
  omega

namespace IntegerArray

variable {arr : IntegerArray} {i : Nat}

theorem length_cell (hi : i < arr.length) : (arr.cell i).length = arr.type.width := by
  have hle : (arr.offset + i + 1) * arr.type.width ≤ (arr.offset + arr.length) * arr.type.width :=
    Nat.mul_le_mul_right _ (by omega)
  have hin := arr.inside
  rw [Nat.succ_mul] at hle
  rw [cell, Nat.succ_mul]
  exact length_slice (by omega)

/-- The buffer between two rows is the rows between them. -/
theorem raw_eq {w : Nat} (hw : arr.type.width = w) : ∀ n ≤ arr.length,
    slice arr.data (arr.offset * w) (arr.offset * w + n * w) = (List.range n).flatMap arr.cell
  | 0, _ => by simp [slice]
  | n + 1, hn => by
    have ih := raw_eq hw n (by omega)
    rw [List.range_succ, List.flatMap_append, ← ih, List.flatMap_singleton, cell, hw, slice, slice, slice,
      show arr.offset * w + (n + 1) * w - arr.offset * w = n * w + w by rw [Nat.succ_mul]; omega,
      show arr.offset * w + n * w - arr.offset * w = n * w by omega,
      show (arr.offset + n + 1) * w - (arr.offset + n) * w = w by rw [Nat.succ_mul]; omega, List.take_add,
        List.drop_drop,
      Nat.add_mul]

/-- A `w`-bit integer as it lies in memory is its cell. -/
theorem encode_bits {w : Nat} (hw : w = 8 * arr.type.width) (hi : i < arr.length) :
    leBytes (w / 8) (arr.bits i w).toNat = arr.cell i := by
  have hlen := length_cell hi
  have hlt : leValue (arr.cell i) < 2 ^ w := by
    have := Hotpatch.leValue_lt (arr.cell i)
    rw [hlen] at this
    rw [hw, pow_mul]
    exact this
  rw [bits, BitVec.toNat_ofNat, Nat.mod_eq_of_lt hlt, show w / 8 = (arr.cell i).length by omega]
  exact Hotpatch.leBytes_leValue _

/-- **What is extracted** is the number cut off to 64 bits. -/
theorem extractInt64_spec (hi : i < arr.length) {v : Int} (hv : arr.value i = some v) :
    arr.extractInt64 i = .ok (BitVec.ofInt 64 v) := by
  have hlen := length_cell hi
  have hlt := Hotpatch.leValue_lt (arr.cell i)
  rw [hlen] at hlt
  -- an unsigned integer is not negative: no bit is lost
  have hunsigned : ∀ w, w ≤ 64 → leValue (arr.cell i) < 2 ^ w →
      (arr.bits i w).setWidth 64 = BitVec.ofInt 64 (leValue (arr.cell i)) := by
    intro w hw hlt
    apply BitVec.eq_of_toNat_eq
    simp [bits, Nat.mod_eq_of_lt hlt]
  unfold value at hv
  unfold extractInt64
  cases ht : arr.type <;> rw [ht] at hv hlt hlen <;>
    simp only [IntegerType.isOther, IntegerType.signed, IntegerType.width, if_true, if_false, Bool.false_eq_true,
      Option.some.injEq, reduceCtorEq] at hv hlt hlen
  all_goals subst hv
  case int8 | int16 | int32 | date32 => rfl
  case int64 => simp
  case uint8 => exact congrArg _ (hunsigned 8 (by decide) hlt)
  case uint16 => exact congrArg _ (hunsigned 16 (by decide) hlt)
  case uint32 => exact congrArg _ (hunsigned 32 (by decide) hlt)
  case uint64 =>
    have := hunsigned 64 (by decide) hlt
    rw [BitVec.setWidth_eq] at this
    exact congrArg Except.ok this
  case decimal128 =>
    have hcut : BitVec.ofInt 64 (arr.bits i 128).toInt = (arr.bits i 128).setWidth 64 :=
      BitVec.signExtend_eq_setWidth_of_le _ (by decide)
    refine congrArg _ (Eq.symm (hcut.trans ?_))
    rw [bits, BitVec.setWidth_ofNat_of_le (by decide), leValue_words hlen, lowWord]
    apply BitVec.eq_of_toNat_eq
    simp

theorem extractInt32_spec (hi : i < arr.length) {v : Int} (hv : arr.value i = some v) :
    arr.extractInt32 i = .ok (BitVec.ofInt 32 v) := by
  rw [extractInt32, extractInt64_spec hi hv]
  refine congrArg Except.ok (BitVec.eq_of_toInt_eq ?_)
  have hcut : (BitVec.ofInt 64 v).setWidth 32 = BitVec.ofInt 32 (BitVec.ofInt 64 v).toInt :=
    (BitVec.signExtend_eq_setWidth_of_le _ (by decide)).symm
  show ((BitVec.ofInt 64 v).setWidth 32).toInt = _
  rw [hcut, BitVec.toInt_ofInt, BitVec.toInt_ofInt, BitVec.toInt_ofInt]
  exact Int.bmod_bmod_of_dvd (by decide)

end IntegerArray

/-! ## What the chunk writers write -/
section
variable {w : Nat} {extract : Nat → Except String (BitVec w)} {len : Nat}

/-- Whatever the batches are, the values are written in order. -/
theorem intBatchLoop_spec : ∀ {fuel i : Nat} {out : FdStream}, len - i ≤ fuel →
    (intBatchLoop extract len fuel i out).map FdStream.contents =
      ((List.range' i (len - i)).mapM extract).map fun xs => out.contents ++ encodeInts xs
  | 0, i, out, h => by
    rw [Nat.le_zero.1 h]
    simp [intBatchLoop, encodeInts, pure, Except.pure, Except.map]
  | fuel + 1, i, out, h => by
    rw [intBatchLoop]
    by_cases hi : i < len
    · rw [if_pos hi]
      have hn : 0 < min intBatch (len - i) := by rw [intBatch]; omega
      generalize hm : min intBatch (len - i) = m at hn
      have hm' : m ≤ len - i := by omega
      have hrange : List.range' i (len - i) = List.range' i m ++ List.range' (i + m) (len - (i + m)) := by
        rw [List.range'_append_1]
        congr 1
        omega
      have hbatch : ((List.range m).mapM fun j => extract (i + j)) = (List.range' i m).mapM extract := by
        rw [List.range'_eq_map_range, List.mapM_map]
        rfl
      rw [hrange, List.mapM_append]
      dsimp only
      rw [hbatch]
      cases (List.range' i m).mapM extract with
      | error e => rfl
      | ok tmp =>
        dsimp only
        rw [intBatchLoop_spec (by omega), FdStream.contents_write]
        cases (List.range' (i + m) (len - (i + m))).mapM extract with
        | error e => rfl
        | ok xs => simp [Except.map, bind, Except.bind, pure, Except.pure, encodeInts]
    · rw [if_neg hi, Nat.sub_eq_zero_of_le (by omega)]
      simp [encodeInts, pure, Except.pure, Except.map]

end

/-! ## Both targets -/

/-- What a number is stored as. -/
inductive Target where
  | int32
  | int64
  deriving DecidableEq, Repr

namespace Target

def bits : Target → Nat
  | int32 => 32
  | int64 => 64

def extract (arr : IntegerArray) : (t : Target) → Nat → Except String (BitVec t.bits)
  | int32 => arr.extractInt32
  | int64 => arr.extractInt64

def writeChunk : Target → FdStream → IntegerArray → Except String FdStream
  | int32 => writeInt32ChunkFast
  | int64 => writeInt64ChunkFast

/-- The range of the type. -/
def Fits (t : Target) (v : Int) : Prop := -2 ^ (t.bits - 1) ≤ v ∧ v < 2 ^ (t.bits - 1)

instance (t : Target) (v : Int) : Decidable (t.Fits v) := inferInstanceAs (Decidable (_ ∧ _))

theorem toInt_ofInt_iff (t : Target) (v : Int) : (BitVec.ofInt t.bits v).toInt = v ↔ t.Fits v := by
  constructor
  · intro h
    rw [← h]
    exact ⟨BitVec.le_toInt _, BitVec.toInt_lt⟩
  · rintro ⟨hle, hlt⟩
    exact BitVec.toInt_ofInt_eq_self (by cases t <;> decide) hle hlt

variable {t : Target} {arr : IntegerArray}

theorem extract_spec {i : Nat} (hi : i < arr.length) {v : Int} (hv : arr.value i = some v) :
    t.extract arr i = .ok (BitVec.ofInt t.bits v) := by
  cases t with
  | int32 => exact IntegerArray.extractInt32_spec hi hv
  | int64 => exact IntegerArray.extractInt64_spec hi hv

/-- The values of a raw copy are those that are extracted. -/
theorem raw_spec {w : Nat} {extract : Nat → Except String (BitVec w)} (hw : w = 8 * arr.type.width)
    (hextract : ∀ i, extract i = .ok (arr.bits i w)) (out : FdStream) :
    (Except.ok (out.write (arr.raw (w / 8))) : Except String FdStream).map FdStream.contents =
      ((List.range arr.length).mapM extract).map fun xs => out.contents ++ encodeInts xs := by
  have hraw : arr.raw (w / 8) = encodeInts ((List.range arr.length).map fun i => arr.bits i w) := by
    rw [IntegerArray.raw, IntegerArray.raw_eq (by omega) _ le_rfl, encodeInts, List.flatMap_map]
    exact List.flatMap_congr fun i hi => (IntegerArray.encode_bits hw (List.mem_range.1 hi)).symm
  rw [MapM.eq_ok_of_forall fun i _ => hextract i]
  show Except.ok (out.write (arr.raw (w / 8))).contents = _
  rw [FdStream.contents_write, hraw]
  rfl

/-- **The chunk writers and the extractors agree**: a chunk is its extracted values, and throws what extracting
them throws. -/
theorem writeChunk_spec (t : Target) (out : FdStream) (arr : IntegerArray) :
    (t.writeChunk out arr).map FdStream.contents =
      ((List.range arr.length).mapM (t.extract arr)).map fun xs => out.contents ++ encodeInts xs := by
  have hloop : ∀ {w : Nat} (extract : Nat → Except String (BitVec w)),
      (intBatchLoop extract arr.length arr.length 0 out).map FdStream.contents =
        ((List.range arr.length).mapM extract).map fun xs => out.contents ++ encodeInts xs := by
    intro w extract
    rw [intBatchLoop_spec (by omega), Nat.sub_zero, List.range_eq_range']
  have hempty : arr.length = 0 → ∀ {w : Nat} (extract : Nat → Except String (BitVec w)),
      (Except.ok out : Except String FdStream).map FdStream.contents =
        ((List.range arr.length).mapM extract).map fun xs => out.contents ++ encodeInts xs := by
    intro h0 w extract
    rw [h0]
    simp [encodeInts, pure, Except.pure, Except.map]
  cases t with
  | int32 =>
    show (writeInt32ChunkFast out arr).map FdStream.contents = _
    unfold writeInt32ChunkFast
    split
    · exact hempty ‹_› arr.extractInt32
    · split
      · rename_i htype
        refine raw_spec (w := 32) ?_ (fun i => ?_) out
        · rcases htype with htype | htype <;> rw [htype] <;> rfl
        · have hkept : ((arr.bits i 32).signExtend 64).setWidth 32 = arr.bits i 32 := by
            rw [← BitVec.signExtend_eq_setWidth_of_le _ (by decide)]
            show BitVec.ofInt 32 ((arr.bits i 32).signExtend 64).toInt = _
            rw [BitVec.toInt_signExtend_of_le (by decide), BitVec.ofInt_toInt]
          rcases htype with htype | htype <;>
            · show arr.extractInt32 i = _
              rw [IntegerArray.extractInt32, IntegerArray.extractInt64, htype]
              exact congrArg Except.ok hkept
      · exact hloop arr.extractInt32
  | int64 =>
    show (writeInt64ChunkFast out arr).map FdStream.contents = _
    unfold writeInt64ChunkFast
    split
    · exact hempty ‹_› arr.extractInt64
    · split
      · rename_i htype
        refine raw_spec (w := 64) (by rw [htype]; rfl) (fun i => ?_) out
        show arr.extractInt64 i = _
        rw [IntegerArray.extractInt64, htype]
      · split
        · rename_i htype
          have hlow : arr.extractInt64 = fun i => .ok (arr.lowWord i) := by
            funext i
            rw [IntegerArray.extractInt64, htype]
          rw [hloop]
          show _ = ((List.range arr.length).mapM arr.extractInt64).map _
          rw [hlow]
          rfl
        · exact hloop arr.extractInt64

end Target

/-! ## Main result -/

theorem Decimal128.value_ofInt {v : Int} (hle : -2 ^ 127 ≤ v) (hlt : v < 2 ^ 127) : (Decimal128.ofInt v).value = v := by
  have hhigh : (BitVec.ofInt 64 (v / 2 ^ 64)).toInt = v / 2 ^ 64 :=
    BitVec.toInt_ofInt_eq_self (by decide) (by omega) (by omega)
  have hlow : ((BitVec.ofInt 64 v).toNat : Int) = v % 2 ^ 64 := by
    rw [BitVec.toNat_ofInt]
    omega
  rw [Decimal128.value, Decimal128.ofInt, hhigh, hlow]
  omega

/-- The decimal of a row is that of its number. -/
theorem IntegerArray.decimalAt_eq {arr : IntegerArray} {i : Nat} (hi : i < arr.length)
    (ht : arr.type = .decimal128) {v : Int}
    (hv : arr.value i = some v) : arr.decimalAt i = Decimal128.ofInt v := by
  have hlen := length_cell hi
  rw [ht] at hlen
  have hlt := Hotpatch.leValue_lt (arr.cell i)
  have hlow := Hotpatch.leValue_lt ((arr.cell i).take 8)
  have hhigh := Hotpatch.leValue_lt ((arr.cell i).drop 8)
  rw [List.length_take, hlen] at hlow
  rw [List.length_drop, hlen] at hhigh
  have hvalue : v = (leValue (arr.cell i) : Int).bmod (2 ^ 128) := by
    rw [value, ht] at hv
    simpa [IntegerType.isOther, IntegerType.signed, IntegerType.width, bits, BitVec.toInt_ofNat'] using hv.symm
  rw [leValue_words hlen, Int.bmod_def] at hvalue
  rw [decimalAt, Decimal128.ofInt, Decimal128.mk.injEq]
  generalize leValue ((arr.cell i).take 8) = low at hlow hvalue ⊢
  generalize leValue ((arr.cell i).drop 8) = high at hhigh hvalue ⊢
  simp only [IntegerType.width, Nat.min_def, Nat.reduceLeDiff, if_true, Nat.reduceSub, Nat.reducePow]
    at hlow hhigh hvalue
  have hwords : v % 2 ^ 64 = low ∧ v / 2 ^ 64 % 2 ^ 64 = high := by
    split at hvalue <;> constructor <;> omega
  constructor <;> apply BitVec.eq_of_toNat_eq
  · rw [BitVec.toNat_ofNat, BitVec.toNat_ofInt, Nat.mod_eq_of_lt hhigh]
    have := hwords.2
    omega
  · rw [BitVec.toNat_ofNat, BitVec.toNat_ofInt, Nat.mod_eq_of_lt hlow]
    have := hwords.1
    omega

/-- **What the ingest helpers reject**: a value out of range. -/
theorem decimalToCheckedInteger_rejects {t : Target} {v : Int} (hle : -2 ^ 127 ≤ v) (hlt : v < 2 ^ 127) (scale : Int) :
    (∃ e, decimalToCheckedInteger true t.bits (Decimal128.ofInt v) scale = .error e) ↔ ¬t.Fits v := by
  unfold decimalToCheckedInteger Target.Fits
  rw [Decimal128.value_ofInt hle hlt]
  have hrange : (-2 ^ (t.bits - 1) ≤ v ∧ v ≤ 2 ^ (t.bits - 1) - 1) ↔
    (-2 ^ (t.bits - 1) ≤ v ∧ v < 2 ^ (t.bits - 1)) := by omega
  simp only [if_true, hrange, decide_eq_true_eq]
  split
  · rename_i hfits
    exact iff_of_false (fun ⟨e, he⟩ => by cases he) (not_not.2 hfits)
  · rename_i hfits
    exact iff_of_true ⟨_, rfl⟩ hfits

/-- **Never a wrong number**: what is extracted or written is the number of its row, both agree, and what the
ingest helpers reject is rejected. -/
structure Exact (t : Target) (arr : IntegerArray) : Prop where
  extracted : ∀ i < arr.length, ∀ v, arr.value i = some v → ∀ x, t.extract arr i = .ok x → x.toInt = v
  written : ∀ out out', t.writeChunk out arr = .ok out' → ∃ xs : List (BitVec t.bits),
    out'.contents = out.contents ++ encodeInts xs ∧
      List.Forall₂ (fun i x => ∀ v, arr.value i = some v → x.toInt = v) (List.range arr.length) xs
  agree : ∀ out, (t.writeChunk out arr).map FdStream.contents =
    ((List.range arr.length).mapM (t.extract arr)).map fun xs => out.contents ++ encodeInts xs
  rejected : ∀ i < arr.length, ∀ v scale e, arr.value i = some v →
    decimalToCheckedInteger true t.bits (Decimal128.ofInt v) scale = .error e →
    (∃ e, t.extract arr i = .error e) ∧ ∀ out, ∃ e, t.writeChunk out arr = .error e

/-- **When integers are stored right**: every number of the array is in the range of the target. -/
theorem exact_iff (t : Target) (arr : IntegerArray) :
    Exact t arr ↔ ∀ i < arr.length, ∀ v, arr.value i = some v → t.Fits v := by
  constructor
  · intro h i hi v hv
    exact (t.toInt_ofInt_iff v).1 (h.extracted i hi v hv _ (Target.extract_spec hi hv))
  · intro hfits
    have hextracted : ∀ i < arr.length, ∀ v, arr.value i = some v → ∀ x, t.extract arr i = .ok x → x.toInt = v := by
      intro i hi v hv x hx
      rw [Target.extract_spec hi hv] at hx
      cases hx
      exact (t.toInt_ofInt_iff v).2 (hfits i hi v hv)
    refine ⟨hextracted, fun out out' hout => ?_, fun out => Target.writeChunk_spec t out arr, fun i hi v scale e hv he => ?_⟩
    · have hspec := Target.writeChunk_spec t out arr
      rw [hout] at hspec
      cases hxs : (List.range arr.length).mapM (t.extract arr) with
      | error e => rw [hxs] at hspec; cases hspec
      | ok xs =>
        rw [hxs] at hspec
        exact ⟨xs, Except.ok.inj hspec, MapM.forall₂_of_ok hxs fun i hi x hx v hv =>
          hextracted i (List.mem_range.1 hi) v hv x hx⟩
    · have hfit := hfits i hi v hv
      have hbound : (2 : Int) ^ (t.bits - 1) ≤ 2 ^ 127 := by cases t <;> decide
      obtain ⟨hle, hlt⟩ := hfit
      exact absurd ⟨hle, hlt⟩ ((decimalToCheckedInteger_rejects (by omega) (by omega) scale).1 ⟨e, he⟩)

/-- One decimal, of the number `2 ^ 64`. -/
def largeDecimal : IntegerArray where
  type := .decimal128
  length := 1
  data := [0, 0, 0, 0, 0, 0, 0, 0, 1, 0, 0, 0, 0, 0, 0, 0]
  inside := by decide

/-- It is written as `0`. -/
theorem large_decimal_cut : ¬∀ (t : Target) (arr : IntegerArray), Exact t arr := by
  intro h
  have hzero := (h .int64 largeDecimal).extracted 0 (by decide) (2 ^ 64) (by decide +kernel) 0 (by rfl)
  cases hzero

end SynnoDB.Ssd
