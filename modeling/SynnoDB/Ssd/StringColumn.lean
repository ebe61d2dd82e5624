import Mathlib
import SynnoDB.Ssd.FixedChar

/-!
# String columns read back (`file_loader_utils.cpp:273-370`, `file_loader_utils.hpp:166-187`,
`column_handle.hpp:147-183`)

The lengths of a chunk are differences of its own offsets; `running_` carries the base from batch to batch and from
chunk to chunk. `Holds` says what the two files have got after any calls, whatever the batches were: the bytes of
the strings, and the sum of the lengths before each of them. `finish` adds the last offset, and `get` finds the
`i`-th string between two of them. An array of another type throws at its first row, so one without rows does not
(`other_empty`).
-/

namespace SynnoDB.Ssd

open Hotpatch (Bytes leBytes leValue length_leBytes leValue_leBytes)

/-! ## One array -/

namespace ArrowArray

variable {arr : ArrowArray}

theorem valueOffset_mono (h : arr.type.isString) {i k : Nat} (hk : i + k ≤ arr.length) :
    arr.valueOffset i ≤ arr.valueOffset (i + k) := by
  induction k with
  | zero => exact le_refl _
  | succ k ih =>
    have hstep := arr.sorted h (i + k) (by omega)
    rw [Nat.add_assoc] at hstep
    exact (ih (by omega)).trans hstep

theorem valueOffset_le (h : arr.type.isString) {i : Nat} (hi : i ≤ arr.length) (hpos : 0 < arr.length) :
    arr.valueOffset i ≤ arr.data.length := by
  have hmono := valueOffset_mono h (i := i) (k := arr.length - i) (by omega)
  rw [show i + (arr.length - i) = arr.length by omega] at hmono
  exact hmono.trans (arr.inside h hpos)

theorem length_view (h : arr.type.isString) {i : Nat} (hi : i < arr.length) :
    (arr.view i).length = arr.valueOffset (i + 1) - arr.valueOffset i := by
  have := valueOffset_le h (i := i + 1) hi (by omega)
  rw [view, slice, List.length_take, List.length_drop]
  omega

/-- The strings of the array lie one behind the other. -/
theorem flatten_views (h : arr.type.isString) {k : Nat} (hk : k ≤ arr.length) :
    ((List.range k).map arr.view).flatten = slice arr.data (arr.valueOffset 0) (arr.valueOffset k) := by
  induction k with
  | zero => simp [slice]
  | succ k ih =>
    have h0 := valueOffset_mono h (i := 0) (k := k) (by omega)
    have h1 := valueOffset_mono h (i := k) (k := 1) (by omega)
    rw [Nat.zero_add] at h0
    have hsplit : arr.valueOffset (k + 1) - arr.valueOffset 0 =
        arr.valueOffset k - arr.valueOffset 0 + (arr.valueOffset (k + 1) - arr.valueOffset k) := by omega
    rw [List.range_succ, List.map_append, List.flatten_append, ih (by omega), slice, slice, hsplit, List.take_add,
      List.drop_drop, show arr.valueOffset 0 + (arr.valueOffset k - arr.valueOffset 0) = arr.valueOffset k by omega]
    simp [view, slice]

@[simp] theorem length_rows : arr.rows.length = arr.length := by simp [rows]

/-- What the first loop of a batch stores: the lengths of its strings. -/
theorem lengths_eq (h : arr.type.isString) {i n : Nat} (hn : i + n ≤ arr.length) :
    ((List.range n).map fun j => arr.valueOffset (i + j + 1) - arr.valueOffset (i + j)) =
      ((arr.rows.drop i).take n).map List.length := by
  apply List.ext_getElem
  · simp
    omega
  · intro j hj hj'
    simp only [List.length_map, List.length_range] at hj
    simp only [List.getElem_map, List.getElem_range, List.getElem_take, List.getElem_drop, rows]
    rw [length_view h (by omega)]

end ArrowArray

/-! ## Offsets -/

namespace StringWriter

variable {sw : StringWriter} {rows : List Bytes} {arr : ArrowArray}

theorem accumulate_snd (acc : Nat) (lens : List Nat) : (accumulate acc lens).2 = acc + lens.sum := by
  induction lens generalizing acc with
  | nil => rfl
  | cons len lens ih => rw [accumulate, ih, List.sum_cons, Nat.add_assoc]

/-- Batch by batch, as if it were one. -/
theorem accumulate_append (acc : Nat) (as bs : List Nat) :
    (accumulate acc (as ++ bs)).1 = (accumulate acc as).1 ++ (accumulate (acc + as.sum) bs).1 := by
  induction as generalizing acc with
  | nil => rfl
  | cons a as ih => simp [accumulate, ih, Nat.add_assoc]

@[simp] theorem length_accumulate (acc : Nat) (lens : List Nat) : (accumulate acc lens).1.length = lens.length := by
  induction lens generalizing acc with
  | nil => rfl
  | cons len lens ih => simp [accumulate, ih]

theorem getElem_accumulate (acc : Nat) (lens : List Nat) {i : Nat} (hi : i < (accumulate acc lens).1.length) :
    (accumulate acc lens).1[i] = acc + (lens.take i).sum := by
  induction lens generalizing acc i with
  | nil => simp [accumulate] at hi
  | cons len lens ih =>
    cases i with
    | zero => simp [accumulate]
    | succ i => simp [accumulate, ih, Nat.add_assoc]

theorem encode_append (as bs : List Nat) : encode (as ++ bs) = encode as ++ encode bs := List.flatMap_append

/-- What the writer has got, after the strings `rows`. -/
structure Holds (sw : StringWriter) (rows : List Bytes) : Prop where
  offsets : sw.offF.contents = encode (accumulate 0 (rows.map List.length)).1
  bytes : sw.byteF.contents = rows.flatten
  running : sw.running = (rows.map List.length).sum
  nrows : sw.nrows = rows.length
  pending : sw.offBuf = []

theorem Holds.nil : Holds {} [] := ⟨rfl, rfl, rfl, rfl, rfl⟩

/-- The offsets of a chunk, from string `i` on. -/
theorem offsetsLoop_spec (h : arr.type.isString) {fuel : Nat} : ∀ {i : Nat} {sw : StringWriter}, sw.offBuf = [] →
    arr.length - i ≤ fuel → ∃ f, offsetsLoop arr.valueOffset arr.length fuel i sw =
        { sw with offF := f, running := sw.running + ((arr.rows.drop i).map List.length).sum } ∧
      f.contents = sw.offF.contents ++ encode (accumulate sw.running ((arr.rows.drop i).map List.length)).1 := by
  induction fuel with
  | zero =>
    intro i sw _ hi
    rw [List.drop_of_length_le (by simp; omega)]
    exact ⟨sw.offF, rfl, by simp [accumulate, encode]⟩
  | succ fuel ih =>
    intro i sw hpend hi
    unfold offsetsLoop
    by_cases hlt : i < arr.length
    · obtain ⟨n, hn⟩ : ∃ n, n = min offBatch (arr.length - i) := ⟨_, rfl⟩
      have hpos : 0 < n := by
        unfold offBatch at hn
        omega
      obtain ⟨lens, hlens⟩ : ∃ lens, lens = ((arr.rows.drop i).take n).map List.length := ⟨_, rfl⟩
      obtain ⟨rest, hrest⟩ : ∃ rest, rest = (arr.rows.drop (i + n)).map List.length := ⟨_, rfl⟩
      have hsplit : (arr.rows.drop i).map List.length = lens ++ rest := by
        rw [hlens, hrest, ← List.map_append, ← List.drop_drop, List.take_append_drop]
      rw [if_pos hlt]
      simp only [← hn, ArrowArray.lengths_eq h (show i + n ≤ arr.length by omega), ← hlens, hpend, List.length_nil,
        List.take_zero, accumulate_snd]
      obtain ⟨sw₁, hsw₁⟩ : ∃ sw₁ : StringWriter, sw₁ = { sw with
          offF := sw.offF.write (encode (accumulate sw.running lens).1), running :=
            sw.running + lens.sum, offBuf := [] } :=
        ⟨_, rfl⟩
      obtain ⟨f, hloop, hf⟩ := ih (i := i + n) (show sw₁.offBuf = [] by rw [hsw₁]) (by omega)
      rw [← hrest] at hloop hf
      rw [← hsw₁]
      refine ⟨f, ?_, ?_⟩
      · rw [hloop, hsplit, List.sum_append, hsw₁, ← hpend, Nat.add_assoc]
      · rw [hf, hsw₁, FdStream.contents_write, hsplit, accumulate_append, encode_append, List.append_assoc]
    · rw [if_neg hlt, List.drop_of_length_le (by simp; omega)]
      exact ⟨sw.offF, rfl, by simp [accumulate, encode]⟩

/-- **A chunk** of strings, of either width and at any offset into its parent. -/
theorem Holds.writeChunk (hH : Holds sw rows) (h : arr.type.isString) :
    ∃ sw', sw.writeChunk arr = (sw', none) ∧ Holds sw' (rows ++ arr.rows) := by
  unfold StringWriter.writeChunk
  by_cases h0 : arr.length = 0
  · rw [if_pos h0, show arr.rows = [] from List.eq_nil_of_length_eq_zero (by simp [h0]), List.append_nil]
    exact ⟨sw, rfl, hH⟩
  · obtain ⟨f, hloop, hf⟩ := offsetsLoop_spec h (i := 0) hH.pending (Nat.sub_le ..)
    have hbytes : slice arr.data (arr.valueOffset 0) (arr.valueOffset arr.length) = arr.rows.flatten :=
      (ArrowArray.flatten_views h (le_refl _)).symm
    rw [List.drop_zero] at hloop hf
    rw [if_neg h0, if_pos h, writeOffsets, hloop]
    refine ⟨_, rfl, ?_, ?_, ?_, ?_, ?_⟩
    · split <;>
      simp only [hf, hH.offsets, hH.running, List.map_append, accumulate_append, encode_append, Nat.zero_add]
    · split
      · rename_i hlt
        simp only [FdStream.contents_write, hH.bytes, hbytes, List.flatten_append]
      · rename_i hle
        have hnil : arr.rows.flatten = [] := by
          rw [← hbytes, slice, Nat.sub_eq_zero_of_le (by simpa using hle), List.take_zero]
        simp only [hH.bytes, List.flatten_append, hnil, List.append_nil]
    · split <;> simp [hH.running]
    · split <;> simp [hH.nrows]
    · split <;> exact hH.pending

theorem Holds.writeChunks : ∀ {arrs : List ArrowArray} {sw : StringWriter} {rows : List Bytes}, Holds sw rows →
    (∀ arr ∈ arrs, arr.type.isString) →
    ∃ sw', sw.writeChunks arrs = (sw', none) ∧ Holds sw' (rows ++ arrs.flatMap ArrowArray.rows)
  | [], sw, rows, hH, _ => ⟨sw, rfl, by simpa using hH⟩
  | arr :: arrs, sw, rows, hH, h => by
    obtain ⟨sw₁, h₁, hH₁⟩ := hH.writeChunk (h arr List.mem_cons_self)
    obtain ⟨sw₂, h₂, hH₂⟩ := Holds.writeChunks hH₁ fun a ha => h a (List.mem_cons_of_mem _ ha)
    refine ⟨sw₂, ?_, ?_⟩
    · simp only [StringWriter.writeChunks, h₁, h₂]
    · rwa [List.append_assoc, ← List.flatMap_cons] at hH₂

/-- **Another type throws at its first row**, and nothing of the chunk is recorded. -/
theorem writeChunk_other (sw : StringWriter) (h : ¬ arr.type.isString) (hpos : 0 < arr.length) :
    ∃ e, sw.writeChunk arr = (sw, some e) := by
  obtain ⟨k, hk⟩ : ∃ k, arr.length = k + 1 := ⟨arr.length - 1, by omega⟩
  cases ht : arr.type with
  | string => simp [ht, ArrowType.isString] at h
  | largeString => simp [ht, ArrowType.isString] at h
  | other name =>
    refine ⟨"extract_sv: unexpected type " ++ name, ?_⟩
    simp [StringWriter.writeChunk, hk, ht, ArrowType.isString, otherLoop, ArrowArray.extractSv]

/-- `offsets`: the sum of the lengths before each string, and of all. -/
def allOffsets (rows : List Bytes) : List Nat := (accumulate 0 (rows.map List.length)).1 ++ [(rows.map List.length).sum]

theorem length_allOffsets (rows : List Bytes) : (allOffsets rows).length = rows.length + 1 := by simp [allOffsets]

theorem getElem_allOffsets {i : Nat} (hi : i < (allOffsets rows).length) :
    (allOffsets rows)[i] = ((rows.take i).map List.length).sum := by
  rw [length_allOffsets] at hi
  by_cases hlt : i < rows.length
  · simp only [allOffsets]
    rw [List.getElem_append_left (by simpa using hlt), getElem_accumulate, Nat.zero_add, List.map_take]
  · obtain rfl : i = rows.length := by omega
    simp [allOffsets]

/-- **The files** after `finish` and `close`. -/
theorem Holds.finish (hH : Holds sw rows) :
    sw.finish.offF.close.file = encode (allOffsets rows) ∧ sw.finish.byteF.close.file = rows.flatten := by
  have hflush : sw.flushOffsets = sw := by
    unfold flushOffsets
    rw [hH.pending, List.length_nil, if_pos rfl]
  refine ⟨?_, ?_⟩
  · rw [FdStream.file_close, StringWriter.finish, hflush]
    simp only
    rw [FdStream.contents_write, hH.offsets, hH.running, allOffsets, encode_append]
    simp [encode]
  · rw [FdStream.file_close, StringWriter.finish, hflush]
    exact hH.bytes

end StringWriter

/-! ## Reading -/

open Pool ColumnHandle StringWriter

variable {n : Nat} {p : Pool n} {rows : List Bytes} {file : Bytes}

/-- Values that fill a page without a tail. -/
theorem valueStart_dvd {size : Nat} (h : size ∣ bpPage) (i : Nat) : valueStart size i = i * size := by
  have hsplit := Nat.div_add_mod' i (rowsIn size)
  have hpage : bpPage = rowsIn size * size := (Nat.div_mul_cancel h).symm
  rw [valueStart, hpage, ← Nat.mul_assoc, ← Nat.add_mul, hsplit]

theorem length_encode (ns : List Nat) : (encode ns).length = ns.length * 8 := by
  induction ns with
  | nil => rfl
  | cons a ns ih =>
    rw [encode, List.flatMap_cons, List.length_append, length_leBytes, List.length_cons, Nat.add_mul, ← ih]
    simp [encode]
    omega

/-- An offset of the file. -/
theorem valueAt_encode {ns : List Nat} {i : Nat} (hi : i < ns.length) : valueAt 8 (encode ns) i = leBytes 8 ns[i] := by
  have hw : ∀ r ∈ ns.map (leBytes 8), r.length = 8 := by simp
  have hrow := flatten_row hw (show i < (ns.map (leBytes 8)).length by simpa using hi)
  rw [valueAt, valueStart_dvd (by decide), encode, List.flatMap_def, hrow, List.getElem_map]

/-- Single bytes of the file, joined. -/
theorem flatten_bytes {pos k : Nat} : ((List.range k).map fun j => valueAt 1 file (pos + j)).flatten =
    (file.drop pos).take k := by
  induction k with
  | zero => simp
  | succ k ih =>
    rw [List.range_succ, List.map_append, List.flatten_append, ih, List.take_add, List.drop_drop]
    simp [valueAt, valueStart_dvd (show 1 ∣ bpPage from one_dvd _)]

namespace StringColumnHandle

variable {h : StringColumnHandle}

/-- The `while` loop, over the pages that the string is on. -/
theorem copyLoop_spec {fuel : Nat} : ∀ {p : Pool n} {pos m : Nat}, Ready p → h.bytes.On p file file.length →
    pos + m ≤ file.length → m ≤ fuel →
    ∃ p', h.copyLoop fuel p pos m = .ok ((file.drop pos).take m, p') ∧ Ready p' ∧ SameFiles p p' := by
  have hpos1 : 0 < rowsIn 1 := by decide
  have hcov : Covers 1 file file.length := fun i hi => by
    rw [valueStart_dvd (one_dvd _)]
    omega
  induction fuel with
  | zero =>
    intro p pos m hR _ _ hm
    obtain rfl := Nat.le_zero.1 hm
    exact ⟨p, by simp [copyLoop], hR, rfl, rfl⟩
  | succ fuel ih =>
    intro p pos m hR hO hin hm
    unfold copyLoop
    by_cases h0 : m = 0
    · subst h0
      exact ⟨p, by simp, hR, rfl, rfl⟩
    · obtain ⟨k, hk⟩ : ∃ k, k = reach 1 file.length pos m := ⟨_, rfl⟩
      have hkpos := reach_pos (m := m) hpos1 (show pos < file.length by omega) (by omega)
      -- the request that `contiguous_rows` has clipped is not clipped again
      have hagain : reach 1 file.length pos k = k := by
        unfold reach at hk ⊢
        omega
      have hkle : k ≤ m := by
        unfold reach at hk
        omega
      obtain ⟨r, p₁, p₂, hpin, hcount, hdata, hunpin, hR₂, hsame⟩ := pinRange_spec hR hO Nat.one_pos (by decide) hcov
        (a := pos) (m := k) (by omega) (by omega)
      rw [hagain] at hcount hdata
      have hroom : pos + k + (m - k) ≤ file.length := by omega
      have hleft : m - k ≤ fuel := by omega
      obtain ⟨p₃, hrest, hR₃, hsame'⟩ := ih hR₂ (hO.same hsame) hroom hleft
      refine ⟨p₃, ?_, hR₃, hsame.trans hsame'⟩
      have hrest' : h.copyLoop fuel p₂ ((pos : Int) + (k : Nat)) ((m : Int) - (k : Nat)) =
          .ok ((file.drop (pos + k)).take (m - k), p₃) := by
        rw [← hrest]
        congr 1
        omega
      rw [if_pos (by omega), contiguousRows_spec hO.rows hpos1 (by omega), ← hk]
      simp only [hpin, hunpin, hcount, hrest', Int.toNat_natCast, hdata, flatten_bytes]
      rw [← List.drop_drop, ← List.take_add, show k + (m - k) = m by omega]

/-- A handle over the files of the strings; the bytes file is not looked at where it is empty. -/
structure On (h : StringColumnHandle) (p : Pool n) (rows : List Bytes) : Prop where
  numRows : h.numRows = rows.length
  offsets : h.offsets.On p (encode (allOffsets rows)) (rows.length + 1)
  valid : h.bytes.valid = true
  bytes : rows.flatten ≠ [] → h.bytes.On p rows.flatten rows.flatten.length

theorem sum_lengths (rows : List Bytes) : (rows.map List.length).sum = rows.flatten.length := by
  rw [List.length_flatten]

/-- An offset is read back. -/
theorem offset_spec (hR : Ready p) (hO : h.On p rows) (hfit : rows.flatten.length < 2 ^ 63) {i : Nat}
    (hi : i ≤ rows.length) :
    ∃ b p', h.offsets.get 8 p i = .ok (b, p') ∧ leValue b = (rows.take i).flatten.length ∧ Ready p' ∧
      SameFiles p p' := by
  have hlen := length_allOffsets rows
  have hcov : Covers 8 (encode (allOffsets rows)) (rows.length + 1) := fun i hi => by
    rw [valueStart_dvd (by decide), length_encode, hlen]
    omega
  obtain ⟨p', hget, hR', hsame⟩ := get_spec hR hO.offsets (by decide) (by decide) hcov (i := i) (by omega)
  refine ⟨_, p', hget, ?_, hR', hsame⟩
  have hsplit := congrArg (fun l => (List.flatten l).length) (List.take_append_drop i rows)
  simp only [List.flatten_append, List.length_append] at hsplit
  rw [valueAt_encode (by omega), leValue_leBytes, getElem_allOffsets, sum_lengths, Nat.mod_eq_of_lt]
  have : (2 : Nat) ^ 63 < 256 ^ 8 := by decide
  omega

/-- **The `i`-th string.** -/
theorem get_spec (hR : Ready p) (hO : h.On p rows) (hfit : rows.flatten.length < 2 ^ 63) :
    ∀ i (hi : i < rows.length), ∃ p', h.get p i = .ok (rows[i], p') ∧ Ready p' ∧ SameFiles p p' := by
  intro i hi
  obtain ⟨a, p₁, ha, hav, hR₁, hsame₁⟩ := offset_spec hR hO hfit hi.le
  have hO₁ : h.On p₁ rows := ⟨hO.numRows, hO.offsets.same hsame₁, hO.valid, fun hne => (hO.bytes hne).same hsame₁⟩
  obtain ⟨b, p₂, hb, hbv, hR₂, hsame₂⟩ := offset_spec hR₁ hO₁ hfit (show i + 1 ≤ rows.length from hi)
  have hsplit : rows.flatten = (rows.take i).flatten ++ (rows[i] ++ (rows.drop (i + 1)).flatten) := by
    rw [← List.flatten_cons, ← List.drop_eq_getElem_cons hi, ← List.flatten_append, List.take_append_drop]
  have hlen : leValue b = leValue a + rows[i].length := by
    rw [hbv, hav, List.take_succ_eq_append_getElem hi, List.flatten_append, List.length_append, List.flatten_singleton]
  have hvalid : h.valid = true := by
    rw [StringColumnHandle.valid, hO.offsets.valid, hO.valid, hO.numRows]
    simp
  have hin : ¬ ((i : Int) < 0 ∨ (i : Int) ≥ h.numRows) := by
    rw [hO.numRows]
    omega
  have hcopy : ∃ p₃, h.copyLoop rows[i].length p₂ (leValue a : Nat) (rows[i].length : Nat) = .ok (rows[i], p₃) ∧
    Ready p₃ ∧
      SameFiles p₂ p₃ := by
    by_cases hnil : rows[i] = []
    · rw [hnil]
      exact ⟨p₂, rfl, hR₂, rfl, rfl⟩
    · have hne : rows.flatten ≠ [] := by
        rw [hsplit]
        simp [hnil]
      have hroom := congrArg List.length hsplit
      simp only [List.length_append] at hroom
      have hin : leValue a + rows[i].length ≤ rows.flatten.length := by omega
      obtain ⟨p₃, hc, hR₃, hsame₃⟩ := copyLoop_spec hR₂ ((hO.bytes hne).same (hsame₁.trans hsame₂)) hin (le_refl _)
      refine ⟨p₃, ?_, hR₃, hsame₃⟩
      rw [hc, hav]
      congr 2
      rw [hsplit, List.drop_left, List.take_left]
  obtain ⟨p₃, hc, hR₃, hsame₃⟩ := hcopy
  refine ⟨p₃, ?_, hR₃, hsame₁.trans (hsame₂.trans hsame₃)⟩
  have hsub : (leValue b : Int) - (leValue a : Int) = (rows[i].length : Nat) := by omega
  have hfuel : leValue b - leValue a = rows[i].length := by omega
  rw [Nat.cast_add, Nat.cast_one] at hb
  rw [StringColumnHandle.get, hvalid, if_neg (by simp), if_neg hin]
  simp only [ha, hb, if_neg (show ¬ leValue b < leValue a by omega), hsub, hfuel, hc]

end StringColumnHandle

/-- `reg_string` on the files of the strings. -/
theorem regString_spec (hR : Ready p) (rows : List Bytes) :
    ∃ h p', regString p (encode (allOffsets rows)) rows.flatten rows.length = .ok (h, p') ∧ Ready p' ∧
      ∀ q, SameFiles p' q → h.On q rows := by
  have hoff : ((rows.length : Int) + 1) * 8 = (encode (allOffsets rows)).length := by
    rw [length_encode, length_allOffsets]
    omega
  obtain ⟨byteBytes, hbb⟩ : ∃ b : Int, b = if rows.flatten.length = 0 then 1 else (rows.flatten.length : Int) :=
    ⟨_, rfl⟩
  have hbb0 : 0 ≤ byteBytes := by
    rw [hbb]
    split <;> omega
  obtain ⟨p₁, hreg₁, hR₁, hS₁, -⟩ := register_spec hR (encode (allOffsets rows))
    (show (0 : Int) ≤ (encode (allOffsets rows)).length by omega)
  obtain ⟨p₂, hreg₂, hR₂, hS₂, hkeep⟩ := register_spec hR₁ rows.flatten hbb0
  refine ⟨⟨⟨true, p.pool.cols.length, rows.length + 1⟩, ⟨true, p₁.pool.cols.length, byteBytes⟩, rows.length⟩,
    p₂, ?_, hR₂,
    fun q hq => ⟨rfl, ⟨rfl, by simp, (hkeep _ _ _ hS₁).same hq⟩, ?_, fun hne => ⟨rfl, ?_, ?_⟩⟩⟩
  · simp only [regString, ← hbb, hoff, hreg₁, hreg₂]
  · simp [ColumnHandle.valid]
  · rw [hbb, if_neg fun h0 => hne (List.eq_nil_of_length_eq_zero h0)]
  · have hserves := hS₂.same hq
    rwa [hbb, if_neg fun h0 => hne (List.eq_nil_of_length_eq_zero h0)] at hserves

/-- **String columns**: whatever the arrays and their slices are, the files have every string between two offsets,
and the handle reads it back; an array of another type that has a row throws, and leaves the writer as it was. -/
theorem string_column (arrs : List ArrowArray) (h : ∀ arr ∈ arrs, arr.type.isString)
    (hfit : (arrs.flatMap ArrowArray.rows).flatten.length < 2 ^ 63) (hR : Ready p) :
    ∃ sw offsets bytes hd p', StringWriter.writeChunks {} arrs = (sw, none) ∧ sw.nrows = (arrs.flatMap ArrowArray.rows).length ∧
      sw.finish.offF.close.file = encode offsets ∧ sw.finish.byteF.close.file = bytes ∧
      offsets.length = sw.nrows + 1 ∧ offsets.head? = some 0 ∧ offsets.getLast? = some bytes.length ∧
      offsets.IsChain (· ≤ ·) ∧
      regString p (encode offsets) bytes sw.nrows = .ok (hd, p') ∧ Ready p' ∧
      (∀ q, Ready q → SameFiles p' q → ∀ i (hi : i < (arrs.flatMap ArrowArray.rows).length),
        ∃ q', hd.get q i = .ok ((arrs.flatMap ArrowArray.rows)[i], q') ∧ Ready q' ∧ SameFiles q q') ∧
      ∀ sw' arr, ¬ arr.type.isString → 0 < arr.length → ∃ e, StringWriter.writeChunk sw' arr = (sw', some e) := by
  obtain ⟨sw, hsw, hH⟩ := Holds.nil.writeChunks h
  rw [List.nil_append] at hH
  obtain ⟨hoff, hbytes⟩ := hH.finish
  obtain ⟨hd, p', hreg, hR', hO⟩ := regString_spec hR (arrs.flatMap ArrowArray.rows)
  have hn := hH.nrows
  refine ⟨sw, _, _, hd, p', hsw, hn, hoff, hbytes, ?_, ?_, ?_, ?_, ?_, hR', ?_, fun sw' arr ht hpos => ?_⟩
  · rw [hn, length_allOffsets]
  · have := getElem_allOffsets (i := 0) (show 0 < (allOffsets (arrs.flatMap ArrowArray.rows)).length by simp [length_allOffsets])
    rw [List.head?_eq_getElem?, List.getElem?_eq_getElem (by simp [length_allOffsets]), this]
    simp
  · simp [allOffsets, List.length_flatten]
  · rw [List.isChain_iff_getElem]
    intro i hi
    rw [getElem_allOffsets (by omega), getElem_allOffsets hi]
    rw [length_allOffsets] at hi
    rw [List.take_succ_eq_append_getElem (by omega), List.map_append, List.sum_append]
    exact Nat.le_add_right ..
  · rw [hn]
    exact hreg
  · exact fun q hq hsame => StringColumnHandle.get_spec hq (hO q hsame) hfit
  · exact StringWriter.writeChunk_other sw' ht hpos

/-- A slice of one string of a parent of three, the last two of it `"é"` and `""`. -/
def slicedArray : ArrowArray where
  type := .string
  offset := 1
  length := 2
  valueOffsets := [0, 1, 3, 3]
  data := [120, 195, 169]
  sorted := by decide
  inside := by decide

theorem string_column_slice : ∃ sw offsets bytes hd p', StringWriter.writeChunks {} [slicedArray] = (sw, none) ∧ sw.nrows = 2 ∧
    sw.finish.offF.close.file = encode offsets ∧ sw.finish.byteF.close.file = bytes ∧
    regString smallPool (encode offsets) bytes sw.nrows = .ok (hd, p') ∧
    ∃ q', StringColumnHandle.get hd p' 0 = .ok ([195, 169], q') := by
  have hstr : ∀ arr ∈ [slicedArray], arr.type.isString := by simp [slicedArray, ArrowType.isString]
  have hready : Ready smallPool := ready_init (by decide) []
  obtain ⟨sw, offsets, bytes, hd, p', hsw, hn, hoff, hbytes, -, -, -, -, hreg, hR', hget, -⟩ :=
    string_column [slicedArray] hstr (by decide) hready
  obtain ⟨q', hq, -⟩ := hget p' hR' ⟨rfl, rfl⟩ 0 (by decide)
  exact ⟨sw, offsets, bytes, hd, p', hsw, hn, hoff, hbytes, hreg, q', hq⟩

/-- An array of integers that has no row. -/
def noIntegers : ArrowArray where
  type := .other "int64"
  length := 0
  valueOffsets := []
  data := []
  sorted := by simp
  inside := by simp

theorem other_empty : ¬ noIntegers.type.isString ∧ StringWriter.writeChunk {} noIntegers = ({}, none) ∧
    ¬ ∀ (sw : StringWriter) (arr : ArrowArray), ¬ arr.type.isString → ∃ e, StringWriter.writeChunk sw arr = (sw, some e) := by
  refine ⟨by decide, rfl, fun hall => ?_⟩
  obtain ⟨e, he⟩ := hall {} noIntegers (by decide)
  cases congrArg Prod.snd he

end SynnoDB.Ssd
