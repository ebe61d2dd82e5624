import SynnoDB.Ssd.Reading

/-!
# Page-aligned fixed-char columns read back (`file_loader_utils.cpp:397-497`, `column_handle.hpp:46-130`)

What is written keeps every row where the handle looks for it (`Written`), across any batches and chunks. `get` and
`pin_range` deliver the rows, since both are bounded by `num_rows`. **`pin_page` is not**: its count is that of the
page's bytes, and every page of such a file is full, so a scan of the pages ends with the padding of the last one,
and the column reads back by all three ways exactly if the last page is full of rows (`fixed_char_verdict`).
-/

namespace SynnoDB.Ssd

open Hotpatch (Bytes)
open ColumnHandle (rowsIn_pos rowsIn_mul_le)

variable {w : Nat} {rows batch : List Bytes} {file : Bytes}

/-! ## Where the rows are -/

theorem valueStart_add {r b : Nat} (h : r % rowsIn w + b < rowsIn w) :
    valueStart w (r + b) = valueStart w r + b * w := by
  have hsplit : r + b = r / rowsIn w * rowsIn w + (r % rowsIn w + b) := by
    have := Nat.div_add_mod' r (rowsIn w)
    omega
  rw [valueStart, hsplit, div_of_block h, mod_of_block h, valueStart, Nat.add_mul, Nat.add_assoc]

/-- A page that is full. -/
theorem valueStart_full {r b : Nat} (hpos : 0 < rowsIn w) (h : r % rowsIn w + b = rowsIn w) :
    valueStart w (r + b) = valueStart w r + b * w + (bpPage - rowsIn w * w) := by
  have hsplit : r + b = (r / rowsIn w + 1) * rowsIn w + 0 := by
    have := Nat.div_add_mod' r (rowsIn w)
    rw [Nat.add_mul]
    omega
  have hmul : r % rowsIn w * w + b * w = rowsIn w * w := by rw [← Nat.add_mul, h]
  have hle := rowsIn_mul_le w
  rw [valueStart, hsplit, div_of_block hpos, mod_of_block hpos, valueStart, Nat.add_mul]
  omega

theorem valueStart_lt {i r : Nat} (hpos : 0 < rowsIn w) (h : i < r) : valueStart w i + w ≤ valueStart w r := by
  have hi := Nat.div_add_mod' i (rowsIn w)
  have hr := Nat.div_add_mod' r (rowsIn w)
  have hmi := Nat.mod_lt i hpos
  have hq : i / rowsIn w ≤ r / rowsIn w := Nat.div_le_div_right h.le
  unfold valueStart
  rcases Nat.lt_or_eq_of_le hq with hlt | heq
  · -- on an earlier page
    have h1 := Nat.mul_le_mul_right w (show i % rowsIn w + 1 ≤ rowsIn w from hmi)
    have h2 := rowsIn_mul_le w
    have h3 := Nat.mul_le_mul_right bpPage (show i / rowsIn w + 1 ≤ r / rowsIn w from hlt)
    rw [Nat.add_mul, Nat.one_mul] at h1 h3
    omega
  · have h1 : i % rowsIn w + 1 ≤ r % rowsIn w := by
      rw [heq] at hi
      omega
    have h2 := Nat.mul_le_mul_right w h1
    rw [Nat.add_mul, Nat.one_mul] at h2
    rw [heq]
    omega

/-- The values that were there stay. -/
theorem valueAt_append {more : Bytes} {i : Nat} (h : valueStart w i + w ≤ file.length) :
    valueAt w (file ++ more) i = valueAt w file i := by
  rw [valueAt, valueAt, List.drop_append_of_le_length (by omega), List.take_append_of_le_length]
  rw [List.length_drop]
  omega

theorem flatten_length (hw : ∀ r ∈ rows, r.length = w) : rows.flatten.length = rows.length * w := by
  induction rows with
  | nil => simp
  | cons r rows ih =>
    have hr := hw r List.mem_cons_self
    rw [List.flatten_cons, List.length_append, ih fun r h =>
      hw r (List.mem_cons_of_mem _ h), hr, List.length_cons, Nat.add_mul]
    omega

theorem flatten_row (hw : ∀ r ∈ rows, r.length = w) {j : Nat} (hj : j < rows.length) :
    (rows.flatten.drop (j * w)).take w = rows[j] := by
  induction rows generalizing j with
  | nil => simp at hj
  | cons r rows ih =>
    have hr := hw r List.mem_cons_self
    cases j with
    | zero => simp [← hr]
    | succ j =>
      have hdrop : (r ++ rows.flatten).drop ((j + 1) * w) = rows.flatten.drop (j * w) := by
        rw [show (j + 1) * w = r.length + j * w by rw [hr, Nat.add_mul]; omega, ← List.drop_drop, List.drop_left]
      rw [List.flatten_cons, hdrop, ih fun r h => hw r (List.mem_cons_of_mem _ h)]
      rfl

/-! ## Writing -/

/-- The rows so far, each where the handle looks for it; the file is at the place of the next one. -/
structure Written (w : Nat) (rows : List Bytes) (file : Bytes) : Prop where
  width : ∀ r ∈ rows, r.length = w
  length : file.length = valueStart w rows.length
  values : ∀ i (hi : i < rows.length), valueAt w file i = rows[i]

theorem Written.nil : Written w [] [] where
  width := by simp
  length := by simp [valueStart]
  values := by simp

/-- A batch that stays on the page, and what may follow it. -/
theorem Written.values_append (h : Written w rows file) (hpos : 0 < rowsIn w) (hb : ∀ r ∈ batch, r.length = w)
    (hfit : rows.length % rowsIn w + batch.length ≤ rowsIn w) (more : Bytes) :
    ∀ i (hi : i < (rows ++ batch).length), valueAt w (file ++ batch.flatten ++ more) i = (rows ++ batch)[i] := by
  intro i hi
  rw [List.length_append] at hi
  by_cases hold : i < rows.length
  · have hin := valueStart_lt hpos hold
    rw [← h.length] at hin
    rw [List.append_assoc, valueAt_append hin, h.values i hold, List.getElem_append_left hold]
  · obtain ⟨j, rfl⟩ : ∃ j, i = rows.length + j := ⟨i - rows.length, by omega⟩
    have hj : j < batch.length := by omega
    have hstart : valueStart w (rows.length + j) = file.length + j * w := by
      rw [valueStart_add (by omega), h.length]
    have hflat := flatten_length hb
    have hroom := Nat.mul_le_mul_right w (show j + 1 ≤ batch.length from hj)
    rw [Nat.add_mul, Nat.one_mul, ← hflat] at hroom
    rw [valueAt_append (by rw [hstart, List.length_append]; omega), valueAt, hstart, ← List.drop_drop, List.drop_left,
      flatten_row hb hj, List.getElem_append_right (by omega)]
    simp

theorem Written.mem_width (h : Written w rows file) (hb : ∀ r ∈ batch, r.length = w) :
    ∀ r ∈ rows ++ batch, r.length = w := by
  intro r hr
  rcases List.mem_append.1 hr with hr | hr
  · exact h.width r hr
  · exact hb r hr

theorem Written.append (h : Written w rows file) (hpos : 0 < rowsIn w) (hb : ∀ r ∈ batch, r.length = w)
    (hfit : rows.length % rowsIn w + batch.length < rowsIn w) : Written w (rows ++ batch) (file ++ batch.flatten) where
  width := h.mem_width hb
  length := by rw [List.length_append, List.length_append, valueStart_add hfit, flatten_length hb, h.length]
  values := by simpa using h.values_append hpos hb hfit.le []

/-- The batch that completes a page, with the page's tail. -/
theorem Written.complete (h : Written w rows file) (hpos : 0 < rowsIn w) (hb : ∀ r ∈ batch, r.length = w)
    (hfit : rows.length % rowsIn w + batch.length = rowsIn w) :
    Written w (rows ++ batch) (file ++ batch.flatten ++ List.replicate (bpPage - rowsIn w * w) 0) where
  width := h.mem_width hb
  length := by
    rw [List.length_append, List.length_append, List.length_append, valueStart_full hpos hfit,
      flatten_length hb, h.length,
      List.length_replicate]
  values := h.values_append hpos hb hfit.le _

theorem length_fixedRow (w : Nat) (sv : Bytes) : (fixedRow w sv).length = w := by
  rw [fixedRow, List.length_append, List.length_take, List.length_replicate]
  omega

theorem extractSv_eq {chunk : ArrowArray} (h : chunk.type.isString) :
    chunk.extractSv = fun i => .ok (chunk.view i) := by
  funext i
  unfold ArrowArray.extractSv
  cases ht : chunk.type with
  | string => rfl
  | largeString => rfl
  | other name =>
    rw [ht] at h
    cases h

/-- A chunk, from row `i` on. -/
theorem fixedChunkLoop_spec (h0 : 0 < w) (h1 : w ≤ bpPage) {chunk : ArrowArray} (hstr : chunk.type.isString)
    {fuel : Nat} :
    ∀ {i : Nat} {f : FdStream} {rows : List Bytes}, Written w rows f.contents → chunk.length - i ≤ fuel →
      ∃ f', fixedChunkLoop w chunk fuel i (f, rows.length) =
          .ok (f', (rows ++ (chunk.rows.drop i).map (fixedRow w)).length) ∧
        Written w (rows ++ (chunk.rows.drop i).map (fixedRow w)) f'.contents := by
  have hpos := rowsIn_pos h0 h1
  have hrows : chunk.rows.length = chunk.length := by simp [ArrowArray.rows]
  induction fuel with
  | zero =>
    intro i f rows hW hi
    rw [List.drop_of_length_le (by omega), List.map_nil, List.append_nil]
    exact ⟨f, rfl, hW⟩
  | succ fuel ih =>
    intro i f rows hW hi
    unfold fixedChunkLoop
    by_cases hlt : i < chunk.length
    · obtain ⟨n, hn⟩ : ∃ n, n = min (min 4096 (chunk.length - i)) (rowsIn w - rows.length % rowsIn w) := ⟨_, rfl⟩
      have hmod := Nat.mod_lt rows.length hpos
      have hsvs : (List.range n).mapM (fun j => chunk.extractSv (i + j)) =
          (.ok ((List.range n).map fun j => chunk.view (i + j)) : Except String (List Bytes)) := by
        rw [extractSv_eq hstr]
        exact List.mapM_pure
      obtain ⟨batch, hbatch⟩ : ∃ batch, batch = ((List.range n).map fun j => chunk.view (i + j)).map
        (fixedRow w) := ⟨_, rfl⟩
      have hb : ∀ r ∈ batch, r.length = w := by
        intro r hr
        rw [hbatch] at hr
        obtain ⟨sv, -, rfl⟩ := List.mem_map.1 hr
        exact length_fixedRow w sv
      have hlen : batch.length = n := by simp [hbatch]
      have hrest : (chunk.rows.drop i).map (fixedRow w) = batch ++ (chunk.rows.drop (i + n)).map (fixedRow w) := by
        rw [hbatch, ← List.map_append]
        congr 1
        apply List.ext_getElem
        · simp [hrows]
          omega
        · intro j hj hj'
          by_cases hjn : j < n
          · rw [List.getElem_append_left (by simpa using hjn)]
            simp [ArrowArray.rows]
          · rw [List.getElem_append_right (by simp; omega)]
            simp only [ArrowArray.rows, List.getElem_drop, List.getElem_map, List.getElem_range, List.length_map,
              List.length_range]
            congr 1
            omega
      have hflat : ((List.range n).map fun j => chunk.view (i + j)).flatMap (fixedRow w) = batch.flatten := by
        rw [hbatch, List.flatMap_def]
      have hn' : min (min 4096 (chunk.length - i)) (bpPage / w - rows.length % (bpPage / w)) = n := hn.symm
      rw [if_pos hlt]
      simp only [hn', hsvs, hflat]
      -- the page is complete, or it is not
      have hrec : ∀ f₁ : FdStream, Written w (rows ++ batch) f₁.contents →
          ∃ f', fixedChunkLoop w chunk fuel (i + n) (f₁, rows.length + n) =
              .ok (f', (rows ++ (chunk.rows.drop i).map (fixedRow w)).length) ∧
            Written w (rows ++ (chunk.rows.drop i).map (fixedRow w)) f'.contents := by
        intro f₁ hW₁
        have := ih hW₁ (i := i + n) (by omega)
        rwa [List.length_append, hlen, List.append_assoc, ← hrest] at this
      apply hrec
      by_cases hfull : rows.length % rowsIn w + n = rowsIn w
      · have hmod0 : (rows.length + n) % (bpPage / w) = 0 := by
          rw [← Nat.mod_add_mod]
          show (rows.length % rowsIn w + n) % rowsIn w = 0
          rw [hfull, Nat.mod_self]
        have hdone := hW.complete hpos hb (by rw [hlen]; exact hfull)
        by_cases htail : 0 < bpPage - bpPage / w * w
        · rw [if_pos ⟨htail, hmod0⟩, FdStream.contents_writeZeroPad, FdStream.contents_write]
          exact hdone
        · rw [if_neg fun h => htail h.1, FdStream.contents_write]
          rwa [show bpPage - rowsIn w * w = 0 from Nat.eq_zero_of_not_pos htail, List.replicate_zero,
            List.append_nil] at hdone
      · have hlt' : rows.length % rowsIn w + n < rowsIn w := by omega
        have hmod : (rows.length + n) % (bpPage / w) ≠ 0 := by
          rw [← Nat.mod_add_mod]
          show (rows.length % rowsIn w + n) % rowsIn w ≠ 0
          rw [Nat.mod_eq_of_lt hlt']
          omega
        rw [if_neg fun h => hmod h.2, FdStream.contents_write]
        exact hW.append hpos hb (by rw [hlen]; exact hlt')
    · rw [if_neg hlt, List.drop_of_length_le (by omega), List.map_nil, List.append_nil]
      exact ⟨f, rfl, hW⟩

theorem writeFixed_spec {width : Int} (h0 : 0 < width) (h1 : width ≤ bpPageBytes) :
    ∀ {ca : List ArrowArray} {f : FdStream}
    {rows : List Bytes}, (∀ chunk ∈ ca, chunk.type.isString) → Written width.toNat rows f.contents →
      ∃ f', writeFixedCharColAligned f ca width rows.length =
          .ok (f', (rows ++ (ca.flatMap ArrowArray.rows).map (fixedRow width.toNat)).length) ∧
        Written width.toNat (rows ++ (ca.flatMap ArrowArray.rows).map (fixedRow width.toNat)) f'.contents := by
  have hbad : ¬ (width ≤ 0 ∨ width > bpPageBytes) := by omega
  have hw0 : 0 < width.toNat := by omega
  have hw1 : width.toNat ≤ bpPage := by
    unfold bpPageBytes at h1
    unfold bpPage
    omega
  intro ca
  simp only [writeFixedCharColAligned, if_neg hbad]
  induction ca with
  | nil =>
    intro f rows _ hW
    refine ⟨f, ?_, ?_⟩
    · simp
      rfl
    · simpa using hW
  | cons chunk ca ih =>
    intro f rows hstr hW
    obtain ⟨f₁, hf₁, hW₁⟩ := fixedChunkLoop_spec hw0 hw1 (hstr chunk List.mem_cons_self) (i := 0) hW (Nat.sub_le ..)
    rw [List.drop_zero] at hf₁ hW₁
    obtain ⟨f₂, hf₂, hW₂⟩ := ih (fun c hc => hstr c (List.mem_cons_of_mem _ hc)) hW₁
    rw [List.append_assoc, ← List.map_append, ← List.flatMap_cons] at hf₂ hW₂
    exact ⟨f₂, by rw [List.foldlM_cons, hf₁]; exact hf₂, hW₂⟩

/-- The calls for a file, each with what the one before has counted, then `finish_fixed_char_col_aligned` and
`close`. -/
def fixedFile (calls : List (List ArrowArray)) (width : Int) : Except String (Bytes × Nat) :=
  match calls.foldlM (fun s ca => writeFixedCharColAligned s.1 ca width s.2) (({} : FdStream), 0) with
  | .error e => .error e
  | .ok (f, rowsWritten) => match finishFixedCharColAligned f rowsWritten width with
    | .error e => .error e
    | .ok f => .ok (f.close.file, rowsWritten)

/-- What the calls are given, in order. -/
def strings (calls : List (List ArrowArray)) : List Bytes := calls.flatten.flatMap ArrowArray.rows

theorem writeCalls_spec {width : Int} (h0 : 0 < width) (h1 : width ≤ bpPageBytes) : ∀ {calls : List (List ArrowArray)}
    {f : FdStream} {rows : List Bytes}, (∀ ca ∈ calls, ∀ chunk ∈ ca, chunk.type.isString) →
      Written width.toNat rows f.contents →
      ∃ f', calls.foldlM (fun s ca => writeFixedCharColAligned s.1 ca width s.2) (f, rows.length) =
          .ok (f', (rows ++ (strings calls).map (fixedRow width.toNat)).length) ∧
        Written width.toNat (rows ++ (strings calls).map (fixedRow width.toNat)) f'.contents := by
  intro calls
  induction calls with
  | nil =>
    intro f rows _ hW
    refine ⟨f, ?_, ?_⟩
    · simp [strings]
      rfl
    · simpa [strings] using hW
  | cons ca calls ih =>
    intro f rows hstr hW
    obtain ⟨f₁, hf₁, hW₁⟩ := writeFixed_spec h0 h1 (hstr ca List.mem_cons_self) hW
    obtain ⟨f₂, hf₂, hW₂⟩ := ih (fun c hc => hstr c (List.mem_cons_of_mem _ hc)) hW₁
    have hcons : strings (ca :: calls) = ca.flatMap ArrowArray.rows ++ strings calls := by simp [strings]
    rw [List.append_assoc, ← List.map_append, ← hcons] at hf₂ hW₂
    exact ⟨f₂, by rw [List.foldlM_cons, hf₁]; exact hf₂, hW₂⟩

/-! ## The whole file -/

/-- The pages that are registered for so many rows. -/
def pagesFor (w r : Nat) : Nat := (r + rowsIn w - 1) / rowsIn w

theorem pagesFor_eq {r : Nat} (hpos : 0 < rowsIn w) :
    pagesFor w r = r / rowsIn w + if r % rowsIn w = 0 then 0 else 1 := by
  have hsplit := Nat.div_add_mod' r (rowsIn w)
  have hmod := Nat.mod_lt r hpos
  unfold pagesFor
  by_cases h : r % rowsIn w = 0
  · rw [if_pos h, show r + rowsIn w - 1 = r / rowsIn w * rowsIn w + (rowsIn w - 1) by omega,
      div_of_block (by omega), Nat.add_zero]
  · have : r + rowsIn w - 1 = (r / rowsIn w + 1) * rowsIn w + (r % rowsIn w - 1) := by
      rw [Nat.add_mul]
      omega
    rw [if_neg h, this, div_of_block (by omega)]

/-- Whole pages, with every row where the handle looks for it. -/
structure Complete (w : Nat) (rows : List Bytes) (file : Bytes) : Prop where
  size : file.length = pagesFor w rows.length * bpPage
  covers : Covers w file rows.length
  values : ∀ i (hi : i < rows.length), valueAt w file i = rows[i]

theorem Written.finish (h : Written w rows file) (hpos : 0 < rowsIn w) : Complete w rows
    (if rows.length % rowsIn w = 0 then file
      else file ++ List.replicate ((rowsIn w - rows.length % rowsIn w) * w + (bpPage - rowsIn w * w)) 0) := by
  have hstart := h.length
  have hcovers : Covers w file rows.length := fun i hi => by
    rw [h.length]
    exact valueStart_lt hpos hi
  unfold valueStart at hstart
  by_cases h0 : rows.length % rowsIn w = 0
  · rw [if_pos h0]
    refine ⟨?_, hcovers, h.values⟩
    rw [hstart, pagesFor_eq hpos, if_pos h0, h0, Nat.zero_mul, Nat.add_zero, Nat.add_zero]
  · rw [if_neg h0]
    refine ⟨?_, fun i hi => ?_, fun i hi => ?_⟩
    · have hmod := Nat.mod_lt rows.length hpos
      have hmul : rows.length % rowsIn w * w + (rowsIn w - rows.length % rowsIn w) * w = rowsIn w * w := by
        rw [← Nat.add_mul]
        congr 1
        omega
      have hle := rowsIn_mul_le w
      rw [List.length_append, List.length_replicate, hstart, pagesFor_eq hpos, if_neg h0, Nat.add_mul, Nat.one_mul]
      omega
    · rw [List.length_append]
      exact (hcovers i hi).trans (Nat.le_add_right ..)
    · rw [valueAt_append (hcovers i hi), h.values i hi]

/-- **The file**: whatever the calls and their chunks are, it is complete. -/
theorem fixedFile_spec {width : Int} (h0 : 0 < width) (h1 : width ≤ bpPageBytes) {calls : List (List ArrowArray)}
    (hstr : ∀ ca ∈ calls, ∀ chunk ∈ ca, chunk.type.isString) :
    ∃ file, fixedFile calls width = .ok (file, (strings calls).length) ∧
      Complete width.toNat ((strings calls).map (fixedRow width.toNat)) file := by
  have hw1 : width.toNat ≤ bpPage := by
    unfold bpPageBytes at h1
    unfold bpPage
    omega
  have hpos := rowsIn_pos (show 0 < width.toNat by omega) hw1
  obtain ⟨f, hf, hW⟩ := writeCalls_spec h0 h1 (f := {}) hstr .nil
  rw [List.nil_append] at hf hW
  have hbad : ¬ (width ≤ 0 ∨ width > bpPageBytes) := by omega
  have hC := hW.finish hpos
  simp only [List.length_map] at hf hC
  rw [List.length_nil] at hf
  simp only [fixedFile, hf, finishFixedCharColAligned, if_neg hbad]
  by_cases hpage : (strings calls).length % rowsIn width.toNat = 0
  · rw [if_pos hpage] at hC
    rw [if_pos (show (strings calls).length % (bpPage / width.toNat) = 0 from hpage)]
    exact ⟨_, rfl, hC⟩
  · rw [if_neg hpage] at hC
    rw [if_neg (show ¬ (strings calls).length % (bpPage / width.toNat) = 0 from hpage)]
    refine ⟨_, rfl, ?_⟩
    rw [FdStream.file_close, FdStream.contents_writeZeroPad]
    exact hC

/-! ## Reading it back -/

open Pool ColumnHandle

variable {n : Nat}

/-- The three ways of reading, with no page left pinned but that of a range. -/
structure ReadsBack (w : Nat) (rows : List Bytes) (h : ColumnHandle) (p : Pool n) : Prop where
  get : ∀ i (hi : i < rows.length), ∃ p', h.get w p i = .ok (rows[i], p') ∧ Ready p' ∧ SameFiles p p'
  range : ∀ a m : Nat, a ≤ rows.length → ∃ r p', h.pinRange w p a m = .ok (r, p') ∧ r.count = (reach w rows.length a m : Nat) ∧
    r.data.take (reach w rows.length a m) = (rows.drop a).take (reach w rows.length a m) ∧
    (0 < reach w rows.length a m → ∃ p'', h.unpinPage p' r.pageIdx = .ok p'' ∧ Ready p'' ∧ SameFiles p p'')
  scan : ∃ p', h.scan w p = .ok (rows, p') ∧ Ready p' ∧ SameFiles p p'

theorem Complete.get {p : Pool n} {h : ColumnHandle} (hC : Complete w rows file) (h0 : 0 < w) (h1 : w ≤ bpPage)
    (hR : Ready p)
    (hO : h.On p file rows.length) : ∀ i (hi : i < rows.length), ∃ p', h.get w p i = .ok (rows[i], p') ∧ Ready p' ∧
      SameFiles p p' := by
  intro i hi
  obtain ⟨p', hget, hR', hsame⟩ := get_spec hR hO h0 h1 hC.covers hi
  exact ⟨p', by rw [hget, hC.values i hi], hR', hsame⟩

theorem Complete.range {p : Pool n} {h : ColumnHandle} (hC : Complete w rows file) (h0 : 0 < w)
    (h1 : w ≤ bpPage) (hR : Ready p)
    (hO : h.On p file rows.length) : ∀ a m : Nat, a ≤ rows.length → ∃ r p', h.pinRange w p a m = .ok (r, p') ∧
      r.count = (reach w rows.length a m : Nat) ∧
      r.data.take (reach w rows.length a m) = (rows.drop a).take (reach w rows.length a m) ∧
      (0 < reach w rows.length a m → ∃ p'', h.unpinPage p' r.pageIdx = .ok p'' ∧ Ready p'' ∧ SameFiles p p'') := by
  intro a m ha
  have hpos := rowsIn_pos h0 h1
  by_cases hreach : reach w rows.length a m = 0
  · exact ⟨{}, p, pinRange_empty hO.rows hpos ha hreach, by rw [hreach]; rfl, by rw [hreach]; rfl, by omega⟩
  · have hlt : a < rows.length ∧ 0 < m := by
      unfold reach at hreach
      omega
    obtain ⟨r, p', p'', hpin, hcount, hdata, hunpin, hR'', hsame⟩ := pinRange_spec hR hO h0 h1 hC.covers hlt.1 hlt.2
    refine ⟨r, p', hpin, hcount, ?_, fun _ => ⟨p'', hunpin, hR'', hsame⟩⟩
    have hend : a + reach w rows.length a m ≤ rows.length := by
      unfold reach
      omega
    rw [hdata]
    apply List.ext_getElem
    · simp
      omega
    · intro j hj hj'
      simp only [List.length_map, List.length_range] at hj
      rw [List.getElem_map, List.getElem_range, List.getElem_take, List.getElem_drop]
      exact hC.values (a + j) (by omega)

/-- Every page of the file is full of values, of rows or of padding. -/
theorem Complete.pages (hC : Complete w rows file) {k : Nat} (hk : k ≤ pagesFor w rows.length) :
    ((List.range k).flatMap fun pg => cells w (pageAt file pg)) = (List.range (k * rowsIn w)).map (valueAt w file) := by
  induction k with
  | zero => simp
  | succ k ih =>
    have hlen : (cells w (pageAt file k)).length = rowsIn w := by
      have hmul := Nat.mul_le_mul_right bpPage hk
      rw [Nat.add_mul, Nat.one_mul] at hmul
      rw [length_cells, pageAt, List.length_take, List.length_drop, hC.size, min_eq_left (by omega)]
      rfl
    have hcells : cells w (pageAt file k) = (List.range (rowsIn w)).map fun j => valueAt w file (k * rowsIn w + j) := by
      apply List.ext_getElem
      · simp [hlen]
      · intro j hj hj'
        rw [cells_pageAt (by omega), List.getElem_map, List.getElem_range]
    rw [List.range_succ, List.flatMap_append, ih (by omega), List.flatMap_singleton, hcells, Nat.add_mul, Nat.one_mul,
      List.range_add, List.map_append, List.map_map]
    rfl

/-- A scan delivers as many values as the pages have room for. -/
theorem Complete.scan {p : Pool n} {h : ColumnHandle} (hC : Complete w rows file) (h0 : 0 < w) (h1 : w ≤ bpPage)
    (hR : Ready p)
    (hO : h.On p file rows.length) : ∃ p', h.scan w p =
      .ok ((List.range (pagesFor w rows.length * rowsIn w)).map (valueAt w file), p') ∧ Ready p' ∧ SameFiles p p' := by
  have hpos := rowsIn_pos h0 h1
  obtain ⟨p', hscan, hR', hsame⟩ := scan_spec hR hO (numPages_eq hO.rows hpos) (fun pg hpg => by
    rw [hC.size]
    exact Nat.mul_lt_mul_of_pos_right hpg (by decide))
  exact ⟨p', by rw [hscan, ← hC.pages (le_refl _)]; rfl, hR', hsame⟩

/-- The rows, and no more of them, are delivered exactly if the last page is full. -/
theorem Complete.scan_iff (hC : Complete w rows file) (hpos : 0 < rowsIn w) :
    (List.range (pagesFor w rows.length * rowsIn w)).map (valueAt w file) = rows ↔ rows.length % rowsIn w = 0 := by
  have hsplit := Nat.div_add_mod' rows.length (rowsIn w)
  have hmod := Nat.mod_lt rows.length hpos
  constructor
  · intro h
    have hlen := congrArg List.length h
    rw [List.length_map, List.length_range, pagesFor_eq hpos] at hlen
    by_contra hne
    rw [if_neg hne, Nat.add_mul, Nat.one_mul] at hlen
    omega
  · intro h
    have hlen : pagesFor w rows.length * rowsIn w = rows.length := by
      rw [pagesFor_eq hpos, if_pos h, Nat.add_zero]
      omega
    rw [hlen]
    apply List.ext_getElem
    · simp
    · intro i hi hi'
      rw [List.getElem_map, List.getElem_range, hC.values i hi']

/-- Writing, finishing and registering succeed, and the handle is over the whole file. -/
theorem fixed_char_handle {width : Int} (h0 : 0 < width) (h1 : width ≤ bpPageBytes) {calls : List (List ArrowArray)}
    (hstr : ∀ ca ∈ calls, ∀ chunk ∈ ca, chunk.type.isString) {p : Pool n} (hR : Ready p) :
    ∃ file h p', fixedFile calls width = .ok (file, (strings calls).length) ∧
      regPageAlignedFixedWidth p width.toNat file (strings calls).length = .ok (h, p') ∧ Ready p' ∧
      Complete width.toNat ((strings calls).map (fixedRow width.toNat)) file ∧
      ∀ q, SameFiles p' q → h.On q file ((strings calls).map (fixedRow width.toNat)).length := by
  have hpos := rowsIn_pos (show 0 < width.toNat by omega) (show width.toNat ≤ bpPage by
    unfold bpPageBytes at h1
    unfold bpPage
    omega)
  obtain ⟨file, hfile, hC⟩ := fixedFile_spec h0 h1 hstr
  obtain ⟨p', hreg, hR', hS, -⟩ := register_spec hR file (show (0 : Int) ≤ file.length by omega)
  have hsize := hC.size
  rw [List.length_map] at hsize
  have hbytes : (((strings calls).length : Int) + rowsPerPage width.toNat - 1) / rowsPerPage width.toNat * bpPageBytes =
      file.length := by
    have := numPages_eq (h := ⟨true, 0, (strings calls).length⟩) rfl hpos
    rw [numPages] at this
    rw [this, hsize]
    simp [pagesFor, bpPageBytes, bpPage]
  refine ⟨file, ⟨true, p.pool.cols.length, (strings calls).length⟩, p', hfile, ?_, hR', hC, fun q hq => ?_⟩
  · simp only [regPageAlignedFixedWidth, hbytes, hreg]
  · exact ⟨rfl, by simp, hS.same hq⟩

/-- **Page-aligned fixed-char columns**: the file has whole pages, and the rows are read back in all three ways
exactly if their number is a multiple of `ROWS_PER_PAGE`. -/
theorem fixed_char_verdict {width : Int} (h0 : 0 < width) (h1 : width ≤ bpPageBytes) (calls : List (List ArrowArray))
    (hstr : ∀ ca ∈ calls, ∀ chunk ∈ ca, chunk.type.isString) {p : Pool n} (hR : Ready p) :
    ∃ file h p', fixedFile calls width = .ok (file, (strings calls).length) ∧
      regPageAlignedFixedWidth p width.toNat file (strings calls).length = .ok (h, p') ∧ Ready p' ∧
      file.length = pagesFor width.toNat (strings calls).length * bpPage ∧
      ((∀ q, Ready q → SameFiles p' q → ReadsBack width.toNat ((strings calls).map (fixedRow width.toNat)) h q) ↔
        (strings calls).length % rowsIn width.toNat = 0) := by
  have hw0 : 0 < width.toNat := by omega
  have hw1 : width.toNat ≤ bpPage := by
    unfold bpPageBytes at h1
    unfold bpPage
    omega
  obtain ⟨file, h, p', hfile, hreg, hR', hC, hO⟩ := fixed_char_handle h0 h1 hstr hR
  have hsize := hC.size
  have hiff := hC.scan_iff (rowsIn_pos hw0 hw1)
  rw [List.length_map] at hsize hiff
  refine ⟨file, h, p', hfile, hreg, hR', hsize, ?_⟩
  rw [← hiff]
  constructor
  · intro hall
    obtain ⟨q, hscan, -, -⟩ := (hall p' hR' ⟨rfl, rfl⟩).scan
    obtain ⟨q', hscan', -, -⟩ := hC.scan hw0 hw1 hR' (hO p' ⟨rfl, rfl⟩)
    rw [hscan, List.length_map] at hscan'
    exact (congrArg Prod.fst (Except.ok.inj hscan')).symm
  · intro hrows q hq hsame
    refine ⟨hC.get hw0 hw1 hq (hO q hsame), hC.range hw0 hw1 hq (hO q hsame), ?_⟩
    have := hC.scan hw0 hw1 hq (hO q hsame)
    rwa [List.length_map, hrows] at this

/-- One string of one byte, in an array of its own. -/
def oneString : ArrowArray where
  type := .string
  length := 1
  valueOffsets := [0, 1]
  data := [120]
  sorted := by simp
  inside := by simp

/-- A pool with one frame. -/
def smallPool : Pool 1 := ⟨BufferPool.init Nat.one_pos [] [], []⟩

theorem fixed_char_verdict_one : ∃ file h p', fixedFile [[oneString]] 5 = .ok (file, 1) ∧
    regPageAlignedFixedWidth smallPool 5 file 1 = .ok (h, p') ∧ Ready p' ∧ file.length = pagesFor 5 1 * bpPage ∧
    ((∀ q, Ready q → SameFiles p' q → ReadsBack 5 ([[120]].map (fixedRow 5)) h q) ↔ 1 % rowsIn 5 = 0) :=
  fixed_char_verdict (by decide) (by decide) [[oneString]] (by simp [oneString, ArrowType.isString])
    (ready_init (by decide) [])

/-- Rows of half a page, and only one of them: a scan delivers two. -/
theorem scan_delivers_padding : ∃ file h p', fixedFile [[oneString]] 1048576 = .ok (file, 1) ∧
    regPageAlignedFixedWidth smallPool 1048576 file 1 = .ok (h, p') ∧
    ∃ values q, h.scan 1048576 p' = .ok (values, q) ∧ values.length = 2 ∧
      ¬ ReadsBack 1048576 ([[120]].map (fixedRow 1048576)) h p' := by
  have h0 : (0 : Int) < 1048576 := by decide
  have hstr : ∀ ca ∈ [[oneString]], ∀ chunk ∈ ca, chunk.type.isString := by simp [oneString, ArrowType.isString]
  have hready : Ready smallPool := ready_init (by decide) []
  obtain ⟨file, h, p', hfile, hreg, hR', hC, hO⟩ := fixed_char_handle h0 (by decide) hstr hready
  have hw : 0 < (1048576 : Int).toNat ∧ (1048576 : Int).toNat ≤ bpPage := by decide
  obtain ⟨q, hscan, -, -⟩ := hC.scan hw.1 hw.2 hR' (hO p' ⟨rfl, rfl⟩)
  refine ⟨file, h, p', hfile, hreg, _, q, hscan, ?_, fun hback => ?_⟩
  · simp [pagesFor, rowsIn, bpPage, strings, ArrowArray.rows, oneString]
  · obtain ⟨q', hscan', -, -⟩ := hback.scan
    have heq := congrArg (fun r => (Except.toOption r).map fun r => r.1.length) (hscan'.symm.trans hscan)
    simp [Except.toOption, pagesFor, rowsIn, bpPage, strings, ArrowArray.rows, oneString] at heq

end SynnoDB.Ssd
