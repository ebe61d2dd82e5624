import SynnoDB.Hotpatch.Wire
import SynnoDB.Ssd.BufferPool

/-!
# Writing column files (`templates/olap/ssd/file_loader_utils.cpp:78-200`, `:273-497`)

| here | there |
| --- | --- |
| `FdStream`                | `FdStream`: `file` is what the descriptor has got, `buf` the `pos_` bytes still in `buf_` |
| `ArrowArray`              | an array as Arrow lays it out: `data()->buffers[1]`, `buffers[2]`, `offset()` and `length()` |
| `writeFixedCharColAligned` | `write_fixed_char_col_aligned` and `finish_fixed_char_col_aligned` (`:425-497`) |
| `StringWriter`            | `StringWriter` (`:273-342`, `file_loader_utils.hpp:166-187`) |

A `::write` that fails ends the load with an exception and is left out; one that is short or interrupted is repeated for
the rest. `int64_t` and `uint64_t` counts are `Nat`: no file has more than `2 ^ 63 - 1` bytes.
-/

namespace SynnoDB.Ssd

open Hotpatch (Bytes leBytes leValue length_leBytes leValue_leBytes)

/-- `BP_PAGE_BYTES` as a count. -/
def bpPage : Nat := 2 * 1024 * 1024

/-- `FDSTREAM_BUF`. -/
def fdstreamBuf : Nat := 32 * 1024 * 1024

structure FdStream where
  file : Bytes := []
  buf : Bytes := []
  fits : buf.length ≤ fdstreamBuf := by exact Nat.zero_le _

namespace FdStream

/-- What the file will have once the stream is closed. -/
def contents (f : FdStream) : Bytes := f.file ++ f.buf

def flushRaw (f : FdStream) : FdStream := { file := f.file ++ f.buf }

/-- The part of the buffer that is free, after a flush if it is full. -/
def makeRoom (f : FdStream) : FdStream := if fdstreamBuf - f.buf.length = 0 then f.flushRaw else f

/-- One `memcpy` of the `while` loop. -/
def fill (f : FdStream) (data : Bytes) : FdStream where
  file := f.file
  buf := f.buf ++ data.take (min data.length (fdstreamBuf - f.buf.length))
  fits := by
    have := f.fits
    simp only [List.length_append, List.length_take]
    omega

/-- The `while` loop of `write`; each round copies at least one byte. -/
def writeLoop : Nat → FdStream → Bytes → FdStream
  | 0, f, _ => f
  | fuel + 1, f, data =>
    if data.length = 0 then f
    else
      let f := f.makeRoom
      writeLoop fuel (f.fill data) (data.drop (min data.length (fdstreamBuf - f.buf.length)))

def write (f : FdStream) (data : Bytes) : FdStream := writeLoop data.length f data

def close (f : FdStream) : FdStream := f.flushRaw

/-- `write_zero_pad`: at most 512 bytes at a time. -/
def zeroPadLoop : Nat → FdStream → Nat → FdStream
  | 0, f, _ => f
  | fuel + 1, f, pad =>
    if pad = 0 then f
    else zeroPadLoop fuel (f.write (List.replicate (min pad 512) 0)) (pad - min pad 512)

def writeZeroPad (f : FdStream) (pad : Nat) : FdStream := zeroPadLoop pad f pad

@[simp] theorem contents_flushRaw (f : FdStream) : f.flushRaw.contents = f.contents := by simp [flushRaw, contents]

@[simp] theorem file_close (f : FdStream) : f.close.file = f.contents := rfl

@[simp] theorem contents_makeRoom (f : FdStream) : f.makeRoom.contents = f.contents := by
  unfold makeRoom
  split <;> simp

theorem room_pos (f : FdStream) : 0 < fdstreamBuf - f.makeRoom.buf.length := by
  unfold makeRoom
  split
  · simp [flushRaw, fdstreamBuf]
  · omega

theorem writeLoop_contents {fuel : Nat} : ∀ {f : FdStream} {data : Bytes}, data.length ≤ fuel →
    (writeLoop fuel f data).contents = f.contents ++ data := by
  induction fuel with
  | zero =>
    intro f data h
    simp [writeLoop, List.eq_nil_of_length_eq_zero (Nat.le_zero.1 h)]
  | succ fuel ih =>
    intro f data h
    unfold writeLoop
    by_cases h0 : data.length = 0
    · rw [if_pos h0, List.eq_nil_of_length_eq_zero h0, List.append_nil]
    · rw [if_neg h0]
      have hroom := f.room_pos
      simp only
      rw [ih (by rw [List.length_drop]; omega)]
      show f.makeRoom.file ++ (f.makeRoom.buf ++ data.take _) ++ data.drop _ = _
      rw [List.append_assoc, List.append_assoc, List.take_append_drop, ← List.append_assoc]
      exact congrArg (· ++ data) f.contents_makeRoom

/-- Whatever the boundaries of the buffer, a write appends its bytes. -/
@[simp] theorem contents_write (f : FdStream) (data : Bytes) : (f.write data).contents = f.contents ++ data :=
  writeLoop_contents (le_refl _)

theorem zeroPadLoop_contents {fuel : Nat} : ∀ {f : FdStream} {pad : Nat}, pad ≤ fuel →
    (zeroPadLoop fuel f pad).contents = f.contents ++ List.replicate pad 0 := by
  induction fuel with
  | zero =>
    intro f pad h
    simp [zeroPadLoop, Nat.le_zero.1 h]
  | succ fuel ih =>
    intro f pad h
    unfold zeroPadLoop
    by_cases h0 : pad = 0
    · simp [h0]
    · rw [if_neg h0, ih (by omega), contents_write, List.append_assoc, ← List.replicate_add,
        show min pad 512 + (pad - min pad 512) = pad by omega]

@[simp] theorem contents_writeZeroPad (f : FdStream) (pad : Nat) :
    (f.writeZeroPad pad).contents = f.contents ++ List.replicate pad 0 := zeroPadLoop_contents (le_refl _)

end FdStream

/-! ## Arrow arrays of strings -/

inductive ArrowType where
  | string
  | largeString
  /-- `type()->ToString()`. -/
  | other (name : String)
  deriving DecidableEq, Repr

namespace ArrowType

def isString : ArrowType → Bool
  | .other _ => false
  | _ => true

end ArrowType

/-- The bytes from `i` to `j`. -/
def slice (bytes : Bytes) (i j : Nat) : Bytes := (bytes.drop i).take (j - i)

/-- A slice of a parent array starts at `offset`; the value offsets of a string array do not decrease and stay in
its data. -/
structure ArrowArray where
  type : ArrowType
  offset : Nat := 0
  length : Nat
  valueOffsets : List Nat
  data : Bytes
  sorted : type.isString → ∀ i < length, valueOffsets.getD (offset + i) 0 ≤ valueOffsets.getD (offset + i + 1) 0
  inside : type.isString → 0 < length → valueOffsets.getD (offset + length) 0 ≤ data.length

namespace ArrowArray

variable (arr : ArrowArray)

/-- `ao[i]`. -/
def valueOffset (i : Nat) : Nat := arr.valueOffsets.getD (arr.offset + i) 0

/-- `GetView(i)`. -/
def view (i : Nat) : Bytes := slice arr.data (arr.valueOffset i) (arr.valueOffset (i + 1))

def extractSv (i : Nat) : Except String Bytes :=
  match arr.type with
  | .other name => .error ("extract_sv: unexpected type " ++ name)
  | _ => .ok (arr.view i)

/-- The strings of the array. -/
def rows : List Bytes := (List.range arr.length).map arr.view

end ArrowArray

/-! ## Page-aligned fixed-char columns -/

/-- A row of the batch: zeroed, then the string's first `width` bytes. -/
def fixedRow (width : Nat) (sv : Bytes) : Bytes :=
  sv.take (min sv.length width) ++ List.replicate (width - min sv.length width) 0

/-- One round over a chunk writes the rows `i`, …, `i + n - 1`. -/
def fixedChunkLoop (width : Nat) (chunk : ArrowArray) : Nat → Nat → FdStream × Nat → Except String (FdStream × Nat)
  | 0, _, s => .ok s
  | fuel + 1, i, (f, rowsWritten) =>
    if i < chunk.length then
      let rowsPerPage := bpPage / width
      let tailBytes := bpPage - rowsPerPage * width
      let n := min (min 4096 (chunk.length - i)) (rowsPerPage - rowsWritten % rowsPerPage)
      match (List.range n).mapM fun j => chunk.extractSv (i + j) with
      | .error e => .error e
      | .ok svs =>
        let f := f.write (svs.flatMap (fixedRow width))
        let f := if 0 < tailBytes ∧ (rowsWritten + n) % rowsPerPage = 0 then f.writeZeroPad tailBytes else f
        fixedChunkLoop width chunk fuel (i + n) (f, rowsWritten + n)
    else .ok (f, rowsWritten)

/-- `rows_written` is the second part of the result. -/
def writeFixedCharColAligned (f : FdStream) (ca : List ArrowArray) (width : Int) (rowsWritten : Nat) :
    Except String (FdStream × Nat) :=
  if width ≤ 0 ∨ width > bpPageBytes then .error "write_fixed_char_col_aligned: invalid width"
  else ca.foldlM (fun s chunk => fixedChunkLoop width.toNat chunk chunk.length 0 s) (f, rowsWritten)

def finishFixedCharColAligned (f : FdStream) (rowsWritten : Nat) (width : Int) : Except String FdStream :=
  if width ≤ 0 ∨ width > bpPageBytes then .error "finish_fixed_char_col_aligned: invalid width"
  else
    let rowsPerPage := bpPage / width.toNat
    let tailBytes := bpPage - rowsPerPage * width.toNat
    let pagePos := rowsWritten % rowsPerPage
    if pagePos = 0 then .ok f else .ok (f.writeZeroPad ((rowsPerPage - pagePos) * width.toNat + tailBytes))

/-! ## String columns -/

/-- `OFF_BATCH`. -/
def offBatch : Nat := 65536

/-- `offBuf` are the `off_n_` offsets in `off_buf_` that are not written yet. -/
structure StringWriter where
  offF : FdStream := {}
  byteF : FdStream := {}
  running : Nat := 0
  nrows : Nat := 0
  offBuf : List Nat := []

namespace StringWriter

/-- What `off_buf_` holds of these, as bytes. -/
def encode (offsets : List Nat) : Bytes := offsets.flatMap (leBytes 8)

def flushOffsets (sw : StringWriter) : StringWriter :=
  if sw.offBuf.length = 0 then sw else { sw with offF := sw.offF.write (encode sw.offBuf), offBuf := [] }

def pushOffset (sw : StringWriter) : StringWriter :=
  let sw := { sw with offBuf := sw.offBuf ++ [sw.running] }
  if sw.offBuf.length = offBatch then sw.flushOffsets else sw

/-- The second `for` loop of a batch: each length becomes the offset before it. -/
def accumulate (acc : Nat) : List Nat → List Nat × Nat
  | [] => ([], acc)
  | len :: lens => ((accumulate (acc + len) lens).1.cons acc, (accumulate (acc + len) lens).2)

/-- `write_offsets_from_arrow_offsets`: a batch is made in `off_buf_`, over what is pending there. -/
def offsetsLoop (ao : Nat → Nat) (len : Nat) : Nat → Nat → StringWriter → StringWriter
  | 0, _, sw => sw
  | fuel + 1, i, sw =>
    if i < len then
      let n := min offBatch (len - i)
      let (offsets, acc) := accumulate sw.running ((List.range n).map fun j => ao (i + j + 1) - ao (i + j))
      offsetsLoop ao len fuel (i + n) { sw with
        offF := sw.offF.write (encode offsets)
        offBuf := (offsets ++ sw.offBuf.drop n).take sw.offBuf.length
        running := acc }
    else sw

def writeOffsets (sw : StringWriter) (ao : Nat → Nat) (len : Nat) : StringWriter := offsetsLoop ao len len 0 sw

/-- The last loop of `write_chunk`, for the other types. -/
def otherLoop (arr : ArrowArray) : Nat → Nat → StringWriter → StringWriter × Option String
  | 0, _, sw => (sw, none)
  | fuel + 1, i, sw =>
    if i < arr.length then
      match arr.extractSv i with
      | .error e => (sw, some e)
      | .ok sv =>
        let sw := sw.pushOffset
        let sw := if sv.length = 0 then sw else { sw with byteF := sw.byteF.write sv }
        otherLoop arr fuel (i + 1) { sw with running := sw.running + sv.length }
    else (sw, none)

/-- The error is what the call throws, the writer what it leaves. -/
def writeChunk (sw : StringWriter) (arr : ArrowArray) : StringWriter × Option String :=
  if arr.length = 0 then (sw, none)
  else if arr.type.isString then
    let begin := arr.valueOffset 0
    let stop := arr.valueOffset arr.length
    let sw := sw.writeOffsets arr.valueOffset arr.length
    let sw := if begin < stop then { sw with byteF := sw.byteF.write (slice arr.data begin stop) } else sw
    ({ sw with nrows := sw.nrows + arr.length }, none)
  else
    match otherLoop arr arr.length 0 sw with
    | (sw, some e) => (sw, some e)
    | (sw, none) => ({ sw with nrows := sw.nrows + arr.length }, none)

/-- The calls of `write_chunk`, up to one that throws. -/
def writeChunks (sw : StringWriter) : List ArrowArray → StringWriter × Option String
  | [] => (sw, none)
  | arr :: arrs => match sw.writeChunk arr with
    | (sw, some e) => (sw, some e)
    | (sw, none) => sw.writeChunks arrs

def finish (sw : StringWriter) : StringWriter :=
  let sw := sw.flushOffsets
  { sw with offF := sw.offF.write (leBytes 8 sw.running) }

end StringWriter

end SynnoDB.Ssd
