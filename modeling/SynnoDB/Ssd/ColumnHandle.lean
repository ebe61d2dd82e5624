import SynnoDB.Ssd.FileLoader
import SynnoDB.Ssd.BufferPoolInv

/-!
# Reading column files (`templates/olap/ssd/column_handle.hpp`, `file_loader_utils.hpp:91-131`,
`file_loader_utils.cpp:356-370`)

| here | there |
| --- | --- |
| `Pool`              | the `BufferPool` of one thread, with the file behind each `fd` |
| `Pool.pinPage`      | `BufferPool::pin_page` to its return: the locked section, then the read of a miss |
| `ColumnHandle`      | `ColumnHandle<T>`; `size` is `sizeof(T)`, and a value its `size` bytes |
| `PinnedRange.data`  | the values from `data` to the end of the page's bytes |
| `scan`              | the loop of `column_handle.hpp:17-24` |

`Ready` is a pool in which nothing is pinned. Every access of a handle finds a frame there, delivers what the file
has and leaves the pool ready again (`pin_spec`).
-/

namespace SynnoDB.Ssd

open Hotpatch (Bytes leBytes leValue length_leBytes leValue_leBytes)

/-- `files` are the column files, by column id. -/
structure Pool (n : Nat) where
  pool : BufferPool n Bytes
  files : List Bytes

namespace Pool

variable {n : Nat}

/-- What the file has where the page is. -/
def page (files : List Bytes) (k : PageKey) : Bytes :=
  ((files.getD k.colId.toNat []).drop (k.pageIdx.toNat * bpPage)).take bpPage

/-- `register_column`: the id is the number of the columns before. -/
def registerColumn (p : Pool n) (file : Bytes) (numBytes : Int) : Except String (Int × Pool n) :=
  match Ssd.registerColumn numBytes with
  | .error e => .error e
  | .ok c => .ok (p.pool.cols.length, ⟨{ p.pool with cols := p.pool.cols ++ [c] }, p.files ++ [file]⟩)

/-- The page's bytes, their number and the pool in which they are pinned. -/
def pinPage (p : Pool n) (k : PageKey) : Except String (Bytes × Int × Pool n) :=
  match p.pool.pinPage 0 k with
  | (_, some e) => .error e
  | (s, none) =>
    let read : Except String (BufferPool n Bytes) := match s.callOf 0 .loading with
      | none => .ok s
      | some c =>
        if (page p.files k).length < c.bytes then .error ("BufferPool: unexpected EOF on col " ++ toString k.colId)
        else .ok (s.readOk (page p.files) c)
    match read with
    | .error e => .error e
    | .ok s => match s.pinOf 0 k with
      | none => .error "no pin"
      | some c => .ok (((s.frames c.frame).data.take c.bytes.toNat), c.bytes, ⟨s, p.files⟩)

def unpinPage (p : Pool n) (k : PageKey) : Except String (Pool n) :=
  match p.pool.unpinPage k with
  | .error e => .error e
  | .ok s => match s.pinOf 0 k with
    | none => .ok ⟨s, p.files⟩
    | some c => .ok ⟨{ s with calls := s.calls.erase c }, p.files⟩

end Pool

/-! ## Handles -/

/-- `pool` is whether the pointer is set. -/
structure ColumnHandle where
  pool : Bool := false
  colId : Int := -1
  numRows : Int := 0
  deriving DecidableEq, Repr

structure PinnedRange where
  data : List Bytes := []
  pageIdx : Int := -1
  rowBegin : Int := 0
  count : Int := 0
  pageOffset : Int := 0

/-- The bytes as an array of values of `size` bytes. -/
def cells (size : Nat) (raw : Bytes) : List Bytes := (List.range (raw.length / size)).map fun i => (raw.drop (i * size)).take size

namespace ColumnHandle

variable {n : Nat} (h : ColumnHandle) (size : Nat)

/-- `ROWS_PER_PAGE`. -/
def rowsPerPage : Int := bpPageBytes / size

def valid : Bool := h.pool && 0 ≤ h.colId

def numPages : Int := (h.numRows + rowsPerPage size - 1) / rowsPerPage size

def pageForRow (row : Int) : Int := row / rowsPerPage size

def pageRowBegin (pageIdx : Int) : Int := pageIdx * rowsPerPage size

def pageRowEnd (pageIdx : Int) : Int := min h.numRows (pageRowBegin size pageIdx + rowsPerPage size)

def contiguousRows (rowBegin maxRows : Int) : Except String Int :=
  if rowBegin < 0 ∨ rowBegin > h.numRows ∨ maxRows < 0 then .error "ColumnHandle: invalid row range"
  else if rowBegin = h.numRows ∨ maxRows = 0 then .ok 0
  else .ok (min maxRows (h.pageRowEnd size (pageForRow size rowBegin) - rowBegin))

/-- The values of the page and `*count`. -/
def pinPage (p : Pool n) (pageIdx : Int) : Except String (List Bytes × Int × Pool n) :=
  if !h.valid then .error "ColumnHandle: invalid handle"
  else if pageIdx < 0 ∨ pageIdx ≥ h.numPages size then .error "ColumnHandle: invalid page index"
  else match p.pinPage ⟨h.colId, pageIdx⟩ with
    | .error e => .error e
    | .ok (raw, byteCount, p) => .ok (cells size raw, byteCount / size, p)

def unpinPage (p : Pool n) (pageIdx : Int) : Except String (Pool n) :=
  if !h.valid then .error "ColumnHandle: invalid handle" else p.unpinPage ⟨h.colId, pageIdx⟩

def pinRange (p : Pool n) (rowBegin maxRows : Int) : Except String (PinnedRange × Pool n) :=
  match h.contiguousRows size rowBegin maxRows with
  | .error e => .error e
  | .ok count =>
    if count = 0 then .ok ({}, p)
    else
      let pageIdx := pageForRow size rowBegin
      match h.pinPage size p pageIdx with
      | .error e => .error e
      | .ok (page, pageCount, p) =>
        let offset := rowBegin - pageRowBegin size pageIdx
        if offset + count > pageCount then .error "ColumnHandle: computed range exceeds pinned page"
        else .ok (⟨page.drop offset.toNat, pageIdx, rowBegin, count, offset⟩, p)

def get (p : Pool n) (row : Int) : Except String (Bytes × Pool n) :=
  if row < 0 ∨ row ≥ h.numRows then .error "ColumnHandle: invalid row index"
  else match h.pinRange size p row 1 with
    | .error e => .error e
    | .ok (range, p) => match h.unpinPage p range.pageIdx with
      | .error e => .error e
      | .ok p => .ok (range.data.getD 0 [], p)

/-- The values of the pages from `pg` on, each page as far as its count. -/
def scanFrom : Nat → Pool n → Int → Except String (List Bytes × Pool n)
  | 0, p, _ => .ok ([], p)
  | fuel + 1, p, pg =>
    if pg < h.numPages size then
      match h.pinPage size p pg with
      | .error e => .error e
      | .ok (values, count, p) => match h.unpinPage p pg with
        | .error e => .error e
        | .ok p => match scanFrom fuel p (pg + 1) with
          | .error e => .error e
          | .ok (rest, p) => .ok (values.take count.toNat ++ rest, p)
    else .ok ([], p)

def scan (p : Pool n) : Except String (List Bytes × Pool n) := h.scanFrom size (h.numPages size).toNat p 0

end ColumnHandle

structure StringColumnHandle where
  offsets : ColumnHandle := {}
  bytes : ColumnHandle := {}
  numRows : Int := 0
  deriving DecidableEq, Repr

namespace StringColumnHandle

variable {n : Nat} (h : StringColumnHandle)

def valid : Bool := h.offsets.valid && h.bytes.valid && 0 ≤ h.numRows

/-- The `while` loop of `get`. -/
def copyLoop : Nat → Pool n → Int → Int → Except String (Bytes × Pool n)
  | 0, p, _, _ => .ok ([], p)
  | fuel + 1, p, pos, remaining =>
    if 0 < remaining then
      match h.bytes.contiguousRows 1 pos remaining with
      | .error e => .error e
      | .ok chunk => match h.bytes.pinRange 1 p pos chunk with
        | .error e => .error e
        | .ok (range, p) => match h.bytes.unpinPage p range.pageIdx with
          | .error e => .error e
          | .ok p => match copyLoop fuel p (pos + range.count) (remaining - range.count) with
            | .error e => .error e
            | .ok (rest, p) => .ok ((range.data.take range.count.toNat).flatten ++ rest, p)
    else .ok ([], p)

def get (p : Pool n) (row : Int) : Except String (Bytes × Pool n) :=
  if !h.valid then .error "StringColumnHandle: invalid handle"
  else if row < 0 ∨ row ≥ h.numRows then .error "StringColumnHandle: invalid row index"
  else match h.offsets.get 8 p row with
    | .error e => .error e
    | .ok (a, p) => match h.offsets.get 8 p (row + 1) with
      | .error e => .error e
      | .ok (b, p) =>
        if leValue b < leValue a then .error "StringColumnHandle: offsets are not monotonic"
        else h.copyLoop (leValue b - leValue a) p (leValue a) (leValue b - leValue a)

end StringColumnHandle

/-! ## Registering -/

section
variable {n : Nat} (p : Pool n)

def regPageAlignedFixedWidth (size : Nat) (file : Bytes) (numRows : Int) : Except String (ColumnHandle × Pool n) :=
  let pages := (numRows + ColumnHandle.rowsPerPage size - 1) / ColumnHandle.rowsPerPage size
  match p.registerColumn file (pages * bpPageBytes) with
  | .error e => .error e
  | .ok (cid, p) => .ok (⟨true, cid, numRows⟩, p)

/-- The bytes file is registered with one byte where it is empty. -/
def regString (offsets bytes : Bytes) (numRows : Int) : Except String (StringColumnHandle × Pool n) :=
  let byteBytes : Int := if bytes.length = 0 then 1 else bytes.length
  match p.registerColumn offsets ((numRows + 1) * 8) with
  | .error e => .error e
  | .ok (offCid, p) => match p.registerColumn bytes byteBytes with
    | .error e => .error e
    | .ok (byteCid, p) => .ok (⟨⟨true, offCid, numRows + 1⟩, ⟨true, byteCid, byteBytes⟩, numRows⟩, p)

end

end SynnoDB.Ssd
