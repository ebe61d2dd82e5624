import Mathlib.Data.Fintype.Basic
import Mathlib.Logic.Function.Basic
import SynnoDB.Lib.Trace

/-!
# `BufferPool` (`templates/olap/ssd/buffer_pool.hpp`): pages, frames and the CLOCK hand

| here | there |
| --- | --- |
| `Frame`, `ColInfo`, `PageKey` | the structs of `buffer_pool.hpp:36-59` |
| `evictLoop`, `evictLocked`    | `evict_locked` (`:308-327`), the `for` loop counted down from `2 * n` |
| `pinPage`                     | the first locked section of `pin_page` (`:113-141`) |
| `readOk`, `readFail`          | the two ends of the unlocked read (`:163-167`, `:148-161`) |
| `wake`                        | `load_cv_.wait` returning in a joined call (`:123-128`) |
| `unpinPage`                   | `unpin_page` (`:170-181`) |

Each section that runs under `mu_` is one step; the unlocked `pread` of a miss lies between two steps
and ends in success or failure. A `Call` is a `pin_page` that has taken its pin: still reading
(`loading`), waiting for another thread's read (`waiting`), or returned and not yet unpinned
(`holding`). `page k` is what the column file holds at page `k`, `data` what the frame's buffer holds.
-/

namespace SynnoDB.Ssd

/-- `BP_PAGE_BYTES`. -/
def bpPageBytes : Int := 2 * 1024 * 1024

structure PageKey where
  colId : Int
  pageIdx : Int
deriving DecidableEq, Repr

structure ColInfo where
  numBytes : Int
  numPages : Int
deriving DecidableEq, Repr

/-- `register_column` (`:93-105`), without the file descriptor. -/
def registerColumn (numBytes : Int) : Except String ColInfo :=
  if numBytes < 0 then .error "BufferPool: negative column size"
  else .ok ⟨numBytes, (numBytes + bpPageBytes - 1) / bpPageBytes⟩

variable {Data : Type}

structure Frame (Data : Type) where
  data : Data
  colId : Int := -1
  pageIdx : Int := -1
  pinCount : Nat := 0
  clockBit : Bool := false
  loading : Bool := false

/-- The frame's `col_id` / `page_idx` name page `k` (`col_id = -1`: the frame is empty). -/
def Carries (f : Frame Data) (k : PageKey) : Prop := 0 ≤ f.colId ∧ k = ⟨f.colId, f.pageIdx⟩

inductive Phase where
  | loading
  | waiting
  | holding
deriving DecidableEq, Repr

/-- A `pin_page` call that has taken its pin; `bytes` is what `*bytes_out` receives. -/
structure Call (n : Nat) where
  thread : Nat
  key : PageKey
  frame : Fin n
  bytes : Int
  phase : Phase
deriving DecidableEq, Repr

structure BufferPool (n : Nat) (Data : Type) where
  frames : Fin n → Frame Data
  cols : List ColInfo
  pageMap : PageKey → Option (Fin n)
  clockHand : Fin n
  calls : List (Call n)

variable {n : Nat}

namespace BufferPool

/-- The constructor, after the columns were registered; a pool has at least one frame. -/
def init (hn : 0 < n) (cols : List ColInfo) (blank : Data) : BufferPool n Data where
  frames := fun _ => { data := blank }
  cols := cols
  pageMap := fun _ => none
  clockHand := ⟨0, hn⟩
  calls := []

def next (h : Fin n) : Fin n := ⟨(h.1 + 1) % n, Nat.mod_lt _ (Fin.pos h)⟩

def setFrame (s : BufferPool n Data) (i : Fin n) (f : Frame Data) : BufferPool n Data :=
  { s with frames := Function.update s.frames i f }

/-- The column entry of a valid key (`validate_page_locked`, `:279-288`). -/
def colOf (s : BufferPool n Data) (k : PageKey) : Except String ColInfo :=
  if k.colId < 0 then .error ("BufferPool: invalid column id " ++ toString k.colId)
  else match s.cols[k.colId.toNat]? with
    | none => .error ("BufferPool: invalid column id " ++ toString k.colId)
    | some c =>
      if k.pageIdx < 0 ∨ k.pageIdx ≥ c.numPages then
        .error ("BufferPool: invalid page " ++ toString k.pageIdx ++ " for column " ++ toString k.colId)
      else .ok c

/-- `page_bytes_locked` (`:290-292`). -/
def pageBytes (c : ColInfo) (k : PageKey) : Int := min bpPageBytes (c.numBytes - k.pageIdx * bpPageBytes)

/-- The `for` loop of `evict_locked`; `none` = all frames pinned. -/
def evictLoop : Nat → BufferPool n Data → BufferPool n Data × Option (Fin n)
  | 0, s => (s, none)
  | tries + 1, s =>
    let h := s.clockHand
    let f := s.frames h
    if f.pinCount = 0 then
      if f.clockBit then evictLoop tries { s.setFrame h { f with clockBit := false } with clockHand := next h }
      else
        let map := if 0 ≤ f.colId then Function.update s.pageMap ⟨f.colId, f.pageIdx⟩ none else s.pageMap
        ({ s with pageMap := map, clockHand := next h }, some h)
    else evictLoop tries { s with clockHand := next h }

def evictLocked (s : BufferPool n Data) : BufferPool n Data × Option (Fin n) := evictLoop (2 * n) s

/-- Lines 135-141: frame `v` is given to page `k` and thread `t` starts to read it. -/
def claim (s : BufferPool n Data) (t : Nat) (k : PageKey) (v : Fin n) (bread : Int) : BufferPool n Data :=
  let f := { s.frames v with colId := k.colId, pageIdx := k.pageIdx, pinCount := 1, clockBit := true, loading := true }
  { s.setFrame v f with
    pageMap := Function.update s.pageMap k (some v)
    calls := ⟨t, k, v, bread, .loading⟩ :: s.calls }

/-- The first locked section of `pin_page`: a hit takes a pin at once (and waits while the frame is
loading), a miss claims a victim and starts to read; the error is what the call throws. -/
def pinPage (s : BufferPool n Data) (t : Nat) (k : PageKey) : BufferPool n Data × Option String :=
  match s.colOf k with
  | .error e => (s, some e)
  | .ok c =>
    match s.pageMap k with
    | some i =>
      let f := s.frames i
      let s := s.setFrame i { f with pinCount := f.pinCount + 1, clockBit := true }
      let phase := if f.loading then .waiting else .holding
      ({ s with calls := ⟨t, k, i, pageBytes c k, phase⟩ :: s.calls }, none)
    | none =>
      match s.evictLocked with
      | (s, none) => (s, some "BufferPool: all frames pinned - increase pool size")
      | (s, some v) => (s.claim t k v (pageBytes c k), none)

/-- A call in phase `p` becomes a call in phase `q`. -/
def advance (s : BufferPool n Data) (c : Call n) (q : Phase) : BufferPool n Data :=
  { s with calls := { c with phase := q } :: s.calls.erase c }

/-- The read succeeded: the buffer holds the page, the call returns. -/
def readOk (page : PageKey → Data) (s : BufferPool n Data) (c : Call n) : BufferPool n Data :=
  (s.setFrame c.frame { s.frames c.frame with data := page c.key, loading := false }).advance c .holding

/-- The read threw: the map entry and the frame are cleared, the call ends with the exception. -/
def readFail (s : BufferPool n Data) (c : Call n) (junk : Data) : BufferPool n Data :=
  { s.setFrame c.frame { data := junk } with
    pageMap := Function.update s.pageMap c.key none
    calls := s.calls.erase c }

def unpinPage (s : BufferPool n Data) (k : PageKey) : Except String (BufferPool n Data) :=
  match s.colOf k with
  | .error e => .error e
  | .ok _ =>
    match s.pageMap k with
    | none => .error "BufferPool: unpin of page that is not pinned"
    | some i =>
      let f := s.frames i
      if f.pinCount = 0 then .error "BufferPool: unpin would make pin count negative"
      else .ok (s.setFrame i { f with pinCount := f.pinCount - 1 })

end BufferPool

/-! ## Interleavings -/

inductive PoolAction (Data : Type) where
  | pin (t : Nat) (k : PageKey)
  | readOk (t : Nat)
  | readFail (t : Nat) (junk : Data)
  | wake (t : Nat)
  | unpin (t : Nat) (k : PageKey)

namespace BufferPool

/-- The call of thread `t` that is in phase `p`. -/
def callOf (s : BufferPool n Data) (t : Nat) (p : Phase) : Option (Call n) :=
  s.calls.find? fun c => c.thread = t ∧ c.phase = p

/-- The pin that thread `t` holds on page `k`. -/
def pinOf (s : BufferPool n Data) (t : Nat) (k : PageKey) : Option (Call n) :=
  s.calls.find? fun c => c.thread = t ∧ c.phase = .holding ∧ c.key = k

/-- A thread inside `pin_page` starts nothing else. -/
def free (s : BufferPool n Data) (t : Nat) : Bool :=
  (s.callOf t .loading).isNone && (s.callOf t .waiting).isNone

/-- One step of some thread. `unpin_page` is called once for each pin; a call without a pin of its own
is enabled only where the code rejects it. -/
def step (page : PageKey → Data) (s : BufferPool n Data) : PoolAction Data → Option (BufferPool n Data)
  | .pin t k => if s.free t then some (s.pinPage t k).1 else none
  | .readOk t => (s.callOf t .loading).map fun c => s.readOk page c
  | .readFail t junk => (s.callOf t .loading).map fun c => s.readFail c junk
  | .wake t => match s.callOf t .waiting with
    | some c => if (s.frames c.frame).loading then none else some (s.advance c .holding)
    | none => none
  | .unpin t k =>
    if s.free t then
      match s.pinOf t k, s.unpinPage k with
      | some c, .ok s' => some { s' with calls := s'.calls.erase c }
      | some _, .error _ => some s
      | none, .error _ => some s
      | none, .ok _ => none
    else none

end BufferPool

end SynnoDB.Ssd
