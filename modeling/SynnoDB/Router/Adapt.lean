import Mathlib
import SynnoDB.Lib.MapM

/-!
# The cross-check verdict (`router/adapt.py`)

| here | there |
| --- | --- |
| `Cell`, `Row`, `Table`          | what `_rows` reads out of a `pyarrow.Table` |
| `isclose`, `cellEqual`, `rowEqual`, `floatClose` | `math.isclose`, `_cell_equal`, `_row_equal`, `_float_close` |
| `vecSortKey`, `augment`, `matchFloatVecs` | `_vec_sort_key`, `_match_float_vecs` and its inner `augment` |
| `multisetEqual`, `resultsEqual` | `_multiset_equal`, `results_equal` (`row_limit`, `candidates` at their defaults) |
| `bucket`, `resultsDiff`         | `results_diff` and its inner `bucket`; `.error` = the call raises |

A finite float is a rational: the rounding of float arithmetic is left out. `floatOfStr` is Python's
`float(s)` on text (`none`: `ValueError`).
-/

namespace SynnoDB.Router

inductive PyFloat where
  | nan
  | inf (neg : Bool)
  | fin (q : Rat)
deriving DecidableEq, Repr

namespace PyFloat

/-- `x == y`. -/
def eq : PyFloat → PyFloat → Bool
  | nan, _ | _, nan => false
  | inf s, inf t => s = t
  | fin p, fin q => p = q
  | _, _ => false

/-- `x < y`. -/
def lt : PyFloat → PyFloat → Bool
  | nan, _ | _, nan => false
  | inf s, inf t => s && !t
  | inf s, fin _ => s
  | fin _, inf t => !t
  | fin p, fin q => p < q

end PyFloat

inductive Cell where
  | null
  | bool (b : Bool)
  | int (i : Int)
  | decimal (q : Rat)
  | float (f : PyFloat)
  | str (s : String)
  | date (days : Int)
deriving DecidableEq, Repr

abbrev Row := List Cell

structure Table where
  columnNames : List String
  rows : List Row
deriving DecidableEq, Repr

namespace Cell

def isFloat : Cell → Bool
  | .float _ => true
  | _ => false

def num? : Cell → Option PyFloat
  | .bool b => some (.fin (if b then 1 else 0))
  | .int i => some (.fin i)
  | .decimal q => some (.fin q)
  | .float f => some f
  | _ => none

/-- Python's `x == y`: numbers by value across the numeric types. -/
def pyEq (x y : Cell) : Bool :=
  match x.num?, y.num? with
  | some a, some b => a.eq b
  | none, none => x = y
  | _, _ => false

end Cell

def absRat (q : Rat) : Rat := if q < 0 then -q else q

/-- `math.isclose`; `none` = `ValueError` (a negative tolerance). -/
def isclose (relTol absTol : Rat) (a b : PyFloat) : Option Bool :=
  if relTol < 0 ∨ absTol < 0 then none
  else some (a.eq b || match a, b with
    | .fin p, .fin q =>
      let diff := absRat (q - p)
      diff ≤ absRat (relTol * q) || diff ≤ absRat (relTol * p) || diff ≤ absTol
    | _, _ => false)

section
variable (floatOfStr : String → Option PyFloat)

/-- `float(x)`; `none` = `TypeError` / `ValueError`. -/
def toFloat (x : Cell) : Option PyFloat :=
  match x with
  | .str s => floatOfStr s
  | x => x.num?

def cellEqual (tol : Rat) (x y : Cell) : Bool :=
  if x = .null ∨ y = .null then x = .null ∧ y = .null
  else if x.isFloat || y.isFloat then
    match toFloat floatOfStr x, toFloat floatOfStr y with
    | some a, some b => (isclose tol tol a b).getD (x.pyEq y)
    | _, _ => x.pyEq y
  else x.pyEq y

def rowEqual (tol : Rat) (r1 r2 : Row) : Bool :=
  r1.length = r2.length && (r1.zip r2).all fun (a, b) => cellEqual floatOfStr tol a b

def floatClose (tol : Rat) (x y : Cell) : Bool :=
  if x = .null ∨ y = .null then x = .null ∧ y = .null
  else match toFloat floatOfStr x, toFloat floatOfStr y with
    | some a, some b => (isclose tol tol a b).getD (x.pyEq y)
    | _, _ => x.pyEq y

def floatColumns (ncols : Nat) (rows : List Row) : List Nat :=
  (List.range ncols).filter fun i => rows.any fun r => (r.getD i .null).isFloat

def exactMatchCap : Nat := 64

/-- `_vec_sort_key`, one cell: `(x is None, x is NaN, x)` with `0.0` where `x` is no usable number. -/
def cellSortKey : Cell → Bool × Bool × PyFloat
  | .null => (true, false, .fin 0)
  | .float .nan => (false, true, .fin 0)
  | .float f => (false, false, f)
  | .int i => (false, false, .fin i)
  | .bool b => (false, false, .fin (if b then 1 else 0))
  | _ => (false, false, .fin 0)

def cellKeyLt (a b : Bool × Bool × PyFloat) : Bool :=
  (!a.1 && b.1) || (a.1 = b.1 && ((!a.2.1 && b.2.1) || (a.2.1 = b.2.1 && a.2.2.lt b.2.2)))

/-- `<` on the key tuples. -/
def vecLt : Row → Row → Bool
  | x :: xs, y :: ys =>
    cellKeyLt (cellSortKey x) (cellSortKey y) || (cellSortKey x = cellSortKey y && vecLt xs ys)
  | [], _ :: _ => true
  | _, [] => false

/-- `sorted(vs, key=_vec_sort_key)`. -/
def sortVecs (vs : List Row) : List Row := vs.insertionSort fun a b => vecLt b a = false

def vecClose (tol : Rat) (va vb : Row) : Bool := (va.zip vb).all fun (x, y) => floatClose floatOfStr tol x y

/-- `augment(i, seen)` over `match`; every nested call marks one more column, so `n + 1` levels do. -/
def augment (compat : Nat → Nat → Bool) (n : Nat) :
    Nat → Nat → List (Option Nat) × List Bool → Bool × List (Option Nat) × List Bool
  | 0, _, st => (false, st)
  | fuel + 1, i, st => (List.range n).foldl (fun (found, mtch, seen) j =>
      if found || !compat i j || seen.getD j false then (found, mtch, seen)
      else
        let seen := seen.set j true
        match mtch.getD j none with
        | none => (true, mtch.set j (some i), seen)
        | some k =>
          match augment compat n fuel k (mtch, seen) with
          | (true, mtch, seen) => (true, mtch.set j (some i), seen)
          | (false, mtch, seen) => (false, mtch, seen)) (false, st)

/-- `all(augment(i, [False] * m) for i in range(n))`, from `[-1] * m`. -/
def matchAll (compat : Nat → Nat → Bool) (n m : Nat) : Bool :=
  ((List.range n).foldl (fun (ok, mtch) i =>
    if ok then
      let r := augment compat m (m + 1) i (mtch, List.replicate m false)
      (r.1, r.2.1)
    else (ok, mtch)) (true, List.replicate m none)).1

def matchFloatVecs (tol : Rat) (a b : List Row) : Bool :=
  match a with
  | [] => true
  | v :: _ =>
    if v.length ≤ 1 || a.length > exactMatchCap then
      ((sortVecs a).zip (sortVecs b)).all fun (va, vb) => vecClose floatOfStr tol va vb
    else matchAll (fun i j => vecClose floatOfStr tol (a.getD i []) (b.getD j [])) a.length a.length

def pick (idx : List Nat) (r : Row) : Row := idx.map fun i => r.getD i .null

def keyEq (a b : Row) : Bool := a.length = b.length && (a.zip b).all fun (x, y) => x.pyEq y

def multisetEqual (tol : Rat) (rowsA rowsB : List Row) : Bool :=
  match rowsA with
  | [] => rowsB.isEmpty
  | r0 :: _ =>
    let floatIdx := floatColumns r0.length (rowsA ++ rowsB)
    let exactIdx := (List.range r0.length).filter (· ∉ floatIdx)
    let grp (rows : List Row) (k : Row) := (rows.filter fun r => keyEq (pick exactIdx r) k).map (pick floatIdx)
    (rowsA ++ rowsB).all fun r =>
      let va := grp rowsA (pick exactIdx r)
      let vb := grp rowsB (pick exactIdx r)
      va.length = vb.length && (floatIdx.isEmpty || matchFloatVecs floatOfStr tol va vb)

def resultsEqual (tol : Rat) (ordered : Bool) (orderKeys : Option (List Nat)) (bespoke reference : Table) : Bool :=
  if bespoke.columnNames.length ≠ reference.columnNames.length then false
  else if bespoke.rows.length ≠ reference.rows.length then false
  else if !ordered then multisetEqual floatOfStr tol bespoke.rows reference.rows
  else match orderKeys with
    | some (k :: ks) =>
      ((bespoke.rows.zip reference.rows).all fun (a, b) =>
        rowEqual floatOfStr tol (pick (k :: ks) a) (pick (k :: ks) b)) &&
      multisetEqual floatOfStr tol bespoke.rows reference.rows
    | _ => (bespoke.rows.zip reference.rows).all fun (a, b) => rowEqual floatOfStr tol a b

end

/-! ## The report of a divergence -/

inductive DiffValue where
  | none
  | names (ns : List String)
  | count (n : Nat)
  | cell (c : Cell)
  | row (r : Row)
deriving DecidableEq, Repr

/-- `(row, column, bespoke, duckdb)`. -/
structure Diff where
  row : Int
  column : String
  bespoke : DiffValue
  duckdb : DiffValue
deriving DecidableEq, Repr

/-- `round(x)`: half to even; an infinity raises. -/
def pyRound : PyFloat → Except String Int
  | .nan => .error "ValueError: cannot convert float NaN to integer"
  | .inf _ => .error "OverflowError: cannot convert float infinity to integer"
  | .fin q =>
    let d := q - q.floor
    if d < 1 / 2 then .ok q.floor
    else if 1 / 2 < d then .ok (q.floor + 1)
    else .ok (if q.floor % 2 = 0 then q.floor else q.floor + 1)

def PyFloat.div : PyFloat → Rat → PyFloat
  | .nan, _ => .nan
  | .inf s, t => .inf (if t < 0 then !s else s)
  | .fin q, t => .fin (q / t)

inductive BucketCell where
  | f (snapped : Option Int)
  | v (c : Cell)
deriving DecidableEq, Repr

def bucketCell (tol : Rat) : Cell → Except String BucketCell
  | .float .nan => .ok (.f none)
  | .float f => do return .f (some (← pyRound (f.div tol)))
  | c => .ok (.v c)

def bucket (tol : Rat) (r : Row) : Except String (List BucketCell) := r.mapM (bucketCell tol)

def BucketCell.eq : BucketCell → BucketCell → Bool
  | .f a, .f b => a = b
  | .v a, .v b => a.pyEq b
  | _, _ => false

def bucketEq (a b : List BucketCell) : Bool := a.length = b.length && (a.zip b).all fun (x, y) => x.eq y

/-- The keys of a `Counter`, in order of first appearance. -/
def distinctBuckets : List (List BucketCell) → List (List BucketCell) → List (List BucketCell)
  | _, [] => []
  | seen, k :: ks => if seen.any (bucketEq k) then distinctBuckets seen ks else k :: distinctBuckets (k :: seen) ks

/-- `Counter(xs) - Counter(ys)`, each bucket shown by its last row, with its count. -/
def onlyIn (xs ys : List (List BucketCell × Row)) : List (Row × Nat) :=
  (distinctBuckets [] (xs.map (·.1))).filterMap fun k =>
    let mine := xs.filter fun p => bucketEq p.1 k
    let n := mine.length - ys.countP fun p => bucketEq p.1 k
    if n = 0 then none else some ((mine.getLast?.map (·.2)).getD [], n)

/-- The multiset difference (`:483-510`). -/
def unorderedDiff (tol : Rat) (limit : Nat) (rowsB rowsR : List Row) : Except String (List Diff × Nat) := do
  let cb ← rowsB.mapM (bucket tol)
  let cr ← rowsR.mapM (bucket tol)
  let onlyB := onlyIn (cb.zip rowsB) (cr.zip rowsR)
  let onlyR := onlyIn (cr.zip rowsR) (cb.zip rowsB)
  let total := (onlyB.map (·.2)).sum + (onlyR.map (·.2)).sum
  let diffsB := (onlyB.take limit).map fun p => ⟨-1, "<engine-only row>", .row p.1, .none⟩
  let diffsR := (onlyR.take (limit - diffsB.length)).map fun p => ⟨-1, "<duckdb-only row>", .none, .row p.1⟩
  return (diffsB ++ diffsR, total)

section
variable (floatOfStr : String → Option PyFloat)

/-- The differing cells among the columns `cols` of two row lists, positionally. -/
def cellDiffs (tol : Rat) (names : List String) (cols : List Nat) (rowsB rowsR : List Row) : List Diff :=
  ((rowsB.zip rowsR).zipIdx.map fun ((rb, rr), i) => cols.filterMap fun c =>
    let a := rb.getD c .null
    let b := rr.getD c .null
    if cellEqual floatOfStr tol a b then none else some ⟨i, names.getD c "", .cell a, .cell b⟩).flatten

def resultsDiff (tol : Rat) (ordered : Bool) (orderKeys : Option (List Nat)) (limit : Nat)
    (bespoke reference : Table) : Except String (List Diff × Nat) :=
  if bespoke.columnNames ≠ reference.columnNames then
    .ok ([⟨-1, "<columns>", .names bespoke.columnNames, .names reference.columnNames⟩], 1)
  else if bespoke.rows.length ≠ reference.rows.length then
    .ok ([⟨-1, "<row count>", .count bespoke.rows.length, .count reference.rows.length⟩], 1)
  else
    let names := bespoke.columnNames
    match ordered, orderKeys with
    | true, some (k :: ks) =>
      let keyDiffs := cellDiffs floatOfStr tol names (k :: ks) bespoke.rows reference.rows
      if keyDiffs ≠ [] then .ok (keyDiffs.take limit, keyDiffs.length)
      else unorderedDiff tol limit bespoke.rows reference.rows
    | true, _ =>
      let diffs := cellDiffs floatOfStr tol names (List.range names.length) bespoke.rows reference.rows
      .ok (diffs.take limit, diffs.length)
    | false, _ => unorderedDiff tol limit bespoke.rows reference.rows

end

/-! ## When the report raises -/

/-- A row with an infinite float. -/
def hasInf (r : Row) : Bool := r.any fun c => c = .float (.inf true) ∨ c = .float (.inf false)

theorem pyRound_fin (q : Rat) : ∃ i, pyRound (.fin q) = .ok i := by
  simp only [pyRound]
  split
  · exact ⟨_, rfl⟩
  · split
    · exact ⟨_, rfl⟩
    · exact ⟨_, rfl⟩

theorem bucketCell_error_iff (tol : Rat) (c : Cell) :
    (∃ e, bucketCell tol c = .error e) ↔ c = .float (.inf true) ∨ c = .float (.inf false) := by
  cases c with
  | float f =>
    cases f with
    | nan => simp [bucketCell]
    | inf s => cases s <;> simp [bucketCell, PyFloat.div, pyRound, bind, Except.bind]
    | fin q =>
      obtain ⟨i, hi⟩ := pyRound_fin (q / tol)
      simp [bucketCell, PyFloat.div, hi, bind, Except.bind, pure, Except.pure]
  | _ => simp [bucketCell]

theorem bucket_error_iff (tol : Rat) (r : Row) : (∃ e, bucket tol r = .error e) ↔ hasInf r = true := by
  unfold bucket hasInf
  rw [MapM.error_iff, List.any_eq_true]
  simp only [bucketCell_error_iff, decide_eq_true_eq]

/-- **The multiset report raises exactly on rows with an infinity.** -/
theorem unorderedDiff_error_iff (tol : Rat) (limit : Nat) (rowsB rowsR : List Row) :
    (∃ e, unorderedDiff tol limit rowsB rowsR = .error e) ↔ ∃ r ∈ rowsB ++ rowsR, hasInf r = true := by
  have hb := @MapM.error_iff _ _ _ (bucket tol) rowsB
  have hr := @MapM.error_iff _ _ _ (bucket tol) rowsR
  simp only [bucket_error_iff] at hb hr
  simp only [List.mem_append, or_and_right, exists_or, ← hb, ← hr, unorderedDiff]
  cases rowsB.mapM (bucket tol) <;> cases rowsR.mapM (bucket tol) <;> simp [bind, Except.bind, pure, Except.pure]

end SynnoDB.Router
