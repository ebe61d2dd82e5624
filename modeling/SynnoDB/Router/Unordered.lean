import Mathlib.Algebra.Order.Ring.Rat
import Mathlib.Data.List.Lex
import Mathlib.Order.WithBot
import Mathlib.Tactic.Linarith
import SynnoDB.Router.Matching

/-!
# The unordered verdict and the order of the rows (`_multiset_equal`)

Rows are grouped by their exact columns (`exactKey`). A group is paired through its floating columns: by sorting both
sides where there is at most one such column or the group is large, by matching otherwise. The comparison is the
`Pairing.Method` of `rowMethod`; the set of floating columns is walked through in ascending order.

The verdict depends on the order of the rows where sorting ties: text, dates and decimals in a floating column all
sort as `0.0`. And it is not reflexive where a cell is not close to itself, as NaN.
-/

namespace SynnoDB.Router

open List Pairing

/-! ## The sort key is a linear order -/

/-- The order of the floats that are a number. -/
def PyFloat.rank : PyFloat → WithBot (WithTop ℚ)
  | .nan => ⊥
  | .inf true => ⊥
  | .inf false => ⊤
  | .fin q => ((q : WithTop ℚ) : WithBot (WithTop ℚ))

theorem PyFloat.lt_iff {a b : PyFloat} (ha : a ≠ .nan) (hb : b ≠ .nan) : a.lt b = true ↔ a.rank < b.rank := by
  cases a with
  | nan => exact absurd rfl ha
  | inf s => cases b with
    | nan => exact absurd rfl hb
    | inf t => cases s <;> cases t <;> simp [lt, rank]
    | fin q => cases s <;> simp [lt, rank]
  | fin p => cases b with
    | nan => exact absurd rfl hb
    | inf t =>
      have htop : ((p : WithTop ℚ) : WithBot (WithTop ℚ)) < ⊤ := WithBot.coe_lt_coe.2 (WithTop.coe_lt_top p)
      cases t <;> simp [lt, rank, htop]
    | fin q => simp [lt, rank]

theorem PyFloat.rank_inj {a b : PyFloat} (ha : a ≠ .nan) (hb : b ≠ .nan) : a = b ↔ a.rank = b.rank := by
  cases a with
  | nan => exact absurd rfl ha
  | inf s => cases b with
    | nan => exact absurd rfl hb
    | inf t => cases s <;> cases t <;> simp [rank]
    | fin q => cases s <;> simp [rank]
  | fin p => cases b with
    | nan => exact absurd rfl hb
    | inf t => cases t <;> simp [rank]
    | fin q => simp [rank]

theorem PyFloat.eq_iff {a b : PyFloat} : a.eq b = true ↔ a = b ∧ a ≠ .nan := by
  cases a <;> cases b <;> simp [PyFloat.eq]

abbrev CellRank := Bool ×ₗ Bool ×ₗ WithBot (WithTop ℚ)

/-- `cellSortKey` as an element of a linear order. -/
def cellRank (c : Cell) : CellRank :=
  toLex ((cellSortKey c).1, toLex ((cellSortKey c).2.1, (cellSortKey c).2.2.rank))

theorem cellSortKey_ne_nan (c : Cell) : (cellSortKey c).2.2 ≠ .nan := by
  cases c with
  | float f => cases f <;> simp [cellSortKey]
  | _ => simp [cellSortKey]

theorem cellKeyLt_iff (x y : Cell) : cellKeyLt (cellSortKey x) (cellSortKey y) = true ↔ cellRank x < cellRank y := by
  have hlt := PyFloat.lt_iff (cellSortKey_ne_nan x) (cellSortKey_ne_nan y)
  simp only [cellRank, Prod.Lex.toLex_lt_toLex, ← hlt, cellKeyLt]
  generalize cellSortKey x = a
  generalize cellSortKey y = b
  obtain ⟨a₁, a₂, a₃⟩ := a
  obtain ⟨b₁, b₂, b₃⟩ := b
  cases a₁ <;> cases b₁ <;> cases a₂ <;> cases b₂ <;> simp

theorem cellSortKey_eq_iff (x y : Cell) : cellSortKey x = cellSortKey y ↔ cellRank x = cellRank y := by
  have heq := PyFloat.rank_inj (cellSortKey_ne_nan x) (cellSortKey_ne_nan y)
  simp only [cellRank, toLex_inj, ← heq, Prod.ext_iff]

def vecRank (v : Row) : List CellRank := v.map cellRank

theorem vecLt_iff (x y : Row) : vecLt x y = true ↔ vecRank x < vecRank y := by
  induction x generalizing y with
  | nil => cases y <;> simp [vecLt, vecRank]
  | cons a x ih => cases y with
    | nil => simp [vecLt, vecRank]
    | cons b y =>
      have htail := ih y
      simp only [vecRank] at htail
      simp only [vecLt, vecRank, map_cons, List.cons_lt_cons_iff, ← cellKeyLt_iff, ← cellSortKey_eq_iff, ← htail]
      simp

theorem vecRank_singleton_le {c d : Cell} : vecRank [c] ≤ vecRank [d] ↔ cellRank c ≤ cellRank d := by
  rw [← not_lt, ← not_lt, not_iff_not]
  apply List.cons_lt_cons_iff.trans
  simp

theorem map_sortVecs {α : Type} (f : α → Row) (l : List α) :
    (sortBy (fun x => vecRank (f x)) l).map f = sortVecs (l.map f) := by
  unfold sortBy sortVecs
  apply map_insertionSort
  intro a _ b _
  rw [← not_lt, ← vecLt_iff, Bool.not_eq_true]

/-! ## The exact columns -/

/-- One spelling for each number. -/
def canon : Cell → Cell
  | .bool b => .decimal (if b then 1 else 0)
  | .int i => .decimal i
  | c => c

theorem pyEq_iff {x y : Cell} (hx : x.isFloat = false) (hy : y.isFloat = false) :
    x.pyEq y = true ↔ canon x = canon y := by
  cases x <;> cases y <;> simp_all [Cell.pyEq, Cell.num?, canon, Cell.isFloat, PyFloat.eq]

theorem pyEq_comm (x y : Cell) : x.pyEq y = y.pyEq x := by
  have hfloat : ∀ a b : PyFloat, a.eq b = b.eq a := fun a b => by
    cases a <;> cases b <;> simp [PyFloat.eq, eq_comm]
  unfold Cell.pyEq
  cases x.num? <;> cases y.num? <;> simp [hfloat, eq_comm]

theorem keyEq_iff {x y : Row} (hx : ∀ c ∈ x, c.isFloat = false) (hy : ∀ c ∈ y, c.isFloat = false) :
    keyEq x y = true ↔ x.map canon = y.map canon := by
  induction x generalizing y with
  | nil => cases y <;> simp [keyEq]
  | cons a x ih => cases y with
    | nil => simp [keyEq]
    | cons b y =>
      have htail := ih (fun c hc => hx c (mem_cons_of_mem _ hc)) (fun c hc => hy c (mem_cons_of_mem _ hc))
      have hhead := pyEq_iff (hx a mem_cons_self) (hy b mem_cons_self)
      simp only [keyEq, Bool.and_eq_true, decide_eq_true_eq] at htail
      simp only [keyEq, length_cons, zip_cons_cons, all_cons, map_cons, cons.injEq, Bool.and_eq_true, decide_eq_true_eq,
        Nat.add_right_cancel_iff, hhead, ← htail]
      tauto

/-! ## Closeness -/

section
variable {floatOfStr : String → Option PyFloat} {tol : Rat}

theorem isclose_comm (r s : Rat) (a b : PyFloat) : isclose r s a b = isclose r s b a := by
  have hdiff : ∀ p q : Rat, absRat (q - p) = absRat (p - q) := by
    intro p q
    unfold absRat
    split <;> split <;> linarith
  unfold isclose
  split
  · rfl
  · cases a <;> cases b <;> simp [PyFloat.eq, eq_comm]
    rename_i p q
    rw [hdiff p q]
    simp only [Bool.or_comm (decide (absRat (p - q) ≤ absRat (r * q)))]

theorem floatClose_comm (x y : Cell) : floatClose floatOfStr tol x y = floatClose floatOfStr tol y x := by
  unfold floatClose
  rw [pyEq_comm y x]
  by_cases hx : x = .null <;> by_cases hy : y = .null <;> simp [hx, hy]
  cases toFloat floatOfStr x <;> cases toFloat floatOfStr y <;> simp [isclose_comm]

theorem vecClose_comm (x y : Row) : vecClose floatOfStr tol x y = vecClose floatOfStr tol y x := by
  unfold vecClose
  induction x generalizing y with
  | nil => cases y <;> rfl
  | cons a x ih => cases y with
    | nil => rfl
    | cons b y => simp only [zip_cons_cons, all_cons, floatClose_comm a b, ih y]

end

/-! ## The comparison as a method -/

section
variable (floatOfStr : String → Option PyFloat) (tol : Rat)

def exactColumns (w : Nat) (rows : List Row) : List Nat := (range w).filter (· ∉ floatColumns w rows)

/-- The cells of the columns that are exact in all of `rows`, each number in one spelling. -/
def exactKey (w : Nat) (rows : List Row) (r : Row) : Row := (pick (exactColumns w rows) r).map canon

def floatVec (w : Nat) (rows : List Row) (r : Row) : Row := pick (floatColumns w rows) r

/-- How `_multiset_equal` compares tables of width `w` whose rows are `rows` taken together. -/
def rowMethod (w : Nat) (rows : List Row) : Method Row Row (List CellRank) where
  cls := exactKey w rows
  rank r := vecRank (floatVec w rows r)
  close r s := vecClose floatOfStr tol (floatVec w rows r) (floatVec w rows s) = true
  sorts n := (floatColumns w rows).length ≤ 1 ∨ n > exactMatchCap

end

section
variable {floatOfStr : String → Option PyFloat} {tol : Rat} {w : Nat} {rows a b : List Row}

theorem floatColumns_perm {rows' : List Row} (h : rows ~ rows') : floatColumns w rows = floatColumns w rows' := by
  refine filter_congr fun i _ => ?_
  rw [Bool.eq_iff_iff, any_eq_true, any_eq_true]
  simp only [h.mem_iff]

theorem rowMethod_perm {rows' : List Row} (h : rows ~ rows') :
    rowMethod floatOfStr tol w rows = rowMethod floatOfStr tol w rows' := by
  unfold rowMethod exactKey floatVec exactColumns
  rw [floatColumns_perm h]

theorem exact_cell {r : Row} (hr : r ∈ rows) : ∀ c ∈ pick (exactColumns w rows) r, c.isFloat = false := by
  intro c hc
  obtain ⟨i, hi, rfl⟩ := mem_map.1 hc
  obtain ⟨hw, hnot⟩ := mem_filter.1 hi
  simp only [decide_eq_true_eq] at hnot
  by_contra hfloat
  refine hnot (mem_filter.2 ⟨hw, any_eq_true.2 ⟨r, hr, ?_⟩⟩)
  simpa using hfloat

/-- A group of `_multiset_equal` is a class of the method. -/
theorem group_eq {r : Row} (hr : r ∈ rows) (hsub : ∀ s ∈ a, s ∈ rows) :
    a.filter (fun s => keyEq (pick (exactColumns w rows) s) (pick (exactColumns w rows) r)) =
      cls (exactKey w rows) (exactKey w rows r) a := by
  refine filter_congr fun s hs => ?_
  rw [Bool.eq_iff_iff, decide_eq_true_eq]
  exact keyEq_iff (exact_cell (hsub s hs)) (exact_cell hr)

theorem map_getD_range {α : Type} (l : List α) (d : α) : (range l.length).map (fun i => l.getD i d) = l := by
  refine ext_getElem (by simp) fun i hi hi' => ?_
  simp [getD_eq_getElem?_getD, hi']

theorem zip_all_iff {α : Type} {p : α × α → Bool} {l l' : List α} (hlen : l.length = l'.length) :
    (l.zip l').all p = true ↔ Forall₂ (fun x y => p (x, y) = true) l l' := by
  rw [forall₂_iff_zip, all_eq_true]
  exact ⟨fun h => ⟨hlen, fun {x y} hxy => h (x, y) hxy⟩, fun h p hp => h.2 hp⟩

theorem sorted_pairing_iff (hlen : a.length = b.length) :
    ((sortVecs (a.map (floatVec w rows))).zip (sortVecs (b.map (floatVec w rows)))).all
      (fun (va, vb) => vecClose floatOfStr tol va vb) = true ↔
    Forall₂ (rowMethod floatOfStr tol w rows).close (sortBy (rowMethod floatOfStr tol w rows).rank a)
      (sortBy (rowMethod floatOfStr tol w rows).rank b) := by
  rw [← map_sortVecs, ← map_sortVecs, zip_all_iff, forall₂_map_left_iff, forall₂_map_right_iff]
  · rfl
  · rw [length_map, length_map, (sortBy_perm _ a).length_eq, (sortBy_perm _ b).length_eq, hlen]

theorem matching_iff (n m : Nat) (hn : a.length = n) (hm : b.length = m) :
    matchAll (fun i j => vecClose floatOfStr tol ((a.map (floatVec w rows)).getD i [])
      ((b.map (floatVec w rows)).getD j [])) n m = true ↔ Embeds (rowMethod floatOfStr tol w rows).close a b := by
  have hA := map_getD_range (a.map (floatVec w rows)) []
  have hB := map_getD_range (b.map (floatVec w rows)) []
  rw [length_map, hn] at hA
  rw [length_map, hm] at hB
  have hvecs : Embeds (rowMethod floatOfStr tol w rows).close a b ↔
      Embeds (fun x y => vecClose floatOfStr tol x y = true) (a.map (floatVec w rows)) (b.map (floatVec w rows)) := by
    rw [embeds_map]
    rfl
  rw [matchAll_iff, hvecs]
  conv_rhs => rw [← hA, ← hB, embeds_map]

theorem matchFloatVecs_cons {r : Row} (h : r ∈ a) :
    matchFloatVecs floatOfStr tol (a.map (floatVec w rows)) (b.map (floatVec w rows)) =
      if (floatColumns w rows).length ≤ 1 ∨ a.length > exactMatchCap then
        ((sortVecs (a.map (floatVec w rows))).zip (sortVecs (b.map (floatVec w rows)))).all fun (va, vb) =>
          vecClose floatOfStr tol va vb
      else matchAll (fun i j => vecClose floatOfStr tol ((a.map (floatVec w rows)).getD i [])
        ((b.map (floatVec w rows)).getD j [])) a.length a.length := by
  cases a with
  | nil => exact absurd h not_mem_nil
  | cons s a =>
    have hwidth : (floatVec w rows s).length = (floatColumns w rows).length := by simp [floatVec, pick]
    rw [← hwidth]
    simp [matchFloatVecs]

/-- One group. -/
theorem matchFloatVecs_iff (hlen : a.length = b.length) :
    matchFloatVecs floatOfStr tol (a.map (floatVec w rows)) (b.map (floatVec w rows)) = true ↔
      (rowMethod floatOfStr tol w rows).AcceptsClass a b := by
  rcases a.eq_nil_or_concat with rfl | ⟨a', r, ha⟩
  · obtain rfl : b = [] := length_eq_zero_iff.1 hlen.symm
    exact iff_of_true rfl ⟨rfl, fun _ => .nil, fun _ => pairs_of_forall₂ .nil⟩
  · rw [matchFloatVecs_cons (r := r) (by simp [ha])]
    by_cases hsorts : (floatColumns w rows).length ≤ 1 ∨ a.length > exactMatchCap
    · rw [if_pos hsorts, sorted_pairing_iff hlen]
      exact ⟨fun h => ⟨hlen, fun _ => h, fun hnot => absurd hsorts hnot⟩, fun h => h.2.1 hsorts⟩
    · rw [if_neg hsorts, matching_iff _ _ rfl hlen.symm, ← and_iff_left (a := Embeds _ a b) hlen, ← pairs_iff]
      exact ⟨fun h => ⟨hlen, fun hyes => absurd hyes hsorts, fun _ => h⟩, fun h => h.2.2 hsorts⟩

/-- Without floating columns the counts decide. -/
theorem acceptsClass_of_exact (h : floatColumns w rows = []) (hlen : a.length = b.length) :
    (rowMethod floatOfStr tol w rows).AcceptsClass a b := by
  have hsorts : (rowMethod floatOfStr tol w rows).sorts a.length := .inl (by simp [h])
  refine ⟨hlen, fun _ => forall₂_iff_zip.2 ⟨?_, fun {x y} _ => ?_⟩, fun hnot => absurd hsorts hnot⟩
  · rw [(sortBy_perm _ a).length_eq, (sortBy_perm _ b).length_eq, hlen]
  · simp [rowMethod, floatVec, h, pick, vecClose]

theorem acceptsClass_nil : (rowMethod floatOfStr tol w rows).AcceptsClass [] [] :=
  ⟨rfl, fun _ => .nil, fun _ => pairs_of_forall₂ .nil⟩

/-- The groups of the rows are all the groups there are. -/
theorem accepts_iff_rows : (rowMethod floatOfStr tol w (a ++ b)).Accepts a b ↔ ∀ r ∈ a ++ b,
    (rowMethod floatOfStr tol w (a ++ b)).AcceptsClass (cls (exactKey w (a ++ b)) (exactKey w (a ++ b) r) a)
      (cls (exactKey w (a ++ b)) (exactKey w (a ++ b) r) b) := by
  constructor
  · exact fun h r _ => h _
  · intro h c
    by_cases hc : ∃ r ∈ a ++ b, exactKey w (a ++ b) r = c
    · obtain ⟨r, hr, rfl⟩ := hc
      exact h r hr
    · have hempty : ∀ l : List Row, (∀ r ∈ l, r ∈ a ++ b) → cls (exactKey w (a ++ b)) c l = [] := fun l hl =>
        filter_eq_nil_iff.2 fun r hr => by simpa using fun heq => hc ⟨r, hl r hr, heq⟩
      have hA := hempty a fun r hr => mem_append_left _ hr
      have hB := hempty b fun r hr => mem_append_right _ hr
      change Method.AcceptsClass _ (cls (exactKey w (a ++ b)) c a) (cls (exactKey w (a ++ b)) c b)
      rw [hA, hB]
      exact acceptsClass_nil

theorem multisetEqual_cons {r₀ : Row} {a' : List Row} (ha : a = r₀ :: a') :
    multisetEqual floatOfStr tol a b = true ↔ ∀ r ∈ a ++ b,
      let va := (a.filter fun s => keyEq (pick (exactColumns r₀.length (a ++ b)) s)
        (pick (exactColumns r₀.length (a ++ b)) r)).map (floatVec r₀.length (a ++ b))
      let vb := (b.filter fun s => keyEq (pick (exactColumns r₀.length (a ++ b)) s)
        (pick (exactColumns r₀.length (a ++ b)) r)).map (floatVec r₀.length (a ++ b))
      va.length = vb.length ∧ (floatColumns r₀.length (a ++ b) = [] ∨ matchFloatVecs floatOfStr tol va vb = true) := by
  subst ha
  rw [multisetEqual, all_eq_true]
  simp only [Bool.and_eq_true, decide_eq_true_eq, Bool.or_eq_true, List.isEmpty_iff]
  rfl

/-- **`multisetEqual` is the method's verdict.** -/
theorem multisetEqual_iff (hw : ∀ r ∈ a, r.length = w) :
    multisetEqual floatOfStr tol a b = true ↔ (rowMethod floatOfStr tol w (a ++ b)).Accepts a b := by
  cases ha : a with
  | nil =>
    cases b with
    | nil => exact iff_of_true rfl fun c => acceptsClass_nil
    | cons r b =>
      refine iff_of_false Bool.false_ne_true fun h => ?_
      have hlen := (h (exactKey w ([] ++ r :: b) r)).1
      simp [cls, rowMethod] at hlen
  | cons r₀ a' =>
    obtain rfl := hw r₀ (by simp [ha])
    rw [← ha, multisetEqual_cons ha, accepts_iff_rows]
    refine forall₂_congr fun r hr => ?_
    dsimp only
    rw [group_eq hr fun s hs => mem_append_left b hs, group_eq hr fun s hs => mem_append_right a hs, length_map,
      length_map]
    constructor
    · rintro ⟨hlen, hexact | hmatch⟩
      · exact acceptsClass_of_exact hexact hlen
      · exact (matchFloatVecs_iff hlen).1 hmatch
    · exact fun h => ⟨h.1, .inr ((matchFloatVecs_iff h.1).2 h)⟩

end

/-! ## The verdict on tables -/

/-- What `_rows` reads of a table: a row has a cell for each column. -/
structure ArrowTable extends Table where
  rect : ∀ r ∈ rows, r.length = columnNames.length

namespace ArrowTable

def width (a : ArrowTable) : Nat := a.columnNames.length

/-- As many columns, and the same rows in some order. -/
def RowPerm (a b : ArrowTable) : Prop := a.width = b.width ∧ a.rows ~ b.rows

theorem RowPerm.refl (a : ArrowTable) : a.RowPerm a := ⟨rfl, .refl _⟩

theorem exists_rowPerm (a : ArrowTable) {rows : List Row} (h : rows ~ a.rows) :
    ∃ a' : ArrowTable, a'.RowPerm a ∧ a'.rows = rows :=
  ⟨{ a with rows := rows, rect := fun r hr => a.rect r (h.mem_iff.1 hr) }, ⟨rfl, h⟩, rfl⟩

section
variable (floatOfStr : String → Option PyFloat) (tol : Rat) (a b : ArrowTable)

/-- `results_equal(a, b, ordered=False)`. -/
def unorderedEqual : Bool := resultsEqual floatOfStr tol false none a.toTable b.toTable

/-- The verdict on `a` and `b` depends on their rows alone. -/
structure OrderFree : Prop where
  perm : ∀ a' b' : ArrowTable, a'.RowPerm a → b'.RowPerm b →
    unorderedEqual floatOfStr tol a' b' = unorderedEqual floatOfStr tol a b
  comm : unorderedEqual floatOfStr tol a b = unorderedEqual floatOfStr tol b a
  refl : b.RowPerm a → unorderedEqual floatOfStr tol a b = true

def method : Method Row Row (List CellRank) := rowMethod floatOfStr tol a.width (a.rows ++ b.rows)

/-- The groups are of equal sizes; those that are matched have a matching, and in those that are sorted any two rows
that ties can bring to one place are close. -/
def Firm : Prop := a.width = b.width ∧ (method floatOfStr tol a b).Firm a.rows b.rows

/-- Every group can be paired off with rows that are close, in a sorted group with rows that ties can bring to one
place. -/
def Feasible : Prop := a.width = b.width ∧ (method floatOfStr tol a b).Feasible a.rows b.rows

end

variable {floatOfStr : String → Option PyFloat} {tol : Rat} {a b : ArrowTable}

theorem accepts_length {m : Method Row Row (List CellRank)} {l l' : List Row} (h : m.Accepts l l') :
    l.length = l'.length := by
  have hpairs : Pairs (fun _ _ : Row => True) l l' := by
    refine pairs_of_classes m.cls m.cls fun c => pairs_of_forall₂ ?_
    exact forall₂_iff_zip.2 ⟨(h c).1, fun _ => trivial⟩
  exact hpairs.length_eq

theorem unorderedEqual_iff : unorderedEqual floatOfStr tol a b = true ↔
    a.width = b.width ∧ (method floatOfStr tol a b).Accepts a.rows b.rows := by
  have hset : multisetEqual floatOfStr tol a.rows b.rows = true ↔
      (method floatOfStr tol a b).Accepts a.rows b.rows := multisetEqual_iff a.rect
  unfold unorderedEqual resultsEqual
  by_cases hw : a.columnNames.length = b.columnNames.length
  · rw [if_neg (not_not.2 hw)]
    by_cases hlen : a.rows.length = b.rows.length
    · rw [if_neg (not_not.2 hlen), Bool.not_false, if_pos rfl, hset]
      exact ⟨fun h => ⟨hw, h⟩, fun h => h.2⟩
    · rw [if_pos hlen]
      exact iff_of_false Bool.false_ne_true fun h => hlen (accepts_length h.2)
  · rw [if_pos hw]
    exact iff_of_false Bool.false_ne_true fun h => hw h.1

theorem method_perm {a' b' : ArrowTable} (ha : a'.RowPerm a) (hb : b'.RowPerm b) :
    method floatOfStr tol a' b' = method floatOfStr tol a b := by
  unfold method
  rw [ha.1]
  exact rowMethod_perm (ha.2.append hb.2)

theorem unorderedEqual_perm_iff {a' b' : ArrowTable} (ha : a'.RowPerm a) (hb : b'.RowPerm b) :
    unorderedEqual floatOfStr tol a' b' = true ↔
      a.width = b.width ∧ (method floatOfStr tol a b).Accepts a'.rows b'.rows := by
  rw [unorderedEqual_iff, method_perm ha hb, ha.1, hb.1]

/-- **The verdict is symmetric.** -/
theorem unorderedEqual_comm : unorderedEqual floatOfStr tol a b = unorderedEqual floatOfStr tol b a := by
  rw [Bool.eq_iff_iff, unorderedEqual_iff, unorderedEqual_iff, eq_comm]
  refine and_congr_right fun hw => ?_
  have hmethod : method floatOfStr tol b a = method floatOfStr tol a b := by
    unfold method
    rw [hw]
    exact rowMethod_perm perm_append_comm
  rw [hmethod]
  refine Method.accepts_comm fun x y hxy => ?_
  exact (vecClose_comm _ _).trans hxy

theorem perm_iff : (∀ a' b' : ArrowTable, a'.RowPerm a → b'.RowPerm b →
      unorderedEqual floatOfStr tol a' b' = unorderedEqual floatOfStr tol a b) ↔
    Firm floatOfStr tol a b ∨ ¬ Feasible floatOfStr tol a b := by
  by_cases hw : a.width = b.width
  · have hstable := (method floatOfStr tol a b).stable_iff (a := a.rows) (b := b.rows)
    unfold Firm Feasible
    rw [and_iff_right hw, and_iff_right hw, ← hstable]
    constructor
    · intro h rowsA rowsB hA hB
      obtain ⟨a', ha, rfl⟩ := a.exists_rowPerm hA
      obtain ⟨b', hb, rfl⟩ := b.exists_rowPerm hB
      have hsame := Bool.eq_iff_iff.1 (h a' b' ha hb)
      rwa [unorderedEqual_perm_iff ha hb, unorderedEqual_iff, and_iff_right hw, and_iff_right hw] at hsame
    · intro h a' b' ha hb
      rw [Bool.eq_iff_iff, unorderedEqual_perm_iff ha hb, unorderedEqual_iff, h _ _ ha.2 hb.2]
  · refine iff_of_true (fun a' b' ha hb => ?_) (.inr fun h => hw h.1)
    rw [Bool.eq_iff_iff, unorderedEqual_perm_iff ha hb, unorderedEqual_iff]
    exact iff_of_false (fun h => hw h.1) fun h => hw h.1

theorem orderFree_iff : OrderFree floatOfStr tol a b ↔
    Firm floatOfStr tol a b ∨ (¬ Feasible floatOfStr tol a b ∧ ¬ b.RowPerm a) := by
  have hfirm : Firm floatOfStr tol a b → unorderedEqual floatOfStr tol a b = true := fun h =>
    unorderedEqual_iff.2 ⟨h.1, Method.always_iff.2 h.2 _ _ (.refl _) (.refl _)⟩
  have hfeasible : unorderedEqual floatOfStr tol a b = true → Feasible floatOfStr tol a b := fun h =>
    ⟨(unorderedEqual_iff.1 h).1, Method.sometimes_iff.1 ⟨_, _, .refl _, .refl _, (unorderedEqual_iff.1 h).2⟩⟩
  constructor
  · rintro ⟨hperm, -, hrefl⟩
    rcases perm_iff.1 hperm with h | h
    · exact .inl h
    · exact .inr ⟨h, fun hba => h (hfeasible (hrefl hba))⟩
  · rintro (h | ⟨h, hnot⟩)
    · exact ⟨perm_iff.2 (.inl h), unorderedEqual_comm, fun _ => hfirm h⟩
    · exact ⟨perm_iff.2 (.inr h), unorderedEqual_comm, fun hba => absurd hba hnot⟩

/-! ## Floating columns of nulls and numbers -/

end ArrowTable

/-- A cell that sorts by its value and is close to itself. -/
def Cell.Plain : Cell → Prop
  | .null | .bool _ | .int _ => True
  | .float f => f ≠ .nan
  | _ => False

section
variable {floatOfStr : String → Option PyFloat} {tol : Rat}

theorem isclose_self {a : PyFloat} (h : a ≠ .nan) : (isclose tol tol a a).getD (a.eq a) = true := by
  have heq : a.eq a = true := PyFloat.eq_iff.2 ⟨rfl, h⟩
  unfold isclose
  rw [heq]
  split <;> rfl

/-- A plain cell is missing or is a number. -/
theorem Cell.Plain.cases (floatOfStr : String → Option PyFloat) {c : Cell} (h : c.Plain) :
    c = .null ∨ ∃ f, c ≠ .null ∧ f ≠ .nan ∧ c.num? = some f ∧ toFloat floatOfStr c = some f ∧
      cellRank c = toLex (false, toLex (false, f.rank)) := by
  cases c with
  | null => exact .inl rfl
  | bool b => exact .inr ⟨.fin (if b then 1 else 0), by simp, by simp, rfl, rfl, rfl⟩
  | int i => exact .inr ⟨.fin i, by simp, by simp, rfl, rfl, rfl⟩
  | float f =>
    refine .inr ⟨f, by simp, h, rfl, rfl, ?_⟩
    cases f with
    | nan => exact absurd rfl h
    | _ => rfl
  | _ => exact h.elim

theorem floatClose_self {c : Cell} (h : c.Plain) : floatClose floatOfStr tol c c = true := by
  rcases h.cases floatOfStr with rfl | ⟨f, hne, hf, hnum, hfloat, -⟩
  · rfl
  · have hself : c.pyEq c = f.eq f := by
      unfold Cell.pyEq
      rw [hnum]
    unfold floatClose
    rw [if_neg (by simp [hne]), hfloat, hself]
    exact isclose_self hf

/-- The sort key of a plain cell decides what it is close to. -/
theorem floatClose_of_rank {x x' : Cell} (hx : x.Plain) (hx' : x'.Plain) (h : cellRank x = cellRank x') (y : Cell) :
    floatClose floatOfStr tol x y = floatClose floatOfStr tol x' y := by
  rcases hx.cases floatOfStr with rfl | ⟨f, hne, hf, hnum, hfloat, hrank⟩ <;>
    rcases hx'.cases floatOfStr with rfl | ⟨f', hne', hf', hnum', hfloat', hrank'⟩
  · rfl
  · rw [hrank'] at h
    exact absurd (congrArg (fun r => (ofLex r).1) h) (by simp [cellRank, cellSortKey])
  · rw [hrank] at h
    exact absurd (congrArg (fun r => (ofLex r).1) h) (by simp [cellRank, cellSortKey])
  · rw [hrank, hrank'] at h
    have hsame : f = f' := (PyFloat.rank_inj hf hf').2 (by simpa using h)
    subst hsame
    have hpy : x.pyEq y = x'.pyEq y := by
      unfold Cell.pyEq
      rw [hnum, hnum']
      cases y.num? <;> rfl
    unfold floatClose
    rw [hfloat, hfloat', hpy]
    simp only [hne, hne', false_or]

theorem vecClose_self {v : Row} (h : ∀ c ∈ v, c.Plain) : vecClose floatOfStr tol v v = true := by
  induction v with
  | nil => rfl
  | cons c v ih =>
    have htail := ih fun c hc => h c (mem_cons_of_mem _ hc)
    simp only [vecClose] at htail
    simp only [vecClose, zip_cons_cons, all_cons, floatClose_self (h c mem_cons_self), htail, Bool.and_self]

theorem vecClose_of_rank {v v' : Row} (hv : ∀ c ∈ v, c.Plain) (hv' : ∀ c ∈ v', c.Plain) (h : vecRank v = vecRank v')
    (u : Row) : vecClose floatOfStr tol v u = vecClose floatOfStr tol v' u := by
  induction v generalizing v' u with
  | nil => cases v' with
    | nil => rfl
    | cons c v' => cases h
  | cons c v ih => cases v' with
    | nil => cases h
    | cons c' v' => cases u with
      | nil => rfl
      | cons d u =>
        simp only [vecRank, map_cons, cons.injEq] at h
        have htail := ih (fun c hc => hv c (mem_cons_of_mem _ hc)) (fun c hc => hv' c (mem_cons_of_mem _ hc)) h.2 u
        simp only [vecClose] at htail
        simp only [vecClose, zip_cons_cons, all_cons, htail,
          floatClose_of_rank (hv c mem_cons_self) (hv' c' mem_cons_self) h.1 d]

end

namespace ArrowTable

variable {floatOfStr : String → Option PyFloat} {tol : Rat} {a b : ArrowTable}

/-- The floating columns hold nulls, bools, ints and floats other than NaN. -/
def PlainFloats (a b : ArrowTable) : Prop :=
  ∀ r ∈ a.rows ++ b.rows, ∀ c ∈ floatVec a.width (a.rows ++ b.rows) r, c.Plain

theorem PlainFloats.close_of_rank (h : PlainFloats a b) {x x' y y' : Row} (hx : x ∈ a.rows ++ b.rows)
    (hy : y ∈ a.rows ++ b.rows) (hx' : x' ∈ a.rows ++ b.rows) (hy' : y' ∈ a.rows ++ b.rows)
    (hrx : (method floatOfStr tol a b).rank x = (method floatOfStr tol a b).rank x')
    (hry : (method floatOfStr tol a b).rank y = (method floatOfStr tol a b).rank y')
    (hxy : (method floatOfStr tol a b).close x y) : (method floatOfStr tol a b).close x' y' := by
  let vec := floatVec a.width (a.rows ++ b.rows)
  have hleft : vecClose floatOfStr tol (vec x) (vec y) = vecClose floatOfStr tol (vec x') (vec y) :=
    vecClose_of_rank (h x hx) (h x' hx') hrx _
  have hright : vecClose floatOfStr tol (vec y) (vec x') = vecClose floatOfStr tol (vec y') (vec x') :=
    vecClose_of_rank (h y hy) (h y' hy') hry _
  rw [vecClose_comm _ (vec x'), vecClose_comm _ (vec x')] at hright
  exact hright.symm.trans (hleft.symm.trans hxy)

theorem PlainFloats.orderFree (h : PlainFloats a b) : OrderFree floatOfStr tol a b := by
  have hA : ∀ {r}, r ∈ a.rows → r ∈ a.rows ++ b.rows := mem_append_left _
  have hB : ∀ {r}, r ∈ b.rows → r ∈ a.rows ++ b.rows := mem_append_right _
  refine ⟨fun a' b' ha hb => ?_, unorderedEqual_comm, fun hba => unorderedEqual_iff.2 ⟨hba.1.symm, ?_⟩⟩
  · rw [Bool.eq_iff_iff, unorderedEqual_perm_iff ha hb, unorderedEqual_iff]
    refine and_congr_right fun _ => ⟨?_, ?_⟩
    · exact Method.accepts_perm_of_key (fun x hx y hy x' hx' y' hy' => h.close_of_rank (hA (ha.2.mem_iff.1 hx))
        (hB (hb.2.mem_iff.1 hy)) (hA (ha.2.mem_iff.1 hx')) (hB (hb.2.mem_iff.1 hy'))) ha.2.symm hb.2.symm
    · exact Method.accepts_perm_of_key (fun x hx y hy x' hx' y' hy' => h.close_of_rank (hA hx) (hB hy) (hA hx')
        (hB hy')) ha.2 hb.2
  · have hself : (method floatOfStr tol a b).Accepts a.rows a.rows :=
      Method.accepts_self fun r hr => vecClose_self (h r (hA hr))
    exact Method.accepts_perm_of_key (fun x hx y hy x' hx' y' hy' => h.close_of_rank (hA hx) (hA hy) (hA hx') (hA hy'))
      (.refl _) hba.2 hself

/-- One column. -/
def column (cells : List Cell) : ArrowTable where
  columnNames := ["x"]
  rows := cells.map fun c => [c]
  rect r hr := by
    obtain ⟨c, -, rfl⟩ := mem_map.1 hr
    rfl

def nanColumn : ArrowTable := column [.float .nan]
def floatsColumn : ArrowTable := column [.float (.fin 1), .float (.fin 2)]
def decimalsColumn : ArrowTable := column [.decimal 1, .decimal 2]

end ArrowTable

end SynnoDB.Router
