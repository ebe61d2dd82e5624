import SynnoDB.Lib.Ranking
import SynnoDB.Router.Unordered

/-!
# The cross-check of a ranking that a LIMIT cuts off (`router/adapt.py`)

| here | there |
| --- | --- |
| `takeClose`, `matchFloatVecsSubset` | `_match_float_vecs_subset` and its loop over the sorted rows |
| `multisetContained`   | `_multiset_contained` |
| `maxWidenFactor`, `widen`, `candidateSuperset` | `_MAX_WIDEN_FACTOR`, `candidate_superset` and its loop |
| `resultsEqualTop`     | `results_equal` with `row_limit` and `candidates` |

`TopQuery` is what the code is about: the rows that `ORDER BY k LIMIT n OFFSET m` ranks, with exact keys. A legal answer
is the window of any of its rankings. The pool that `candidateSuperset` returns holds every row a window can hold
(`pool_complete`), and the key sequence together with containment in the pool decides whether rows are a window.
-/

namespace SynnoDB.Router

open List Pairing

section
variable (floatOfStr : String → Option PyFloat) (tol : Rat)

/-- Each row of the first list takes the next row of the second that is close to it. -/
def takeClose : List Row → List Row → Bool
  | [], _ => true
  | _ :: _, [] => false
  | va :: sa, vb :: sb => if vecClose floatOfStr tol va vb then takeClose sa sb else takeClose (va :: sa) sb

def matchFloatVecsSubset (a b : List Row) : Bool :=
  match a with
  | [] => true
  | v :: _ =>
    if a.length > b.length then false
    else if v.length ≤ 1 || b.length > exactMatchCap then takeClose floatOfStr tol (sortVecs a) (sortVecs b)
    else matchAll (fun i j => vecClose floatOfStr tol (a.getD i []) (b.getD j [])) a.length b.length

def multisetContained (rowsA rowsB : List Row) : Bool :=
  match rowsA with
  | [] => true
  | r0 :: _ =>
    let floatIdx := floatColumns r0.length (rowsA ++ rowsB)
    let exactIdx := (List.range r0.length).filter (· ∉ floatIdx)
    let grp (rows : List Row) (k : Row) := (rows.filter fun r => keyEq (pick exactIdx r) k).map (pick floatIdx)
    rowsA.all fun r =>
      let va := grp rowsA (pick exactIdx r)
      let vb := grp rowsB (pick exactIdx r)
      !(vb.isEmpty || va.length > vb.length) && (floatIdx.isEmpty || matchFloatVecsSubset floatOfStr tol va vb)

def maxWidenFactor : Nat := 1024

/-- The loop `while limit <= window * _MAX_WIDEN_FACTOR`; `limit` grows, so `window * _MAX_WIDEN_FACTOR` rounds do
(`widen_enough`). -/
def widen (orderKeys : List Nat) (fetchWidened : Nat → Option Table) (window : Nat) (lastKey : Row) :
    Nat → Nat → Option (List Row)
  | 0, _ => none
  | fuel + 1, limit =>
    if limit ≤ window * maxWidenFactor then
      match fetchWidened (limit * 2) with
      | none => none
      | some widened =>
        if widened.rows.isEmpty then none
        else if widened.rows.length < limit * 2 ||
            !rowEqual floatOfStr tol (pick orderKeys (widened.rows.getLast?.getD [])) lastKey then some widened.rows
        else widen orderKeys fetchWidened window lastKey fuel (limit * 2)
    else none

def candidateSuperset (reference : Table) (orderKeys : List Nat) (rowLimit : Option Nat) (rowOffset : Nat)
    (fetchWidened : Nat → Option Table) : Option (List Row) :=
  let rows := reference.rows
  if rows.isEmpty || orderKeys.isEmpty then none
  else match rowLimit with
    | none => none
    | some n =>
      if rows.length ≠ n then none
      else
        let window := rowOffset + n
        widen floatOfStr tol orderKeys fetchWidened window (pick orderKeys (rows.getLast?.getD []))
          (window * maxWidenFactor + 1) window

def resultsEqualTop (ordered : Bool) (orderKeys : Option (List Nat)) (rowLimit : Option Nat)
    (candidates : Option (List Row)) (bespoke reference : Table) : Bool :=
  if bespoke.columnNames.length ≠ reference.columnNames.length then false
  else if bespoke.rows.length ≠ reference.rows.length then false
  else if !ordered then multisetEqual floatOfStr tol bespoke.rows reference.rows
  else match orderKeys with
    | some (k :: ks) =>
      ((bespoke.rows.zip reference.rows).all fun (a, b) =>
        rowEqual floatOfStr tol (pick (k :: ks) a) (pick (k :: ks) b)) &&
      match candidates, rowLimit with
      | some pool, some n =>
        if reference.rows.length = n then multisetContained floatOfStr tol bespoke.rows pool
        else multisetEqual floatOfStr tol bespoke.rows reference.rows
      | _, _ => multisetEqual floatOfStr tol bespoke.rows reference.rows
    | _ => (bespoke.rows.zip reference.rows).all fun (a, b) => rowEqual floatOfStr tol a b

end

section
variable {floatOfStr : String → Option PyFloat} {tol : Rat}

/-- Without a pool this is `resultsEqual`. -/
theorem resultsEqualTop_none (ordered : Bool) (orderKeys : Option (List Nat)) (rowLimit : Option Nat)
    (bespoke reference : Table) : resultsEqualTop floatOfStr tol ordered orderKeys rowLimit none bespoke reference =
      resultsEqual floatOfStr tol ordered orderKeys bespoke reference := rfl

/-! ## Widening -/

variable {orderKeys : List Nat} {fetch : Nat → Option Table} {lastKey : Row} {pool : List Row} {fuel limit top : Nat}

theorem widen_succ (fuel limit : Nat) : widen floatOfStr tol orderKeys fetch top lastKey (fuel + 1) limit =
    if limit ≤ top * maxWidenFactor then
      match fetch (limit * 2) with
      | none => none
      | some widened =>
        if widened.rows.isEmpty then none
        else if widened.rows.length < limit * 2 ||
            !rowEqual floatOfStr tol (pick orderKeys (widened.rows.getLast?.getD [])) lastKey then some widened.rows
        else widen floatOfStr tol orderKeys fetch top lastKey fuel (limit * 2)
    else none := rfl

/-- More fuel than rounds changes nothing. -/
theorem widen_enough (hpos : 0 < limit) (hfuel : top * maxWidenFactor < limit + fuel) :
    widen floatOfStr tol orderKeys fetch top lastKey (fuel + 1) limit =
      widen floatOfStr tol orderKeys fetch top lastKey fuel limit := by
  induction fuel generalizing limit with
  | zero =>
    rw [widen_succ, if_neg (by omega)]
    rfl
  | succ fuel ih =>
    have hpos' : 0 < limit * 2 := by omega
    have hnext := ih hpos' (by omega)
    rw [widen_succ (fuel + 1) limit, hnext, widen_succ fuel limit]

/-- A pool is the top of a ranking that is wide enough, and either the whole of it or past the last key. -/
theorem widen_some (h : widen floatOfStr tol orderKeys fetch top lastKey fuel limit = some pool) :
    ∃ N t, limit ≤ N ∧ fetch N = some t ∧ t.rows = pool ∧ pool ≠ [] ∧ (pool.length < N ∨
      rowEqual floatOfStr tol (pick orderKeys (pool.getLast?.getD [])) lastKey = false) := by
  induction fuel generalizing limit with
  | zero => cases h
  | succ fuel ih =>
    rw [widen_succ] at h
    split at h
    · split at h
      · cases h
      · rename_i t ht
        split at h
        · cases h
        · rename_i hne
          split at h
          · rename_i hend
            obtain rfl : t.rows = pool := Option.some.inj h
            refine ⟨limit * 2, t, by omega, ht, rfl, by simpa using hne, ?_⟩
            simpa using hend
          · obtain ⟨N, t, hN, hrest⟩ := ih h
            exact ⟨N, t, by omega, hrest⟩
    · cases h

theorem candidateSuperset_some {reference : Table} {rowLimit : Option Nat} {rowOffset : Nat}
    (h : candidateSuperset floatOfStr tol reference orderKeys rowLimit rowOffset fetch = some pool) :
    reference.rows ≠ [] ∧ orderKeys ≠ [] ∧ rowLimit = some reference.rows.length ∧
      ∃ N t, rowOffset + reference.rows.length ≤ N ∧ fetch N = some t ∧ t.rows = pool ∧ pool ≠ [] ∧ (pool.length < N ∨
        rowEqual floatOfStr tol (pick orderKeys (pool.getLast?.getD []))
          (pick orderKeys (reference.rows.getLast?.getD [])) = false) := by
  unfold candidateSuperset at h
  dsimp only at h
  split at h
  · cases h
  · rename_i hne
    simp only [Bool.or_eq_true, List.isEmpty_iff, not_or] at hne
    split at h
    · cases h
    · split at h
      · cases h
      · rename_i hlen
        have hlen := not_not.1 hlen
        subst hlen
        exact ⟨hne.1, hne.2, rfl, widen_some h⟩

end

/-! ## Containment -/

section
variable {floatOfStr : String → Option PyFloat} {tol : Rat} {w : Nat} {rows a b : List Row}

theorem takeClose_sound {sa sb : List Row} (h : takeClose floatOfStr tol sa sb = true) :
    Embeds (fun x y => vecClose floatOfStr tol x y = true) sa sb := by
  induction sb generalizing sa with
  | nil => cases sa with
    | nil => exact ⟨[], nil_subperm, .nil⟩
    | cons va sa => cases h
  | cons vb sb ih => cases sa with
    | nil => exact ⟨[], nil_subperm, .nil⟩
    | cons va sa =>
      rw [takeClose] at h
      split at h
      · rename_i hclose
        obtain ⟨c, hc, hr⟩ := ih h
        exact ⟨vb :: c, (subperm_cons vb).2 hc, .cons hclose hr⟩
      · obtain ⟨c, hc, hr⟩ := ih h
        exact ⟨c, hc.cons_right vb, hr⟩

/-- The first close row is never too late: the keys that are still to be found come after it. -/
theorem takeClose_complete {sa sb : List Row} (hsub : sa.map vecRank <+ sb.map vecRank)
    (hclose : ∀ x ∈ sa, ∀ y ∈ sb, vecRank x = vecRank y → vecClose floatOfStr tol x y = true) :
    takeClose floatOfStr tol sa sb = true := by
  induction sb generalizing sa with
  | nil => cases sa with
    | nil => rfl
    | cons va sa => cases hsub
  | cons vb sb ih => cases sa with
    | nil => rfl
    | cons va sa =>
      rw [takeClose]
      by_cases h : vecClose floatOfStr tol va vb = true
      · rw [if_pos h]
        have htail : sa.map vecRank <+ sb.map vecRank := by
          rcases cons_sublist_cons'.1 hsub with hlater | ⟨-, hhere⟩
          · exact (sublist_cons_self _ _).trans hlater
          · exact hhere
        exact ih htail fun x hx y hy => hclose x (mem_cons_of_mem _ hx) y (mem_cons_of_mem _ hy)
      · rw [if_neg h]
        have hskip : (va :: sa).map vecRank <+ sb.map vecRank := by
          have hne : vecRank va ≠ vecRank vb := fun heq => h (hclose va mem_cons_self vb mem_cons_self heq)
          rcases cons_sublist_cons'.1 hsub with hlater | ⟨heq, -⟩
          · exact hlater
          · exact absurd heq hne
        exact ih hskip fun x hx y hy => hclose x hx y (mem_cons_of_mem _ hy)

theorem matchFloatVecsSubset_cons {r : Row} (h : r ∈ a) :
    matchFloatVecsSubset floatOfStr tol (a.map (floatVec w rows)) (b.map (floatVec w rows)) =
      if a.length > b.length then false
      else if (floatColumns w rows).length ≤ 1 ∨ b.length > exactMatchCap then
        takeClose floatOfStr tol (sortVecs (a.map (floatVec w rows))) (sortVecs (b.map (floatVec w rows)))
      else matchAll (fun i j => vecClose floatOfStr tol ((a.map (floatVec w rows)).getD i [])
        ((b.map (floatVec w rows)).getD j [])) a.length b.length := by
  cases a with
  | nil => exact absurd h not_mem_nil
  | cons s a =>
    have hwidth : (floatVec w rows s).length = (floatColumns w rows).length := by simp [floatVec, pick]
    rw [← hwidth]
    simp [matchFloatVecsSubset]

theorem matchFloatVecsSubset_sound {r : Row} (hr : r ∈ a)
    (h : matchFloatVecsSubset floatOfStr tol (a.map (floatVec w rows)) (b.map (floatVec w rows)) = true) :
    Embeds (rowMethod floatOfStr tol w rows).close a b := by
  rw [matchFloatVecsSubset_cons hr] at h
  split at h
  · cases h
  · split at h
    · have hvecs := takeClose_sound h
      rw [← map_sortVecs, ← map_sortVecs, embeds_map] at hvecs
      exact (embeds_perm (sortBy_perm _ a) (sortBy_perm _ b)).1 hvecs
    · exact (matching_iff _ _ rfl rfl).1 h

theorem matchFloatVecsSubset_complete {r : Row} (hr : r ∈ a)
    (hclose : ∀ x ∈ a, ∀ y ∈ b, vecRank (floatVec w rows x) = vecRank (floatVec w rows y) →
      (rowMethod floatOfStr tol w rows).close x y)
    (h : Embeds (fun x y => vecRank (floatVec w rows x) = vecRank (floatVec w rows y)) a b) :
    matchFloatVecsSubset floatOfStr tol (a.map (floatVec w rows)) (b.map (floatVec w rows)) = true := by
  rw [matchFloatVecsSubset_cons hr, if_neg (Nat.not_lt.2 h.length_le)]
  split
  · rw [← map_sortVecs, ← map_sortVecs]
    refine takeClose_complete ?_ ?_
    · let ρ (r : Row) := vecRank (floatVec w rows r)
      obtain ⟨c, hc, hsame⟩ := h
      have hkeys : a.map ρ = c.map ρ := forall₂_eq_eq_eq ▸ forall₂_map_left_iff.2 (forall₂_map_right_iff.2 hsame)
      have hranks : ranks ρ a <+~ ranks ρ b := by
        have hleft : ranks ρ a ~ c.map ρ := hkeys ▸ (sortBy_perm ρ a).map ρ
        obtain ⟨d, hdc, hdb⟩ := hc
        have hmid : c.map ρ <+~ b.map ρ := ⟨d.map ρ, hdc.map ρ, hdb.map ρ⟩
        exact hleft.subperm.trans (hmid.trans ((sortBy_perm ρ b).symm.map ρ).subperm)
      rw [map_map, map_map]
      exact sublist_of_subperm_of_pairwise hranks (ranks_pairwise ρ a) (ranks_pairwise ρ b)
    · intro x hx y hy heq
      obtain ⟨r, hr, rfl⟩ := mem_map.1 hx
      obtain ⟨s, hs, rfl⟩ := mem_map.1 hy
      exact hclose r ((sortBy_perm _ a).mem_iff.1 hr) s ((sortBy_perm _ b).mem_iff.1 hs) heq
  · exact (matching_iff _ _ rfl rfl).2 (h.mono hclose)

variable (floatOfStr tol w rows) in
/-- Equal in the columns that are exact in `rows`, and close in the others. -/
def Near (r s : Row) : Prop :=
  exactKey w rows r = exactKey w rows s ∧ vecClose floatOfStr tol (floatVec w rows r) (floatVec w rows s) = true

variable (w rows) in
/-- Equal in the columns that are exact in `rows`, and of one rank in the others. -/
def SameRank (r s : Row) : Prop :=
  exactKey w rows r = exactKey w rows s ∧ vecRank (floatVec w rows r) = vecRank (floatVec w rows s)

theorem multisetContained_cons {r₀ : Row} {a' : List Row} (ha : a = r₀ :: a') :
    multisetContained floatOfStr tol a b = true ↔ ∀ r ∈ a,
      let va := (a.filter fun s => keyEq (pick (exactColumns r₀.length (a ++ b)) s)
        (pick (exactColumns r₀.length (a ++ b)) r)).map (floatVec r₀.length (a ++ b))
      let vb := (b.filter fun s => keyEq (pick (exactColumns r₀.length (a ++ b)) s)
        (pick (exactColumns r₀.length (a ++ b)) r)).map (floatVec r₀.length (a ++ b))
      ¬ (vb = [] ∨ va.length > vb.length) ∧
        (floatColumns r₀.length (a ++ b) = [] ∨ matchFloatVecsSubset floatOfStr tol va vb = true) := by
  subst ha
  rw [multisetContained, all_eq_true]
  simp only [Bool.and_eq_true, Bool.not_eq_true', Bool.or_eq_true, Bool.or_eq_false_iff, decide_eq_false_iff_not,
    List.isEmpty_iff, List.isEmpty_eq_false_iff, not_or]
  rfl

theorem embeds_of_length_le {R : Row → Row → Prop} (hR : ∀ x ∈ a, ∀ y ∈ b, R x y) (h : a.length ≤ b.length) :
    Embeds R a b := by
  have hlen : a.length = (b.take a.length).length := by
    rw [length_take]
    omega
  refine ⟨b.take a.length, (take_sublist _ _).subperm, forall₂_iff_zip.2 ⟨hlen, fun {x y} hxy => ?_⟩⟩
  have hmem := of_mem_zip hxy
  exact hR x hmem.1 y (mem_of_mem_take hmem.2)

/-- Contained rows can be given rows of their own that are near. -/
theorem multisetContained_sound (hw : ∀ r ∈ a, r.length = w) (h : multisetContained floatOfStr tol a b = true) :
    Embeds (Near floatOfStr tol w (a ++ b)) a b := by
  cases ha : a with
  | nil => exact ⟨[], nil_subperm, .nil⟩
  | cons r₀ a' =>
    obtain rfl := hw r₀ (by simp [ha])
    rw [← ha]
    have hgroups := (multisetContained_cons ha).1 h
    refine embeds_of_classes (exactKey r₀.length (a ++ b)) (exactKey r₀.length (a ++ b)) fun c => ?_
    by_cases hc : ∃ r ∈ a, exactKey r₀.length (a ++ b) r = c
    · obtain ⟨r, hr, rfl⟩ := hc
      have hgroup := hgroups r hr
      dsimp only at hgroup
      rw [group_eq (mem_append_left b hr) fun s hs => mem_append_left b hs,
        group_eq (mem_append_left b hr) fun s hs => mem_append_right a hs, length_map, length_map] at hgroup
      obtain ⟨hlen, hfloats⟩ := hgroup
      have hclose : Embeds (rowMethod floatOfStr tol r₀.length (a ++ b)).close
          (cls (exactKey r₀.length (a ++ b)) (exactKey r₀.length (a ++ b) r) a)
          (cls (exactKey r₀.length (a ++ b)) (exactKey r₀.length (a ++ b) r) b) := by
        rcases hfloats with hexact | hmatch
        · refine embeds_of_length_le (fun x _ y _ => ?_) (Nat.not_lt.1 fun hlt => hlen (.inr hlt))
          simp [rowMethod, floatVec, hexact, pick, vecClose]
        · exact matchFloatVecsSubset_sound (mem_cls.2 ⟨hr, rfl⟩) hmatch
      exact hclose.mono fun x hx y hy hxy => ⟨(mem_cls.1 hx).2.trans (mem_cls.1 hy).2.symm, hxy⟩
    · have hnone : cls (exactKey r₀.length (a ++ b)) c a = [] :=
        filter_eq_nil_iff.2 fun r hr => by simpa using fun heq => hc ⟨r, hr, heq⟩
      rw [hnone]
      exact ⟨[], nil_subperm, .nil⟩

/-- Rows that can be given rows of their own of the same rank are contained, where the rank decides closeness. -/
theorem multisetContained_complete (hw : ∀ r ∈ a, r.length = w) (h : Embeds (SameRank w (a ++ b)) a b)
    (hclose : ∀ x ∈ a, ∀ y ∈ b, vecRank (floatVec w (a ++ b) x) = vecRank (floatVec w (a ++ b) y) →
      vecClose floatOfStr tol (floatVec w (a ++ b) x) (floatVec w (a ++ b) y) = true) :
    multisetContained floatOfStr tol a b = true := by
  cases ha : a with
  | nil => rfl
  | cons r₀ a' =>
    obtain rfl := hw r₀ (by simp [ha])
    rw [← ha]
    refine (multisetContained_cons ha).2 fun r hr => ?_
    dsimp only
    rw [group_eq (mem_append_left b hr) fun s hs => mem_append_left b hs,
      group_eq (mem_append_left b hr) fun s hs => mem_append_right a hs, length_map, length_map]
    have hclass := (h.on_class (exactKey r₀.length (a ++ b)) (exactKey r₀.length (a ++ b))
      (fun x _ y _ hxy => hxy.1) (exactKey r₀.length (a ++ b) r)).mono fun x _ y _ hxy => hxy.2
    have hmem : r ∈ cls (exactKey r₀.length (a ++ b)) (exactKey r₀.length (a ++ b) r) a := mem_cls.2 ⟨hr, rfl⟩
    refine ⟨?_, .inr (matchFloatVecsSubset_complete hmem (fun x hx y hy => ?_) hclass)⟩
    · rintro (hnil | hlt)
      · have hpos := length_pos_of_mem hmem
        have hle := hclass.length_le
        rw [map_eq_nil_iff] at hnil
        rw [hnil, length_nil] at hle
        omega
      · exact absurd hclass.length_le (Nat.not_le.2 hlt)
    · exact hclose x (mem_cls.1 hx).1 y (mem_cls.1 hy).1

end

/-! ## Rows that are equal, by Python's `==` -/

section
variable {floatOfStr : String → Option PyFloat} {tol : Rat} {w : Nat} {rows : List Row} {r s : Row}

abbrev Same (r s : Row) : Prop := keyEq r s = true

theorem keyEq_getD (h : Same r s) (i : Nat) : (r.getD i .null).pyEq (s.getD i .null) = true := by
  induction r generalizing s i with
  | nil => cases s with
    | nil => rfl
    | cons d s => cases h
  | cons c r ih => cases s with
    | nil => cases h
    | cons d s =>
      simp only [Same, keyEq, length_cons, zip_cons_cons, all_cons, Bool.and_eq_true, decide_eq_true_eq,
        Nat.add_right_cancel_iff] at h
      cases i with
      | zero => exact h.2.1
      | succ i =>
        have htail : Same r s := by
          simp only [Same, keyEq, Bool.and_eq_true, decide_eq_true_eq]
          exact ⟨h.1, h.2.2⟩
        exact ih htail i

theorem canon_of_same (h : Same r s) {i : Nat} (hr : (r.getD i .null).isFloat = false)
    (hs : (s.getD i .null).isFloat = false) : canon (r.getD i .null) = canon (s.getD i .null) :=
  (pyEq_iff hr hs).1 (keyEq_getD h i)

/-- No row has a float in an exact column. -/
theorem exact_getD {i : Nat} (hi : i ∈ exactColumns w rows) (hr : r ∈ rows) : (r.getD i .null).isFloat = false :=
  exact_cell hr _ (mem_map.2 ⟨i, hi, rfl⟩)

theorem exactKey_eq_iff : exactKey w rows r = exactKey w rows s ↔
    ∀ i ∈ exactColumns w rows, canon (r.getD i .null) = canon (s.getD i .null) := by
  unfold exactKey pick
  rw [map_map, map_map, map_inj_left]
  rfl

theorem exactKey_of_same (h : Same r s) (hr : r ∈ rows) (hs : s ∈ rows) : exactKey w rows r = exactKey w rows s :=
  exactKey_eq_iff.2 fun _ hi => canon_of_same h (exact_getD hi hr) (exact_getD hi hs)

theorem Cell.Plain.rank_eq {x y : Cell} (hx : x.Plain) (hy : y.Plain) (h : x.pyEq y = true) :
    cellRank x = cellRank y := by
  have hnull : Cell.null.num? = none := rfl
  unfold Cell.pyEq at h
  rcases hx.cases fun _ => none with rfl | ⟨f, -, hf, hnum, -, hrank⟩ <;>
    rcases hy.cases fun _ => none with rfl | ⟨f', -, hf', hnum', -, hrank'⟩
  · rfl
  · rw [hnull, hnum'] at h
    cases h
  · rw [hnull, hnum] at h
    cases h
  · rw [hnum, hnum'] at h
    rw [hrank, hrank', (PyFloat.eq_iff.1 h).1]

theorem sameRank_of_same (h : Same r s) (hr : r ∈ rows) (hs : s ∈ rows) (hplain : ∀ c ∈ floatVec w rows r, c.Plain)
    (hplain' : ∀ c ∈ floatVec w rows s, c.Plain) : SameRank w rows r s := by
  refine ⟨exactKey_of_same h hr hs, ?_⟩
  unfold vecRank floatVec pick
  rw [map_map, map_map]
  refine map_congr_left fun i hi => ?_
  exact (hplain _ (mem_map.2 ⟨i, hi, rfl⟩)).rank_eq (hplain' _ (mem_map.2 ⟨i, hi, rfl⟩)) (keyEq_getD h i)

/-- Plain rows of one rank are close. -/
theorem vecClose_of_sameRank (hplain : ∀ c ∈ floatVec w rows r, c.Plain) (hplain' : ∀ c ∈ floatVec w rows s, c.Plain)
    (h : vecRank (floatVec w rows r) = vecRank (floatVec w rows s)) :
    vecClose floatOfStr tol (floatVec w rows r) (floatVec w rows s) = true := by
  rw [vecClose_of_rank hplain hplain' h]
  exact vecClose_self hplain'

theorem cellEqual_exact {x y : Cell} (hx : x.isFloat = false) (hy : y.isFloat = false) :
    cellEqual floatOfStr tol x y = x.pyEq y := by
  unfold cellEqual
  rw [hx, hy]
  cases x <;> cases y <;> simp [Cell.pyEq, Cell.num?]

theorem rowEqual_iff {x y : Row} (hx : ∀ c ∈ x, c.isFloat = false) (hy : ∀ c ∈ y, c.isFloat = false) :
    rowEqual floatOfStr tol x y = true ↔ x.map canon = y.map canon := by
  rw [← keyEq_iff hx hy]
  have hcells : (x.zip y).all (fun p => cellEqual floatOfStr tol p.1 p.2) = (x.zip y).all fun p => p.1.pyEq p.2 := by
    rw [Bool.eq_iff_iff, all_eq_true, all_eq_true]
    refine forall₂_congr fun p hp => ?_
    have hmem := of_mem_zip (show (p.1, p.2) ∈ x.zip y from hp)
    rw [cellEqual_exact (hx _ hmem.1) (hy _ hmem.2)]
  change (decide (x.length = y.length) && (x.zip y).all fun p => cellEqual floatOfStr tol p.1 p.2) = true ↔ _
  rw [hcells]
  rfl

end

end SynnoDB.Router
