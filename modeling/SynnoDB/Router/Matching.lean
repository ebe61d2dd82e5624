import Mathlib.Data.List.Duplicate
import Mathlib.Data.List.NodupEquivFin
import Mathlib.Data.Finset.Card
import Mathlib.Data.Finset.Range
import SynnoDB.Lib.Pairing
import SynnoDB.Router.Adapt

/-!
# The bipartite matching of `_match_float_vecs` and `_match_float_vecs_subset`

`augment` looks for a column for a row, moving rows that are in the way. It ends with one more row placed
(`Assigned`) or with every column it could reach taken (`Exhausted`); in the second case the rows in reach are
more than the columns in reach, so no matching places them all.
-/

namespace SynnoDB.Router

open List

variable {compat : Nat → Nat → Bool} {m i j fuel : Nat} {mtch mtch' mtch₁ : List (Option Nat)}
  {seen seen' seen₁ : List Bool}

abbrev Search := List (Option Nat) × List Bool

/-- The body of the loop over the columns. -/
def visitColumn (compat : Nat → Nat → Bool) (retry : Nat → Search → Bool × Search) (i : Nat) :
    Bool × Search → Nat → Bool × Search := fun (found, mtch, seen) j =>
  if found || !compat i j || seen.getD j false then (found, mtch, seen)
  else
    let seen := seen.set j true
    match mtch.getD j none with
    | none => (true, mtch.set j (some i), seen)
    | some k =>
      match retry k (mtch, seen) with
      | (true, mtch, seen) => (true, mtch.set j (some i), seen)
      | (false, mtch, seen) => (false, mtch, seen)

theorem augment_succ (st : Search) :
    augment compat m (fuel + 1) i st = (range m).foldl (visitColumn compat (augment compat m fuel) i) (false, st) := rfl

/-- What every search does to its state. -/
structure Searched (mtch : List (Option Nat)) (seen : List Bool) (mtch' : List (Option Nat)) (seen' : List Bool) :
    Prop where
  length_mtch : mtch'.length = mtch.length
  length_seen : seen'.length = seen.length
  kept : ∀ j, seen.getD j false = true → seen'.getD j false = true
  free : seen'.count false ≤ seen.count false

/-- Row `i` has a column now, and so has every row that had one. -/
structure Assigned (compat : Nat → Nat → Bool) (i : Nat) (mtch : List (Option Nat)) (seen : List Bool)
    (mtch' : List (Option Nat)) (seen' : List Bool) : Prop extends Searched mtch seen mtch' seen' where
  fixed : ∀ j, seen.getD j false = true → mtch'.getD j none = mtch.getD j none
  count : ∀ r, mtch'.count (some r) = mtch.count (some r) + if r = i then 1 else 0
  fits : (∀ j k, mtch.getD j none = some k → compat k j = true) → ∀ j k, mtch'.getD j none = some k → compat k j = true

/-- Nothing has moved, and the rows of the columns that were newly reached only fit columns that are reached. -/
structure Exhausted (compat : Nat → Nat → Bool) (m : Nat) (mtch : List (Option Nat)) (seen : List Bool)
    (mtch' : List (Option Nat)) (seen' : List Bool) : Prop extends Searched mtch seen mtch' seen' where
  same : mtch' = mtch
  closed : ∀ j, seen'.getD j false = true → seen.getD j false = false →
    ∃ k, mtch.getD j none = some k ∧ ∀ j' < m, compat k j' = true → seen'.getD j' false = true

theorem Searched.refl (mtch : List (Option Nat)) (seen : List Bool) : Searched mtch seen mtch seen :=
  ⟨rfl, rfl, fun _ h => h, le_rfl⟩

theorem Searched.trans (h : Searched mtch seen mtch₁ seen₁) (h' : Searched mtch₁ seen₁ mtch' seen') :
    Searched mtch seen mtch' seen' :=
  ⟨h'.length_mtch.trans h.length_mtch, h'.length_seen.trans h.length_seen, fun j hj => h'.kept j (h.kept j hj),
    h'.free.trans h.free⟩

theorem Exhausted.refl (mtch : List (Option Nat)) (seen : List Bool) : Exhausted compat m mtch seen mtch seen :=
  { Searched.refl mtch seen with same := rfl, closed := fun j h h' => by rw [h] at h'; cases h' }

theorem Exhausted.trans (h : Exhausted compat m mtch seen mtch₁ seen₁)
    (h' : Exhausted compat m mtch₁ seen₁ mtch' seen') : Exhausted compat m mtch seen mtch' seen' where
  toSearched := h.toSearched.trans h'.toSearched
  same := h'.same.trans h.same
  closed j hj hnew := by
    cases hmid : seen₁.getD j false with
    | true =>
      obtain ⟨k, hk, hreach⟩ := h.closed j hmid hnew
      exact ⟨k, hk, fun j' hj' hfit => h'.kept j' (hreach j' hj' hfit)⟩
    | false =>
      have hlate := h'.closed j hj hmid
      rwa [h.same] at hlate

theorem Exhausted.assigned (h : Exhausted compat m mtch seen mtch₁ seen₁)
    (h' : Assigned compat i mtch₁ seen₁ mtch' seen') : Assigned compat i mtch seen mtch' seen' where
  toSearched := h.toSearched.trans h'.toSearched
  fixed j hj := by rw [h'.fixed j (h.kept j hj), h.same]
  count r := by rw [h'.count r, h.same]
  fits := by
    have hfits := h'.fits
    rwa [h.same] at hfits

/-- How a search for row `i` through the columns `js` ends. -/
def Outcome (compat : Nat → Nat → Bool) (m i : Nat) (js : List Nat) (mtch : List (Option Nat)) (seen : List Bool)
    (r : Bool × Search) : Prop :=
  (r.1 = true ∧ Assigned compat i mtch seen r.2.1 r.2.2) ∨
    (r.1 = false ∧ Exhausted compat m mtch seen r.2.1 r.2.2 ∧ ∀ j ∈ js, compat i j = true → r.2.2.getD j false = true)

/-! ## One column -/

theorem getD_set_of_lt {α : Type} {l : List α} (hj : j < l.length) (x d : α) (j' : Nat) :
    (l.set j x).getD j' d = if j = j' then x else l.getD j' d := by
  rw [getD_eq_getElem?_getD, getD_eq_getElem?_getD]
  by_cases h : j = j'
  · subst h
    rw [getElem?_set_self hj, if_pos rfl, Option.getD_some]
  · rw [getElem?_set_ne h, if_neg h]

theorem searched_mark (mtch : List (Option Nat)) (hj : j < seen.length) :
    Searched mtch seen mtch (seen.set j true) where
  length_mtch := rfl
  length_seen := length_set
  kept j' h := by
    rw [getD_set_of_lt hj, h]
    split <;> rfl
  free := by
    rw [count_set hj]
    simp

theorem free_mark (hj : j < seen.length) (h : seen.getD j false = false) :
    (seen.set j true).count false < seen.count false := by
  have hget : seen[j] = false := by simpa [getD_eq_getElem?_getD, hj] using h
  have hpos : 0 < seen.count false := count_pos_iff.2 (hget ▸ getElem_mem hj)
  have hset : (seen.set j true).count false = seen.count false - 1 := by
    rw [count_set hj, hget]
    rfl
  omega

theorem count_place {r : Nat} {o : Option Nat} (hj : j < mtch.length) (h : mtch.getD j none = o) :
    (mtch.set j (some i)).count (some r) + (if o = some r then 1 else 0) =
      mtch.count (some r) + if r = i then 1 else 0 := by
  have hget : mtch[j] = o := by simpa [getD_eq_getElem?_getD, hj] using h
  subst hget
  have hpos : mtch[j] = some r → 0 < mtch.count (some r) := fun h => count_pos_iff.2 (h ▸ getElem_mem hj)
  have hset : (mtch.set j (some i)).count (some r) =
      mtch.count (some r) - (if mtch[j] = some r then 1 else 0) + if r = i then 1 else 0 := by
    rw [count_set hj]
    simp only [beq_iff_eq, Option.some.injEq, eq_comm (a := i)]
  rw [hset]
  by_cases hr : mtch[j] = some r
  · have := hpos hr
    rw [if_pos hr]
    omega
  · rw [if_neg hr]
    omega

/-- A free column is taken. -/
theorem assigned_free (hm : mtch.length = seen.length) (hj : j < seen.length) (hfit : compat i j = true)
    (hnew : seen.getD j false = false) (hfree : mtch.getD j none = none) :
    Assigned compat i mtch seen (mtch.set j (some i)) (seen.set j true) where
  toSearched := { searched_mark mtch hj with length_mtch := length_set }
  fixed j' h := by
    rw [getD_set_of_lt (hm ▸ hj), if_neg]
    rintro rfl
    rw [hnew] at h
    cases h
  count r := by simpa using count_place (r := r) (hm ▸ hj) hfree
  fits h j' k hk := by
    rw [getD_set_of_lt (hm ▸ hj)] at hk
    split at hk
    · cases hk
      subst j'
      exact hfit
    · exact h j' k hk

/-- A column whose row found another place is taken. -/
theorem assigned_moved {k : Nat} (hm : mtch.length = seen.length) (hj : j < seen.length) (hfit : compat i j = true)
    (hnew : seen.getD j false = false) (hk : mtch.getD j none = some k)
    (h : Assigned compat k mtch (seen.set j true) mtch' seen') :
    Assigned compat i mtch seen (mtch'.set j (some i)) seen' := by
  have hmark : (seen.set j true).getD j false = true := by rw [getD_set_of_lt hj, if_pos rfl]
  have hj' : j < mtch'.length := by
    rw [h.length_mtch, hm]
    exact hj
  have hstill : mtch'.getD j none = some k := (h.fixed j hmark).trans hk
  have hsearched := (searched_mark mtch hj).trans h.toSearched
  refine { hsearched with length_mtch := length_set.trans h.length_mtch, fixed := ?_, count := ?_, fits := ?_ }
  · intro j' hseen
    rw [getD_set_of_lt hj', if_neg, h.fixed j' ((searched_mark mtch hj).kept j' hseen)]
    rintro rfl
    rw [hnew] at hseen
    cases hseen
  · intro r
    have hplace := count_place (i := i) (r := r) hj' hstill
    have hcount := h.count r
    simp only [Option.some.injEq, eq_comm (a := k)] at hplace
    omega
  · intro hall j' k' hk'
    rw [getD_set_of_lt hj'] at hk'
    split at hk'
    · cases hk'
      subst j'
      exact hfit
    · exact h.fits hall j' k' hk'

theorem visitColumn_outcome {retry : Nat → Search → Bool × Search} (hm : mtch.length = m) (hs : seen.length = m)
    (hj : j < m) (hretry : ∀ k seen₁, seen₁.length = m → seen₁.count false < seen.count false →
      Outcome compat m k (range m) mtch seen₁ (retry k (mtch, seen₁))) :
    Outcome compat m i [j] mtch seen (visitColumn compat retry i (false, mtch, seen) j) := by
  have hj' : j < seen.length := hs ▸ hj
  unfold visitColumn
  dsimp only
  rw [Bool.false_or]
  split
  · rename_i hskip
    refine .inr ⟨rfl, Exhausted.refl mtch seen, fun j' hj' hfit => ?_⟩
    rw [mem_singleton.1 hj'] at hfit ⊢
    simpa [hfit] using hskip
  · rename_i htake
    simp only [Bool.or_eq_true, Bool.not_eq_true', not_or, Bool.not_eq_false, Bool.not_eq_true] at htake
    obtain ⟨hfit, hnew⟩ := htake
    have hmark : (seen.set j true).getD j false = true := by rw [getD_set_of_lt hj', if_pos rfl]
    cases hk : mtch.getD j none with
    | none => exact .inl ⟨rfl, assigned_free (hm.trans hs.symm) hj' hfit hnew hk⟩
    | some k =>
      dsimp only
      have hcases := hretry k (seen.set j true) (length_set.trans hs) (free_mark hj' hnew)
      generalize retry k (mtch, seen.set j true) = r at hcases
      obtain ⟨found, mtch', seen'⟩ := r
      rcases hcases with ⟨rfl, h⟩ | ⟨rfl, h, hreach⟩
      · exact .inl ⟨rfl, assigned_moved (hm.trans hs.symm) hj' hfit hnew hk h⟩
      · refine .inr ⟨rfl, ?_, fun j' hj' _ => ?_⟩
        · refine { (searched_mark mtch hj').trans h.toSearched with same := h.same, closed := fun j' hj' hold => ?_ }
          by_cases hjj : j = j'
          · subst hjj
            exact ⟨k, hk, fun j' hj' hfit => hreach j' (mem_range.2 hj') hfit⟩
          · refine h.closed j' hj' ?_
            rw [getD_set_of_lt (hs ▸ hj), if_neg hjj]
            exact hold
        · rw [mem_singleton.1 hj']
          exact h.kept j hmark

/-! ## One search -/

theorem foldl_found {retry : Nat → Search → Bool × Search} (js : List Nat) (st : Search) :
    js.foldl (visitColumn compat retry i) (true, st) = (true, st) := by
  induction js with
  | nil => rfl
  | cons j js ih => exact ih

theorem foldl_outcome {retry : Nat → Search → Bool × Search} {js : List Nat} (hjs : ∀ j ∈ js, j < m)
    (hm : mtch.length = m) (hs : seen.length = m) (hfree : seen.count false ≤ fuel)
    (hretry : ∀ k seen₁, seen₁.length = m → seen₁.count false < fuel →
      Outcome compat m k (range m) mtch seen₁ (retry k (mtch, seen₁))) :
    Outcome compat m i js mtch seen (js.foldl (visitColumn compat retry i) (false, mtch, seen)) := by
  induction js generalizing seen with
  | nil => exact .inr ⟨rfl, Exhausted.refl mtch seen, fun j hj => absurd hj not_mem_nil⟩
  | cons j js ih =>
    have hone := visitColumn_outcome (i := i) hm hs (hjs j mem_cons_self) fun k seen₁ hlen hlt =>
      hretry k seen₁ hlen (hlt.trans_le hfree)
    rw [foldl_cons]
    generalize visitColumn compat retry i (false, mtch, seen) j = r at hone
    obtain ⟨found, mtch₁, seen₁⟩ := r
    rcases hone with ⟨rfl, h⟩ | ⟨rfl, h, hreach⟩
    · rw [foldl_found]
      exact .inl ⟨rfl, h⟩
    · obtain rfl : mtch₁ = mtch := h.same
      have hrest := ih (fun j hj => hjs j (mem_cons_of_mem _ hj)) (h.length_seen.trans hs) (h.free.trans hfree)
      rcases hrest with ⟨hfound, h'⟩ | ⟨hfound, h', hreach'⟩
      · exact .inl ⟨hfound, h.assigned h'⟩
      · refine .inr ⟨hfound, h.trans h', fun j' hj' hfit => ?_⟩
        rcases mem_cons.1 hj' with rfl | hj'
        · exact h'.kept _ (hreach _ (mem_singleton_self _) hfit)
        · exact hreach' j' hj' hfit

/-- A search with more fuel than columns that are not reached ends as it should. -/
theorem augment_outcome (hm : mtch.length = m) (hs : seen.length = m) (hfuel : seen.count false < fuel) :
    Outcome compat m i (range m) mtch seen (augment compat m fuel i (mtch, seen)) := by
  induction fuel generalizing i seen with
  | zero => exact absurd hfuel (Nat.not_lt_zero _)
  | succ fuel ih =>
    rw [augment_succ]
    exact foldl_outcome (fun j hj => mem_range.1 hj) hm hs (Nat.lt_succ_iff.1 hfuel) fun k seen₁ hlen hlt => ih hlen hlt

/-! ## All rows -/

/-- The rows below `n` have a column each. -/
structure Placed (compat : Nat → Nat → Bool) (n m : Nat) (mtch : List (Option Nat)) : Prop where
  length : mtch.length = m
  count : ∀ r, mtch.count (some r) = if r < n then 1 else 0
  fits : ∀ j k, mtch.getD j none = some k → compat k j = true

abbrev Fitting (compat : Nat → Nat → Bool) (n m : Nat) : Prop :=
  Pairing.Embeds (fun i j => compat i j = true) (range n) (range m)

theorem Placed.row_lt {n k : Nat} (h : Placed compat n m mtch) (hj : mtch.getD j none = some k) : k < n := by
  have hmem : some k ∈ mtch := by
    rw [getD_eq_getElem?_getD] at hj
    cases hget : mtch[j]? with
    | none =>
      rw [hget] at hj
      cases hj
    | some o =>
      rw [hget, Option.getD_some] at hj
      exact hj ▸ mem_of_getElem? hget
  have hpos := count_pos_iff.2 hmem
  rw [h.count k] at hpos
  by_contra hlt
  rw [if_neg hlt] at hpos
  exact absurd hpos (Nat.lt_irrefl 0)

theorem Placed.inj {n k j' : Nat} (h : Placed compat n m mtch) (hj : mtch.getD j none = some k)
    (hj' : mtch.getD j' none = some k) : j = j' := by
  have hlt : ∀ {j}, mtch.getD j none = some k → ∃ hj : j < mtch.length, mtch[j] = some k := by
    intro j hj
    by_cases hlt : j < mtch.length
    · exact ⟨hlt, by simpa [getD_eq_getElem?_getD, hlt] using hj⟩
    · simp [getD_eq_getElem?_getD, hlt] at hj
  have hone : ∀ {j j'}, mtch.getD j none = some k → mtch.getD j' none = some k → ¬ j < j' := by
    intro j j' hj hj' hjj
    obtain ⟨hl, hj⟩ := hlt hj
    obtain ⟨hl', hj'⟩ := hlt hj'
    have hdup : mtch.Duplicate (some k) :=
      duplicate_iff_exists_distinct_get.2 ⟨⟨j, hl⟩, ⟨j', hl'⟩, hjj, hj.symm, hj'.symm⟩
    have htwo : 2 ≤ mtch.count (some k) := replicate_sublist_iff.1 (duplicate_iff_sublist.1 hdup)
    rw [h.count k] at htwo
    split at htwo <;> omega
  exact Nat.le_antisymm (Nat.not_lt.1 (hone hj' hj)) (Nat.not_lt.1 (hone hj hj'))

theorem Placed.fitting {n : Nat} (h : Placed compat n m mtch) : Fitting compat n m := by
  have hmem : ∀ r ∈ range n, some r ∈ mtch := by
    intro r hr
    refine count_pos_iff.1 ?_
    rw [h.count r, if_pos (mem_range.1 hr)]
    exact Nat.one_pos
  refine ⟨(range n).map fun r => mtch.idxOf (some r), subperm_of_subset ?_ ?_, ?_⟩
  · refine nodup_range.map_on fun r hr s hs hrs => ?_
    exact Option.some.inj ((idxOf_inj (hmem r hr)).1 hrs)
  · intro j hj
    obtain ⟨r, hr, rfl⟩ := mem_map.1 hj
    exact mem_range.2 (h.length ▸ idxOf_lt_length_of_mem (hmem r hr))
  · refine forall₂_map_right_iff.2 (forall₂_same.2 fun r hr => h.fits _ r ?_)
    have hlt := idxOf_lt_length_of_mem (hmem r hr)
    rw [getD_eq_getElem?_getD, getElem?_eq_getElem hlt, getElem_idxOf hlt, Option.getD_some]

/-- Rows that only fit the columns in reach, one more than there are: the row that failed stands for the column `m`,
which is none, and each column in reach for the row that has it. -/
theorem Placed.not_fitting {n : Nat} (h : Placed compat n m mtch) (hs : ∀ j, seen.getD j false = false)
    (hex : Exhausted compat m mtch seen mtch seen')
    (hreach : ∀ j < m, compat n j = true → seen'.getD j false = true) : ¬ Fitting compat (n + 1) m := by
  rintro ⟨cs, ⟨l, hl, hsub⟩, hfits⟩
  have hlen : cs.length = n + 1 := by rw [← hfits.length_eq, length_range]
  have hnodup : cs.Nodup := hl.nodup_iff.1 (nodup_range.sublist hsub)
  have hcol : ∀ r < cs.length, cs.getD r m < m ∧ compat r (cs.getD r m) = true := by
    intro r hr
    have hget : cs.getD r m = cs[r] := by simp [getD_eq_getElem?_getD, hr]
    rw [hget]
    refine ⟨mem_range.1 (hsub.subset (hl.mem_iff.2 (getElem_mem hr))), ?_⟩
    have hfit := hfits.get (i := r) (by rwa [hfits.length_eq]) hr
    simpa using hfit
  let S := (Finset.range m).filter fun j => seen'.getD j false = true
  let row (j : Nat) := if j = m then n else (mtch.getD j none).getD 0
  have hrow : ∀ j ∈ S, j ≠ m ∧ row j < n ∧ mtch.getD j none = some (row j) ∧
      ∀ j' < m, compat (row j) j' = true → seen'.getD j' false = true := by
    intro j hj
    obtain ⟨hlt, hseen⟩ := Finset.mem_filter.1 hj
    obtain ⟨k, hk, hclosed⟩ := hex.closed j hseen (hs j)
    have hne : j ≠ m := (Finset.mem_range.1 hlt).ne
    have hrowj : row j = k := by simp only [row, if_neg hne, hk, Option.getD_some]
    rw [hrowj]
    exact ⟨hne, h.row_lt hk, hk, hclosed⟩
  have hrowm : row m = n := if_pos rfl
  have hlt : ∀ j ∈ insert m S, row j < cs.length := by
    intro j hj
    rw [hlen]
    rcases Finset.mem_insert.1 hj with rfl | hj
    · omega
    · exact (hrow j hj).2.1.trans (Nat.lt_succ_self n)
  have hinj : ∀ j ∈ insert m S, ∀ j' ∈ insert m S, row j = row j' → j = j' := by
    intro j hj j' hj' heq
    rcases Finset.mem_insert.1 hj with rfl | hj <;> rcases Finset.mem_insert.1 hj' with rfl | hj'
    · rfl
    · exact absurd (hrowm ▸ heq ▸ (hrow j' hj').2.1) (Nat.lt_irrefl _)
    · exact absurd (hrowm ▸ heq ▸ (hrow j hj).2.1) (Nat.lt_irrefl _)
    · exact h.inj (hrow j hj).2.2.1 (heq ▸ (hrow j' hj').2.2.1)
  have hcard : (insert m S).card ≤ S.card := by
    refine Finset.card_le_card_of_injOn (fun j => cs.getD (row j) m) (fun j hj => ?_) fun j hj j' hj' heq => ?_
    · obtain ⟨hcm, hfit⟩ := hcol (row j) (hlt j hj)
      refine Finset.mem_coe.2 (Finset.mem_filter.2 ⟨Finset.mem_range.2 hcm, ?_⟩)
      change seen'.getD (cs.getD (row j) m) false = true
      rcases Finset.mem_insert.1 hj with rfl | hj
      · rw [hrowm] at hfit hcm ⊢
        exact hreach _ hcm hfit
      · exact (hrow j hj).2.2.2 _ hcm hfit
    · have hr := hlt j hj
      have hr' := hlt j' hj'
      have hget : cs[row j] = cs[row j'] := by simpa [getD_eq_getElem?_getD, hr, hr'] using heq
      exact hinj j hj j' hj' (hnodup.getElem_inj_iff.1 hget)
  rw [Finset.card_insert_of_notMem fun hm => (hrow m hm).1 rfl] at hcard
  omega

theorem placed_zero : Placed compat 0 m (replicate m none) where
  length := length_replicate
  count r := by simp [count_replicate]
  fits j k hk := by
    rw [getD_eq_getElem?_getD, getElem?_replicate] at hk
    split at hk <;> cases hk

theorem Placed.next {n : Nat} (h : Placed compat n m mtch) (ha : Assigned compat n mtch seen mtch' seen') :
    Placed compat (n + 1) m mtch' where
  length := ha.length_mtch.trans h.length
  count r := by
    rw [ha.count r, h.count r]
    by_cases hr : r = n
    · subst hr
      simp
    · have : r < n ↔ r < n + 1 := by omega
      simp [hr, this]
  fits := ha.fits h.fits

theorem Fitting.pred {n : Nat} (h : Fitting compat (n + 1) m) : Fitting compat n m := by
  obtain ⟨c, hc, hr⟩ := h
  have htake := forall₂_take n hr
  rw [range_succ, take_left' length_range] at htake
  exact ⟨c.take n, (take_sublist n c).subperm.trans hc, htake⟩

/-- The loop over the rows. -/
def placeRow (compat : Nat → Nat → Bool) (m : Nat) : Bool × List (Option Nat) → Nat → Bool × List (Option Nat) :=
  fun (ok, mtch) i =>
    if ok then
      let r := augment compat m (m + 1) i (mtch, replicate m false)
      (r.1, r.2.1)
    else (ok, mtch)

theorem placeRow_spec (compat : Nat → Nat → Bool) (m n : Nat) :
    let r := (range n).foldl (placeRow compat m) (true, replicate m none)
    (r.1 = true ∧ Placed compat n m r.2) ∨ (r.1 = false ∧ ¬ Fitting compat n m) := by
  induction n with
  | zero => exact .inl ⟨rfl, placed_zero⟩
  | succ n ih =>
    rw [range_succ, foldl_append, foldl_cons, foldl_nil]
    generalize (range n).foldl (placeRow compat m) (true, replicate m none) = r at ih
    obtain ⟨ok, mtch⟩ := r
    rcases ih with ⟨rfl, h⟩ | ⟨rfl, h⟩
    · have hfresh : ∀ j, (replicate m false).getD j false = false := by
        intro j
        rw [getD_eq_getElem?_getD, getElem?_replicate]
        split <;> rfl
      have hfuel : (replicate m false).count false < m + 1 := by
        rw [count_replicate_self]
        exact Nat.lt_succ_self m
      have hend : Outcome compat m n (range m) mtch (replicate m false) _ :=
        augment_outcome h.length length_replicate hfuel
      dsimp only [placeRow]
      rw [if_pos rfl]
      generalize augment compat m (m + 1) n (mtch, replicate m false) = r at hend
      obtain ⟨found, mtch', seen'⟩ := r
      rcases hend with ⟨rfl, hassigned⟩ | ⟨rfl, hex, hreach⟩
      · exact .inl ⟨rfl, h.next hassigned⟩
      · obtain rfl : mtch' = mtch := hex.same
        exact .inr ⟨rfl, h.not_fitting hfresh hex fun j hj hfit => hreach j (mem_range.2 hj) hfit⟩
    · exact .inr ⟨rfl, fun hfit => h hfit.pred⟩

/-- **`matchAll` finds a matching exactly when there is one.** -/
theorem matchAll_iff {n : Nat} : matchAll compat n m = true ↔ Fitting compat n m := by
  change ((range n).foldl (placeRow compat m) (true, replicate m none)).1 = true ↔ _
  rcases placeRow_spec compat m n with ⟨hok, h⟩ | ⟨hok, h⟩
  · exact iff_of_true hok h.fitting
  · rw [hok]
    exact iff_of_false Bool.false_ne_true h

end SynnoDB.Router
