import Mathlib.Algebra.Order.Ring.Abs
import Mathlib.Tactic.Linarith
import SynnoDB.Lib.Uncrossing
import SynnoDB.Router.Truncated

/-!
# How well a group of float tuples is matched (`router/adapt.py:57-210`)

Inside one group of equal exact cells, `matchFloatVecs` and `matchFloatVecsSubset` pair the float tuples. They search a
maximum matching only up to `exactMatchCap` tuples; above it, and for a single column, they sort. Sorting loses nothing
in **one** dimension: closeness under a relative-plus-absolute tolerance below 1 is not transitive, but what lies
between two close numbers is close to both (`CloseTo.between`), so crossing pairs can be uncrossed. In two dimensions
it can lose a pairing; what it finds is a pairing in any case.
-/

namespace SynnoDB.Router

open List Pairing

/-- A component: a finite float as a rational, or `None`. -/
abbrev Component := Option ℚ

def component : Component → Cell
  | none => .null
  | some q => .float (.fin q)

def tuple (v : List Component) : Row := v.map component

/-- `math.isclose(p, q, rel_tol=tol, abs_tol=tol)`. -/
def CloseTo (tol p q : ℚ) : Prop := |p - q| ≤ tol * max 1 (max |p| |q|)

def CloseComponent (tol : ℚ) : Component → Component → Prop
  | none, none => True
  | some p, some q => CloseTo tol p q
  | _, _ => False

/-- Component-wise. -/
def CloseTuple (tol : ℚ) : List Component → List Component → Prop := Forall₂ (CloseComponent tol)

/-! ## Closeness of numbers -/

section
variable {tol p q m : ℚ}

theorem closeTo_iff (h0 : 0 ≤ tol) : CloseTo tol p q ↔ |p - q| ≤ tol * |p| ∨ |p - q| ≤ tol * |q| ∨ |p - q| ≤ tol := by
  have hmax : tol * max 1 (max |p| |q|) = max tol (max (tol * |p|) (tol * |q|)) := by
    rw [mul_max_of_nonneg _ _ h0, mul_max_of_nonneg _ _ h0, mul_one]
  unfold CloseTo
  rw [hmax, le_max_iff, le_max_iff]
  tauto

theorem CloseTo.symm (h : CloseTo tol p q) : CloseTo tol q p := by
  unfold CloseTo at h ⊢
  rw [abs_sub_comm, max_comm |q|]
  exact h

theorem closeTo_neg : CloseTo tol (-p) (-q) ↔ CloseTo tol p q := by
  have hdist : |-p - -q| = |p - q| := by rw [neg_sub_neg, abs_sub_comm]
  unfold CloseTo
  rw [hdist, abs_neg, abs_neg]

theorem CloseTo.between_left (h0 : 0 ≤ tol) (h1 : tol < 1) (hpm : p ≤ m) (hmq : m ≤ q) (h : CloseTo tol p q) :
    CloseTo tol p m := by
  rw [closeTo_iff h0, abs_sub_comm, abs_of_nonneg (by linarith)] at h
  rw [closeTo_iff h0, abs_sub_comm, abs_of_nonneg (by linarith)]
  rcases h with hp | hq | hone
  · exact .inl (by linarith)
  · by_cases hq0 : 0 ≤ q
    · rw [abs_of_nonneg hq0] at hq
      have hgap : (1 - tol) * q ≤ p := by linarith
      have hp0 : 0 ≤ p := le_trans (mul_nonneg (by linarith) hq0) hgap
      have hm0 : 0 ≤ m := le_trans hp0 hpm
      have hscale : (1 - tol) * m ≤ (1 - tol) * q := mul_le_mul_of_nonneg_left hmq (by linarith)
      rw [abs_of_nonneg hm0]
      exact .inr (.inl (by linarith))
    · -- both are negative, and `p` is the one farther from zero
      have hpq : |q| ≤ |p| := by
        rw [abs_of_neg (by linarith), abs_of_neg (by linarith)]
        linarith
      have hscale : tol * |q| ≤ tol * |p| := mul_le_mul_of_nonneg_left hpq h0
      exact .inl (by linarith)
  · exact .inr (.inr (by linarith))

/-- What lies between two near numbers is near both. -/
theorem CloseTo.between (h0 : 0 ≤ tol) (h1 : tol < 1) (hpm : p ≤ m) (hmq : m ≤ q) (h : CloseTo tol p q) :
    CloseTo tol p m ∧ CloseTo tol m q := by
  refine ⟨h.between_left h0 h1 hpm hmq, ?_⟩
  have hmirror : CloseTo tol (-q) (-p) := closeTo_neg.2 h.symm
  have hleft : CloseTo tol (-q) (-m) := hmirror.between_left h0 h1 (neg_le_neg hmq) (neg_le_neg hpm)
  exact (closeTo_neg.1 hleft).symm

end

/-! ## Closeness of components and tuples -/

section
variable {floatOfStr : String → Option PyFloat} {tol : ℚ} {x y z : Component} {v w : List Component}

theorem absRat_eq (q : ℚ) : absRat q = |q| := by
  unfold absRat
  split
  · rename_i h
    exact (abs_of_neg h).symm
  · rename_i h
    exact (abs_of_nonneg (not_lt.1 h)).symm

theorem floatClose_component (h0 : 0 ≤ tol) :
    floatClose floatOfStr tol (component x) (component y) = true ↔ CloseComponent tol x y := by
  cases x with
  | none => cases y <;> simp [floatClose, component, CloseComponent]
  | some p => cases y with
    | none => simp [floatClose, component, CloseComponent]
    | some q =>
      have hneg : ¬ tol < 0 := not_lt.2 h0
      have habs : ∀ r : ℚ, |tol * r| = tol * |r| := fun r => by rw [abs_mul, abs_of_nonneg h0]
      have hsame : p = q → |p - q| ≤ tol := by
        rintro rfl
        simpa using h0
      simp only [CloseComponent, closeTo_iff h0]
      simp only [floatClose, component, toFloat, Cell.num?, isclose, PyFloat.eq, hneg, absRat_eq, habs,
        abs_sub_comm q p]
      simp
      tauto

theorem CloseComponent.symm (h : CloseComponent tol x y) : CloseComponent tol y x := by
  cases x with
  | none => cases y with
    | none => trivial
    | some q => exact h.elim
  | some p => cases y with
    | none => exact h.elim
    | some q => exact CloseTo.symm h

/-- `None` sorts behind every number. -/
theorem component_rank : cellRank (component x) ≤ cellRank (component y) ↔
    match x, y with
    | _, none => True
    | none, some _ => False
    | some p, some q => p ≤ q := by
  cases x <;> cases y <;> simp [cellRank, component, cellSortKey, PyFloat.rank, Prod.Lex.toLex_le_toLex]

theorem CloseComponent.between (h0 : 0 ≤ tol) (h1 : tol < 1) (hxy : cellRank (component x) ≤ cellRank (component y))
    (hyz : cellRank (component y) ≤ cellRank (component z)) (h : CloseComponent tol x z) :
    CloseComponent tol x y ∧ CloseComponent tol y z := by
  rw [component_rank] at hxy hyz
  cases x with
  | none => cases y with
    | none => exact ⟨trivial, h⟩
    | some m => exact hxy.elim
  | some p => cases z with
    | none => exact h.elim
    | some q => cases y with
      | none => exact hyz.elim
      | some m => exact CloseTo.between h0 h1 hxy hyz h

theorem vecClose_tuple (h0 : 0 ≤ tol) (hlen : v.length = w.length) :
    vecClose floatOfStr tol (tuple v) (tuple w) = true ↔ CloseTuple tol v w := by
  unfold vecClose tuple
  rw [zip_all_iff (by simpa using hlen), forall₂_map_left_iff, forall₂_map_right_iff]
  simp only [floatClose_component h0]
  rfl

theorem CloseTuple.symm (h : CloseTuple tol v w) : CloseTuple tol w v := h.flip.imp fun _ _ h => CloseComponent.symm h

/-- The order that `sorted(…, key=_vec_sort_key)` sorts by. -/
def tupleRank (v : List Component) : List CellRank := vecRank (tuple v)

/-- Up to one component, closeness holds of everything in between. -/
theorem closeTuple_between (h0 : 0 ≤ tol) (h1 : tol < 1) {k : Nat} {s : List (List Component)} (hk : k ≤ 1)
    (hs : ∀ v ∈ s, v.length = k) : Between (CloseTuple tol) tupleRank s := by
  intro u hu v hv w hw huv hvw h
  have hu := hs u hu
  have hv := hs v hv
  have hw := hs w hw
  by_cases hempty : k = 0
  · subst hempty
    obtain rfl := length_eq_zero_iff.1 hu
    obtain rfl := length_eq_zero_iff.1 hv
    obtain rfl := length_eq_zero_iff.1 hw
    exact ⟨.nil, .nil⟩
  · obtain rfl : k = 1 := by omega
    obtain ⟨x, rfl⟩ := length_eq_one_iff.1 hu
    obtain ⟨y, rfl⟩ := length_eq_one_iff.1 hv
    obtain ⟨z, rfl⟩ := length_eq_one_iff.1 hw
    have hone : ∀ c d : Component, tupleRank [c] ≤ tupleRank [d] ↔ cellRank (component c) ≤ cellRank (component d) :=
      fun c d => vecRank_singleton_le
    rw [hone] at huv hvw
    simp only [CloseTuple, forall₂_cons, Forall₂.nil, and_true] at h ⊢
    exact h.between h0 h1 huv hvw

end

/-! ## The two matchers -/

/-- The greedy scan over two sorted lists misses no injection whose crossing pairs can be uncrossed. -/
theorem takeClose_of_embeds {floatOfStr : String → Option PyFloat} {tol : ℚ} {α κ : Type*} [LinearOrder κ]
    {R : α → α → Prop} {ρ : α → κ} {f : α → Row} {a b : List α} (ha : a.Pairwise fun x x' => ρ x ≤ ρ x')
    (hb : b.Pairwise fun y y' => ρ y ≤ ρ y') (hun : Uncrosses R ρ ρ a b)
    (hR : ∀ x ∈ a, ∀ y ∈ b, R x y → vecClose floatOfStr tol (f x) (f y) = true) (h : Embeds R a b) :
    takeClose floatOfStr tol (a.map f) (b.map f) = true := by
  induction b generalizing a with
  | nil =>
    obtain rfl := h.nil_right
    rfl
  | cons y b ih => cases a with
    | nil => rfl
    | cons x a =>
      obtain ⟨hx, ha'⟩ := pairwise_cons.1 ha
      obtain ⟨hy, hb'⟩ := pairwise_cons.1 hb
      have hfirst := h.uncross hun hx hy
      rw [map_cons, map_cons, takeClose]
      by_cases hxy : vecClose floatOfStr tol (f x) (f y) = true
      · rw [if_pos hxy]
        have htail : Embeds R a b := by
          rcases hfirst with hlater | ⟨-, hhere⟩
          · exact hlater.tail
          · exact hhere
        apply ih ha' hb' (hun.mono (subset_cons_self _ _) (subset_cons_self _ _)) _ htail
        exact fun x' hx' y' hy' => hR x' (mem_cons_of_mem _ hx') y' (mem_cons_of_mem _ hy')
      · rw [if_neg hxy]
        have hskip : Embeds R (x :: a) b := by
          rcases hfirst with hlater | ⟨hhere, -⟩
          · exact hlater
          · exact absurd (hR x mem_cons_self y mem_cons_self hhere) hxy
        apply ih ha hb' (hun.mono (Subset.refl _) (subset_cons_self _ _)) _ hskip
        exact fun x' hx' y' hy' => hR x' hx' y' (mem_cons_of_mem _ hy')

section
variable {floatOfStr : String → Option PyFloat} {tol : ℚ} {k : Nat} {a b : List (List Component)}

theorem sortVecs_tuples (a : List (List Component)) : sortVecs (a.map tuple) = (sortBy tupleRank a).map tuple :=
  (map_sortVecs tuple a).symm

/-- The pairs that `vecClose` admits are the close ones. -/
theorem embeds_tuples (h0 : 0 ≤ tol) (hs : ∀ v ∈ a ++ b, v.length = k) :
    Embeds (fun v w => vecClose floatOfStr tol v w = true) (a.map tuple) (b.map tuple) ↔
      Embeds (CloseTuple tol) a b := by
  have hclose : ∀ v ∈ a, ∀ w ∈ b, vecClose floatOfStr tol (tuple v) (tuple w) = true ↔ CloseTuple tol v w :=
    fun v hv w hw => vecClose_tuple h0 ((hs v (mem_append_left b hv)).trans (hs w (mem_append_right a hw)).symm)
  rw [embeds_map]
  exact ⟨fun h => h.mono fun v hv w hw => (hclose v hv w hw).1, fun h => h.mono fun v hv w hw => (hclose v hv w hw).2⟩

theorem matchAll_tuples (h0 : 0 ≤ tol) (hs : ∀ v ∈ a ++ b, v.length = k) {n m : Nat} (hn : a.length = n)
    (hm : b.length = m) : matchAll (fun i j => vecClose floatOfStr tol ((a.map tuple).getD i [])
      ((b.map tuple).getD j [])) n m = true ↔ Embeds (CloseTuple tol) a b := by
  have hA := map_getD_range (a.map tuple) []
  have hB := map_getD_range (b.map tuple) []
  rw [length_map, hn] at hA
  rw [length_map, hm] at hB
  have hvecs : Embeds (fun v w => vecClose floatOfStr tol v w = true) (a.map tuple) (b.map tuple) ↔
      Embeds (CloseTuple tol) a b := embeds_tuples h0 hs
  rw [matchAll_iff, ← hvecs]
  conv_rhs => rw [← hA, ← hB, embeds_map]

theorem sorted_tuples (h0 : 0 ≤ tol) (hs : ∀ v ∈ a ++ b, v.length = k) (hlen : a.length = b.length) :
    ((sortVecs (a.map tuple)).zip (sortVecs (b.map tuple))).all (fun (va, vb) => vecClose floatOfStr tol va vb) = true ↔
      Forall₂ (CloseTuple tol) (sortBy tupleRank a) (sortBy tupleRank b) := by
  have hlength : (sortBy tupleRank a).length = (sortBy tupleRank b).length := by
    rw [(sortBy_perm _ a).length_eq, (sortBy_perm _ b).length_eq, hlen]
  rw [sortVecs_tuples, sortVecs_tuples, zip_all_iff (by simpa using hlength), forall₂_map_left_iff,
    forall₂_map_right_iff, forall₂_iff_zip, forall₂_iff_zip]
  apply and_congr_right
  intro _
  have hclose : ∀ v w, (v, w) ∈ (sortBy tupleRank a).zip (sortBy tupleRank b) →
      (vecClose floatOfStr tol (tuple v) (tuple w) = true ↔ CloseTuple tol v w) := by
    intro v w hvw
    have hmem := List.of_mem_zip hvw
    have hv := hs v (mem_append_left b ((sortBy_perm _ a).subset hmem.1))
    have hw := hs w (mem_append_right a ((sortBy_perm _ b).subset hmem.2))
    exact vecClose_tuple h0 (hv.trans hw.symm)
  exact ⟨fun h v w hvw => (hclose v w hvw).1 (h hvw), fun h v w hvw => (hclose v w hvw).2 (h hvw)⟩

/-- The greedy scan over sorted tuples misses no injection. -/
theorem takeClose_tuples (h0 : 0 ≤ tol) (hs : ∀ v ∈ a ++ b, v.length = k)
    (ha : a.Pairwise fun v v' => tupleRank v ≤ tupleRank v') (hb : b.Pairwise fun v v' => tupleRank v ≤ tupleRank v')
    (hun : Uncrosses (CloseTuple tol) tupleRank tupleRank a b) :
    takeClose floatOfStr tol (a.map tuple) (b.map tuple) = true ↔ Embeds (CloseTuple tol) a b := by
  refine ⟨fun h => (embeds_tuples h0 hs).1 (takeClose_sound h), takeClose_of_embeds ha hb hun fun v hv w hw => ?_⟩
  apply (vecClose_tuple h0 _).2
  rw [hs v (mem_append_left b hv), hs w (mem_append_right a hw)]

theorem sorted_widths (hs : ∀ v ∈ a ++ b, v.length = k) : ∀ v ∈ sortBy tupleRank a ++ sortBy tupleRank b,
    v.length = k :=
  fun v hv => hs v (((sortBy_perm _ a).append (sortBy_perm _ b)).subset hv)

theorem takeClose_sorted_sound (h0 : 0 ≤ tol) (hs : ∀ v ∈ a ++ b, v.length = k)
    (h : takeClose floatOfStr tol ((sortBy tupleRank a).map tuple) ((sortBy tupleRank b).map tuple) = true) :
    Embeds (CloseTuple tol) a b := by
  have hsorted := (embeds_tuples h0 (sorted_widths hs)).1 (takeClose_sound h)
  exact (embeds_perm (sortBy_perm _ a) (sortBy_perm _ b)).1 hsorted

theorem takeClose_sorted (h0 : 0 ≤ tol) (hs : ∀ v ∈ a ++ b, v.length = k)
    (hun : Uncrosses (CloseTuple tol) tupleRank tupleRank a b) :
    takeClose floatOfStr tol ((sortBy tupleRank a).map tuple) ((sortBy tupleRank b).map tuple) = true ↔
      Embeds (CloseTuple tol) a b := by
  rw [← embeds_perm (sortBy_perm tupleRank a) (sortBy_perm tupleRank b)]
  apply takeClose_tuples h0 (sorted_widths hs) (sortBy_pairwise _ a) (sortBy_pairwise _ b)
  exact hun.mono (sortBy_perm _ a).subset (sortBy_perm _ b).subset

theorem matchFloatVecs_cons_tuple {v : List Component} (hk : (tuple v).length = k) :
    matchFloatVecs floatOfStr tol ((v :: a).map tuple) (b.map tuple) =
      if k ≤ 1 ∨ (v :: a).length > exactMatchCap then
        ((sortVecs ((v :: a).map tuple)).zip (sortVecs (b.map tuple))).all fun (va, vb) =>
          vecClose floatOfStr tol va vb
      else matchAll (fun i j => vecClose floatOfStr tol (((v :: a).map tuple).getD i []) ((b.map tuple).getD j []))
        (v :: a).length (v :: a).length := by
  subst hk
  simp [matchFloatVecs]

/-- `_match_float_vecs` on equally many tuples. -/
theorem matchFloatVecs_tuples (h0 : 0 ≤ tol) (hs : ∀ v ∈ a ++ b, v.length = k) (hlen : a.length = b.length) :
    matchFloatVecs floatOfStr tol (a.map tuple) (b.map tuple) = true ↔
      if k ≤ 1 ∨ a.length > exactMatchCap then Forall₂ (CloseTuple tol) (sortBy tupleRank a) (sortBy tupleRank b)
      else Embeds (CloseTuple tol) a b := by
  cases a with
  | nil =>
    obtain rfl : b = [] := length_eq_zero_iff.1 hlen.symm
    refine iff_of_true rfl ?_
    split
    · exact .nil
    · exact Embeds.nil_left
  | cons v a =>
    have hk : (tuple v).length = k := by
      rw [← hs v (by simp)]
      exact length_map _
    by_cases hsorts : k ≤ 1 ∨ (v :: a).length > exactMatchCap
    · rw [if_pos hsorts, matchFloatVecs_cons_tuple hk, if_pos hsorts]
      exact sorted_tuples h0 hs hlen
    · rw [if_neg hsorts, matchFloatVecs_cons_tuple hk, if_neg hsorts]
      exact matchAll_tuples h0 hs rfl hlen.symm

theorem matchFloatVecsSubset_cons_tuple {v : List Component} (hk : (tuple v).length = k) :
    matchFloatVecsSubset floatOfStr tol ((v :: a).map tuple) (b.map tuple) =
      if (v :: a).length > b.length then false
      else if k ≤ 1 ∨ b.length > exactMatchCap then
        takeClose floatOfStr tol (sortVecs ((v :: a).map tuple)) (sortVecs (b.map tuple))
      else matchAll (fun i j => vecClose floatOfStr tol (((v :: a).map tuple).getD i []) ((b.map tuple).getD j []))
        (v :: a).length b.length := by
  subst hk
  simp [matchFloatVecsSubset]

theorem matchFloatVecsSubset_longer (h : b.length < a.length) :
    ¬ matchFloatVecsSubset floatOfStr tol (a.map tuple) (b.map tuple) = true := by
  cases a with
  | nil => exact absurd h (Nat.not_lt_zero _)
  | cons v a =>
    rw [matchFloatVecsSubset_cons_tuple rfl, if_pos h]
    exact Bool.false_ne_true

/-- `_match_float_vecs_subset` where `a` is not longer than `b`. -/
theorem matchFloatVecsSubset_tuples (h0 : 0 ≤ tol) (hs : ∀ v ∈ a ++ b, v.length = k) (hle : a.length ≤ b.length) :
    matchFloatVecsSubset floatOfStr tol (a.map tuple) (b.map tuple) = true ↔
      if k ≤ 1 ∨ b.length > exactMatchCap then
        takeClose floatOfStr tol ((sortBy tupleRank a).map tuple) ((sortBy tupleRank b).map tuple) = true
      else Embeds (CloseTuple tol) a b := by
  cases a with
  | nil =>
    refine iff_of_true rfl ?_
    split
    · simp [sortBy, takeClose]
    · exact Embeds.nil_left
  | cons v a =>
    have hk : (tuple v).length = k := by
      rw [← hs v (by simp)]
      exact length_map _
    rw [matchFloatVecsSubset_cons_tuple hk, if_neg (not_lt.2 hle)]
    by_cases hscan : k ≤ 1 ∨ b.length > exactMatchCap
    · rw [if_pos hscan, if_pos hscan, sortVecs_tuples, sortVecs_tuples]
    · rw [if_neg hscan, if_neg hscan]
      exact matchAll_tuples h0 hs rfl rfl

end

/-- Up to one component, crossing pairs can be uncrossed. -/
theorem closeTuple_uncrosses {tol : ℚ} (h0 : 0 ≤ tol) (h1 : tol < 1) {k : Nat} {a b : List (List Component)}
    (hk : k ≤ 1) (hs : ∀ v ∈ a ++ b, v.length = k) : Uncrosses (CloseTuple tol) tupleRank tupleRank a b :=
  (closeTuple_between h0 h1 hk hs).uncrosses fun _ _ h => h.symm

/-- **A group is matched exactly in one dimension and up to the cap, and soundly above it.** -/
theorem float_groups_matched (floatOfStr : String → Option PyFloat) (tol : ℚ) (h0 : 0 ≤ tol) (h1 : tol < 1) (k : Nat)
    (a b : List (List Component)) (hs : ∀ v ∈ a ++ b, v.length = k) :
    (a.length = b.length →
      (k ≤ 1 ∨ a.length ≤ exactMatchCap →
        (matchFloatVecs floatOfStr tol (a.map tuple) (b.map tuple) = true ↔ Pairs (CloseTuple tol) a b)) ∧
      (matchFloatVecs floatOfStr tol (a.map tuple) (b.map tuple) = true → Pairs (CloseTuple tol) a b)) ∧
    (k ≤ 1 ∨ b.length ≤ exactMatchCap →
      (matchFloatVecsSubset floatOfStr tol (a.map tuple) (b.map tuple) = true ↔ Embeds (CloseTuple tol) a b)) ∧
    (matchFloatVecsSubset floatOfStr tol (a.map tuple) (b.map tuple) = true → Embeds (CloseTuple tol) a b) := by
  refine ⟨fun hlen => ⟨fun hexact => ?_, fun h => ?_⟩, fun hexact => ?_, fun h => ?_⟩
  · rw [matchFloatVecs_tuples h0 hs hlen]
    by_cases hk : k ≤ 1
    · rw [if_pos (.inl hk), pairs_iff_sorted (closeTuple_uncrosses h0 h1 hk hs)]
    · rw [if_neg (by omega), pairs_iff]
      exact (and_iff_left hlen).symm
  · rw [matchFloatVecs_tuples h0 hs hlen] at h
    split at h
    · exact (pairs_perm (sortBy_perm _ a) (sortBy_perm _ b)).1 (pairs_of_forall₂ h)
    · exact pairs_iff.2 ⟨h, hlen⟩
  · by_cases hle : a.length ≤ b.length
    · rw [matchFloatVecsSubset_tuples h0 hs hle]
      by_cases hk : k ≤ 1
      · rw [if_pos (.inl hk), takeClose_sorted h0 hs (closeTuple_uncrosses h0 h1 hk hs)]
      · rw [if_neg (by omega)]
    · exact iff_of_false (matchFloatVecsSubset_longer (not_le.1 hle)) fun h => hle h.length_le
  · by_cases hle : a.length ≤ b.length
    · rw [matchFloatVecsSubset_tuples h0 hs hle] at h
      split at h
      · exact takeClose_sorted_sound h0 hs h
      · exact h
    · exact absurd h (matchFloatVecsSubset_longer (not_le.1 hle))

theorem float_groups_matched_reordered :
    matchFloatVecs (fun _ => none) (1 / 10) ([[some 1], [none], [some 2]].map tuple)
      ([[none], [some (21 / 10)], [some 1]].map tuple) = true := by
  have hexact := float_groups_matched (fun _ => none) (1 / 10) (by norm_num) (by norm_num) 1 [[some 1], [none], [some 2]]
    [[none], [some (21 / 10)], [some 1]] (by decide)
  have hpairs : Pairs (CloseTuple (1 / 10)) [[some 1], [none], [some 2]] [[none], [some (21 / 10)], [some 1]] := by
    refine ⟨[[some 1], [none], [some (21 / 10)]], (perm_append_singleton _ _).symm, .cons ?_ (.cons ?_ (.cons ?_ .nil))⟩
    · exact .cons (show CloseTo (1 / 10) 1 1 by norm_num [CloseTo]) .nil
    · exact .cons trivial .nil
    · exact .cons (show CloseTo (1 / 10) 2 (21 / 10) by norm_num [CloseTo]) .nil
  exact ((hexact.1 rfl).1 (.inl le_rfl)).2 hpairs

end SynnoDB.Router
