import Mathlib.Algebra.BigOperators.Group.Finset.Basic
import Mathlib.Algebra.Order.Field.Basic
import Mathlib.Algebra.Order.BigOperators.Group.Finset
import Mathlib.Data.Multiset.AddSub
import SynnoDB.Lib.FirstFit
import SynnoDB.Lib.MapM
import SynnoDB.Router.FloatGroups

/-!
# The explanation of a divergence (`router/adapt.py:362-463`)

| here | there |
| --- | --- |
| `strays`         | the first-fit loop over `remaining` |
| `resultsDiffTop` | `results_diff` with `row_limit` and `candidates` |

The verdict groups and matches; the explanation compares by position, removes by first fit, or counts rows by the grid
point their floats round to. `Explained` says what the explanation of a divergence holds: every differing cell, or the
rows that first fit leaves over, or one row for each bucket that a side has more of. The last is approximate by intent:
two close floats can round to different grid points, and the verdict can refuse rows whose buckets agree where a NaN
is involved or where it sorts instead of matching (`Matched`).
-/

namespace SynnoDB.Router

open List Pairing

section
variable (floatOfStr : String → Option PyFloat) (tol : Rat)

/-- The rows that find no close row of their own in the pool. -/
def strays (rows pool : List Row) : List Row := FirstFit.leftover (rowEqual floatOfStr tol) rows pool

def resultsDiffTop (ordered : Bool) (orderKeys : Option (List Nat)) (limit : Nat) (rowLimit : Option Nat)
    (candidates : Option (List Row)) (bespoke reference : Table) : Except String (List Diff × Nat) :=
  if bespoke.columnNames ≠ reference.columnNames then
    .ok ([⟨-1, "<columns>", .names bespoke.columnNames, .names reference.columnNames⟩], 1)
  else if bespoke.rows.length ≠ reference.rows.length then
    .ok ([⟨-1, "<row count>", .count bespoke.rows.length, .count reference.rows.length⟩], 1)
  else
    let names := bespoke.columnNames
    match ordered, orderKeys with
    | true, some (k :: ks) =>
      let keyDiffs := cellDiffs floatOfStr tol names (k :: ks) bespoke.rows reference.rows
      if keyDiffs ≠ [] then .ok (keyDiffs.take limit, keyDiffs.length)
      else match candidates, rowLimit with
        | some pool, some n =>
          if reference.rows.length = n then
            let left := strays floatOfStr tol bespoke.rows pool
            .ok ((left.take limit).map fun r => ⟨-1, "<row not in the ranking>", .row r, .none⟩, left.length)
          else unorderedDiff tol limit bespoke.rows reference.rows
        | _, _ => unorderedDiff tol limit bespoke.rows reference.rows
    | true, _ =>
      let diffs := cellDiffs floatOfStr tol names (List.range names.length) bespoke.rows reference.rows
      .ok (diffs.take limit, diffs.length)
    | false, _ => unorderedDiff tol limit bespoke.rows reference.rows

/-- Without a pool this is `resultsDiff`. -/
theorem resultsDiffTop_none (ordered : Bool) (orderKeys : Option (List Nat)) (limit : Nat) (rowLimit : Option Nat)
    (bespoke reference : Table) :
    resultsDiffTop floatOfStr tol ordered orderKeys limit rowLimit none bespoke reference =
      resultsDiff floatOfStr tol ordered orderKeys limit bespoke reference := rfl

end

/-! ## Rounding to the grid -/

/-- The grid point of a float; NaN has none. -/
def snap (tol : Rat) (f : PyFloat) : Option Int := (pyRound (f.div tol)).toOption

/-- The bucket of a cell, each number in one spelling. -/
def gridCell (tol : Rat) : Cell → BucketCell
  | .float f => .f (snap tol f)
  | c => .v (canon c)

/-- The bucket of a row. -/
def gridKey (tol : Rat) (r : Row) : List BucketCell := r.map (gridCell tol)

/-- `round(q)`. -/
def halfEven (q : Rat) : Int :=
  if q - q.floor < 1 / 2 then q.floor
  else if 1 / 2 < q - q.floor then q.floor + 1
  else if q.floor % 2 = 0 then q.floor else q.floor + 1

theorem pyRound_eq (q : Rat) : pyRound (.fin q) = .ok (halfEven q) := by
  unfold halfEven
  simp only [pyRound]
  split
  · rfl
  · split <;> rfl

theorem halfEven_bounds (q : Rat) : q.floor ≤ halfEven q ∧ halfEven q ≤ q.floor + 1 := by
  unfold halfEven
  split
  · omega
  · split
    · omega
    · split <;> omega

theorem halfEven_near (q : Rat) : |q - halfEven q| ≤ 1 / 2 := by
  have hlo : (q.floor : Rat) ≤ q := Rat.floor_le q
  have hhi : q < (q.floor : Rat) + 1 := by simpa using Rat.lt_floor_add_one q
  unfold halfEven
  rw [abs_le]
  split
  · constructor <;> linarith
  · split
    · push_cast
      constructor <;> linarith
    · split
      · constructor <;> linarith
      · push_cast
        constructor <;> linarith

theorem halfEven_mono {p q : Rat} (h : p ≤ q) : halfEven p ≤ halfEven q := by
  have hfloor : p.floor ≤ q.floor := Rat.le_floor_iff.2 ((Rat.floor_le p).trans h)
  rcases hfloor.lt_or_eq with hlt | heq
  · have hp := (halfEven_bounds p).2
    have hq := (halfEven_bounds q).1
    omega
  · -- with one floor, the fractions decide
    unfold halfEven
    rw [heq]
    have hfrac : p - q.floor ≤ q - q.floor := by linarith
    split
    · split
      · omega
      · split
        · omega
        · split <;> omega
    · rename_i hp
      rw [if_neg fun hq => hp (hfrac.trans_lt hq)]
      split
      · rename_i hp'
        rw [if_pos (hp'.trans_le hfrac)]
      · split
        · split <;> omega
        · omega

theorem snap_fin (tol q : Rat) : snap tol (.fin q) = some (halfEven (q / tol)) := by
  simp [snap, PyFloat.div, pyRound_eq, Except.toOption]

/-- Floats of one grid point are close. -/
theorem closeTo_of_snap {tol p q : Rat} (h0 : 0 < tol) (h : snap tol (.fin p) = snap tol (.fin q)) :
    CloseTo tol p q := by
  rw [snap_fin, snap_fin] at h
  have hround : halfEven (p / tol) = halfEven (q / tol) := Option.some.inj h
  have hp := abs_le.1 (halfEven_near (p / tol))
  have hq := abs_le.1 (halfEven_near (q / tol))
  rw [hround] at hp
  have hquot : |p / tol - q / tol| ≤ 1 := abs_le.2 ⟨by linarith, by linarith⟩
  have hdiff : |p - q| ≤ tol := by
    rw [← sub_div, abs_div, abs_of_pos h0, div_le_one h0] at hquot
    exact hquot
  exact (closeTo_iff h0.le).2 (.inr (.inr hdiff))

/-- What lies between two floats of one grid point has that grid point too. -/
theorem snap_between {tol p m q : Rat} (h0 : 0 < tol) (hpm : p ≤ m) (hmq : m ≤ q)
    (h : snap tol (.fin p) = snap tol (.fin q)) :
    snap tol (.fin p) = snap tol (.fin m) ∧ snap tol (.fin m) = snap tol (.fin q) := by
  simp only [snap_fin, Option.some.injEq] at h ⊢
  have hleft : halfEven (p / tol) ≤ halfEven (m / tol) := halfEven_mono (div_le_div_of_nonneg_right hpm h0.le)
  have hright : halfEven (m / tol) ≤ halfEven (q / tol) := halfEven_mono (div_le_div_of_nonneg_right hmq h0.le)
  constructor <;> omega

/-! ## Buckets -/

section
variable {tol : Rat} {r s : Row}

/-- The bucket of a cell other than an infinity, as it is computed. -/
def rawCell (tol : Rat) : Cell → BucketCell
  | .float f => .f (snap tol f)
  | c => .v c

def rawBucket (tol : Rat) (r : Row) : List BucketCell := r.map (rawCell tol)

theorem bucket_eq (h : hasInf r = false) : bucket tol r = .ok (rawBucket tol r) := by
  refine MapM.eq_ok_of_forall fun c hc => ?_
  have hfin := List.any_eq_false.1 h c hc
  cases c with
  | float f => cases f with
    | nan => rfl
    | inf s => cases s <;> simp at hfin
    | fin q => simp [bucketCell, rawCell, PyFloat.div, pyRound_eq, snap_fin, bind, Except.bind, pure, Except.pure]
  | _ => rfl

theorem rawCell_exact {c : Cell} (h : c.isFloat = false) : rawCell tol c = .v c ∧ gridCell tol c = .v (canon c) := by
  cases c with
  | float f => cases h
  | _ => exact ⟨rfl, rfl⟩

theorem rawCell_eq_iff {c d : Cell} : (rawCell tol c).eq (rawCell tol d) = true ↔ gridCell tol c = gridCell tol d := by
  cases hc : c.isFloat with
  | true => cases c with
    | float f => cases d <;> simp [rawCell, gridCell, BucketCell.eq]
    | _ => cases hc
  | false => cases hd : d.isFloat with
    | true => cases d with
      | float g =>
        obtain ⟨hraw, hgrid⟩ := rawCell_exact hc
        rw [hraw, hgrid]
        simp [rawCell, gridCell, BucketCell.eq]
      | _ => cases hd
    | false =>
      rw [(rawCell_exact hc).1, (rawCell_exact hd).1, (rawCell_exact hc).2, (rawCell_exact hd).2]
      exact (pyEq_iff hc hd).trans ⟨congrArg BucketCell.v, BucketCell.v.inj⟩

theorem bucketEq_cons (x y : BucketCell) (xs ys : List BucketCell) :
    bucketEq (x :: xs) (y :: ys) = (x.eq y && bucketEq xs ys) := by
  simp only [bucketEq, length_cons, Nat.add_right_cancel_iff, zip_cons_cons, all_cons, Bool.and_left_comm]

/-- Two rows share a bucket if their floats round to one grid point and their other cells are equal. -/
theorem bucketEq_iff : bucketEq (rawBucket tol r) (rawBucket tol s) = true ↔ gridKey tol r = gridKey tol s := by
  induction r generalizing s with
  | nil => cases s <;> simp [bucketEq, rawBucket, gridKey]
  | cons c r ih => cases s with
    | nil => simp [bucketEq, rawBucket, gridKey]
    | cons d s =>
      have hraw : ∀ e t, rawBucket tol (e :: t) = rawCell tol e :: rawBucket tol t := fun _ _ => rfl
      have hgrid : ∀ e t, gridKey tol (e :: t) = gridCell tol e :: gridKey tol t := fun _ _ => rfl
      rw [hraw, hraw, bucketEq_cons, Bool.and_eq_true, rawCell_eq_iff, ih, hgrid, hgrid, cons.injEq]

/-- The rows of a table by bucket, with multiplicity. -/
def buckets (tol : Rat) (rows : List Row) : Multiset (List BucketCell) := rows.map (gridKey tol)

/-- `shown` has one row for each bucket that `rows` has more of than `others`. -/
structure Excess (tol : Rat) (rows others shown : List Row) : Prop where
  mem : ∀ r ∈ shown, r ∈ rows
  nodup : (shown.map (gridKey tol)).Nodup
  complete : ∀ k, k ∈ shown.map (gridKey tol) ↔ (buckets tol others).count k < (buckets tol rows).count k

/-- A `Counter` has the buckets in order of first appearance. -/
theorem distinctBuckets_eq (tol : Rat) (seen rows : List Row) : ∃ firsts,
    distinctBuckets (seen.map (rawBucket tol)) (rows.map (rawBucket tol)) = firsts.map (rawBucket tol) ∧
      firsts <+ rows ∧ (firsts.map (gridKey tol)).Nodup ∧
      ∀ k, k ∈ firsts.map (gridKey tol) ↔ k ∈ rows.map (gridKey tol) ∧ k ∉ seen.map (gridKey tol) := by
  induction rows generalizing seen with
  | nil => exact ⟨[], rfl, .slnil, nodup_nil, by simp⟩
  | cons r rows ih =>
    rw [map_cons, distinctBuckets]
    have hseen : (seen.map (rawBucket tol)).any (bucketEq (rawBucket tol r)) = true ↔
        gridKey tol r ∈ seen.map (gridKey tol) := by
      rw [any_map, any_eq_true, mem_map]
      exact exists_congr fun s => and_congr_right fun _ => bucketEq_iff.trans eq_comm
    by_cases hr : gridKey tol r ∈ seen.map (gridKey tol)
    · obtain ⟨firsts, heq, hsub, hnodup, hmem⟩ := ih seen
      rw [if_pos (hseen.2 hr)]
      refine ⟨firsts, heq, hsub.cons r, hnodup, fun k => (hmem k).trans ?_⟩
      rw [map_cons, mem_cons]
      refine and_congr_left fun hk => (or_iff_right ?_).symm
      rintro rfl
      exact hk hr
    · obtain ⟨firsts, heq, hsub, hnodup, hmem⟩ := ih (r :: seen)
      rw [if_neg fun h => hr (hseen.1 h)]
      have hfresh : gridKey tol r ∉ firsts.map (gridKey tol) := fun h => ((hmem _).1 h).2 (by simp)
      refine ⟨r :: firsts, congrArg _ heq, hsub.cons_cons r, nodup_cons.2 ⟨hfresh, hnodup⟩, fun k => ?_⟩
      rw [map_cons, mem_cons, hmem, map_cons, mem_cons, map_cons, mem_cons]
      by_cases hk : k = gridKey tol r
      · subst hk
        simp [hr]
      · simp [hk]

/-- How many more rows of a bucket there are on a side. -/
def surplus (tol : Rat) (rows others : List Row) (k : List BucketCell) : Nat :=
  (buckets tol rows).count k - (buckets tol others).count k

/-- The last row of a bucket. -/
def lastOf (tol : Rat) (rows : List Row) (k : List BucketCell) : Row :=
  ((rows.filter fun r => gridKey tol r = k).getLast?).getD []

theorem lastOf_spec {rows : List Row} (hr : r ∈ rows) :
    lastOf tol rows (gridKey tol r) ∈ rows ∧ gridKey tol (lastOf tol rows (gridKey tol r)) = gridKey tol r := by
  have hmem : r ∈ rows.filter fun s => gridKey tol s = gridKey tol r := by simpa using hr
  have hlast := getLast_mem (ne_nil_of_mem hmem)
  unfold lastOf
  rw [getLast?_eq_some_getLast (ne_nil_of_mem hmem), Option.getD_some]
  simpa using hlast

theorem count_buckets (rows : List Row) (k : List BucketCell) :
    (buckets tol rows).count k = rows.countP fun r => gridKey tol r = k := by
  have hmap : buckets tol rows = Multiset.map (gridKey tol) rows := rfl
  rw [hmap, Multiset.count_map, Multiset.filter_coe, Multiset.coe_card, countP_eq_length_filter]
  simp only [eq_comm]

def withBuckets (tol : Rat) (rows : List Row) : List (List BucketCell × Row) := rows.map fun r => (rawBucket tol r, r)

theorem withBuckets_filter (rows : List Row) (r : Row) :
    (withBuckets tol rows).filter (fun p => bucketEq p.1 (rawBucket tol r)) =
      withBuckets tol (rows.filter fun s => gridKey tol s = gridKey tol r) := by
  unfold withBuckets
  rw [filter_map]
  refine congrArg _ (filter_congr fun s _ => ?_)
  rw [Bool.eq_iff_iff, decide_eq_true_eq]
  exact bucketEq_iff

variable (tol) in
/-- `Counter(…) - Counter(…)`, each bucket shown by its last row. -/
theorem onlyIn_eq (rows others : List Row) : ∃ firsts, firsts <+ rows ∧ (firsts.map (gridKey tol)).Nodup ∧
    (∀ k, k ∈ firsts.map (gridKey tol) ↔ k ∈ rows.map (gridKey tol)) ∧
    onlyIn (withBuckets tol rows) (withBuckets tol others) =
      (firsts.filter fun r => 0 < surplus tol rows others (gridKey tol r)).map fun r =>
        (lastOf tol rows (gridKey tol r), surplus tol rows others (gridKey tol r)) := by
  obtain ⟨firsts, heq, hsub, hnodup, hmem⟩ := distinctBuckets_eq tol [] rows
  refine ⟨firsts, hsub, hnodup, fun k => by simpa using hmem k, ?_⟩
  have hkeys : distinctBuckets [] ((withBuckets tol rows).map (·.1)) = firsts.map (rawBucket tol) := by
    simpa [withBuckets, Function.comp_def] using heq
  have hcount : ∀ (side : List Row) (r : Row), (withBuckets tol side).countP (fun p => bucketEq p.1 (rawBucket tol r)) =
      (buckets tol side).count (gridKey tol r) := by
    intro side r
    rw [countP_eq_length_filter, withBuckets_filter, count_buckets, countP_eq_length_filter, withBuckets, length_map]
  have hmine : ∀ r, ((withBuckets tol rows).filter fun p => bucketEq p.1 (rawBucket tol r)).length =
      (buckets tol rows).count (gridKey tol r) := by
    intro r
    rw [← countP_eq_length_filter]
    exact hcount rows r
  have hlast : ∀ r,
      (((withBuckets tol rows).filter fun p => bucketEq p.1 (rawBucket tol r)).getLast?.map (·.2)).getD [] =
      lastOf tol rows (gridKey tol r) := by
    intro r
    rw [withBuckets_filter, withBuckets, getLast?_map, Option.map_map, lastOf]
    cases (rows.filter fun s => gridKey tol s = gridKey tol r).getLast? <;> rfl
  unfold onlyIn
  rw [hkeys, filterMap_map, ← filterMap_eq_filter, map_filterMap]
  refine filterMap_congr fun r _ => ?_
  simp only [Function.comp_apply, hmine, hcount, hlast]
  change (if surplus tol rows others (gridKey tol r) = 0 then _ else _) = _
  by_cases hzero : surplus tol rows others (gridKey tol r) = 0
  · simp [hzero]
  · rw [if_neg hzero]
    simp only [Option.guard, Nat.pos_of_ne_zero hzero, decide_true, if_true, Option.map_some]
    rfl

/-- The surpluses of the buckets of a side add up to what it has beyond the other. -/
theorem sum_surplus {ks : List (List BucketCell)} {rows others : List Row} (hnodup : ks.Nodup)
    (hks : ∀ k, k ∈ ks ↔ k ∈ rows.map (gridKey tol)) :
    (ks.map (surplus tol rows others)).sum = (buckets tol rows - buckets tol others).card := by
  have hall : ∀ k ∈ buckets tol rows - buckets tol others, k ∈ ks.toFinset := by
    intro k hk
    have hmem : k ∈ buckets tol rows := Multiset.mem_of_le tsub_le_self hk
    rw [mem_toFinset]
    exact (hks k).2 hmem
  rw [← Multiset.sum_count_eq_card hall, ← sum_toFinset _ hnodup]
  exact Finset.sum_congr rfl fun k _ => (Multiset.count_sub k _ _).symm

variable (tol) in
theorem onlyIn_spec (rows others : List Row) :
    Excess tol rows others ((onlyIn (withBuckets tol rows) (withBuckets tol others)).map (·.1)) ∧
      ((onlyIn (withBuckets tol rows) (withBuckets tol others)).map (·.2)).sum =
        (buckets tol rows - buckets tol others).card := by
  obtain ⟨firsts, hsub, hnodup, hmem, heq⟩ := onlyIn_eq tol rows others
  let more := firsts.filter fun r => 0 < surplus tol rows others (gridKey tol r)
  have hmore : more <+ firsts := filter_sublist
  have hkeys : ((onlyIn (withBuckets tol rows) (withBuckets tol others)).map (·.1)).map (gridKey tol) =
      more.map (gridKey tol) := by
    rw [heq, map_map, map_map]
    exact map_congr_left fun r hr => (lastOf_spec (hsub.subset (hmore.subset hr))).2
  refine ⟨⟨fun r hr => ?_, ?_, fun k => ?_⟩, ?_⟩
  · rw [heq, map_map] at hr
    obtain ⟨s, hs, rfl⟩ := mem_map.1 hr
    exact (lastOf_spec (hsub.subset (hmore.subset hs))).1
  · rw [hkeys]
    exact hnodup.sublist (hmore.map _)
  · rw [hkeys]
    constructor
    · intro hk
      obtain ⟨r, hr, rfl⟩ := mem_map.1 hk
      have hpos : 0 < surplus tol rows others (gridKey tol r) := by simpa using (mem_filter.1 hr).2
      unfold surplus at hpos
      omega
    · intro hlt
      have hrow : k ∈ rows.map (gridKey tol) := by
        have hpos : 0 < (buckets tol rows).count k := by omega
        exact Multiset.count_pos.1 hpos
      obtain ⟨r, hr, rfl⟩ := mem_map.1 ((hmem k).2 hrow)
      refine mem_map_of_mem (mem_filter.2 ⟨hr, ?_⟩)
      have hpos : 0 < surplus tol rows others (gridKey tol r) := by
        unfold surplus
        omega
      simpa using hpos
  · have hdrop : (more.map fun r => surplus tol rows others (gridKey tol r)).sum =
        (firsts.map fun r => surplus tol rows others (gridKey tol r)).sum := by
      clear hkeys hmore heq hsub hnodup hmem
      induction firsts with
      | nil => rfl
      | cons r firsts ih =>
        simp only [more, filter_cons] at ih ⊢
        by_cases hpos : 0 < surplus tol rows others (gridKey tol r)
        · simp [hpos, ih]
        · simp [ih, Nat.eq_zero_of_not_pos hpos]
    rw [heq, map_map]
    refine hdrop.trans ?_
    rw [← sum_surplus hnodup hmem, map_map]
    rfl

/-! ## The report of the rows -/

def engineOnly (r : Row) : Diff := ⟨-1, "<engine-only row>", .row r, .none⟩

def duckdbOnly (r : Row) : Diff := ⟨-1, "<duckdb-only row>", .none, .row r⟩

variable (tol) in
/-- How many rows have no row of their bucket on the other side. -/
def rowTotal (rowsB rowsR : List Row) : Nat :=
  (buckets tol rowsB - buckets tol rowsR).card + (buckets tol rowsR - buckets tol rowsB).card

variable {rowsB rowsR : List Row} (limit : Nat)

theorem mapM_bucket (h : ∀ r ∈ rowsB, hasInf r = false) :
    rowsB.mapM (bucket tol) = .ok (rowsB.map (rawBucket tol)) :=
  MapM.eq_ok_of_forall fun r hr => bucket_eq (h r hr)

variable (tol) in
theorem unorderedDiff_eq (h : ∀ r ∈ rowsB ++ rowsR, hasInf r = false) : ∃ engine duckdb,
    unorderedDiff tol limit rowsB rowsR =
      .ok ((engine.map engineOnly ++ duckdb.map duckdbOnly).take limit, rowTotal tol rowsB rowsR) ∧
    Excess tol rowsB rowsR engine ∧ Excess tol rowsR rowsB duckdb := by
  obtain ⟨hengine, hsumB⟩ := onlyIn_spec tol rowsB rowsR
  obtain ⟨hduckdb, hsumR⟩ := onlyIn_spec tol rowsR rowsB
  refine ⟨_, _, ?_, hengine, hduckdb⟩
  have hzip : ∀ rows : List Row, (rows.map (rawBucket tol)).zip rows = withBuckets tol rows := by
    intro rows
    simpa [withBuckets] using zip_map' (l := rows) (f := rawBucket tol) (g := id)
  have hlimit : ∀ n : Nat, limit - min limit n = limit - n := fun n => by omega
  unfold unorderedDiff
  rw [mapM_bucket fun r hr => h r (mem_append_left _ hr), mapM_bucket fun r hr => h r (mem_append_right _ hr)]
  simp only [bind, Except.bind, pure, Except.pure, hzip, hsumB, hsumR, length_map, length_take, hlimit, rowTotal,
    take_append, map_map, ← map_take]
  rfl

def overflow : String := "OverflowError: cannot convert float infinity to integer"

theorem bucket_error_eq {e : String} (h : bucket tol r = .error e) : e = overflow := by
  obtain ⟨c, -, hc⟩ := MapM.exists_error h
  have hinf := (bucketCell_error_iff tol c).1 ⟨e, hc⟩
  rcases hinf with rfl | rfl
  · cases hc
    rfl
  · cases hc
    rfl

/-- The total depends on which buckets there are, and on no order of the rows. -/
theorem unorderedDiff_total : (unorderedDiff tol limit rowsB rowsR).map (·.2) =
    if (rowsB ++ rowsR).any hasInf then .error overflow else .ok (rowTotal tol rowsB rowsR) := by
  split
  · rename_i h
    rw [any_eq_true] at h
    obtain ⟨e, he⟩ := (unorderedDiff_error_iff tol limit rowsB rowsR).2 h
    rw [he]
    refine congrArg Except.error ?_
    unfold unorderedDiff at he
    cases hb : rowsB.mapM (bucket tol) with
    | error e' =>
      simp only [hb, bind, Except.bind] at he
      cases he
      obtain ⟨_, -, he⟩ := MapM.exists_error hb
      exact bucket_error_eq he
    | ok cb =>
      cases hr : rowsR.mapM (bucket tol) with
      | error e' =>
        simp only [hb, hr, bind, Except.bind] at he
        cases he
        obtain ⟨_, -, he⟩ := MapM.exists_error hr
        exact bucket_error_eq he
      | ok cr =>
        simp only [hb, hr, bind, Except.bind] at he
        cases he
  · rename_i h
    have hfin : ∀ r ∈ rowsB ++ rowsR, hasInf r = false := fun r hr => by
      by_contra hinf
      exact h (any_eq_true.2 ⟨r, hr, by simpa using hinf⟩)
    obtain ⟨engine, duckdb, heq, -, -⟩ := unorderedDiff_eq tol limit hfin
    rw [heq]
    rfl

theorem unorderedDiff_total_perm {rowsB' rowsR' : List Row} (hb : rowsB' ~ rowsB) (hr : rowsR' ~ rowsR) :
    (unorderedDiff tol limit rowsB' rowsR').map (·.2) = (unorderedDiff tol limit rowsB rowsR).map (·.2) := by
  have hany : (rowsB' ++ rowsR').any hasInf = (rowsB ++ rowsR).any hasInf := by
    rw [Bool.eq_iff_iff, any_eq_true, any_eq_true]
    simp only [(hb.append hr).mem_iff]
  have hB : buckets tol rowsB' = buckets tol rowsB := Quot.sound (hb.map _)
  have hR : buckets tol rowsR' = buckets tol rowsR := Quot.sound (hr.map _)
  rw [unorderedDiff_total, unorderedDiff_total, hany, rowTotal, hB, hR, rowTotal]

end

/-! ## The report of the cells -/

section
variable (floatOfStr : String → Option PyFloat) (tol : Rat) (names : List String) (cols : List Nat)
  (rowsB rowsR : List Row)

def cellAt (rows : List Row) (p : Nat × Nat) : Cell := (rows.getD p.1 []).getD p.2 .null

/-- The places of the columns `cols` whose cells differ, row by row. -/
def places : List (Nat × Nat) :=
  (range rowsB.length ×ˢ cols).filter fun p => cellEqual floatOfStr tol (cellAt rowsB p) (cellAt rowsR p) = false

def cellDiff (p : Nat × Nat) : Diff :=
  ⟨p.1, names.getD p.2 "", .cell (cellAt rowsB p), .cell (cellAt rowsR p)⟩

variable {rowsB rowsR} in
theorem cellDiffs_eq (hlen : rowsB.length = rowsR.length) : cellDiffs floatOfStr tol names cols rowsB rowsR =
    (places floatOfStr tol cols rowsB rowsR).map (cellDiff names rowsB rowsR) := by
  have hrows : (rowsB.zip rowsR).zipIdx =
      (range rowsB.length).map fun i => ((rowsB.getD i [], rowsR.getD i []), i) := by
    refine ext_getElem (by simp [hlen]) fun i hi hi' => ?_
    have hB : i < rowsB.length := by simpa using hi'
    have hR : i < rowsR.length := hlen ▸ hB
    simp [getD_eq_getElem?_getD, hB, hR]
  have hcells : ∀ i : Nat, (cols.filterMap fun c =>
      if cellEqual floatOfStr tol (cellAt rowsB (i, c)) (cellAt rowsR (i, c)) then none
      else some (cellDiff names rowsB rowsR (i, c))) =
      ((cols.map (Prod.mk i)).filter fun p =>
        cellEqual floatOfStr tol (cellAt rowsB p) (cellAt rowsR p) = false).map (cellDiff names rowsB rowsR) := by
    intro i
    rw [filter_map, map_map, ← filterMap_eq_filter, map_filterMap]
    refine filterMap_congr fun c _ => ?_
    by_cases hc : cellEqual floatOfStr tol (cellAt rowsB (i, c)) (cellAt rowsR (i, c)) = true
    · simp [hc, Option.guard]
    · simp [hc, Option.guard]
  unfold cellDiffs places
  rw [hrows, map_map]
  have hprod : range rowsB.length ×ˢ cols = ((range rowsB.length).map fun i => cols.map (Prod.mk i)).flatten := rfl
  rw [hprod, filter_flatten, map_flatten, map_map, map_map]
  exact congrArg flatten (map_congr_left fun i _ => hcells i)

variable {floatOfStr tol cols rowsB rowsR} in
theorem mem_places {p : Nat × Nat} : p ∈ places floatOfStr tol cols rowsB rowsR ↔
    (p.1 < rowsB.length ∧ p.2 ∈ cols) ∧ cellEqual floatOfStr tol (cellAt rowsB p) (cellAt rowsR p) = false := by
  obtain ⟨i, c⟩ := p
  simp [places]

end

/-! ## Closeness under a larger tolerance -/

section
variable {floatOfStr : String → Option PyFloat} {tol tol' : Rat}

theorem isclose_mono (h0 : 0 ≤ tol) (hle : tol ≤ tol') {a b : PyFloat} (h : isclose tol tol a b = some true) :
    isclose tol' tol' a b = some true := by
  have h0' : 0 ≤ tol' := h0.trans hle
  simp only [isclose, not_lt.2 h0, not_lt.2 h0', or_self, if_false, Option.some.injEq, Bool.or_eq_true] at h ⊢
  rcases h with h | h
  · exact .inl h
  · right
    cases a with
    | fin p => cases b with
      | fin q =>
        have hscale : ∀ r : Rat, |tol * r| ≤ |tol' * r| := fun r => by
          rw [abs_mul, abs_mul, abs_of_nonneg h0, abs_of_nonneg h0']
          exact mul_le_mul_of_nonneg_right hle (abs_nonneg r)
        simp only [absRat_eq, Bool.or_eq_true, decide_eq_true_eq] at h ⊢
        rcases h with (hq | hp) | hone
        · exact .inl (.inl (hq.trans (hscale q)))
        · exact .inl (.inr (hp.trans (hscale p)))
        · exact .inr (hone.trans hle)
      | _ => cases h
    | _ => cases h

theorem isclose_isSome (h0 : 0 ≤ tol) (a b : PyFloat) : (isclose tol tol a b).isSome = true := by
  simp [isclose, not_lt.2 h0]

theorem isclose_getD_mono (h0 : 0 ≤ tol) (hle : tol ≤ tol') {a b : PyFloat} {d d' : Bool}
    (h : (isclose tol tol a b).getD d = true) : (isclose tol' tol' a b).getD d' = true := by
  obtain ⟨v, hv⟩ := Option.isSome_iff_exists.1 (isclose_isSome h0 a b)
  rw [hv, Option.getD_some] at h
  subst h
  rw [isclose_mono h0 hle hv]
  rfl

theorem cellEqual_mono (h0 : 0 ≤ tol) (hle : tol ≤ tol') {x y : Cell} (h : cellEqual floatOfStr tol x y = true) :
    cellEqual floatOfStr tol' x y = true := by
  unfold cellEqual at h ⊢
  split at h
  · rename_i hnull
    rw [if_pos hnull]
    exact h
  · rename_i hnull
    rw [if_neg hnull]
    split at h
    · rename_i hfloat
      rw [if_pos hfloat]
      split at h
      · exact isclose_getD_mono h0 hle h
      · exact h
    · rename_i hfloat
      rw [if_neg hfloat]
      exact h

theorem floatClose_mono (h0 : 0 ≤ tol) (hle : tol ≤ tol') {x y : Cell} (h : floatClose floatOfStr tol x y = true) :
    floatClose floatOfStr tol' x y = true := by
  unfold floatClose at h ⊢
  split at h
  · rename_i hnull
    rw [if_pos hnull]
    exact h
  · rename_i hnull
    rw [if_neg hnull]
    split at h
    · exact isclose_getD_mono h0 hle h
    · exact h

theorem vecClose_mono (h0 : 0 ≤ tol) (hle : tol ≤ tol') {u v : Row} (h : vecClose floatOfStr tol u v = true) :
    vecClose floatOfStr tol' u v = true := by
  unfold vecClose at h ⊢
  rw [all_eq_true] at h ⊢
  exact fun p hp => floatClose_mono h0 hle (h p hp)

theorem rowEqual_iff_getD {r s : Row} : rowEqual floatOfStr tol r s = true ↔
    r.length = s.length ∧ ∀ i, cellEqual floatOfStr tol (r.getD i .null) (s.getD i .null) = true := by
  unfold rowEqual
  rw [Bool.and_eq_true, decide_eq_true_eq]
  refine and_congr_right fun hlen => ?_
  rw [zip_all_iff hlen, forall₂_iff_get]
  constructor
  · rintro ⟨-, h⟩ i
    by_cases hr : i < r.length
    · have hi := h i hr (hlen ▸ hr)
      have hs : i < s.length := hlen ▸ hr
      simpa [getD_eq_getElem?_getD, hr, hs] using hi
    · have hs : ¬ i < s.length := hlen ▸ hr
      simp [getD_eq_getElem?_getD, hr, hs, cellEqual]
  · intro h
    refine ⟨hlen, fun i hr hs => ?_⟩
    have hi := h i
    simpa [getD_eq_getElem?_getD, hr, hs] using hi

end

/-! ## Where the verdict finds every pairing -/

/-- As in an Arrow table, a column that has a float has floats and nulls only. -/
def Typed (w : Nat) (rows : List Row) : Prop :=
  ∀ i < w, (∃ r ∈ rows, (r.getD i .null).isFloat = true) →
    ∀ r ∈ rows, r.getD i .null = .null ∨ (r.getD i .null).isFloat = true

/-- One floating column at most, or no group that is too large to be matched. -/
def Matched (w : Nat) (a b : List Row) : Prop :=
  (floatColumns w (a ++ b)).length ≤ 1 ∨
    ∀ r ∈ b, (cls (exactKey w (a ++ b)) (exactKey w (a ++ b) r) b).length ≤ exactMatchCap

/-- A cell that sorts by its value. -/
def Cell.Sorts : Cell → Prop
  | .null | .bool _ | .int _ | .float _ => True
  | _ => False

instance (c : Cell) : Decidable c.Sorts := by
  cases c <;> unfold Cell.Sorts <;> infer_instance

section
variable {floatOfStr : String → Option PyFloat} {tol tol' : Rat} {w i : Nat} {a b rows : List Row} {r s : Row}

theorem mem_floatColumns : i ∈ floatColumns w rows ↔ i < w ∧ ∃ r ∈ rows, (r.getD i .null).isFloat = true := by
  unfold floatColumns
  rw [mem_filter, mem_range, any_eq_true]

/-- The columns of a pair whose rows are close, one by one. -/
theorem vecClose_floatVec : vecClose floatOfStr tol (floatVec w rows r) (floatVec w rows s) = true ↔
    ∀ i ∈ floatColumns w rows, floatClose floatOfStr tol (r.getD i .null) (s.getD i .null) = true := by
  unfold vecClose floatVec pick
  rw [zip_map', all_map, all_eq_true]
  rfl

/-- With one floating column, the cells of that column decide what lies between two rows. -/
theorem between_column {R : Cell → Cell → Prop} (hcol : floatColumns w rows = [i])
    (h : Between R cellRank (a.map fun r => r.getD i .null)) :
    Between (fun r s => R (r.getD i .null) (s.getD i .null)) (fun r => vecRank (floatVec w rows r)) a := by
  intro x hx m hm y hy hxm hmy hxy
  have hvec : ∀ r : Row, floatVec w rows r = [r.getD i .null] := fun r => by rw [floatVec, hcol, pick, map_singleton]
  simp only [hvec, vecRank_singleton_le] at hxm hmy
  exact h _ (mem_map_of_mem hx) _ (mem_map_of_mem hm) _ (mem_map_of_mem hy) hxm hmy hxy

/-! ### Rows of one bucket -/

/-- Neither infinite nor NaN. -/
def Cell.Finite (c : Cell) : Prop := c ≠ .float .nan ∧ c ≠ .float (.inf true) ∧ c ≠ .float (.inf false)

/-- A null or a finite float. -/
def IsComponent (c : Cell) : Prop := ∃ x : Component, component x = c

theorem isComponent_of_finite {c : Cell} (hfin : c.Finite) (h : c = .null ∨ c.isFloat = true) : IsComponent c := by
  rcases h with rfl | h
  · exact ⟨none, rfl⟩
  · cases c with
    | float f => cases f with
      | nan => exact absurd rfl hfin.1
      | inf s => cases s with
        | true => exact absurd rfl hfin.2.1
        | false => exact absurd rfl hfin.2.2
      | fin q => exact ⟨some q, rfl⟩
    | _ => cases h

variable (tol) in
/-- Components of one bucket. -/
def SameGrid (c d : Cell) : Prop := IsComponent c ∧ IsComponent d ∧ gridCell tol c = gridCell tol d

theorem SameGrid.symm {c d : Cell} (h : SameGrid tol c d) : SameGrid tol d c := ⟨h.2.1, h.1, h.2.2.symm⟩

theorem gridCell_component {x y : Component} : gridCell tol (component x) = gridCell tol (component y) ↔
    match x, y with
    | none, none => True
    | some p, some q => snap tol (.fin p) = snap tol (.fin q)
    | _, _ => False := by
  cases x <;> cases y <;> simp [gridCell, component]

theorem SameGrid.close {c d : Cell} (h0 : 0 < tol) (hle : tol ≤ tol') (h : SameGrid tol c d) :
    floatClose floatOfStr tol' c d = true := by
  obtain ⟨⟨x, rfl⟩, ⟨y, rfl⟩, h⟩ := h
  refine floatClose_mono h0.le hle ((floatClose_component h0.le).2 ?_)
  rw [gridCell_component] at h
  cases x with
  | none => cases y with
    | none => trivial
    | some q => exact h.elim
  | some p => cases y with
    | none => exact h.elim
    | some q => exact closeTo_of_snap h0 h

theorem sameGrid_between (h0 : 0 < tol) {cells : List Cell} (h : ∀ c ∈ cells, IsComponent c) :
    Between (SameGrid tol) cellRank cells := by
  rintro c - m hm d - hcm hmd ⟨⟨x, rfl⟩, ⟨z, rfl⟩, heq⟩
  obtain ⟨y, rfl⟩ := h m hm
  rw [component_rank] at hcm hmd
  rw [gridCell_component] at heq
  have hboth : gridCell tol (component x) = gridCell tol (component y) ∧
      gridCell tol (component y) = gridCell tol (component z) := by
    rw [gridCell_component, gridCell_component]
    cases x with
    | none => cases y with
      | none => exact ⟨trivial, heq⟩
      | some m => exact hcm.elim
    | some p => cases z with
      | none => exact heq.elim
      | some q => cases y with
        | none => exact hmd.elim
        | some m => exact snap_between h0 hcm hmd heq
  exact ⟨⟨⟨x, rfl⟩, ⟨y, rfl⟩, hboth.1⟩, ⟨y, rfl⟩, ⟨z, rfl⟩, hboth.2⟩

theorem gridCell_getD (h : gridKey tol r = gridKey tol s) (i : Nat) :
    gridCell tol (r.getD i .null) = gridCell tol (s.getD i .null) := by
  have hmap : ∀ t : Row, (gridKey tol t).getD i (gridCell tol .null) = gridCell tol (t.getD i .null) := by
    intro t
    rw [gridKey, getD_eq_getElem?_getD, getD_eq_getElem?_getD, getElem?_map, Option.getD_map]
  rw [← hmap, ← hmap, h]

theorem isFloat_of_gridCell {c d : Cell} (h : gridCell tol c = gridCell tol d) : c.isFloat = d.isFloat := by
  cases c <;> cases d <;> simp_all [gridCell, Cell.isFloat]

theorem canon_of_gridCell {c d : Cell} (h : gridCell tol c = gridCell tol d) (hc : c.isFloat = false) :
    canon c = canon d := by
  have hd : d.isFloat = false := isFloat_of_gridCell h ▸ hc
  cases c <;> cases d <;> simp_all [gridCell, Cell.isFloat]

/-- Rows of one bucket are in one group. -/
theorem exactKey_of_gridKey (h : gridKey tol r = gridKey tol s) (hr : r ∈ rows) :
    exactKey w rows r = exactKey w rows s :=
  exactKey_eq_iff.2 fun i hi => canon_of_gridCell (gridCell_getD h i) (exact_getD hi hr)

theorem pairs_of_buckets (h : buckets tol a = buckets tol b) :
    Pairs (fun r s => gridKey tol r = gridKey tol s) a b := by
  have hperm : a.map (gridKey tol) ~ b.map (gridKey tol) := Quotient.exact h
  exact pairs_map.1 ⟨a.map (gridKey tol), hperm, forall₂_refl _⟩

/-- Where the buckets agree, a column that has a float on one side has one on the other. -/
theorem component_of_buckets (hA : Typed w a) (hB : Typed w b) (hfin : ∀ r ∈ a ++ b, ∀ c ∈ r, c.Finite)
    (h : buckets tol a = buckets tol b) (hi : i ∈ floatColumns w (a ++ b)) (hr : r ∈ a ++ b) :
    IsComponent (r.getD i .null) := by
  obtain ⟨hw, s, hs, hfloat⟩ := mem_floatColumns.1 hi
  have hother : ∀ {x y : List Row} {t : Row}, buckets tol x = buckets tol y → t ∈ x → (t.getD i .null).isFloat = true →
      ∃ u ∈ y, (u.getD i .null).isFloat = true := by
    intro x y t hxy ht htf
    have hmem : gridKey tol t ∈ buckets tol y := hxy ▸ Multiset.mem_coe.2 (mem_map_of_mem ht)
    obtain ⟨u, hu, hut⟩ := mem_map.1 (Multiset.mem_coe.1 hmem)
    exact ⟨u, hu, isFloat_of_gridCell (gridCell_getD hut i) ▸ htf⟩
  have hfloats : (∃ t ∈ a, (t.getD i .null).isFloat = true) ∧ ∃ t ∈ b, (t.getD i .null).isFloat = true := by
    rcases mem_append.1 hs with hs | hs
    · exact ⟨⟨s, hs, hfloat⟩, hother h hs hfloat⟩
    · exact ⟨hother h.symm hs hfloat, ⟨s, hs, hfloat⟩⟩
  have hcell : r.getD i .null = .null ∨ (r.getD i .null).isFloat = true := by
    rcases mem_append.1 hr with hr | hr
    · exact hA i hw hfloats.1 r hr
    · exact hB i hw hfloats.2 r hr
  rcases hcell with hnull | hcell
  · rw [hnull]
    exact ⟨none, rfl⟩
  · have hmem : r.getD i .null ∈ r := by
      rw [getD_eq_getElem?_getD] at hcell ⊢
      cases hget : r[i]? with
      | none =>
        rw [hget] at hcell
        cases hcell
      | some c => exact mem_of_getElem? hget
    exact isComponent_of_finite (hfin r hr _ hmem) (.inr hcell)

/-- **Finite rows whose buckets agree are equal to the verdict**, where it finds every pairing. -/
theorem multisetEqual_of_buckets (h0 : 0 < tol) (hle : tol ≤ tol') (hwidth : ∀ r ∈ a, r.length = w) (hA : Typed w a)
    (hB : Typed w b) (hfin : ∀ r ∈ a ++ b, ∀ c ∈ r, c.Finite) (hm : Matched w a b)
    (h : buckets tol a = buckets tol b) : multisetEqual floatOfStr tol' a b = true := by
  rw [multisetEqual_iff hwidth]
  intro c
  let key := exactKey w (a ++ b)
  have hgrid : Pairs (fun r s => gridKey tol r = gridKey tol s) a b := pairs_of_buckets h
  have hclass : Pairs (fun r s => gridKey tol r = gridKey tol s) (cls key c a) (cls key c b) := by
    have hab := hgrid.embeds.on_class key key (fun r hr s _ hrs => exactKey_of_gridKey hrs (mem_append_left _ hr)) c
    have hba := hgrid.symm.embeds.on_class key key
      (fun s _ r hr hrs => (exactKey_of_gridKey hrs (mem_append_left _ hr)).symm) c
    exact pairs_iff.2 ⟨hab, Nat.le_antisymm hab.length_le hba.length_le⟩
  have hcell : ∀ i ∈ floatColumns w (a ++ b), ∀ r ∈ a ++ b, IsComponent (r.getD i .null) := fun i hi r hr =>
    component_of_buckets hA hB hfin h hi hr
  have hin : ∀ {r}, r ∈ cls key c a ++ cls key c b → r ∈ a ++ b := by
    intro r hr
    rcases mem_append.1 hr with hr | hr
    · exact mem_append_left _ (mem_cls.1 hr).1
    · exact mem_append_right _ (mem_cls.1 hr).1
  have hsame : ∀ i ∈ floatColumns w (a ++ b), ∀ x ∈ cls key c a, ∀ y ∈ cls key c b, gridKey tol x = gridKey tol y →
      SameGrid tol (x.getD i .null) (y.getD i .null) := fun i hi x hx y hy hxy =>
    ⟨hcell i hi x (hin (mem_append_left _ hx)), hcell i hi y (hin (mem_append_right _ hy)), gridCell_getD hxy i⟩
  let m := rowMethod floatOfStr tol' w (a ++ b)
  have hclose : ∀ x ∈ cls key c a, ∀ y ∈ cls key c b, gridKey tol x = gridKey tol y → m.close x y :=
    fun x hx y hy hxy => vecClose_floatVec.2 fun i hi => (hsame i hi x hx y hy hxy).close h0 hle
  by_cases hone : (floatColumns w (a ++ b)).length ≤ 1
  · rcases hcols : floatColumns w (a ++ b) with _ | ⟨i, rest⟩
    · exact acceptsClass_of_exact hcols hclass.length_eq
    · rw [hcols, length_cons] at hone
      obtain rfl : rest = [] := length_eq_zero_iff.1 (by omega)
      have hi : i ∈ floatColumns w (a ++ b) := hcols ▸ mem_singleton_self i
      -- between two rows of one bucket there are only rows of that bucket
      have hbetween := between_column hcols (a := cls key c a ++ cls key c b) (sameGrid_between h0 fun d hd => by
        obtain ⟨r, hr, rfl⟩ := mem_map.1 hd
        exact hcell i hi r (hin hr))
      have hsorted := (pairs_iff_sorted (hbetween.uncrosses fun _ _ => SameGrid.symm)).1
        (hclass.mono fun x hx y hy => hsame i hi x hx y hy)
      have hplaces : Forall₂ m.close (sortBy m.rank (cls key c a)) (sortBy m.rank (cls key c b)) := by
        refine hsorted.imp fun x y hxy => vecClose_floatVec.2 fun j hj => ?_
        rw [hcols, mem_singleton] at hj
        exact hj ▸ hxy.close h0 hle
      exact ⟨hclass.length_eq, fun _ => hplaces, fun hnot => absurd (.inl (by simp [hcols])) hnot⟩
  · have hcap : (cls key c a).length ≤ exactMatchCap := by
      rw [hclass.length_eq]
      rcases (cls key c b).eq_nil_or_concat with hnil | ⟨_, r, hlast⟩
      · rw [hnil]
        exact Nat.zero_le _
      · have hr : r ∈ cls key c b := by simp [hlast]
        exact (mem_cls.1 hr).2 ▸ hm.resolve_left hone r (mem_cls.1 hr).1
    have hmatches : ¬ m.sorts (cls key c a).length := by
      rintro (hfew | hlarge)
      · exact hone hfew
      · omega
    exact ⟨hclass.length_eq, fun hsorts => absurd hsorts hmatches, fun _ => hclass.mono hclose⟩

/-! ### Rows that first fit keeps -/

theorem isclose_iff (h0 : 0 ≤ tol) {f g : PyFloat} : isclose tol tol f g = some true ↔
    (f = g ∧ f ≠ .nan) ∨ ∃ p q, f = .fin p ∧ g = .fin q ∧ CloseTo tol p q := by
  have hfin : ∀ p q : Rat, isclose tol tol (.fin p) (.fin q) = some true ↔ CloseTo tol p q := by
    intro p q
    have hcell : floatClose (fun _ => none) tol (component (some p)) (component (some q)) = true ↔
        CloseComponent tol (some p) (some q) := floatClose_component h0
    obtain ⟨v, hv⟩ := Option.isSome_iff_exists.1 (isclose_isSome h0 (.fin p) (.fin q))
    simp only [floatClose, component, toFloat, Cell.num?, hv, Option.getD_some, reduceCtorEq, or_self,
      if_false] at hcell
    rw [hv, Option.some.injEq, hcell]
    rfl
  have hself : ∀ q : Rat, CloseTo tol q q := fun q => by
    rw [closeTo_iff h0]
    exact .inr (.inr (by simpa using h0))
  cases f with
  | fin p => cases g with
    | fin q =>
      rw [hfin]
      simp only [PyFloat.fin.injEq, reduceCtorEq, ne_eq, not_false_iff, and_true]
      constructor
      · exact fun h => .inr ⟨p, q, rfl, rfl, h⟩
      · rintro (rfl | ⟨_, _, rfl, rfl, h⟩)
        · exact hself p
        · exact h
    | _ => simp [isclose, not_lt.2 h0, PyFloat.eq]
  | _ => cases g <;> simp [isclose, not_lt.2 h0, PyFloat.eq]

theorem isclose_between (h0 : 0 ≤ tol) (h1 : tol < 1) {f m g : PyFloat} (hm : m ≠ .nan) (hfm : f.rank ≤ m.rank)
    (hmg : m.rank ≤ g.rank) (h : isclose tol tol f g = some true) :
    isclose tol tol f m = some true ∧ isclose tol tol m g = some true := by
  simp only [isclose_iff h0] at h ⊢
  rcases h with ⟨rfl, hf⟩ | ⟨p, q, rfl, rfl, h⟩
  · obtain rfl : f = m := (PyFloat.rank_inj hf hm).2 (le_antisymm hfm hmg)
    exact ⟨.inl ⟨rfl, hf⟩, .inl ⟨rfl, hf⟩⟩
  · cases m with
    | nan => exact absurd rfl hm
    | inf s =>
      have htop : ((q : WithTop ℚ) : WithBot (WithTop ℚ)) < ⊤ := WithBot.coe_lt_coe.2 (WithTop.coe_lt_top q)
      cases s with
      | true => exact absurd hfm (not_le.2 (WithBot.bot_lt_coe _))
      | false => exact absurd hmg (not_le.2 htop)
    | fin m =>
      simp only [PyFloat.rank, WithBot.coe_le_coe, WithTop.coe_le_coe] at hfm hmg
      obtain ⟨hleft, hright⟩ := h.between h0 h1 hfm hmg
      exact ⟨.inr ⟨p, m, rfl, rfl, hleft⟩, .inr ⟨m, q, rfl, rfl, hright⟩⟩

/-- A cell that sorts by its value is missing, NaN, or a number. -/
theorem Cell.Sorts.cases (floatOfStr : String → Option PyFloat) {c : Cell} (h : c.Sorts) :
    c = .float .nan ∨ c = .null ∨ ∃ f, c ≠ .null ∧ f ≠ .nan ∧ c.num? = some f ∧ toFloat floatOfStr c = some f ∧
      cellRank c = toLex (false, toLex (false, f.rank)) := by
  by_cases hnan : c = .float .nan
  · exact .inl hnan
  · have hplain : c.Plain := by
      cases c with
      | float f => exact fun hf => hnan (hf ▸ rfl)
      | decimal => exact h.elim
      | str => exact h.elim
      | date => exact h.elim
      | _ => trivial
    exact .inr (hplain.cases floatOfStr)

theorem floatClose_numbers (h0 : 0 ≤ tol) {c d : Cell} {f g : PyFloat} (hc : c ≠ .null) (hd : d ≠ .null)
    (hf : toFloat floatOfStr c = some f) (hg : toFloat floatOfStr d = some g) :
    floatClose floatOfStr tol c d = true ↔ isclose tol tol f g = some true := by
  obtain ⟨v, hv⟩ := Option.isSome_iff_exists.1 (isclose_isSome h0 f g)
  simp [floatClose, hc, hd, hf, hg, hv]

theorem floatClose_null {c : Cell} : (floatClose floatOfStr tol .null c = true ↔ c = .null) ∧
    (floatClose floatOfStr tol c .null = true ↔ c = .null) := by
  simp [floatClose]

theorem floatClose_nan (h0 : 0 ≤ tol) {c : Cell} (hc : c.Sorts) : floatClose floatOfStr tol (.float .nan) c = false ∧
    floatClose floatOfStr tol c (.float .nan) = false := by
  have hleft : floatClose floatOfStr tol (.float .nan) c = false := by
    rw [← Bool.not_eq_true]
    intro h
    rcases hc.cases floatOfStr with rfl | rfl | ⟨f, hne, hf, hnum, hfloat, -⟩
    · have hself := (floatClose_numbers h0 (by simp) (by simp) rfl rfl).1 h
      simp [isclose_iff h0] at hself
    · exact absurd (floatClose_null.2.1 h) (by simp)
    · have hclose := (floatClose_numbers h0 (by simp) hne rfl hfloat).1 h
      simp [isclose_iff h0] at hclose
  exact ⟨hleft, floatClose_comm c _ ▸ hleft⟩

theorem floatClose_between (h0 : 0 ≤ tol) (h1 : tol < 1) {cells : List Cell} (h : ∀ c ∈ cells, c.Sorts) :
    Between (fun c d => floatClose floatOfStr tol c d = true) cellRank cells := by
  intro c hc m hm d hd hcm hmd hcd
  rcases (h c hc).cases floatOfStr with rfl | rfl | ⟨f, hc0, -, -, hf, hcr⟩
  · rw [(floatClose_nan h0 (h d hd)).1] at hcd
    cases hcd
  · obtain rfl := floatClose_null.1.1 hcd
    rcases (h m hm).cases floatOfStr with rfl | rfl | ⟨e, -, -, -, -, hmr⟩
    · simp [cellRank, cellSortKey, Prod.Lex.toLex_le_toLex] at hcm
      exact absurd hcm (by decide)
    · exact ⟨hcd, hcd⟩
    · rw [hmr] at hcm
      simp [cellRank, cellSortKey, Prod.Lex.toLex_le_toLex] at hcm
      exact absurd hcm (by decide)
  · rcases (h d hd).cases floatOfStr with rfl | rfl | ⟨g, hd0, -, -, hg, hdr⟩
    · rw [(floatClose_nan h0 (h c hc)).2] at hcd
      cases hcd
    · exact absurd (floatClose_null.2.1 hcd) hc0
    · rw [hdr] at hmd
      rcases (h m hm).cases floatOfStr with rfl | rfl | ⟨e, hm0, he, -, hef, hmr⟩
      · simp [cellRank, cellSortKey, Prod.Lex.toLex_le_toLex] at hmd
        exact absurd hmd (by decide)
      · simp [cellRank, cellSortKey, Prod.Lex.toLex_le_toLex] at hmd
        exact absurd hmd (by decide)
      · rw [hcr, hmr] at hcm
        rw [hmr] at hmd
        have hlo : f.rank ≤ e.rank := by simpa [Prod.Lex.toLex_le_toLex] using hcm
        have hhi : e.rank ≤ g.rank := by simpa [Prod.Lex.toLex_le_toLex] using hmd
        rw [floatClose_numbers h0 hc0 hd0 hf hg] at hcd
        change floatClose floatOfStr tol c m = true ∧ floatClose floatOfStr tol m d = true
        rw [floatClose_numbers h0 hc0 hm0 hf hef, floatClose_numbers h0 hm0 hd0 hef hg]
        exact isclose_between h0 h1 he hlo hhi hcd

/-- In a column with floats on one side, equal cells are close. -/
theorem floatClose_of_cellEqual {c d : Cell}
    (hcd : (c = .null ∨ c.isFloat = true) ∨ (d = .null ∨ d.isFloat = true))
    (h : cellEqual floatOfStr tol c d = true) : floatClose floatOfStr tol c d = true := by
  unfold cellEqual at h
  unfold floatClose
  split at h
  · rename_i hnull
    rw [if_pos hnull]
    exact h
  · rename_i hnull
    rw [if_neg hnull]
    have hfloat : (c.isFloat || d.isFloat) = true := by
      rw [Bool.or_eq_true]
      tauto
    rw [if_pos hfloat] at h
    exact h

/-- Rows that are equal cell by cell are in one group, and close there. -/
theorem near_of_rowEqual (hA : Typed w a) (hB : Typed w b) (hr : r ∈ a) (hs : s ∈ b)
    (h : rowEqual floatOfStr tol r s = true) : Near floatOfStr tol w (a ++ b) r s := by
  have hcells := (rowEqual_iff_getD.1 h).2
  refine ⟨exactKey_eq_iff.2 fun i hi => ?_, vecClose_floatVec.2 fun i hi => ?_⟩
  · have hr' := exact_getD hi (mem_append_left b hr)
    have hs' := exact_getD hi (mem_append_right a hs)
    have heq := hcells i
    rw [cellEqual_exact hr' hs'] at heq
    exact (pyEq_iff hr' hs').1 heq
  · obtain ⟨hw, t, ht, hfloat⟩ := mem_floatColumns.1 hi
    refine floatClose_of_cellEqual ?_ (hcells i)
    rcases mem_append.1 ht with ht | ht
    · exact .inl (hA i hw ⟨t, ht, hfloat⟩ r hr)
    · exact .inr (hB i hw ⟨t, ht, hfloat⟩ s hs)

/-- **Rows that first fit all keeps are contained, to the verdict**, where it finds every pairing. -/
theorem multisetContained_of_near (h0 : 0 ≤ tol) (hle : tol ≤ tol') (hwidth : ∀ r ∈ a, r.length = w)
    (hm : Matched w a b) (hsorts : (floatColumns w (a ++ b)).length ≤ 1 →
      tol < 1 ∧ ∀ r ∈ a ++ b, ∀ c ∈ floatVec w (a ++ b) r, c.Sorts)
    (h : Embeds (Near floatOfStr tol w (a ++ b)) a b) : multisetContained floatOfStr tol' a b = true := by
  cases ha : a with
  | nil => rfl
  | cons r₀ a' =>
    obtain rfl := hwidth r₀ (by simp [ha])
    rw [← ha]
    refine (multisetContained_cons ha).2 fun r hr => ?_
    dsimp only
    rw [group_eq (mem_append_left b hr) fun s hs => mem_append_left b hs,
      group_eq (mem_append_left b hr) fun s hs => mem_append_right a hs, length_map, length_map]
    let key := exactKey r₀.length (a ++ b)
    let A := cls key (key r) a
    let B := cls key (key r) b
    have hclass : Embeds (rowMethod floatOfStr tol r₀.length (a ++ b)).close A B :=
      (h.on_class key key (fun x _ y _ hxy => hxy.1) (key r)).mono fun x _ y _ hxy => hxy.2
    have hmem : r ∈ A := mem_cls.2 ⟨hr, rfl⟩
    have hpos : 0 < B.length := (length_pos_of_mem hmem).trans_le hclass.length_le
    constructor
    · rintro (hnil | hlt)
      · have hB : B = [] := map_eq_nil_iff.1 hnil
        rw [hB] at hpos
        exact lt_irrefl 0 hpos
      · exact absurd hclass.length_le (Nat.not_le.2 hlt)
    · rw [matchFloatVecsSubset_cons hmem, if_neg (Nat.not_lt.2 hclass.length_le)]
      by_cases hone : (floatColumns r₀.length (a ++ b)).length ≤ 1
      · rcases hcols : floatColumns r₀.length (a ++ b) with _ | ⟨i, rest⟩
        · exact .inl rfl
        · right
          obtain ⟨h1, hcells⟩ := hsorts hone
          rw [hcols, length_cons] at hone
          obtain rfl : rest = [] := length_eq_zero_iff.1 (by omega)
          rw [if_pos (.inl (by simp)), ← map_sortVecs, ← map_sortVecs]
          let R (x y : Row) : Prop := floatClose floatOfStr tol (x.getD i .null) (y.getD i .null) = true
          have hR : ∀ x y, (rowMethod floatOfStr tol r₀.length (a ++ b)).close x y → R x y := fun x y hxy =>
            vecClose_floatVec.1 hxy i (hcols ▸ mem_singleton_self i)
          have hbetween : Between (fun c d => floatClose floatOfStr tol c d = true) cellRank
              ((A ++ B).map fun x => x.getD i .null) := by
            refine floatClose_between h0 h1 fun c hc => ?_
            obtain ⟨x, hx, rfl⟩ := mem_map.1 hc
            have hmem : x ∈ a ++ b := by
              rcases mem_append.1 hx with hx | hx
              · exact mem_append_left _ (mem_cls.1 hx).1
              · exact mem_append_right _ (mem_cls.1 hx).1
            exact hcells x hmem _ (by simp [floatVec, hcols, pick])
          have hun := (between_column hcols hbetween).uncrosses fun x y hxy => (floatClose_comm _ _).trans hxy
          refine takeClose_of_embeds (sortBy_pairwise _ A) (sortBy_pairwise _ B)
            (hun.mono (sortBy_perm _ A).subset (sortBy_perm _ B).subset) (fun x _ y _ hxy => ?_)
            ((embeds_perm (sortBy_perm _ A) (sortBy_perm _ B)).2 (hclass.mono fun x _ y _ => hR x y))
          refine vecClose_floatVec.2 fun j hj => ?_
          rw [hcols, mem_singleton] at hj
          exact hj ▸ floatClose_mono h0 hle hxy
      · right
        have hcap : B.length ≤ exactMatchCap := by
          obtain ⟨s, hs⟩ := exists_mem_of_length_pos hpos
          have hkey : key s = key r := (mem_cls.1 hs).2
          have hsmall : (cls key (key s) b).length ≤ exactMatchCap := hm.resolve_left hone s (mem_cls.1 hs).1
          rwa [hkey] at hsmall
        rw [if_neg (not_or.2 ⟨hone, Nat.not_lt.2 hcap⟩)]
        exact (matching_iff _ _ rfl rfl).2 (hclass.mono fun x _ y _ hxy => vecClose_mono h0 hle hxy)

end

/-! ## What the explanation holds -/

section
variable (floatOfStr : String → Option PyFloat) (tol : Rat) (ordered : Bool) (orderKeys : Option (List Nat))
  (limit : Nat) (rowLimit : Option Nat) (candidates : Option (List Row)) (a b : ArrowTable)

/-- The columns that an ordered comparison compares by position. -/
def ByPosition (cols : List Nat) : Prop :=
  ordered = true ∧ (orderKeys = some cols ∧ cols ≠ [] ∨ (orderKeys = none ∨ orderKeys = some []) ∧ cols = range a.width)

/-- The order keys agree in every row. -/
def KeysAgree : Prop :=
  ordered = true ∧ ∃ keys, orderKeys = some keys ∧ keys ≠ [] ∧ places floatOfStr tol keys a.rows b.rows = []

/-- A LIMIT cut the reference off, and `pool` is the ranking it was cut from. -/
def CutFrom (pool : List Row) : Prop := candidates = some pool ∧ rowLimit = some b.rows.length

def strayDiff (r : Row) : Diff := ⟨-1, "<row not in the ranking>", .row r, .none⟩

/-- What is reported of two tables that the verdict refuses. -/
inductive Explained : Except String (List Diff × Nat) → Prop
  | columns (h : a.columnNames ≠ b.columnNames) :
    Explained (.ok ([⟨-1, "<columns>", .names a.columnNames, .names b.columnNames⟩], 1))
  | rowCount (hnames : a.columnNames = b.columnNames) (h : a.rows.length ≠ b.rows.length) :
    Explained (.ok ([⟨-1, "<row count>", .count a.rows.length, .count b.rows.length⟩], 1))
  /-- Some cell differs, and each that does is an item. -/
  | cells (cols : List Nat) (hcols : ByPosition ordered orderKeys a cols)
    (h : places floatOfStr tol cols a.rows b.rows ≠ []) :
    Explained (.ok (((places floatOfStr tol cols a.rows b.rows).map (cellDiff a.columnNames a.rows b.rows)).take limit,
      (places floatOfStr tol cols a.rows b.rows).length))
  /-- The rows that are not items have each a close row of the pool of their own, and no item is close to what is left
  of the pool. -/
  | strays (pool left kept used rest : List Row) (hkeys : KeysAgree floatOfStr tol ordered orderKeys a b)
    (hcut : CutFrom rowLimit candidates b pool) (hleft : left <+ a.rows) (hrows : kept ++ left ~ a.rows)
    (hpool : used ++ rest ~ pool) (hkept : Forall₂ (fun r c => rowEqual floatOfStr tol r c = true) kept used)
    (hrest : ∀ r ∈ left, ∀ c ∈ rest, rowEqual floatOfStr tol r c = false)
    (hne : Matched a.width a.rows pool → ((floatColumns a.width (a.rows ++ pool)).length ≤ 1 →
      tol < 1 ∧ ∀ r ∈ a.rows ++ pool, ∀ c ∈ floatVec a.width (a.rows ++ pool) r, c.Sorts) → left ≠ []) :
    Explained (.ok ((left.map strayDiff).take limit, left.length))
  /-- Without infinities: one item for each bucket that a side has more rows of, and as a total how many more. -/
  | rows (diff : Except String (List Diff × Nat))
    (hmode : ordered = false ∨ KeysAgree floatOfStr tol ordered orderKeys a b ∧
      ∀ pool, ¬ CutFrom rowLimit candidates b pool)
    (h : (∀ r ∈ a.rows ++ b.rows, hasInf r = false) → ∃ engine duckdb,
      diff = .ok ((engine.map engineOnly ++ duckdb.map duckdbOnly).take limit, rowTotal tol a.rows b.rows) ∧
      Excess tol a.rows b.rows engine ∧ Excess tol b.rows a.rows duckdb ∧
      ((∀ r ∈ a.rows ++ b.rows, ∀ c ∈ r, c ≠ .float .nan) → Matched a.width a.rows b.rows →
        engine ++ duckdb ≠ [] ∧ 1 ≤ rowTotal tol a.rows b.rows)) :
    Explained diff

end

section
variable {floatOfStr : String → Option PyFloat} {tol tol' : Rat} {a b : ArrowTable} {cols keys : List Nat}

theorem rowEqual_pick {idx : List Nat} {r s : Row} : rowEqual floatOfStr tol (pick idx r) (pick idx s) = true ↔
    ∀ i ∈ idx, cellEqual floatOfStr tol (r.getD i .null) (s.getD i .null) = true := by
  have hlen : (pick idx r).length = (pick idx s).length := by simp [pick]
  unfold rowEqual
  rw [Bool.and_eq_true, decide_eq_true_eq, and_iff_right hlen]
  unfold pick
  rw [zip_map', all_map, all_eq_true]
  rfl

theorem cellEqual_of_places (h0 : 0 ≤ tol) (hle : tol ≤ tol') (h : places floatOfStr tol cols a.rows b.rows = [])
    {i c : Nat} (hi : i < a.rows.length) (hc : c ∈ cols) :
    cellEqual floatOfStr tol' (cellAt a.rows (i, c)) (cellAt b.rows (i, c)) = true := by
  refine cellEqual_mono h0 hle ?_
  by_contra hne
  have hmem : (i, c) ∈ places floatOfStr tol cols a.rows b.rows :=
    mem_places.2 ⟨⟨hi, hc⟩, Bool.eq_false_of_not_eq_true hne⟩
  rw [h] at hmem
  exact not_mem_nil hmem

theorem zip_all_of_getD {p : Row × Row → Bool} (hlen : a.rows.length = b.rows.length)
    (h : ∀ i, i < a.rows.length → p (a.rows.getD i [], b.rows.getD i []) = true) :
    (a.rows.zip b.rows).all p = true := by
  rw [zip_all_iff hlen, forall₂_iff_get]
  refine ⟨hlen, fun i hA hB => ?_⟩
  have hi := h i hA
  simpa [getD_eq_getElem?_getD, hA, hB] using hi

theorem keys_equal (h0 : 0 ≤ tol) (hle : tol ≤ tol') (hlen : a.rows.length = b.rows.length)
    (h : places floatOfStr tol keys a.rows b.rows = []) : ((a.rows.zip b.rows).all fun (r, s) =>
      rowEqual floatOfStr tol' (pick keys r) (pick keys s)) = true :=
  zip_all_of_getD hlen fun _ hi => rowEqual_pick.2 fun _ hc => cellEqual_of_places h0 hle h hi hc

theorem rows_equal (h0 : 0 ≤ tol) (hle : tol ≤ tol') (hwidth : a.width = b.width)
    (hlen : a.rows.length = b.rows.length) (h : places floatOfStr tol (range a.width) a.rows b.rows = []) :
    ((a.rows.zip b.rows).all fun (r, s) => rowEqual floatOfStr tol' r s) = true := by
  refine zip_all_of_getD hlen fun i hi => rowEqual_iff_getD.2 ⟨?_, fun c => ?_⟩
  · have hA : a.rows.getD i [] ∈ a.rows := by simp [getD_eq_getElem?_getD, hi]
    have hB : b.rows.getD i [] ∈ b.rows := by simp [getD_eq_getElem?_getD, hlen ▸ hi]
    exact (a.rect _ hA).trans (hwidth.trans (b.rect _ hB).symm)
  · by_cases hc : c < a.width
    · exact cellEqual_of_places h0 hle h hi (mem_range.2 hc)
    · have hA : a.rows.getD i [] ∈ a.rows := by simp [getD_eq_getElem?_getD, hi]
      have hB : b.rows.getD i [] ∈ b.rows := by simp [getD_eq_getElem?_getD, hlen ▸ hi]
      have hcA : ¬ c < (a.rows.getD i []).length := (a.rect _ hA).symm ▸ hc
      have hcB : ¬ c < (b.rows.getD i []).length := by
        rw [b.rect _ hB]
        exact fun hlt => hc (hlt.trans_eq hwidth.symm)
      have hnull : ∀ r : Row, ¬ c < r.length → r.getD c .null = .null := fun r hr => by
        simp [getD_eq_getElem?_getD, hr]
      rw [hnull _ hcA, hnull _ hcB]
      rfl

/-- Nothing to report means that the buckets agree. -/
theorem buckets_eq_of_rowTotal {rowsB rowsR : List Row} (h : rowTotal tol rowsB rowsR = 0) :
    buckets tol rowsB = buckets tol rowsR := by
  unfold rowTotal at h
  have hB : buckets tol rowsB - buckets tol rowsR = 0 := Multiset.card_eq_zero.1 (by omega)
  have hR : buckets tol rowsR - buckets tol rowsB = 0 := Multiset.card_eq_zero.1 (by omega)
  exact le_antisymm (tsub_eq_zero_iff_le.1 hB) (tsub_eq_zero_iff_le.1 hR)

theorem buckets_eq_of_excess {rowsB rowsR : List Row} (hB : Excess tol rowsB rowsR [])
    (hR : Excess tol rowsR rowsB []) : buckets tol rowsB = buckets tol rowsR := by
  ext k
  have hlt := fun h => (hB.complete k).2 h
  have hgt := fun h => (hR.complete k).2 h
  simp only [map_nil, not_mem_nil, imp_false, not_lt] at hlt hgt
  omega

variable {ordered : Bool} {orderKeys : Option (List Nat)} {limit : Nat} {rowLimit : Option Nat}
  {candidates : Option (List Row)} {pool : List Row}

theorem unordered_explained (h0 : 0 < tol) (hle : tol ≤ tol') (hA : Typed a.width a.rows) (hB : Typed a.width b.rows)
    (hmode : ordered = false ∨ KeysAgree floatOfStr tol ordered orderKeys a b ∧
      ∀ pool, ¬ CutFrom rowLimit candidates b pool)
    (hne : multisetEqual floatOfStr tol' a.rows b.rows = false) :
    Explained floatOfStr tol ordered orderKeys limit rowLimit candidates a b
      (unorderedDiff tol limit a.rows b.rows) := by
  refine .rows _ hmode fun hinf => ?_
  obtain ⟨engine, duckdb, heq, hengine, hduckdb⟩ := unorderedDiff_eq tol limit hinf
  refine ⟨engine, duckdb, heq, hengine, hduckdb, fun hnan hmatched => ?_⟩
  have hdiffer : buckets tol a.rows ≠ buckets tol b.rows := by
    intro hsame
    have hfin : ∀ r ∈ a.rows ++ b.rows, ∀ c ∈ r, c.Finite := by
      intro r hr c hc
      have hno : ¬ (c = .float (.inf true) ∨ c = .float (.inf false)) := by
        simpa using any_eq_false.1 (hinf r hr) c hc
      exact ⟨hnan r hr c hc, fun h => hno (.inl h), fun h => hno (.inr h)⟩
    rw [multisetEqual_of_buckets h0 hle a.rect hA hB hfin hmatched hsame] at hne
    cases hne
  constructor
  · intro hnone
    obtain ⟨rfl, rfl⟩ := append_eq_nil_iff.1 hnone
    exact hdiffer (buckets_eq_of_excess hengine hduckdb)
  · exact Nat.pos_of_ne_zero fun hzero => hdiffer (buckets_eq_of_rowTotal hzero)

theorem cut_explained (h0 : 0 < tol) (hle : tol ≤ tol') (hA : Typed a.width a.rows) (hpool : Typed a.width pool)
    (hkeys : KeysAgree floatOfStr tol ordered orderKeys a b) (hcut : CutFrom rowLimit candidates b pool)
    (hne : multisetContained floatOfStr tol' a.rows pool = false) :
    Explained floatOfStr tol ordered orderKeys limit rowLimit candidates a b
      (.ok (((strays floatOfStr tol a.rows pool).map strayDiff).take limit,
        (strays floatOfStr tol a.rows pool).length)) := by
  obtain ⟨kept, used, rest, hrows, hused, hkept, hrest⟩ := FirstFit.leftover_spec (rowEqual floatOfStr tol) a.rows pool
  refine .strays pool _ kept used rest hkeys hcut FirstFit.leftover_sublist hrows hused hkept hrest ?_
  intro hm hsorts hnone
  have hnear : Embeds (Near floatOfStr tol a.width (a.rows ++ pool)) a.rows pool :=
    (FirstFit.embeds_of_leftover hnone).mono fun r hr s hs => near_of_rowEqual hA hpool hr hs
  rw [multisetContained_of_near h0.le hle a.rect hm hsorts hnear] at hne
  cases hne

end

def closeColumn : ArrowTable := ArrowTable.column [.float (.fin (4 / 100)), .float (.fin 5)]

def nearbyColumn : ArrowTable := ArrowTable.column [.float (.fin (6 / 100)), .float (.fin 7)]

/-- Two columns of floats. -/
def floatPairs (rows : List (Rat × Rat)) : ArrowTable where
  columnNames := ["x", "y"]
  rows := rows.map fun (p, q) => [.float (.fin p), .float (.fin q)]
  rect r hr := by
    obtain ⟨_, -, rfl⟩ := mem_map.1 hr
    rfl

/-- A key and a number. -/
def keyed (cells : List Cell) : ArrowTable where
  columnNames := ["k", "x"]
  rows := cells.map fun c => [.int 0, c]
  rect r hr := by
    obtain ⟨c, -, rfl⟩ := mem_map.1 hr
    rfl

end SynnoDB.Router
