import Mathlib
import SynnoDB.Lib.InOrder
import SynnoDB.Lib.MapM
import SynnoDB.Workload.JoinGraph

/-!
# Downscaling along the join graph (`custom_scaler/duckdb_downscale.py:592-725`)

| here | there |
| --- | --- |
| `planSubset`          | `plan_subset`; the number in the text of an error is left out |
| `Select`, `KeepTerm`  | the SELECTs it writes, and an `EXISTS` term over a keep table |
| `keepName`            | `_keep_name` before quoting |
| `DataRow`, `sqlEq`    | a row by column; `=` on columns, where NULL (`none`) equals nothing |
| `Session`, `runPlan`  | the connection: **DuckDB looks a table name up among the temp tables first**, up to case; the loop of `materialize_temp_subset` |
| `hash`                | DuckDB's `hash(…)` |
| `keptRows`            | what the plan means when each name is the table it was written for |

A keep table is named after its table, so a source table of that name is shadowed (`shadowed_source`).
-/

namespace SynnoDB.Workload.Downscale

def hashModulus : Nat := 1000

def keepPrefix : String := "_synno_keep_"

def keepName (table : String) : String := keepPrefix ++ table

/-- `EXISTS (SELECT 1 FROM keep WHERE keep.rc = own.oc AND …)`, the pairs as `(oc, rc)`. -/
structure KeepTerm where
  keep : String
  pairs : List (String × String)
deriving DecidableEq, Repr

inductive Select where
  | all (table : String)
  | hashSample (table : String) (key : List String) (keepCut : Int)
  | semiJoin (table : String) (terms : List KeepTerm)
deriving DecidableEq, Repr

inductive Mode where
  | anchor
  | whole
  | sample
deriving DecidableEq, Repr

structure SubsetTable where
  table : String
  mode : Mode
  sql : Select
deriving DecidableEq, Repr

structure SubsetResult where
  fraction : Rat
  anchors : List String
  tables : List SubsetTable

/-- `round(fraction * _HASH_MODULUS)`, half to even. -/
def keepCut (fraction : Rat) : Int :=
  let q := fraction * hashModulus
  let rest := q - q.floor
  if rest < 1 / 2 then q.floor
  else if 1 / 2 < rest then q.floor + 1
  else if q.floor % 2 = 0 then q.floor else q.floor + 1

namespace ReferentialDownscaler

variable (d : ReferentialDownscaler)

def whole (t : String) : Prop :=
  t ∈ d.schema.tables ∧ t ∉ d.islandAnchors ∧ d.schema.rowCounts t ≤ d.wholeTableThreshold

instance (t : String) : Decidable (d.whole t) := inferInstanceAs (Decidable (_ ∧ _ ∧ _))

/-- `(depth.get(t, 1 << 30), t)`. -/
def orderKey (t : String) : Nat ×ₗ String := toLex (Dict.getD (d.bfsDepth d.islandAnchors) t (1 <<< 30), t)

def ordered : List String :=
  (d.schema.tables.filter fun t => t ∉ d.islandAnchors).insertionSort fun s t => d.orderKey s ≤ d.orderKey t

/-- `[*sorted(anchors), *ordered]`. -/
def order : List String := sortNames d.islandAnchors ++ d.ordered

def orderIndex (t : String) : Nat := if t ∈ d.order then d.order.idxOf t else 1 <<< 30

/-- `terms`, while `semi_join_predicate` goes through the relationships. -/
def joinTerms (table : String) : List KeepTerm :=
  d.relationships.filterMap fun rel =>
    match rel.other table with
    | none => none
    | some (other, pairs) =>
      if d.whole other ∨ d.orderIndex other ≥ d.orderIndex table then none else some ⟨other, pairs⟩

def semiJoinPredicate (table : String) : Option (List KeepTerm) :=
  if d.joinTerms table = [] then none else some (d.joinTerms table).dedup

def planEntry (t : String) : SubsetTable :=
  match if d.whole t then none else d.semiJoinPredicate t with
  | none => ⟨t, .whole, .all t⟩
  | some terms => ⟨t, .sample, .semiJoin t terms⟩

def anchorEntry (cut : Int) (anchor : String) : SubsetTable :=
  ⟨anchor, .anchor, .hashSample anchor (d.sampleKey anchor) cut⟩

def planSubset (fraction : Rat) : Except String SubsetResult :=
  if ¬ (0 < fraction ∧ fraction ≤ 1) then .error "fraction must be in (0, 1]"
  else if fraction ≥ 1 then .ok ⟨fraction, [], d.schema.tables.map fun t => ⟨t, .whole, .all t⟩⟩
  else
    let anchors := sortNames d.islandAnchors
    let cut := keepCut fraction
    if anchors ≠ [] ∧ cut ≤ 0 then
      .error "fraction is below the sampling granularity; the anchor sample would be empty. Use a larger fraction."
    else .ok ⟨fraction, anchors, anchors.map (d.anchorEntry cut) ++ d.ordered.map d.planEntry⟩

end ReferentialDownscaler

/-- The tables whose keep tables a SELECT reads. -/
def Select.keeps : Select → List String
  | .all _ => []
  | .hashSample _ _ _ => []
  | .semiJoin _ terms => terms.map KeepTerm.keep

/-! ## Executing a plan -/

abbrev DataRow (V : Type) := String → Option V

section
variable {V : Type} [DecidableEq V] (hash : List (Option V) → Nat)

def sqlEq : Option V → Option V → Bool
  | some x, some y => x = y
  | _, _ => false

/-- The `WHERE` of an `EXISTS` term. -/
def KeepTerm.holds (term : KeepTerm) (own kept : DataRow V) : Bool :=
  term.pairs.all fun (oc, rc) => sqlEq (kept rc) (own oc)

def sampled (key : List String) (cut : Int) (r : DataRow V) : Bool := ((hash (key.map r) % hashModulus : Nat) : Int) < cut

structure Session (V : Type) where
  source : List (String × List (DataRow V))
  temp : List (String × List (DataRow V))

def lookupName (tables : List (String × List (DataRow V))) (name : String) : Option (List (DataRow V)) :=
  (tables.find? fun t => sameName t.1 name).map Prod.snd

def Session.read (s : Session V) (name : String) : Option (List (DataRow V)) :=
  (lookupName s.temp name).or (lookupName s.source name)

def Session.select (s : Session V) : Select → Option (List (DataRow V))
  | .all t => s.read t
  | .hashSample t key cut => (s.read t).map fun rows => rows.filter (sampled hash key cut)
  | .semiJoin t terms => do
    let rows ← s.read t
    let keeps ← terms.mapM fun term => (s.read (keepName term.keep)).map fun kept => (term, kept)
    some (rows.filter fun own => keeps.any fun (term, kept) => kept.any (term.holds own))

/-- `CREATE TEMP TABLE keep AS …`; the name must be new. -/
def Session.create (s : Session V) (tt : SubsetTable) : Option (Session V) := do
  let rows ← s.select hash tt.sql
  if (lookupName s.temp (keepName tt.table)).isSome then none
  else some { s with temp := s.temp ++ [(keepName tt.table, rows)] }

def runPlan : Session V → List SubsetTable → Option (Session V)
  | s, [] => some s
  | s, tt :: plan => do
    let s ← s.create hash tt
    runPlan s plan

/-! ## What a plan means -/

variable (rows : String → List (DataRow V))

def Select.eval (kept : String → List (DataRow V)) : Select → List (DataRow V)
  | .all t => rows t
  | .hashSample t key cut => (rows t).filter (sampled hash key cut)
  | .semiJoin t terms => (rows t).filter fun own => terms.any fun term => (kept term.keep).any (term.holds own)

def keptRows (plan : List SubsetTable) : String → List (DataRow V) :=
  InOrder.assignAll SubsetTable.table (fun tt kept => tt.sql.eval hash rows kept) plan fun _ => []

end

/-! ## Names -/

section
variable {s t : String}

theorem toLower_append (s t : String) : (s ++ t).toLower = s.toLower ++ t.toLower := by
  unfold String.toLower
  apply String.ext
  simp

theorem toLower_length (s : String) : s.toLower.length = s.length := by simp [String.toLower]

theorem keepName_same : sameName (keepName s) (keepName t) ↔ sameName s t := by
  unfold sameName keepName
  rw [toLower_append, toLower_append]
  constructor
  · intro h
    have hchars := congrArg String.toList h
    apply String.ext
    simpa using hchars
  · intro h
    rw [h]

/-- No keep table has the name of its own table. -/
theorem keepName_ne : ¬ sameName t (keepName t) := by
  intro h
  have hlen := congrArg String.length h
  rw [toLower_length, toLower_length, keepName, String.length_append] at hlen
  have hprefix : keepPrefix.length = 12 := by decide
  omega

theorem eq_of_sameName {schema : SchemaInfo} (hs : s ∈ schema.tables) (ht : t ∈ schema.tables) (h : sameName s t) :
    s = t := by
  by_contra hne
  have hsymm : Std.Symm fun s t : String => ¬ sameName s t := ⟨fun s t hst hts => hst hts.symm⟩
  exact schema.names.forall hs ht hne h

end

/-! ## The processing order -/

namespace ReferentialDownscaler

variable {d : ReferentialDownscaler} {t u : String} {term : KeepTerm} {cut : Int}

theorem islandAnchors_nodup : d.islandAnchors.Nodup := List.nodup_dedup _

theorem mem_ordered : t ∈ d.ordered ↔ t ∈ d.schema.tables ∧ t ∉ d.islandAnchors := by
  simp [ordered, List.mem_insertionSort]

theorem mem_order : t ∈ d.order ↔ t ∈ d.schema.tables := by
  unfold order
  rw [List.mem_append, mem_sortNames, mem_ordered]
  constructor
  · rintro (ha | ⟨ht, -⟩)
    · exact anchor_known ha
    · exact ht
  · intro ht
    by_cases ha : t ∈ d.islandAnchors
    · exact .inl ha
    · exact .inr ⟨ht, ha⟩

theorem order_nodup : d.order.Nodup := by
  unfold order
  apply List.Nodup.append
  · exact (List.perm_insertionSort _ _).nodup_iff.2 islandAnchors_nodup
  · exact (List.perm_insertionSort _ _).nodup_iff.2 (d.schema.nodup.filter _)
  · intro t ha ho
    exact (mem_ordered.1 ho).2 (mem_sortNames.1 ha)

theorem order_perm : d.order.Perm d.schema.tables :=
  (List.perm_ext_iff_of_nodup order_nodup d.schema.nodup).2 fun _ => mem_order

theorem orderIndex_eq (ht : t ∈ d.schema.tables) : d.orderIndex t = d.order.idxOf t := if_pos (mem_order.2 ht)

/-- Every anchor comes before every other table. -/
theorem anchor_first (ht : t ∈ d.islandAnchors) (hu : u ∈ d.schema.tables) (hlate : u ∉ d.islandAnchors) :
    d.orderIndex t < d.orderIndex u := by
  have ht' : t ∈ sortNames d.islandAnchors := mem_sortNames.2 ht
  have hu' : u ∉ sortNames d.islandAnchors := fun h => hlate (mem_sortNames.1 h)
  rw [orderIndex_eq (anchor_known ht), orderIndex_eq hu]
  unfold order
  rw [List.idxOf_append_of_mem ht', List.idxOf_append_of_notMem hu']
  have hbound := List.idxOf_lt_length_of_mem ht'
  omega

/-! ## What restricts a table -/

/-- The relationship of `term` joins `t` to an earlier table that is not kept whole by the threshold. -/
def Restricts (d : ReferentialDownscaler) (t : String) (term : KeepTerm) : Prop :=
  (∃ rel ∈ d.relationships, rel.other t = some (term.keep, term.pairs)) ∧ ¬ d.whole term.keep ∧
    d.orderIndex term.keep < d.orderIndex t

theorem Restricts.known (h : d.Restricts t term) : term.keep ∈ d.schema.tables := by
  obtain ⟨⟨rel, hrel, hside⟩, -⟩ := h
  obtain ⟨-, ⟨-, hkeep, -⟩ | ⟨-, hkeep, -⟩⟩ := JoinRelationship.other_some hside
  · rw [hkeep]
    exact (d.known rel hrel).2
  · rw [hkeep]
    exact (d.known rel hrel).1

/-- Islands have one anchor, so nothing restricts an anchor. -/
theorem Restricts.not_anchor (h : d.Restricts t term) : t ∉ d.islandAnchors := by
  intro ht
  obtain ⟨⟨rel, hrel, hside⟩, -, hearlier⟩ := id h
  by_cases hkeep : term.keep ∈ d.islandAnchors
  · exact (JoinRelationship.other_some hside).1
      (anchor_unique ht hkeep (neighbours_of_relationship hrel hside))
  · have hlater := anchor_first ht h.known hkeep
    omega

/-- Not an anchor, not small, and joined to something that restricts it. -/
def Sampled (d : ReferentialDownscaler) (t : String) : Prop := ¬ d.whole t ∧ ∃ term, d.Restricts t term

theorem Sampled.not_anchor (h : d.Sampled t) : t ∉ d.islandAnchors := by
  obtain ⟨-, term, hterm⟩ := h
  exact hterm.not_anchor

theorem mem_joinTerms : term ∈ d.joinTerms t ↔ d.Restricts t term := by
  unfold joinTerms
  rw [List.mem_filterMap]
  constructor
  · rintro ⟨rel, hrel, hterm⟩
    split at hterm
    · cases hterm
    · rename_i other pairs hside
      split at hterm
      · cases hterm
      · rename_i hok
        cases hterm
        rw [not_or, not_le] at hok
        exact ⟨⟨rel, hrel, hside⟩, hok.1, hok.2⟩
  · rintro ⟨⟨rel, hrel, hside⟩, hwhole, hearlier⟩
    have hok : ¬ (d.whole term.keep ∨ d.orderIndex term.keep ≥ d.orderIndex t) := by
      rw [not_or, not_le]
      exact ⟨hwhole, hearlier⟩
    refine ⟨rel, hrel, ?_⟩
    simp only [hside, if_neg hok]

/-- A table behind the anchors is kept whole or sampled. -/
theorem planEntry_cases (t : String) :
    (d.planEntry t = ⟨t, .whole, .all t⟩ ∧ ¬ d.Sampled t) ∨
    (d.planEntry t = ⟨t, .sample, .semiJoin t (d.joinTerms t).dedup⟩ ∧ d.Sampled t) := by
  unfold planEntry semiJoinPredicate
  by_cases hwhole : d.whole t
  · rw [if_pos hwhole]
    exact .inl ⟨rfl, fun h => h.1 hwhole⟩
  · rw [if_neg hwhole]
    by_cases hnone : d.joinTerms t = []
    · rw [if_pos hnone]
      refine .inl ⟨rfl, fun ⟨_, term, hterm⟩ => ?_⟩
      rw [← mem_joinTerms, hnone] at hterm
      exact List.not_mem_nil hterm
    · rw [if_neg hnone]
      obtain ⟨term, hterm⟩ := List.exists_mem_of_ne_nil _ hnone
      exact .inr ⟨rfl, hwhole, term, mem_joinTerms.1 hterm⟩

/-! ## The plan of a fraction below 1 -/

def plan (d : ReferentialDownscaler) (cut : Int) : List SubsetTable :=
  (sortNames d.islandAnchors).map (d.anchorEntry cut) ++ d.ordered.map d.planEntry

theorem planSubset_ok {fraction : Rat} {r : SubsetResult} (hlt : fraction < 1) (h : d.planSubset fraction = .ok r) :
    0 < fraction ∧ r.tables = d.plan (keepCut fraction) ∧ (d.islandAnchors ≠ [] → 0 < keepCut fraction) := by
  unfold planSubset at h
  split at h
  · cases h
  · rename_i hrange
    rw [not_not] at hrange
    rw [if_neg (not_le.2 hlt)] at h
    dsimp only at h
    split at h
    · cases h
    · rename_i hcut
      cases h
      refine ⟨hrange.1, rfl, fun hanchors => not_le.1 fun hle => hcut ⟨fun hnil => hanchors ?_, hle⟩⟩
      apply List.eq_nil_iff_forall_not_mem.2
      intro a ha
      have hmem : a ∈ sortNames d.islandAnchors := mem_sortNames.2 ha
      rw [hnil] at hmem
      exact List.not_mem_nil hmem

theorem planSubset_eq {fraction : Rat} (h0 : 0 < fraction) (h1 : fraction < 1) (hcut : 0 < keepCut fraction) :
    d.planSubset fraction = .ok ⟨fraction, sortNames d.islandAnchors, d.plan (keepCut fraction)⟩ := by
  have hrange : ¬ ¬ (0 < fraction ∧ fraction ≤ 1) := not_not.2 ⟨h0, h1.le⟩
  have hpart : ¬ fraction ≥ 1 := not_le.2 h1
  have hfine : ¬ (sortNames d.islandAnchors ≠ [] ∧ keepCut fraction ≤ 0) := fun h => absurd h.2 (not_le.2 hcut)
  unfold planSubset
  rw [if_neg hrange, if_neg hpart]
  simp only [if_neg hfine, plan]

@[simp] theorem planEntry_table (t : String) : (d.planEntry t).table = t := by
  rcases planEntry_cases (d := d) t with ⟨h, -⟩ | ⟨h, -⟩ <;> rw [h]

theorem plan_tables (cut : Int) : (d.plan cut).map SubsetTable.table = d.order := by
  unfold plan order
  rw [List.map_append, List.map_map, List.map_map]
  congr 1
  · exact (List.map_congr_left fun a _ => rfl).trans (List.map_id _)
  · exact (List.map_congr_left fun t _ => planEntry_table t).trans (List.map_id _)

/-- The one entry of a table. -/
theorem mem_plan {tt : SubsetTable} : tt ∈ d.plan cut ↔
    (tt.table ∈ d.islandAnchors ∧ tt = d.anchorEntry cut tt.table) ∨
      (tt.table ∈ d.ordered ∧ tt = d.planEntry tt.table) := by
  unfold plan
  rw [List.mem_append, List.mem_map, List.mem_map]
  constructor
  · rintro (⟨a, ha, rfl⟩ | ⟨t, ht, rfl⟩)
    · exact .inl ⟨mem_sortNames.1 ha, rfl⟩
    · exact .inr ⟨by simpa using ht, by simp⟩
  · rintro (⟨ha, htt⟩ | ⟨ht, htt⟩)
    · exact .inl ⟨_, mem_sortNames.2 ha, htt.symm⟩
    · exact .inr ⟨_, ht, htt.symm⟩

theorem plan_split {before after : List SubsetTable} {tt : SubsetTable} (h : d.plan cut = before ++ tt :: after) :
    d.order = before.map SubsetTable.table ++ tt.table :: after.map SubsetTable.table ∧
      tt.table ∉ before.map SubsetTable.table := by
  have horder : d.order = before.map SubsetTable.table ++ tt.table :: after.map SubsetTable.table := by
    rw [← plan_tables cut, h, List.map_append, List.map_cons]
  have hnodup := d.order_nodup
  rw [horder, List.nodup_append] at hnodup
  exact ⟨horder, fun hmem => hnodup.2.2 _ hmem _ List.mem_cons_self rfl⟩

/-- A SELECT reads the keep tables of earlier tables only. -/
theorem plan_reads {before after : List SubsetTable} {tt : SubsetTable} (h : d.plan cut = before ++ tt :: after)
    (hu : u ∈ tt.sql.keeps) : u ∈ before.map SubsetTable.table := by
  have htt : tt ∈ d.plan cut := by simp [h]
  have hrestricts : ∃ term, d.Restricts tt.table term ∧ term.keep = u := by
    rcases mem_plan.1 htt with ⟨-, heq⟩ | ⟨-, heq⟩
    · rw [heq] at hu
      exact absurd hu List.not_mem_nil
    · rcases planEntry_cases (d := d) tt.table with ⟨hentry, -⟩ | ⟨hentry, -⟩
      · rw [heq, hentry] at hu
        exact absurd hu List.not_mem_nil
      · rw [heq, hentry] at hu
        obtain ⟨term, hterm, rfl⟩ := List.mem_map.1 hu
        exact ⟨term, mem_joinTerms.1 (List.mem_dedup.1 hterm), rfl⟩
  obtain ⟨term, hterm, rfl⟩ := hrestricts
  obtain ⟨horder, hnew⟩ := plan_split h
  have hknown : tt.table ∈ d.schema.tables := by
    rw [← mem_order, horder]
    simp
  have hearlier := hterm.2.2
  rw [orderIndex_eq hterm.known, orderIndex_eq hknown, horder] at hearlier
  by_contra hlate
  rw [List.idxOf_append_of_notMem hlate, List.idxOf_append_of_notMem hnew, List.idxOf_cons_self] at hearlier
  omega

end ReferentialDownscaler

/-! ## The rows a plan keeps -/

section
variable {V : Type} [DecidableEq V] {hash : List (Option V) → Nat} {rows kept kept' : String → List (DataRow V)}
  {d : ReferentialDownscaler} {t u : String} {cut : Int} {own : DataRow V}

open ReferentialDownscaler

theorem eval_congr (sel : Select) (h : ∀ u ∈ sel.keeps, kept u = kept' u) :
    sel.eval hash rows kept = sel.eval hash rows kept' := by
  cases sel with
  | all t => rfl
  | hashSample t key cut => rfl
  | semiJoin t terms =>
    simp only [Select.eval]
    congr 1
    funext own
    apply Bool.eq_iff_iff.2
    simp only [List.any_eq_true]
    have hterm : ∀ term ∈ terms, kept term.keep = kept' term.keep := fun term hterm => h _ (List.mem_map_of_mem hterm)
    exact ⟨fun ⟨term, hmem, k, hk⟩ => ⟨term, hmem, k, hterm term hmem ▸ hk⟩,
      fun ⟨term, hmem, k, hk⟩ => ⟨term, hmem, k, (hterm term hmem).symm ▸ hk⟩⟩

theorem plan_readsEarlier : InOrder.ReadsEarlier SubsetTable.table
    (fun tt kept => tt.sql.eval hash rows kept) (d.plan cut) :=
  fun _ _ _ hsplit _ _ hagree => eval_congr _ fun u hu => hagree u (plan_reads hsplit hu)

/-- What a plan keeps satisfies all its SELECTs at once. -/
theorem keptRows_eq {tt : SubsetTable} (htt : tt ∈ d.plan cut) :
    keptRows hash rows (d.plan cut) tt.table = tt.sql.eval hash rows (keptRows hash rows (d.plan cut)) := by
  apply InOrder.assignAll_eq _ plan_readsEarlier htt
  rw [plan_tables]
  exact order_nodup

/-- Why a row of a table is kept. -/
def Keeps (d : ReferentialDownscaler) (hash : List (Option V) → Nat) (cut : Int) (kept : String → List (DataRow V))
    (t : String) (own : DataRow V) : Prop :=
  (t ∈ d.islandAnchors ∧ sampled hash (d.sampleKey t) cut own = true) ∨ (t ∉ d.islandAnchors ∧ ¬ d.Sampled t) ∨
    (d.Sampled t ∧ ∃ term, d.Restricts t term ∧ ∃ k ∈ kept term.keep, term.holds own k = true)

open Classical in
/-- **The rows kept of a table are its rows that the plan has a reason to keep.** -/
theorem keptRows_filter (ht : t ∈ d.schema.tables) : keptRows hash rows (d.plan cut) t =
    (rows t).filter fun own => Keeps d hash cut (keptRows hash rows (d.plan cut)) t own := by
  by_cases hanchor : t ∈ d.islandAnchors
  · have htt : d.anchorEntry cut t ∈ d.plan cut := mem_plan.2 (.inl ⟨hanchor, rfl⟩)
    have heq : keptRows hash rows (d.plan cut) t = (rows t).filter (sampled hash (d.sampleKey t) cut) := keptRows_eq htt
    have hkeeps : ∀ own, Keeps d hash cut (keptRows hash rows (d.plan cut)) t own ↔
        sampled hash (d.sampleKey t) cut own = true := by
      intro own
      have hnot : ¬ d.Sampled t := fun h => h.not_anchor hanchor
      simp [Keeps, hanchor, hnot]
    rw [heq]
    simp only [hkeeps, Bool.decide_eq_true]
  · have htt : d.planEntry t ∈ d.plan cut := mem_plan.2 (.inr ⟨by simp [mem_ordered, ht, hanchor], by simp⟩)
    have heq : keptRows hash rows (d.plan cut) (d.planEntry t).table = _ := keptRows_eq htt
    rw [planEntry_table] at heq
    rcases planEntry_cases (d := d) t with ⟨hentry, hwhole⟩ | ⟨hentry, hsampled⟩
    · rw [hentry] at heq
      have hkeeps : ∀ own, Keeps d hash cut (keptRows hash rows (d.plan cut)) t own :=
        fun own => .inr (.inl ⟨hanchor, hwhole⟩)
      rw [heq]
      simp [Select.eval, hkeeps]
    · rw [hentry] at heq
      rw [heq]
      simp only [Select.eval]
      congr 1
      funext own
      apply Bool.eq_iff_iff.2
      simp [Keeps, hanchor, hsampled, List.any_eq_true, mem_joinTerms]

theorem mem_keptRows (ht : t ∈ d.schema.tables) : own ∈ keptRows hash rows (d.plan cut) t ↔
    own ∈ rows t ∧ Keeps d hash cut (keptRows hash rows (d.plan cut)) t own := by
  classical
  rw [keptRows_filter ht, List.mem_filter, decide_eq_true_eq]

theorem keptRows_sublist (ht : t ∈ d.schema.tables) : (keptRows hash rows (d.plan cut) t).Sublist (rows t) := by
  classical
  rw [keptRows_filter ht]
  exact List.filter_sublist

/-! ## The session -/

/-- No table has the name of a keep table. -/
def NamesFree (tables : List String) : Prop := ∀ s ∈ tables, ∀ t ∈ tables, ¬ sameName s (keepName t)

def Session.start (tables : List String) (rows : String → List (DataRow V)) : Session V :=
  ⟨tables.map fun t => (t, rows t), []⟩

omit [DecidableEq V] in
theorem lookupName_map {names : List String} {f : String → String} {g : String → List (DataRow V)} {name : String}
    (ht : t ∈ names) (hname : ∀ u ∈ names, sameName (f u) name ↔ u = t) :
    lookupName (names.map fun u => (f u, g u)) name = some (g t) := by
  induction names with
  | nil => exact absurd ht List.not_mem_nil
  | cons u names ih =>
    unfold lookupName at ih ⊢
    rw [List.map_cons, List.find?_cons]
    by_cases hu : sameName (f u) name
    · obtain rfl := (hname u List.mem_cons_self).1 hu
      simp [hu]
    · have hne : u ≠ t := fun heq => hu ((hname u List.mem_cons_self).2 heq)
      have ht' : t ∈ names := (List.mem_cons.1 ht).resolve_left hne.symm
      simp only [decide_eq_false hu]
      exact ih ht' fun v hv => hname v (List.mem_cons_of_mem _ hv)

omit [DecidableEq V] in
theorem lookupName_none {names : List String} {f : String → String} {g : String → List (DataRow V)} {name : String}
    (hname : ∀ u ∈ names, ¬ sameName (f u) name) : lookupName (names.map fun u => (f u, g u)) name = none := by
  unfold lookupName
  rw [Option.map_eq_none_iff, List.find?_eq_none]
  intro e he
  obtain ⟨u, hu, rfl⟩ := List.mem_map.1 he
  simpa using hname u hu

/-- The session after the tables `done` of a plan. -/
def sessionAfter (d : ReferentialDownscaler) (rows kept : String → List (DataRow V)) (done : List String) : Session V :=
  ⟨d.schema.tables.map fun t => (t, rows t), done.map fun t => (keepName t, kept t)⟩

variable {done : List String}

omit [DecidableEq V] in
theorem read_source (hfree : NamesFree d.schema.tables) (hdone : done ⊆ d.schema.tables) (ht : t ∈ d.schema.tables) :
    (sessionAfter d rows kept done).read t = some (rows t) := by
  have htemp : lookupName (done.map fun u => (keepName u, kept u)) t = none :=
    lookupName_none fun u hu hname => hfree t ht u (hdone hu) hname.symm
  have hsource : lookupName (d.schema.tables.map fun u => (u, rows u)) t = some (rows t) :=
    lookupName_map (f := id) ht fun u hu => ⟨eq_of_sameName hu ht, fun heq => heq ▸ rfl⟩
  simp only [sessionAfter, Session.read, htemp, hsource, Option.none_or]

omit [DecidableEq V] in
theorem lookup_keep (hdone : done ⊆ d.schema.tables) (hu : u ∈ done) :
    lookupName (done.map fun t => (keepName t, kept t)) (keepName u) = some (kept u) :=
  lookupName_map hu fun v hv => by
    rw [keepName_same]
    exact ⟨eq_of_sameName (hdone hv) (hdone hu), fun heq => heq ▸ rfl⟩

omit [DecidableEq V] in
theorem read_keep (hdone : done ⊆ d.schema.tables) (hu : u ∈ done) :
    (sessionAfter d rows kept done).read (keepName u) = some (kept u) := by
  simp only [sessionAfter, Session.read, lookup_keep hdone hu, Option.some_or]

/-- The table a SELECT reads rows of. -/
def Select.table : Select → String
  | .all t => t
  | .hashSample t _ _ => t
  | .semiJoin t _ => t

theorem select_eval (hfree : NamesFree d.schema.tables) (hdone : done ⊆ d.schema.tables) (sel : Select)
    (htable : sel.table ∈ d.schema.tables) (hkeeps : ∀ u ∈ sel.keeps, u ∈ done) :
    (sessionAfter d rows kept done).select hash sel = some (sel.eval hash rows kept) := by
  cases sel with
  | all t => exact read_source hfree hdone htable
  | hashSample t key cut =>
    have hread : (sessionAfter d rows kept done).read t = some (rows t) := read_source hfree hdone htable
    simp only [Session.select, hread, Select.eval, Option.map_some]
  | semiJoin t terms =>
    have hread : (sessionAfter d rows kept done).read t = some (rows t) := read_source hfree hdone htable
    have hterms : (terms.mapM fun term =>
        ((sessionAfter d rows kept done).read (keepName term.keep)).map fun k => (term, k)) =
        some (terms.map fun term => (term, kept term.keep)) := by
      apply MapM.eq_some_of_forall
      intro term hterm
      rw [read_keep hdone (hkeeps _ (List.mem_map_of_mem hterm)), Option.map_some]
    simp only [Session.select, hread, hterms, Select.eval]
    simp [List.any_map, Function.comp_def]

theorem plan_table {tt : SubsetTable} (htt : tt ∈ d.plan cut) : tt.sql.table = tt.table := by
  rcases mem_plan.1 htt with ⟨-, heq⟩ | ⟨-, heq⟩
  · rw [heq]
    rfl
  · rcases planEntry_cases (d := d) tt.table with ⟨hentry, -⟩ | ⟨hentry, -⟩ <;> rw [heq, hentry] <;> rfl

theorem plan_known {tt : SubsetTable} (htt : tt ∈ d.plan cut) : tt.table ∈ d.schema.tables := by
  rw [← mem_order, ← plan_tables cut]
  exact List.mem_map_of_mem htt

/-- The run of a plan creates the keep tables one by one, with the rows that the plan means. -/
theorem run_from (hfree : NamesFree d.schema.tables) {before todo : List SubsetTable}
    (hsplit : d.plan cut = before ++ todo) :
    runPlan hash (sessionAfter d rows (keptRows hash rows (d.plan cut)) (before.map SubsetTable.table)) todo =
      some (sessionAfter d rows (keptRows hash rows (d.plan cut)) ((d.plan cut).map SubsetTable.table)) := by
  induction todo generalizing before with
  | nil =>
    rw [List.append_nil] at hsplit
    rw [hsplit]
    rfl
  | cons tt todo ih =>
    have htt : tt ∈ d.plan cut := by simp [hsplit]
    have hdone : before.map SubsetTable.table ⊆ d.schema.tables := by
      intro u hu
      obtain ⟨tt', htt', rfl⟩ := List.mem_map.1 hu
      have hmem : tt' ∈ d.plan cut := by simp [hsplit, htt']
      exact plan_known hmem
    have hselect : (sessionAfter d rows (keptRows hash rows (d.plan cut)) (before.map SubsetTable.table)).select hash
        tt.sql = some (keptRows hash rows (d.plan cut) tt.table) := by
      rw [keptRows_eq htt]
      exact select_eval hfree hdone _ (by rw [plan_table htt]; exact plan_known htt) fun u hu => plan_reads hsplit hu
    have hnew : lookupName ((before.map SubsetTable.table).map fun t =>
        (keepName t, keptRows hash rows (d.plan cut) t)) (keepName tt.table) = none := by
      apply lookupName_none
      intro u hu hname
      obtain rfl := eq_of_sameName (hdone hu) (plan_known htt) (keepName_same.1 hname)
      exact (plan_split hsplit).2 hu
    have hcreate : (sessionAfter d rows (keptRows hash rows (d.plan cut)) (before.map SubsetTable.table)).create
      hash tt =
        some (sessionAfter d rows (keptRows hash rows (d.plan cut)) ((before ++ [tt]).map SubsetTable.table)) := by
      unfold Session.create
      rw [hselect]
      simp only [sessionAfter, bind, Option.bind, hnew] at hnew ⊢
      simp
    unfold runPlan
    rw [hcreate]
    exact ih (by rw [hsplit, List.append_assoc]; rfl)

theorem run_plan (hfree : NamesFree d.schema.tables) : runPlan hash (.start d.schema.tables rows) (d.plan cut) =
    some (sessionAfter d rows (keptRows hash rows (d.plan cut)) d.order) := by
  rw [← plan_tables cut]
  have hrun : runPlan hash (sessionAfter d rows (keptRows hash rows (d.plan cut))
      (([] : List SubsetTable).map SubsetTable.table)) (d.plan cut) =
      some (sessionAfter d rows (keptRows hash rows (d.plan cut)) ((d.plan cut).map SubsetTable.table)) :=
    run_from hfree (List.nil_append _).symm
  exact hrun

end

/-! ## What a subset must be -/

section
variable {V : Type} [DecidableEq V]

/-- The rows of the keep table of `t`. -/
def Session.keep (s : Session V) (t : String) : List (DataRow V) := (lookupName s.temp (keepName t)).getD []

/-- `u` is processed before `t`. -/
def Earlier (plan : List SubsetTable) (u t : String) : Prop :=
  ∃ before tt after, plan = before ++ tt :: after ∧ tt.table = t ∧ u ∈ before.map SubsetTable.table

/-- Two rows match on all column pairs. -/
def Matches (pairs : List (String × String)) (own other : DataRow V) : Prop :=
  ∀ p ∈ pairs, sqlEq (other p.2) (own p.1) = true

open Classical in
structure JoinsPreserved (d : ReferentialDownscaler) (rows : String → List (DataRow V)) (plan : List SubsetTable)
    (final : Session V) : Prop where
  /-- A SELECT reads the keep tables of earlier tables only. -/
  reads : ∀ before tt after, plan = before ++ tt :: after → ∀ u ∈ tt.sql.keeps, u ∈ before.map SubsetTable.table
  /-- Every table gets one keep table. -/
  tables : (plan.map SubsetTable.table).Perm d.schema.tables ∧
    final.temp.map Prod.fst = (plan.map SubsetTable.table).map keepName
  subset : ∀ t ∈ d.schema.tables, (final.keep t).Subperm (rows t)
  /-- A kept row of a table that is not kept whole by the threshold keeps what it matches in a later table. -/
  followed : ∀ rel ∈ d.relationships, ∀ t u pairs, rel.other t = some (u, pairs) → Earlier plan u t → ¬ d.whole u →
    ∀ own ∈ rows t, ∀ k ∈ final.keep u, Matches pairs own k → (final.keep t).count own = (rows t).count own
  /-- A kept row of a sampled table has a kept partner in an earlier one. -/
  partner : ∀ tt ∈ plan, tt.mode = .sample → ∀ own ∈ final.keep tt.table, ∃ rel ∈ d.relationships, ∃ u pairs,
    rel.other tt.table = some (u, pairs) ∧ Earlier plan u tt.table ∧ ∃ k ∈ final.keep u, Matches pairs own k

/-- Every run of a plan ends with such a subset. -/
def PreservesJoins (hash : List (Option V) → Nat) (d : ReferentialDownscaler) : Prop :=
  ∀ rows : String → List (DataRow V), (∀ t ∈ d.schema.tables, (rows t).length = d.schema.rowCounts t) →
    ∀ fraction : Rat, fraction < 1 → ∀ r, d.planSubset fraction = .ok r →
      ∃ final, runPlan hash (.start d.schema.tables rows) r.tables = some final ∧ JoinsPreserved d rows r.tables final

/-! ## Where no name is shadowed -/

variable {hash : List (Option V) → Nat} {rows kept : String → List (DataRow V)} {d : ReferentialDownscaler}
  {t u : String} {cut : Int} {own k : DataRow V} {pairs : List (String × String)}

open ReferentialDownscaler

theorem earlier_iff (hu : u ∈ d.schema.tables) (ht : t ∈ d.schema.tables) :
    Earlier (d.plan cut) u t ↔ d.orderIndex u < d.orderIndex t := by
  rw [orderIndex_eq hu, orderIndex_eq ht]
  constructor
  · rintro ⟨before, tt, after, hsplit, rfl, hmem⟩
    obtain ⟨horder, hnew⟩ := plan_split hsplit
    rw [horder, List.idxOf_append_of_mem hmem, List.idxOf_append_of_notMem hnew]
    have hbound := List.idxOf_lt_length_of_mem hmem
    omega
  · intro hlt
    obtain ⟨tt, htt, rfl⟩ : ∃ tt ∈ d.plan cut, tt.table = t := by
      have hmem : t ∈ (d.plan cut).map SubsetTable.table := by rwa [plan_tables, mem_order]
      simpa using hmem
    obtain ⟨before, after, hsplit⟩ := List.append_of_mem htt
    refine ⟨before, tt, after, hsplit, rfl, ?_⟩
    by_contra hlate
    obtain ⟨horder, hnew⟩ := plan_split hsplit
    rw [horder, List.idxOf_append_of_notMem hlate, List.idxOf_append_of_notMem hnew, List.idxOf_cons_self] at hlt
    omega

theorem matches_iff : Matches pairs own k ↔ (⟨u, pairs⟩ : KeepTerm).holds own k = true := by
  simp [Matches, KeepTerm.holds, List.all_eq_true]

omit [DecidableEq V] in
theorem keep_after (ht : t ∈ d.schema.tables) : (sessionAfter d rows kept d.order).keep t = kept t := by
  have hlookup : lookupName (d.order.map fun t => (keepName t, kept t)) (keepName t) = some (kept t) :=
    lookup_keep (fun _ hu => mem_order.1 hu) (mem_order.2 ht)
  simp only [sessionAfter, Session.keep, hlookup, Option.getD_some]

theorem side_known {rel : JoinRelationship} (hrel : rel ∈ d.relationships) (h : rel.other t = some (u, pairs)) :
    t ∈ d.schema.tables ∧ u ∈ d.schema.tables := by
  have hknown := d.known rel hrel
  obtain ⟨-, ⟨rfl, rfl, -⟩ | ⟨rfl, rfl, -⟩⟩ := JoinRelationship.other_some h
  · exact hknown
  · exact hknown.symm

/-- A row that matches a kept row of a restricting table has a reason to be kept. -/
theorem keeps_match {rel : JoinRelationship} (hrel : rel ∈ d.relationships) (h : rel.other t = some (u, pairs))
    (hearlier : d.orderIndex u < d.orderIndex t) (hu : ¬ d.whole u) (hk : k ∈ kept u) (hmatch : Matches pairs own k) :
    Keeps d hash cut kept t own := by
  have hterm : d.Restricts t ⟨u, pairs⟩ := ⟨⟨rel, hrel, h⟩, hu, hearlier⟩
  by_cases hwhole : d.whole t
  · exact .inr (.inl ⟨hterm.not_anchor, fun hsampled => hsampled.1 hwhole⟩)
  · exact .inr (.inr ⟨⟨hwhole, _, hterm⟩, _, hterm, k, hk, matches_iff.1 hmatch⟩)

theorem preserves_of_free (hfree : NamesFree d.schema.tables) : PreservesJoins hash d := by
  classical
  intro rows _ fraction hlt r hr
  obtain ⟨-, hplan, -⟩ := planSubset_ok hlt hr
  rw [hplan]
  refine ⟨_, run_plan hfree, ?_⟩
  have hkeep : ∀ t ∈ d.schema.tables,
    (sessionAfter d rows (keptRows hash rows (d.plan (keepCut fraction))) d.order).keep t =
      keptRows hash rows (d.plan (keepCut fraction)) t := fun t ht => keep_after ht
  refine ⟨fun _ _ _ hsplit u hu => plan_reads hsplit hu, ⟨?_, ?_⟩, fun t ht =>
    ?_, fun rel hrel t u pairs hside hearlier hu own hown k hk hmatch => ?_,
    fun tt htt hmode own hown => ?_⟩
  · rw [plan_tables]
    exact order_perm
  · rw [plan_tables]
    simp [sessionAfter, List.map_map, Function.comp_def]
  · rw [hkeep t ht]
    exact (keptRows_sublist ht).subperm
  · have hknown := side_known hrel hside
    rw [hkeep u hknown.2] at hk
    rw [earlier_iff hknown.2 hknown.1] at hearlier
    rw [hkeep t hknown.1, keptRows_filter hknown.1]
    apply List.count_filter
    exact decide_eq_true (keeps_match hrel hside hearlier hu hk hmatch)
  · have ht := plan_known htt
    rw [hkeep _ ht, mem_keptRows ht] at hown
    obtain ⟨-, hreason⟩ := hown
    have hsampled : d.Sampled tt.table := by
      rcases mem_plan.1 htt with ⟨-, heq⟩ | ⟨-, heq⟩
      · rw [heq] at hmode
        cases hmode
      · rcases planEntry_cases (d := d) tt.table with ⟨hentry, -⟩ | ⟨-, hsampled⟩
        · rw [heq, hentry] at hmode
          cases hmode
        · exact hsampled
    rcases hreason with ⟨hanchor, -⟩ | ⟨-, hnot⟩ | ⟨-, term, hterm, k, hk, hholds⟩
    · exact absurd hanchor hsampled.not_anchor
    · exact absurd hsampled hnot
    · obtain ⟨⟨rel, hrel, hside⟩, -, hearlier⟩ := id hterm
      refine ⟨rel, hrel, term.keep, term.pairs, hside, (earlier_iff hterm.known ht).2 hearlier, k, ?_, ?_⟩
      · rw [hkeep _ hterm.known]
        exact hk
      · exact (matches_iff (u := term.keep)).2 hholds

/-! ## Where a keep table shadows a source table -/

theorem run_grows {plan : List SubsetTable} {s final : Session V} (h : runPlan hash s plan = some final) :
    ∃ more, final.temp = s.temp ++ more := by
  induction plan generalizing s with
  | nil =>
    cases h
    exact ⟨[], (List.append_nil _).symm⟩
  | cons tt plan ih =>
    unfold runPlan at h
    obtain ⟨s', hs', hrest⟩ := Option.bind_eq_some_iff.1 h
    unfold Session.create at hs'
    obtain ⟨made, -, hnew⟩ := Option.bind_eq_some_iff.1 hs'
    split at hnew
    · cases hnew
    · cases hnew
      obtain ⟨more, hmore⟩ := ih hrest
      exact ⟨(keepName tt.table, made) :: more, by rw [hmore]; simp⟩

/-- The keep table of an entry holds what its SELECT gave when it ran. -/
theorem run_entry {before after : List SubsetTable} {tt : SubsetTable} {s final : Session V}
    (h : runPlan hash s (before ++ tt :: after) = some final) : ∃ mid : Session V, (∃ made, mid.temp = s.temp ++ made) ∧
      mid.select hash tt.sql = some (final.keep tt.table) := by
  induction before generalizing s with
  | nil =>
    rw [List.nil_append, runPlan] at h
    obtain ⟨s', hs', hrest⟩ := Option.bind_eq_some_iff.1 h
    unfold Session.create at hs'
    obtain ⟨made, hmade, hnew⟩ := Option.bind_eq_some_iff.1 hs'
    refine ⟨s, ⟨[], (List.append_nil _).symm⟩, ?_⟩
    split at hnew
    · cases hnew
    · rename_i hfree
      cases hnew
      obtain ⟨more, hmore⟩ := run_grows hrest
      have hkeep : lookupName final.temp (keepName tt.table) = some made := by
        rw [Option.not_isSome_iff_eq_none, lookupName, Option.map_eq_none_iff] at hfree
        rw [hmore, lookupName, List.find?_append, List.find?_append, hfree]
        simp [sameName]
      rw [hmade, Session.keep, hkeep, Option.getD_some]
  | cons tt' before ih =>
    rw [List.cons_append, runPlan] at h
    obtain ⟨s', hs', hrest⟩ := Option.bind_eq_some_iff.1 h
    obtain ⟨mid, ⟨made, hmade⟩, hmid⟩ := ih hrest
    unfold Session.create at hs'
    obtain ⟨rows', -, hnew⟩ := Option.bind_eq_some_iff.1 hs'
    split at hnew
    · cases hnew
    · cases hnew
      exact ⟨mid, ⟨_, hmade.trans (List.append_assoc _ _ _)⟩, hmid⟩

variable {schema : SchemaInfo} {s : String}

theorem views_nil : ∀ e : JoinEdge, e ∈ [] ↔
    ∃ rel ∈ ([] : List JoinRelationship), ∃ p ∈ rel.pairs, e = .make rel.tableA p.1 rel.tableB p.2 := by
  simp

theorem distinct_nil : ∀ e ∈ ([] : List JoinEdge), e.tableA ≠ e.tableB := by simp

theorem conditions_nil : ∀ rel ∈ ([] : List JoinRelationship), rel.pairs ≠ [] := by simp

/-- One row in `t`, none in the other tables, and nothing joins them. -/
def oneRow (schema : SchemaInfo) (t : String) : ReferentialDownscaler where
  schema := { schema with rowCounts := fun u => if u = t then 1 else 0 }
  edges := []
  relationships := []
  wholeTableThreshold := 0
  views := views_nil
  distinct := distinct_nil
  known := by simp
  conditions := conditions_nil

def oneRowRows (t u : String) : List (DataRow V) := if u = t then [fun _ => none] else []

theorem foldl_largest (counts : String → Nat) (names : List String) (best : String) :
    counts best ≤ counts (names.foldl (fun best u => if counts u > counts best then u else best) best) ∧
    ∀ u ∈ names, counts u ≤ counts (names.foldl (fun best u => if counts u > counts best then u else best) best) := by
  induction names generalizing best with
  | nil => simp
  | cons v names ih =>
    rw [List.foldl_cons]
    obtain ⟨hbest, hrest⟩ := ih (if counts v > counts best then v else best)
    have hstep : counts best ≤ counts (if counts v > counts best then v else best) ∧
        counts v ≤ counts (if counts v > counts best then v else best) := by
      split <;> omega
    refine ⟨hstep.1.trans hbest, fun u hu => ?_⟩
    rcases List.mem_cons.1 hu with rfl | hu
    · exact hstep.2.trans hbest
    · exact hrest u hu

theorem largest_max {counts : String → Nat} {names : List String} (hu : u ∈ names) :
    ∃ a, largest counts names = some a ∧ counts u ≤ counts a := by
  cases names with
  | nil => exact absurd hu List.not_mem_nil
  | cons v names =>
    refine ⟨_, rfl, ?_⟩
    obtain ⟨hbest, hrest⟩ := foldl_largest counts names v
    rcases List.mem_cons.1 hu with rfl | hu
    · exact hbest
    · exact hrest u hu

theorem oneRow_anchors (ht : t ∈ schema.tables) : sortNames (oneRow schema t).islandAnchors = [t] := by
  have hmem : ∀ a, a ∈ sortNames (oneRow schema t).islandAnchors ↔ a ∈ [t] := by
    intro a
    rw [mem_sortNames, List.mem_singleton]
    constructor
    · intro ha
      have hbig : (if a = t then 1 else 0) > 0 := anchor_big ha
      by_contra hne
      rw [if_neg hne] at hbig
      exact absurd hbig (Nat.lt_irrefl 0)
    · rintro rfl
      have hislands := components_islands (d := oneRow schema a)
      obtain ⟨comp, hcomp, hin⟩ := hislands.cover a ht
      obtain ⟨b, hb, hle⟩ : ∃ b, largest (oneRow schema a).schema.rowCounts (sortNames comp) = some b ∧
          (oneRow schema a).schema.rowCounts a ≤ (oneRow schema a).schema.rowCounts b :=
            largest_max (mem_sortNames.2 hin)
      have hcount : (oneRow schema a).schema.rowCounts a = 1 := if_pos rfl
      rw [hcount] at hle
      have hba : b = a := by
        by_contra hne
        have hzero : (oneRow schema a).schema.rowCounts b = 0 := if_neg hne
        omega
      subst hba
      exact mem_islandAnchors.2 ⟨comp, hcomp, hb, hle⟩
  have hperm : (sortNames (oneRow schema t).islandAnchors).Perm [t] := by
    apply (List.perm_ext_iff_of_nodup _ (List.nodup_singleton t)).2 hmem
    exact (List.perm_insertionSort _ _).nodup_iff.2 islandAnchors_nodup
  exact List.perm_singleton.1 hperm

theorem oneRow_plan (ht : t ∈ schema.tables) : (oneRow schema t).planSubset (9999 / 10000) =
    .ok ⟨9999 / 10000, [t], (oneRow schema t).anchorEntry 1000 t :: (oneRow schema t).ordered.map
      (oneRow schema t).planEntry⟩ := by
  have hcut : keepCut (9999 / 10000) = 1000 := by decide +kernel
  rw [planSubset_eq (by decide +kernel) (by decide +kernel) (by rw [hcut]; decide), hcut, plan, oneRow_anchors ht]
  rfl

theorem oneRow_first {first : Session V} (ht : t ∈ schema.tables)
    (h : (Session.start (oneRow schema t).schema.tables (oneRowRows t)).create hash
      ((oneRow schema t).anchorEntry 1000 t) =
      some first) : first.temp = [(keepName t, [fun _ => none])] := by
  have hread : lookupName ((oneRow schema t).schema.tables.map fun u => (u, oneRowRows (V := V) t u)) t =
      some (oneRowRows t t) :=
    lookupName_map (f := id) ht fun u hu => ⟨eq_of_sameName hu ht, fun heq => heq ▸ rfl⟩
  have hsampled : ∀ r : DataRow V, sampled hash ((oneRow schema t).sampleKey t) 1000 r = true := by
    intro r
    have hmod : hash (((oneRow schema t).sampleKey t).map r) % 1000 < 1000 := Nat.mod_lt _ (by omega)
    unfold sampled hashModulus
    rw [decide_eq_true_eq]
    omega
  have hempty : ∀ name, lookupName (V := V) [] name = none := fun _ => rfl
  simp [Session.create, anchorEntry, Session.select, Session.read, Session.start, hread, hempty] at h
  rw [← h]
  simp [oneRowRows, hsampled]

/-- **A table that is named after the keep table of another is read as that keep table.** -/
theorem shadowed_source (hs : s ∈ schema.tables) (ht : t ∈ schema.tables) (hname : sameName s (keepName t)) :
    ¬ PreservesJoins hash (oneRow schema t) := by
  intro h
  have hne : s ≠ t := by
    rintro rfl
    exact keepName_ne hname
  have hcounts : ∀ u ∈ (oneRow schema t).schema.tables,
      (oneRowRows (V := V) t u).length = (oneRow schema t).schema.rowCounts u := by
    intro u _
    unfold oneRowRows
    by_cases hu : u = t <;> simp [oneRow, hu]
  obtain ⟨final, hrun, hkept⟩ := h (oneRowRows t) hcounts (9999 / 10000) (by decide +kernel) _ (oneRow_plan ht)
  -- `t` comes first, and its keep table holds its row
  have hordered : s ∈ (oneRow schema t).ordered := by
    refine mem_ordered.2 ⟨hs, fun hanchor => hne ?_⟩
    have hmem : s ∈ sortNames (oneRow schema t).islandAnchors := mem_sortNames.2 hanchor
    rw [oneRow_anchors ht] at hmem
    exact List.mem_singleton.1 hmem
  obtain ⟨before, after, hsplit⟩ := List.append_of_mem hordered
  rw [hsplit, List.map_append, List.map_cons] at hrun
  unfold runPlan at hrun
  obtain ⟨first, hfirst, hrest⟩ := Option.bind_eq_some_iff.1 hrun
  obtain ⟨mid, ⟨made, hmade⟩, hselect⟩ := run_entry hrest
  rw [oneRow_first ht hfirst] at hmade
  have hwhole : (oneRow schema t).planEntry s = ⟨s, .whole, .all s⟩ := by
    rcases planEntry_cases (d := oneRow schema t) s with ⟨hentry, -⟩ | ⟨-, -, term, ⟨rel, hrel, -⟩, -⟩
    · exact hentry
    · exact absurd hrel List.not_mem_nil
  rw [hwhole] at hselect
  have hread : mid.select hash (.all s) = some [fun _ => none] := by
    have hshadow : sameName (keepName t) s := hname.symm
    simp [Session.select, Session.read, lookupName, hmade, hshadow]
  have hkeep : final.keep s = [fun _ => none] := Option.some.inj (hselect.symm.trans hread)
  have hsub := (hkept.subset s hs).length_le
  rw [hkeep] at hsub
  simp [oneRowRows, hne] at hsub

end

/-- **A plan preserves the joins of every database over a schema iff no table has the name of a keep table.** -/
theorem downscale_preserves_joins_iff (V : Type) [DecidableEq V] (hash : List (Option V) → Nat) (schema : SchemaInfo) :
    (∀ d : ReferentialDownscaler, d.schema.tables = schema.tables → PreservesJoins hash d) ↔
      NamesFree schema.tables := by
  constructor
  · intro h s hs t ht hname
    exact shadowed_source hs ht hname (h (oneRow schema t) rfl)
  · intro hfree d hd
    apply preserves_of_free
    rwa [hd]

def shadowingSchema : SchemaInfo where
  tables := ["orders", keepName "orders"]
  rowCounts t := if t = "orders" then 1 else 0
  columns _ := ["o_orderkey"]
  pkColumns _ := []
  colOwner _ := ["orders", keepName "orders"]
  names := by simp [keepName_ne]

theorem shadowing_not_preserved : ¬ PreservesJoins (V := Nat) (fun _ => 0) (oneRow shadowingSchema "orders") := by
  apply shadowed_source (s := keepName "orders")
  · simp [shadowingSchema]
  · simp [shadowingSchema]
  · rfl

end SynnoDB.Workload.Downscale
