import Mathlib.Logic.Relation
import SynnoDB.Workload.Downscale

/-!
# When a further join edge keeps more rows (`custom_scaler/duckdb_downscale.py:367-390`, `:551-698`)

`build_join_graph` takes extra edges for safe: "an edge only ever adds an `OR` term that keeps *more* rows". It also
moves anchors, sampling keys and the processing order, and it restricts tables that nothing restricted.

What a plan keeps of a table is a union over `Chain`s: the joins that lead from the table over restricting tables to an
anchor, or to a table that is kept whole. So the question is one of query containment, and the answer is the usual one:
another plan keeps at least as much, for all contents, iff it keeps the first row of every chain of the first plan when
that chain's rows are all there is (`Covered`). The contents that show the "only if" hold a chain of **frozen** rows,
whose cells are equal only where the chain's joins make them.
-/

namespace SynnoDB.Workload.Downscale

open ReferentialDownscaler

/-- `d'` has one more relationship, of one column pair. -/
structure ExtraEdge (d d' : ReferentialDownscaler) (r : JoinRelationship) : Prop where
  schema : d'.schema = d.schema
  threshold : d'.wholeTableThreshold = d.wholeTableThreshold
  single : ∃ p, r.pairs = [p]
  relationships : ∀ rel, rel ∈ d'.relationships ↔ rel ∈ d.relationships ∨ rel = r

/-- For all contents, the plan of `d'` keeps the rows that the plan of `d` keeps. -/
def KeepsMore (d d' : ReferentialDownscaler) : Prop :=
  ∀ (V : Type) [DecidableEq V] (hash : List (Option V) → Nat) (rows : String → List (DataRow V)),
    (∀ t ∈ d.schema.tables, (rows t).length = d.schema.rowCounts t) →
    ∀ fraction : Rat, fraction < 1 → ∀ r r', d.planSubset fraction = .ok r → d'.planSubset fraction = .ok r' →
      ∀ t ∈ d.schema.tables, (keptRows hash rows r.tables t).Subperm (keptRows hash rows r'.tables t)

/-! ## Chains -/

/-- The joins from a table, over the tables that restrict it, to one that nothing restricts. -/
inductive Chain (d : ReferentialDownscaler) : String → List (String × KeepTerm) → String → Prop
  | stop {t : String} : t ∈ d.schema.tables → ¬ d.Sampled t → Chain d t [] t
  | step {t e : String} {term : KeepTerm} {links : List (String × KeepTerm)} : ¬ d.whole t → d.Restricts t term →
      Chain d term.keep links e → Chain d t ((t, term) :: links) e

/-- Cells that one of the joins compares. -/
def Linked (links : List (String × KeepTerm)) (a b : String × String) : Prop :=
  ∃ link ∈ links, ∃ p ∈ link.2.pairs, a = (link.1, p.1) ∧ b = (link.2.keep, p.2)

/-- Cells that the joins make equal. -/
def Equated (links : List (String × KeepTerm)) : String × String → String × String → Prop :=
  Relation.EqvGen (Linked links)

/-- The tables of a chain that starts at `t`. -/
def onChain (t : String) (links : List (String × KeepTerm)) : List String := t :: links.map fun link => link.2.keep

/-- `d'` keeps the row of `u` on a chain of `d`, from the rows of the chain alone. -/
inductive Covered (d d' : ReferentialDownscaler) (t : String) (links : List (String × KeepTerm)) (e : String) :
    String → Prop
  | kept {u : String} : u ∈ onChain t links → u ∉ d'.islandAnchors → ¬ d'.Sampled u → Covered d d' t links e u
  | anchor {u : String} : u ∈ onChain t links → u ∈ d'.islandAnchors → e ∈ d.islandAnchors →
      List.Forall₂ (Equated links) ((d'.sampleKey u).map fun c => (u, c)) ((d.sampleKey e).map fun c => (e, c)) →
      Covered d d' t links e u
  | step {u : String} {term : KeepTerm} : u ∈ onChain t links → ¬ d'.whole u → d'.Restricts u term →
      (∀ p ∈ term.pairs, Equated links (u, p.1) (term.keep, p.2)) → Covered d d' t links e term.keep →
      Covered d d' t links e u

section
variable {V : Type} [DecidableEq V] {hash : List (Option V) → Nat} {rows : String → List (DataRow V)}
  {d d' : ReferentialDownscaler} {t u e : String} {cut : Int} {own : DataRow V} {links : List (String × KeepTerm)}

omit [DecidableEq V] in
theorem mem_onChain_step {t : String} {term : KeepTerm} : u ∈ onChain t ((t, term) :: links) ↔
    u = t ∨ u ∈ onChain term.keep links := by
  simp [onChain]

theorem Chain.known (h : Chain d t links e) : ∀ u ∈ onChain t links, u ∈ d.schema.tables := by
  induction h with
  | stop ht hstop => simpa [onChain] using ht
  | @step t e term links hwhole hterm hrest ih =>
    intro u hu
    rcases mem_onChain_step.1 hu with rfl | hu
    · obtain ⟨⟨rel, hrel, hside⟩, -⟩ := hterm
      exact (side_known hrel hside).1
    · exact ih u hu

/-- A chain goes back in the processing order. -/
theorem Chain.back (h : Chain d t links e) : ∀ u ∈ onChain t links, d.orderIndex u ≤ d.orderIndex t := by
  induction h with
  | stop ht hstop => simp [onChain]
  | @step t e term links hwhole hterm hrest ih =>
    intro u hu
    rcases mem_onChain_step.1 hu with rfl | hu
    · exact le_rfl
    · exact (ih u hu).trans hterm.2.2.le

theorem Chain.link_mem (h : Chain d t links e) : ∀ link ∈ links, link.1 ∈ onChain t links ∧
    link.2.keep ∈ onChain t links := by
  induction h with
  | stop ht hstop => simp
  | @step t e term links hwhole hterm hrest ih =>
    intro link hlink
    rcases List.mem_cons.1 hlink with rfl | hlink
    · exact ⟨mem_onChain_step.2 (.inl rfl), mem_onChain_step.2 (.inr (by simp [onChain]))⟩
    · exact ⟨mem_onChain_step.2 (.inr (ih link hlink).1), mem_onChain_step.2 (.inr (ih link hlink).2)⟩

theorem Chain.end_mem (h : Chain d t links e) : e ∈ onChain t links := by
  induction h with
  | stop ht hstop => simp [onChain]
  | step hwhole hterm hrest ih => exact mem_onChain_step.2 (.inr ih)

theorem Covered.onChain (h : Covered d d' t links e u) : u ∈ onChain t links := by
  cases h <;> assumption

/-- Rows for the tables of a chain that satisfy its joins. -/
structure Witnessed (d : ReferentialDownscaler) (hash : List (Option V) → Nat) (rows : String → List (DataRow V))
    (cut : Int) (links : List (String × KeepTerm)) (t e : String) (ρ : String → DataRow V) : Prop where
  rows : ∀ u ∈ onChain t links, ρ u ∈ rows u
  joins : ∀ link ∈ links, link.2.holds (ρ link.1) (ρ link.2.keep) = true
  sampled : e ∈ d.islandAnchors → sampled hash (d.sampleKey e) cut (ρ e) = true

/-! ## A kept row starts a chain of kept rows -/

theorem exists_chain (ht : t ∈ d.schema.tables) (hown : own ∈ keptRows hash rows (d.plan cut) t) :
    ∃ links e ρ, Chain d t links e ∧ Witnessed d hash rows cut links t e ρ ∧ ρ t = own := by
  induction hn : d.orderIndex t using Nat.strong_induction_on generalizing t own with
  | _ n ih =>
    subst hn
    obtain ⟨hin, hkeeps⟩ := (mem_keptRows ht).1 hown
    have hstop : ¬ d.Sampled t → (t ∈ d.islandAnchors → sampled hash (d.sampleKey t) cut own = true) →
        ∃ links e ρ, Chain d t links e ∧ Witnessed d hash rows cut links t e ρ ∧ ρ t = own := by
      intro hnot hanchor
      refine ⟨[], t, fun _ => own, .stop ht hnot, ⟨?_, ?_, hanchor⟩, rfl⟩
      · simpa [onChain] using hin
      · simp
    rcases hkeeps with ⟨hanchor, hsampled⟩ | ⟨hanchor, hnot⟩ | ⟨hsampled, term, hterm, k, hk, hholds⟩
    · exact hstop (fun h => h.not_anchor hanchor) fun _ => hsampled
    · exact hstop hnot fun h => absurd h hanchor
    · obtain ⟨links, e, ρ, hchain, hw, rfl⟩ := ih _ hterm.2.2 hterm.known hk rfl
      have hfresh : ∀ u ∈ onChain term.keep links, u ≠ t := by
        rintro u hu rfl
        exact absurd (hchain.back u hu) (not_le.2 hterm.2.2)
      refine ⟨(t, term) :: links, e, Function.update ρ t own, .step hsampled.1 hterm hchain, ⟨?_, ?_, ?_⟩,
        Function.update_self ..⟩
      · intro u hu
        rcases mem_onChain_step.1 hu with rfl | hu
        · rwa [Function.update_self]
        · rw [Function.update_of_ne (hfresh u hu)]
          exact hw.rows u hu
      · intro link hlink
        rcases List.mem_cons.1 hlink with rfl | hlink
        · rw [Function.update_self, Function.update_of_ne (hfresh _ (by simp [onChain]))]
          exact hholds
        · have hmem := hchain.link_mem link hlink
          rw [Function.update_of_ne (hfresh _ hmem.1), Function.update_of_ne (hfresh _ hmem.2)]
          exact hw.joins link hlink
      · rw [Function.update_of_ne (hfresh _ hchain.end_mem)]
        exact hw.sampled

/-! ## Covered chains are kept -/

theorem sqlEq_iff {x y : Option V} : sqlEq x y = true ↔ x = y ∧ y.isSome := by
  cases x <;> cases y <;> simp [sqlEq]

/-- What the joins equate is equal in rows that satisfy them, and no NULL. -/
theorem Witnessed.equated {ρ : String → DataRow V} (hw : Witnessed d hash rows cut links t e ρ) {a b : String × String}
    (h : Equated links a b) : a = b ∨ (ρ a.1 a.2 = ρ b.1 b.2 ∧ (ρ b.1 b.2).isSome) := by
  induction h with
  | rel a b hab =>
    obtain ⟨link, hlink, p, hp, rfl, rfl⟩ := hab
    have hholds := hw.joins link hlink
    rw [KeepTerm.holds, List.all_eq_true] at hholds
    obtain ⟨heq, hsome⟩ := sqlEq_iff.1 (hholds p hp)
    exact .inr ⟨heq.symm, by rw [heq]; exact hsome⟩
  | refl a => exact .inl rfl
  | symm a b _ ih =>
    rcases ih with rfl | ⟨heq, hsome⟩
    · exact .inl rfl
    · exact .inr ⟨heq.symm, by rw [heq]; exact hsome⟩
  | trans a b c _ _ ihab ihbc =>
    rcases ihab with rfl | ⟨hab, hfirst⟩
    · exact ihbc
    · rcases ihbc with rfl | ⟨hbc, hsome⟩
      · exact .inr ⟨hab, hfirst⟩
      · exact .inr ⟨hab.trans hbc, hsome⟩

theorem Witnessed.keys {ρ : String → DataRow V} (hw : Witnessed d hash rows cut links t e ρ) {us es : List String}
    (h : List.Forall₂ (Equated links) (us.map fun c => (u, c)) (es.map fun c => (e, c))) :
    us.map (ρ u) = es.map (ρ e) := by
  rw [List.forall₂_map_left_iff, List.forall₂_map_right_iff] at h
  induction h with
  | nil => rfl
  | @cons c c' us es hcell _ ih =>
    rw [List.map_cons, List.map_cons, ih]
    rcases hw.equated hcell with hsame | ⟨heq, -⟩
    · cases hsame
      rfl
    · rw [heq]

theorem covered_kept {ρ : String → DataRow V} (hschema : d'.schema = d.schema) (hchain : Chain d t links e)
    (hw : Witnessed d hash rows cut links t e ρ) (h : Covered d d' t links e u) :
    ρ u ∈ keptRows hash rows (d'.plan cut) u := by
  have hknown : ∀ u ∈ onChain t links, u ∈ d'.schema.tables := by
    rw [hschema]
    exact hchain.known
  induction h with
  | kept hu hanchor hnot =>
    rw [mem_keptRows (hknown _ hu)]
    exact ⟨hw.rows _ hu, .inr (.inl ⟨hanchor, hnot⟩)⟩
  | anchor hu hanchor he hkeys =>
    rw [mem_keptRows (hknown _ hu)]
    refine ⟨hw.rows _ hu, .inl ⟨hanchor, ?_⟩⟩
    have hsampled := hw.sampled he
    unfold sampled at hsampled ⊢
    rw [hw.keys hkeys]
    exact hsampled
  | @step u term hu hwhole hterm hpairs _ ih =>
    rw [mem_keptRows (hknown _ hu)]
    refine ⟨hw.rows _ hu, .inr (.inr ⟨⟨hwhole, term, hterm⟩, term, hterm, _, ih, ?_⟩)⟩
    rw [KeepTerm.holds, List.all_eq_true]
    intro p hp
    rcases hw.equated (hpairs p hp) with hsame | ⟨heq, hsome⟩
    · have hself : u = term.keep := congrArg Prod.fst hsame
      exact absurd hterm.2.2 (by rw [← hself]; exact lt_irrefl _)
    · exact sqlEq_iff.2 ⟨heq.symm, by rw [heq]; exact hsome⟩

theorem keptRows_mono (hschema : d'.schema = d.schema) (ht : t ∈ d.schema.tables)
    (h : ∀ own ∈ keptRows hash rows (d.plan cut) t, own ∈ keptRows hash rows (d'.plan cut) t) :
    (keptRows hash rows (d.plan cut) t).Subperm (keptRows hash rows (d'.plan cut) t) := by
  classical
  have ht' : t ∈ d'.schema.tables := by rwa [hschema]
  have hreason : ∀ own ∈ rows t, Keeps d hash cut (keptRows hash rows (d.plan cut)) t own →
      Keeps d' hash cut (keptRows hash rows (d'.plan cut)) t own :=
    fun own hown hkeeps => ((mem_keptRows ht').1 (h own ((mem_keptRows ht).2 ⟨hown, hkeeps⟩))).2
  rw [keptRows_filter ht, keptRows_filter ht']
  have htwice : ((rows t).filter fun own => Keeps d' hash cut (keptRows hash rows (d'.plan cut)) t own).filter
      (fun own => Keeps d hash cut (keptRows hash rows (d.plan cut)) t own) =
      (rows t).filter fun own => Keeps d hash cut (keptRows hash rows (d.plan cut)) t own := by
    rw [List.filter_filter]
    apply List.filter_congr
    intro own hown
    by_cases hkeeps : Keeps d hash cut (keptRows hash rows (d.plan cut)) t own
    · simp [hkeeps, hreason own hown hkeeps]
    · simp [hkeeps]
  rw [← htwice]
  exact List.filter_sublist.subperm

end

/-! ## The frozen rows of a chain -/

section
variable {d d' : ReferentialDownscaler} {t u e : String} {cut : Int} {links : List (String × KeepTerm)}

def frozenRow (links : List (String × KeepTerm)) (u : String) : DataRow (Quot (Linked links)) :=
  fun c => some (Quot.mk _ (u, c))

/-- Each table of the chain holds its frozen row, and NULLs up to its row count. -/
def frozenRows (d : ReferentialDownscaler) (t : String) (links : List (String × KeepTerm)) (u : String) :
    List (DataRow (Quot (Linked links))) :=
  if u ∈ onChain t links then frozenRow links u :: List.replicate (d.schema.rowCounts u - 1) fun _ => none
  else List.replicate (d.schema.rowCounts u) fun _ => none

theorem mem_frozenRows {r : DataRow (Quot (Linked links))} (h : r ∈ frozenRows d t links u) :
    (u ∈ onChain t links ∧ r = frozenRow links u) ∨ r = fun _ => none := by
  unfold frozenRows at h
  split at h
  · rename_i hu
    rcases List.mem_cons.1 h with rfl | h
    · exact .inl ⟨hu, rfl⟩
    · exact .inr (List.eq_of_mem_replicate h)
  · exact .inr (List.eq_of_mem_replicate h)

theorem frozen_mem (h : u ∈ onChain t links) : frozenRow links u ∈ frozenRows d t links u := by
  unfold frozenRows
  rw [if_pos h]
  exact List.mem_cons_self

theorem frozen_eq {a b c c' : String} : frozenRow links a c = frozenRow links b c' ↔ Equated links (a, c) (b, c') := by
  unfold frozenRow Equated
  rw [Option.some_inj, Quot.eq]

open Classical in
/-- It samples the frozen anchor, by the key of `d`. -/
noncomputable def frozenHash (d : ReferentialDownscaler) (links : List (String × KeepTerm)) (e : String)
    (l : List (Option (Quot (Linked links)))) : Nat :=
  if e ∈ d.islandAnchors ∧ l = (d.sampleKey e).map (frozenRow links e) then 0 else 999

theorem frozen_sampled (he : e ∈ d.islandAnchors) :
    sampled (frozenHash d links e) (d.sampleKey e) 500 (frozenRow links e) = true := by
  unfold sampled frozenHash
  rw [if_pos ⟨he, rfl⟩]
  decide

theorem sampled_frozen (h : sampled (frozenHash d links e) (d'.sampleKey u) 500 (frozenRow links u) = true) :
    e ∈ d.islandAnchors ∧
      List.Forall₂ (Equated links) ((d'.sampleKey u).map fun c => (u, c)) ((d.sampleKey e).map fun c => (e, c)) := by
  unfold sampled frozenHash at h
  split at h
  · rename_i hfound
    refine ⟨hfound.1, ?_⟩
    rw [List.forall₂_map_left_iff, List.forall₂_map_right_iff]
    have hkeys : List.Forall₂ (· = ·) ((d'.sampleKey u).map (frozenRow links u))
      ((d.sampleKey e).map (frozenRow links e)) := by
      rw [List.forall₂_eq_eq_eq]
      exact hfound.2
    rw [List.forall₂_map_left_iff, List.forall₂_map_right_iff] at hkeys
    exact hkeys.imp fun c c' hcell => frozen_eq.1 hcell
  · exact absurd h (by decide)

section
open Classical

variable {hash : List (Option (Quot (Linked links))) → Nat}

/-- `d` keeps the frozen rows of its chain, from the end on. -/
theorem frozen_kept {s : String} {links' : List (String × KeepTerm)} (h : Chain d s links' e) (hlinks : links' ⊆ links)
    (htables : onChain s links' ⊆ onChain t links)
    (hend : e ∈ d.islandAnchors → sampled hash (d.sampleKey e) cut (frozenRow links e) = true) :
    frozenRow links s ∈ keptRows hash (frozenRows d t links) (d.plan cut) s := by
  have hstart : s ∈ onChain t links := htables (by simp [onChain])
  induction h with
  | @stop s hs hnot =>
    rw [mem_keptRows hs]
    refine ⟨frozen_mem hstart, ?_⟩
    by_cases hanchor : s ∈ d.islandAnchors
    · exact .inl ⟨hanchor, hend hanchor⟩
    · exact .inr (.inl ⟨hanchor, hnot⟩)
  | @step s e term links' hwhole hterm hrest ih =>
    obtain ⟨⟨rel, hrel, hside⟩, -⟩ := id hterm
    have hnext : onChain term.keep links' ⊆ onChain t links := fun u hu => htables (mem_onChain_step.2 (.inr hu))
    have hkeep := ih (fun link hlink => hlinks (List.mem_cons_of_mem _ hlink)) hnext hend (hnext (by simp [onChain]))
    rw [mem_keptRows (side_known hrel hside).1]
    refine ⟨frozen_mem hstart, .inr (.inr ⟨⟨hwhole, term, hterm⟩, term, hterm, _, hkeep, ?_⟩)⟩
    rw [KeepTerm.holds, List.all_eq_true]
    intro p hp
    rw [sqlEq_iff]
    refine ⟨?_, rfl⟩
    symm
    apply frozen_eq.2
    exact .rel _ _ ⟨(s, term), hlinks List.mem_cons_self, p, hp, rfl, rfl⟩

theorem pairs_ne {term : KeepTerm} (h : d.Restricts t term) : term.pairs ≠ [] := by
  obtain ⟨⟨rel, hrel, hside⟩, -⟩ := h
  have hconditions := d.conditions rel hrel
  obtain ⟨-, ⟨-, -, hpairs⟩ | ⟨-, -, hpairs⟩⟩ := JoinRelationship.other_some hside
  · rwa [hpairs]
  · rw [hpairs]
    simpa using hconditions

/-- A frozen row that `d'` keeps is covered: there is nothing else on the way. -/
theorem covered_of_frozen (hschema : d'.schema = d.schema) (hchain : Chain d t links e) (hu : u ∈ onChain t links)
    (h : frozenRow links u ∈ keptRows (frozenHash d links e) (frozenRows d t links) (d'.plan 500) u) :
    Covered d d' t links e u := by
  induction hn : d'.orderIndex u using Nat.strong_induction_on generalizing u with
  | _ n ih =>
    subst hn
    have hknown : ∀ u ∈ onChain t links, u ∈ d'.schema.tables := by
      rw [hschema]
      exact hchain.known
    obtain ⟨-, hkeeps⟩ := (mem_keptRows (hknown u hu)).1 h
    rcases hkeeps with ⟨hanchor, hsampled⟩ | ⟨hanchor, hnot⟩ | ⟨hsampled, term, hterm, k, hk, hholds⟩
    · obtain ⟨he, hkeys⟩ := sampled_frozen hsampled
      exact .anchor hu hanchor he hkeys
    · exact .kept hu hanchor hnot
    · rw [KeepTerm.holds, List.all_eq_true] at hholds
      have hkeep := ((mem_keptRows hterm.known).1 hk).1
      rcases mem_frozenRows hkeep with ⟨hon, rfl⟩ | rfl
      · refine .step hu hsampled.1 hterm (fun p hp => ?_) (ih _ hterm.2.2 hon hk rfl)
        exact frozen_eq.1 (sqlEq_iff.1 (hholds p hp)).1.symm
      · -- a row of NULLs matches nothing
        obtain ⟨p, hp⟩ := List.exists_mem_of_ne_nil _ (pairs_ne hterm)
        exact absurd (hholds p hp) (by simp [sqlEq])

end

/-! ## All contents -/

theorem chain_big (h : Chain d t links e) (ht : d.wholeTableThreshold < d.schema.rowCounts t) :
    ∀ u ∈ onChain t links, d.wholeTableThreshold < d.schema.rowCounts u := by
  induction h with
  | stop => simpa [onChain] using ht
  | @step t e term links hwhole hterm hrest ih =>
    intro u hu
    rcases mem_onChain_step.1 hu with rfl | hu
    · exact ht
    · apply ih _ u hu
      by_contra hsmall
      refine hterm.2.1 ⟨hterm.known, fun hanchor => hsmall (anchor_big hanchor), not_lt.1 hsmall⟩

theorem frozenRows_length (hbig : ∀ u ∈ onChain t links, d.wholeTableThreshold < d.schema.rowCounts u) (u : String) :
    (frozenRows d t links u).length = d.schema.rowCounts u := by
  unfold frozenRows
  split
  · rename_i hu
    have hpos := hbig u hu
    simp only [List.length_cons, List.length_replicate]
    omega
  · exact List.length_replicate

/-- **Another plan keeps more for all contents iff it covers every chain.** -/
theorem keepsMore_iff (hschema : d'.schema = d.schema) (hthreshold : d'.wholeTableThreshold = d.wholeTableThreshold) :
    KeepsMore d d' ↔ ∀ t links e, Chain d t links e → Covered d d' t links e t := by
  constructor
  · intro h t links e hchain
    have hstart : t ∈ onChain t links := by simp [onChain]
    have ht := hchain.known t hstart
    by_cases hbig : d.wholeTableThreshold < d.schema.rowCounts t
    · classical
      have hcut : keepCut (1 / 2) = 500 := by decide +kernel
      have hplan : ∀ d : ReferentialDownscaler, ∃ r, d.planSubset (1 / 2) = .ok r ∧ r.tables = d.plan 500 := by
        intro d
        refine ⟨_, planSubset_eq (by decide +kernel) (by decide +kernel) (by rw [hcut]; decide), ?_⟩
        rw [hcut]
      obtain ⟨r, hr, hrplan⟩ := hplan d
      obtain ⟨r', hr', hrplan'⟩ := hplan d'
      have hsub := h _ (frozenHash d links e) (frozenRows d t links)
        (fun u _ => frozenRows_length (chain_big hchain hbig) u) (1 / 2) (by decide +kernel) r r' hr hr' t ht
      rw [hrplan, hrplan'] at hsub
      have hkept : frozenRow links t ∈ keptRows (frozenHash d links e) (frozenRows d t links) (d.plan 500) t :=
        frozen_kept hchain (List.Subset.refl _) (List.Subset.refl _) fun he => frozen_sampled he
      exact covered_of_frozen hschema hchain hstart (hsub.subset hkept)
    · have hsmall : d'.schema.rowCounts t ≤ d'.wholeTableThreshold := by
        rw [hschema, hthreshold]
        exact not_lt.1 hbig
      have hanchor : t ∉ d'.islandAnchors := fun ha => absurd (anchor_big ha) (not_lt.2 hsmall)
      have ht' : t ∈ d'.schema.tables := by rwa [hschema]
      exact .kept hstart hanchor fun hsampled => hsampled.1 ⟨ht', hanchor, hsmall⟩
  · intro h V _ hash rows _ fraction hlt r r' hr hr' t ht
    obtain ⟨-, hplan, -⟩ := planSubset_ok hlt hr
    obtain ⟨-, hplan', -⟩ := planSubset_ok hlt hr'
    rw [hplan, hplan']
    apply keptRows_mono hschema ht
    intro own hown
    obtain ⟨links, e, ρ, hchain, hw, rfl⟩ := exists_chain ht hown
    exact covered_kept hschema hchain hw (h t links e hchain)

end

/-- `orders` has two rows and `users` one. -/
def twoTables : SchemaInfo where
  tables := ["orders", "users"]
  rowCounts t := if t = "orders" then 2 else 1
  columns _ := ["id"]
  pkColumns _ := []
  colOwner _ := ["orders", "users"]
  names := by
    have hlen : ¬ sameName "orders" "users" := by
      intro h
      have hlength := congrArg String.length h
      rw [toLower_length, toLower_length] at hlength
      exact absurd hlength (by decide)
    simp [hlen]

def apart (threshold : Nat) : ReferentialDownscaler where
  schema := twoTables
  edges := []
  relationships := []
  wholeTableThreshold := threshold
  views := views_nil
  distinct := distinct_nil
  known := by simp
  conditions := conditions_nil

def joined (threshold : Nat) : ReferentialDownscaler where
  schema := twoTables
  edges := [.make "orders" "id" "users" "id"]
  relationships := [⟨"orders", "users", [("id", "id")]⟩]
  wholeTableThreshold := threshold
  views := by simp
  distinct := by decide +kernel
  known := by decide +kernel
  conditions := by simp

theorem apart_joined (threshold : Nat) :
    ExtraEdge (apart threshold) (joined threshold) ⟨"orders", "users", [("id", "id")]⟩ where
  schema := rfl
  threshold := rfl
  single := ⟨_, rfl⟩
  relationships := by simp [apart, joined]

def nullRows (t : String) : List (DataRow Nat) :=
  if t = "orders" then [fun _ => none, fun _ => none] else [fun _ => none]

end SynnoDB.Workload.Downscale
