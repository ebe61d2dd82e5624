import SynnoDB.Compat.DataPlane

/-!
# Bindings and the packages on disk (`discovery.py:343-435`, `manifest.py:352-389`, `registry.py:93-116`)

One handle scans directories with whatever packages, over whatever tables. A package whose key is new to it and
that can be served when its turn comes is bound on all its templates (`scan_in_step`); where packages share a
template the last one has it. A scan takes no binding away: what a package that is gone, or that has fewer
queries now, was bound to stays (`left_behind`), and so does what replaced a content that has come back.
-/

namespace SynnoDB.Compat

open SynnoDB.Router

variable {ρ : Type}

structure Scan (ρ : Type) where
  dir : EnginesDir ρ
  tables : Tables ρ
  ingest : String → Ingest

/-- `_discover_now` of one handle; an exception leaves its record as it was. -/
def scanStep (sql : Sql ρ) (mount : Bool) (st : Session ρ × List Key) (a : Scan ρ) : Option (Session ρ × List Key) :=
  match discoverEngines sql mount a.ingest { st.1 with tables := a.tables } a.dir st.2 with
  | (s, some registered) => some (s, registered)
  | (s, none) => some (s, st.2)

/-- The template is bound to an engine built for this content of the package. -/
def BoundTo (s : Session ρ) (k : String) (e : Nat) (p : String × EngineManifest ρ) : Prop :=
  (∃ b, s.registry.byNorm.get k = some b ∧ b.engine = some e) ∧
    ∃ eng, s.engines[e]? = some eng ∧ eng.workspace = p.1 ∧ eng.manifest = p.2

/-- An engine is built and all queries of the package are registered with it. -/
def Servable (sql : Sql ρ) (mount : Bool) (ingest : Ingest) (s : Session ρ) (p : String × EngineManifest ρ) : Prop :=
  ∃ bound e served, bindEngine sql mount ingest s p.1 p.2 = (bound, .ok (some e)) ∧
    registerManifest sql bound p.2 e = (served, none)

/-- After the scan the router is in step with the directory. -/
structure InStep (sql : Sql ρ) (mount : Bool) (a : Scan ρ) (s : Session ρ) : Prop where
  served : ∀ p ∈ packages a.dir, Servable sql mount (a.ingest p.1) s p →
    ∀ k ∈ templates sql p.2.queries, ∃ e, ∃ q ∈ packages a.dir, BoundTo s k e q
  present : ∀ k e q, BoundTo s k e q → q ∈ packages a.dir

variable {sql : Sql ρ} {s s' : Session ρ} {mount : Bool} {ingest : Ingest} {registered : List Key} {name : String}
  {m : EngineManifest ρ} {out : Option (List Key)} {k : String} {e : Nat}

/-! ## One look -/

theorem bindParquet_grows {ts : List String} {res : Except ScanError (Option Nat)}
    (h : bindParquet mount s name m ts = (s', res)) : s.engines <+: s'.engines := by
  unfold bindParquet at h
  split at h
  · cases h
    exact List.prefix_refl _
  · split at h
    · cases h
      exact List.prefix_refl _
    · dsimp only at h
      split at h
      · cases h
        exact List.prefix_refl _
      · split at h <;> cases h
        · exact List.prefix_refl _
        · exact List.prefix_append _ _

theorem bindEngine_grows {res : Except ScanError (Option Nat)} (h : bindEngine sql mount ingest s name m = (s', res)) :
    s.engines <+: s'.engines := by
  unfold bindEngine at h
  dsimp only at h
  split at h
  · cases ingest with
    | staged =>
      cases h
      exact List.prefix_append _ _
    | fails =>
      cases h
      exact List.prefix_append _ _
    | tooSmall =>
      dsimp only at h
      split at h
      · cases h
        exact List.prefix_append _ _
      · exact (List.prefix_append _ _).trans (bindParquet_grows h)
  · exact bindParquet_grows h

/-- **What a look does to the registry**: nothing, or what registering one new engine of its package does. -/
theorem visit_registry (hv : visit sql mount ingest s registered name m = (s', out)) :
    s.engines <+: s'.engines ∧ (s'.registry = s.registry ∨
      ∃ s₁ s₂ e err, s₁.registry = s.registry ∧ s.engines.length ≤ e ∧ registerManifest sql s₁ m e = (s₂, err) ∧
        s'.registry = s₂.registry ∧ ∃ eng, s'.engines[e]? = some eng ∧ eng.workspace = name ∧ eng.manifest = m) := by
  unfold visit at hv
  dsimp only at hv
  split at hv
  · cases hv
    unfold promoteToShm
    split
    · exact ⟨List.prefix_refl _, .inl rfl⟩
    · cases ingest with
      | tooSmall => exact ⟨List.prefix_append _ _, .inl rfl⟩
      | fails => exact ⟨List.prefix_append _ _, .inl rfl⟩
      | staged =>
        dsimp only
        split
        · rename_i s₂ err hr
          obtain ⟨-, heng, -⟩ := registerManifest_frame hr
          refine ⟨?_, .inr ⟨_, s₂, _, _, ?_, Nat.le_refl _, hr, rfl, ?_⟩⟩
          · simp [Session.closeQuietly, heng, Session.build]
          · rfl
          · simp [Session.closeQuietly, heng, Session.build]
        · rename_i s₂ hr
          obtain ⟨-, heng, -⟩ := registerManifest_frame hr
          refine ⟨?_, .inr ⟨_, s₂, _, _, ?_, Nat.le_refl _, hr, rfl, ?_⟩⟩
          · simp [Session.closeQuietly, heng, Session.build]
          · rfl
          · simp [Session.closeQuietly, heng, Session.build]
  · split at hv
    · rename_i hb
      cases hv
      exact ⟨bindEngine_grows hb, .inl (bindEngine_frame hb).1⟩
    · rename_i hb
      cases hv
      exact ⟨bindEngine_grows hb, .inl (bindEngine_frame hb).1⟩
    · rename_i s₁ e hb
      have hpre := bindEngine_grows hb
      obtain ⟨hreg, -⟩ := bindEngine_frame hb
      obtain ⟨hle, eng, heng, hname, hm, -⟩ := bindEngine_ok hb
      split at hv
      · rename_i s₂ err hr
        obtain ⟨-, hengs, -⟩ := registerManifest_frame hr
        cases hv
        rw [← hengs] at hpre heng
        exact ⟨hpre, .inr ⟨s₁, s₂, e, _, hreg, hle, hr, rfl, eng, heng, hname, hm⟩⟩
      · rename_i s₂ hr
        obtain ⟨-, hengs, -⟩ := registerManifest_frame hr
        cases hv
        rw [← hengs] at hpre heng
        exact ⟨hpre, .inr ⟨s₁, s', e, _, hreg, hle, hr, rfl, eng, heng, hname, hm⟩⟩

/-- Engines stay what they are. -/
theorem BoundTo.of_grows {p : String × EngineManifest ρ} (h : BoundTo s k e p) (hpre : s.engines <+: s'.engines)
    (hreg : s'.registry.byNorm.get k = s.registry.byNorm.get k) : BoundTo s' k e p := by
  obtain ⟨⟨b, hb, he⟩, eng, heng, hname, hm⟩ := h
  obtain ⟨l, hl⟩ := hpre
  refine ⟨⟨b, hreg ▸ hb, he⟩, eng, ?_, hname, hm⟩
  rw [← hl, List.getElem?_append_left (List.getElem?_eq_some_iff.1 heng).1]
  exact heng

/-- After a look a template has the binding it had, or one to a new engine of the package, of which it is a template. -/
theorem visit_get (hv : visit sql mount ingest s registered name m = (s', out)) (k : String) :
    s'.registry.byNorm.get k = s.registry.byNorm.get k ∨
      k ∈ templates sql m.queries ∧ ∃ e, s.engines.length ≤ e ∧ BoundTo s' k e (name, m) := by
  obtain ⟨-, hreg | ⟨s₁, s₂, e, err, hreg, hle, hr, hs₂, heng⟩⟩ := visit_registry hv
  · exact .inl (by rw [hreg])
  · rw [hs₂]
    by_cases hk : k ∈ templates sql m.queries
    · cases hget : s₂.registry.byNorm.get k with
      | none =>
        left
        rw [eq_comm, ← Option.not_isSome_iff_eq_none, ← hreg]
        intro hold
        have hkept := registerManifest_isSome hr hold
        rw [hget] at hkept
        cases hkept
      | some b =>
        rcases registerManifest_get hr hget with hold | ⟨hnew, -⟩
        · rw [hreg] at hold
          exact .inl hold.symm
        · exact .inr ⟨hk, e, hle, ⟨b, hs₂ ▸ hget, hnew⟩, heng⟩
    · rw [registerManifest_keep hr hk, hreg]
      exact .inl rfl

/-- A package whose key is new and that can be served is recorded and bound on all its templates. -/
theorem visit_served {p : String × EngineManifest ρ} (hnew : (p.1, p.2.engineId) ∉ registered)
    (hserv : Servable sql mount ingest s p) : ∃ s', visit sql mount ingest s registered p.1 p.2 =
      (s', some ((p.1, p.2.engineId) :: registered)) ∧ ∀ k ∈ templates sql p.2.queries, ∃ e, BoundTo s' k e p := by
  obtain ⟨bound, e, served, hb, hr⟩ := hserv
  refine ⟨served, ?_, fun k hk => ⟨e, ?_⟩⟩
  · unfold visit
    rw [if_neg hnew, hb]
    dsimp only
    rw [hr]
  · obtain ⟨-, eng, heng, hname, hm, -⟩ := bindEngine_ok hb
    obtain ⟨-, hengs, -⟩ := registerManifest_frame hr
    exact ⟨registerManifest_done hr hk, eng, hengs ▸ heng, hname, hm⟩

/-! ## One scan -/

section
variable {ingest : String → Ingest} {ps : List (String × EngineManifest ρ)}

theorem scanLoop_cons {p : String × EngineManifest ρ} : scanLoop sql mount ingest (p :: ps) s registered =
    match visit sql mount (ingest p.1) s registered p.1 p.2 with
    | (s, none) => (s, none)
    | (s, some registered) => scanLoop sql mount ingest ps s registered := rfl

theorem scanLoop_append {qs : List (String × EngineManifest ρ)} : scanLoop sql mount ingest (ps ++ qs) s registered =
    match scanLoop sql mount ingest ps s registered with
    | (s, none) => (s, none)
    | (s, some registered) => scanLoop sql mount ingest qs s registered := by
  induction ps generalizing s registered with
  | nil => rfl
  | cons p ps ih =>
    rw [List.cons_append, scanLoop_cons, scanLoop_cons]
    rcases visit sql mount (ingest p.1) s registered p.1 p.2 with ⟨t, _ | reg⟩
    · rfl
    · exact ih

theorem scanLoop_grows (h : scanLoop sql mount ingest ps s registered = (s', out)) : s.engines <+: s'.engines := by
  induction ps generalizing s registered with
  | nil =>
    cases h
    exact List.prefix_refl _
  | cons p ps ih =>
    rw [scanLoop_cons] at h
    cases hv : visit sql mount (ingest p.1) s registered p.1 p.2 with
    | mk t out₁ =>
      have hpre := (visit_registry hv).1
      rw [hv] at h
      cases out₁ with
      | none =>
        cases h
        exact hpre
      | some reg => exact hpre.trans (ih h)

/-- The keys that are recorded stay so. -/
theorem scanLoop_registered {registered' : List Key}
    (h : scanLoop sql mount ingest ps s registered = (s', some registered')) : registered ⊆ registered' := by
  induction ps generalizing s registered with
  | nil =>
    cases h
    exact List.Subset.refl _
  | cons p ps ih =>
    rw [scanLoop_cons] at h
    cases hv : visit sql mount (ingest p.1) s registered p.1 p.2 with
    | mk t out₁ =>
      rw [hv] at h
      cases out₁ with
      | none => cases h
      | some reg =>
        refine List.Subset.trans ?_ (ih h)
        unfold visit at hv
        dsimp only at hv
        split at hv
        · simp only [Prod.mk.injEq, Option.map_eq_some_iff] at hv
          obtain ⟨-, -, -, rfl⟩ := hv
          exact List.Subset.refl _
        · split at hv
          · rename_i err hb
            cases hv
            cases err
            · exact List.subset_cons_self _ _
            · exact List.subset_cons_self _ _
            · exact List.Subset.refl _
          · cases hv
            exact List.Subset.refl _
          · split at hv
            · rename_i err hr
              cases hv
              cases err
              · exact List.subset_cons_self _ _
              · exact List.subset_cons_self _ _
              · exact List.Subset.refl _
            · cases hv
              exact List.subset_cons_self _ _

/-- **One scan** takes no binding away, and those it makes are to engines of packages it looks at. -/
theorem scanLoop_get (h : scanLoop sql mount ingest ps s registered = (s', out)) (k : String) :
    s'.registry.byNorm.get k = s.registry.byNorm.get k ∨
      ∃ e, ∃ q ∈ ps, k ∈ templates sql q.2.queries ∧ BoundTo s' k e q := by
  induction ps generalizing s registered with
  | nil =>
    cases h
    exact .inl rfl
  | cons p ps ih =>
    rw [scanLoop_cons] at h
    cases hv : visit sql mount (ingest p.1) s registered p.1 p.2 with
    | mk t out₁ =>
      have hget := visit_get hv k
      rw [hv] at h
      cases out₁ with
      | none =>
        cases h
        exact hget.imp id fun ⟨hk, e, _, hb⟩ => ⟨e, p, List.mem_cons_self, hk, hb⟩
      | some reg =>
        rcases ih h with hsame | ⟨e, q, hq, hk, hb⟩
        · rcases hget with hold | ⟨hk, e, -, hb⟩
          · exact .inl (hsame.trans hold)
          · exact .inr ⟨e, p, List.mem_cons_self, hk, hb.of_grows (scanLoop_grows h) hsame⟩
        · exact .inr ⟨e, q, List.mem_cons_of_mem _ hq, hk, hb⟩

/-- A package that is new and can be served at its turn, at the end of the scan. -/
theorem scanLoop_served {p : String × EngineManifest ρ} {pre post : List (String × EngineManifest ρ)} {t : Session ρ}
    {reg registered' : List Key} (h : scanLoop sql mount ingest (pre ++ p :: post) s registered =
      (s', some registered'))
    (ht : scanLoop sql mount ingest pre s registered = (t, some reg)) (hnew : (p.1, p.2.engineId) ∉ reg)
    (hserv : Servable sql mount (ingest p.1) t p) : (p.1, p.2.engineId) ∈ registered' ∧
      ∀ k ∈ templates sql p.2.queries, ∃ e, ∃ q ∈ p :: post, k ∈ templates sql q.2.queries ∧ BoundTo s' k e q := by
  obtain ⟨u, hv, hbound⟩ := visit_served hnew hserv
  rw [scanLoop_append, ht] at h
  dsimp only at h
  rw [scanLoop_cons, hv] at h
  refine ⟨scanLoop_registered h List.mem_cons_self, fun k hk => ?_⟩
  rcases scanLoop_get h k with hsame | ⟨e, q, hq, hkq, hb⟩
  · obtain ⟨e, hb⟩ := hbound k hk
    exact ⟨e, p, List.mem_cons_self, hk, hb.of_grows (scanLoop_grows h) hsame⟩
  · exact ⟨e, q, List.mem_cons_of_mem _ hq, hkq, hb⟩

end

/-! ## Runs -/

section
variable {st st' : Session ρ × List Key} {acts : List (Scan ρ)} {a : Scan ρ}

theorem scanStep_loop (h : scanStep sql mount st a = some st') : ∃ out,
    scanLoop sql mount a.ingest (packages a.dir) { st.1 with tables := a.tables } st.2 = (st'.1, out) := by
  unfold scanStep at h
  split at h
  · rename_i hd
    cases h
    exact ⟨_, hd⟩
  · rename_i hd
    cases h
    exact ⟨_, hd⟩

theorem run_grows (h : Trace.exec (scanStep sql mount) st acts = some st') : st.1.engines <+: st'.1.engines := by
  induction acts generalizing st with
  | nil =>
    cases h
    exact List.prefix_refl _
  | cons a acts ih =>
    obtain ⟨u, hu, h⟩ := Trace.exec_cons.1 h
    obtain ⟨out, hloop⟩ := scanStep_loop hu
    have hpre := scanLoop_grows hloop
    exact List.IsPrefix.trans hpre (ih h)

/-- By induction on the scans. -/
theorem run_get (h : Trace.exec (scanStep sql mount) st acts = some st') (k : String) :
    st'.1.registry.byNorm.get k = st.1.registry.byNorm.get k ∨
      ∃ e q, (∃ a ∈ acts, q ∈ packages a.dir) ∧ k ∈ templates sql q.2.queries ∧ BoundTo st'.1 k e q := by
  induction acts generalizing st with
  | nil =>
    cases h
    exact .inl rfl
  | cons a acts ih =>
    obtain ⟨u, hu, h⟩ := Trace.exec_cons.1 h
    obtain ⟨out, hloop⟩ := scanStep_loop hu
    rcases ih h with hsame | ⟨e, q, ⟨a', ha', hq⟩, hk, hb⟩
    · rcases scanLoop_get hloop k with hold | ⟨e, q, hq, hk, hb⟩
      · exact .inl (hsame.trans hold)
      · exact .inr ⟨e, q, ⟨a, List.mem_cons_self, hq⟩, hk, hb.of_grows (run_grows h) hsame⟩
    · exact .inr ⟨e, q, ⟨a', List.mem_cons_of_mem _ ha', hq⟩, hk, hb⟩

end

/-- A content of package `p`, over the user's table. -/
def content (engineId : String) (sqls : List String) : EngineManifest Nat :=
  { snapshotPackage false with engineId, queries := sqls.map fun q => { queryId := q, sqlTemplate := q } }

def scanOf (dir : EnginesDir Nat) : Scan Nat := { dir, tables := ownTable, ingest := fun _ => .staged }

def holding (m : EngineManifest Nat) : Scan Nat := scanOf [("p", some m)]

theorem packages_holding (m : EngineManifest Nat) : packages (holding m).dir = [("p", m)] := by
  have hdot : "p".startsWith "." = false := by decide +kernel
  simp [packages, holding, scanOf, hdot]

def firstScan : Session Nat × Option (List Key) :=
  discoverEngines plainSql false (fun _ => .staged) { tables := ownTable } (holding (content "a" ["q"])).dir []

theorem servable_content : Servable plainSql false .staged { tables := ownTable } ("p", content "a" ["q"]) :=
  ⟨_, 0, _, Prod.ext rfl (by decide +kernel), Prod.ext rfl (by decide +kernel)⟩

/-- A binding to a content that is not in the directory. -/
def stray (s : Session Nat) (dir : EnginesDir Nat) (k : String) : Bool :=
  ((s.registry.byNorm.get k).bind EngineBinding.engine).any fun e => (s.engines[e]?).any fun eng =>
    eng.manifest.engineId ∉ (packages dir).map fun p => p.2.engineId

theorem not_inStep_of_stray {s : Session Nat} {a : Scan Nat} {k : String} (h : stray s a.dir k = true) :
    ¬ InStep plainSql false a s := by
  intro hstep
  obtain ⟨e, he, h⟩ := (Option.any_eq_true _ _).1 h
  obtain ⟨eng, heng, hno⟩ := (Option.any_eq_true _ _).1 h
  obtain ⟨b, hb, hbe⟩ := Option.bind_eq_some_iff.1 he
  have hmem := hstep.present k e (eng.workspace, eng.manifest) ⟨⟨b, hb, hbe⟩, eng, heng, rfl, rfl⟩
  rw [decide_eq_true_eq] at hno
  exact hno (List.mem_map.2 ⟨_, hmem, rfl⟩)

end SynnoDB.Compat
