import SynnoDB.Compat.Discovery

/-!
# Which rows a bound engine loads (`duckdb_compat/discovery.py:157-340`)

A run changes the tables of the connection and looks at packages, in any order; a scan is some of these looks.
The shm plane ingests what `SELECT *` returns at that moment. The parquet plane is chosen by the names of the
tables alone and loads the snapshot of the package: that is what the connection returns for the tables the
look has just mounted, and whatever the user has in the others (`snapshot_over_own_table`).
-/

namespace SynnoDB.Compat

open SynnoDB.Router

variable {ρ : Type}

inductive PlaneAct (ρ : Type) where
  | change (tables : Tables ρ)
  | look (mount : Bool) (ingest : Ingest) (registered : List Key) (name : String) (m : EngineManifest ρ)

def planeStep (sql : Sql ρ) (s : Session ρ) : PlaneAct ρ → Option (Session ρ)
  | .change tables => some { s with tables }
  | .look mount ingest registered name m => some (visit sql mount ingest s registered name m).1

/-- The engine loads what the connection returns. -/
def AnswersOverLive (sql : Sql ρ) (live : Tables ρ) (eng : Engine ρ) : Prop :=
  ∀ t ∈ engineTables sql eng.manifest, eng.data.get t = live.get t.toLower

/-- What an engine bound between `before` and `after` loads. -/
structure BoundData (sql : Sql ρ) (before after : Tables ρ) (eng : Engine ρ) : Prop where
  present : ∀ t ∈ engineTables sql eng.manifest, (after.get t.toLower).isSome = true
  shm : eng.plane = .shm → AnswersOverLive sql after eng
  process : eng.plane = .process → ∃ dir, eng.manifest.parquetDir = some dir ∧ eng.data = dir.files.getD []
  /-- A table that the look mounted, where no two names differ in case only. -/
  mounted : eng.plane = .process → ((engineTables sql eng.manifest).map String.toLower).Nodup →
    ∀ t ∈ engineTables sql eng.manifest, before.get t.toLower = none → eng.data.get t = after.get t.toLower

variable {sql : Sql ρ} {tables : Tables ρ} {ts : List String} {files : Dict String (Relation ρ)} {k t : String}

theorem get_alignedArrow (ht : t ∈ ts) (hpresent : (tables.get t.toLower).isSome = true) :
    (alignedArrow tables ts).get t = tables.get t.toLower := by
  obtain ⟨rel, hrel⟩ := Option.isSome_iff_exists.1 hpresent
  rw [hrel]
  induction ts with
  | nil => cases ht
  | cons u ts ih =>
    unfold alignedArrow at ih ⊢
    by_cases hu : u = t
    · subst hu
      simp [hrel, Dict.get]
    · have ht' := (List.mem_cons.1 ht).resolve_left (Ne.symm hu)
      cases hget : tables.get u.toLower with
      | none =>
        simp only [List.filterMap_cons, hget, Option.map_none]
        exact ih ht'
      | some rel' =>
        simp only [List.filterMap_cons, hget, Option.map_some, Dict.get, hu, if_false]
        exact ih ht'

theorem get_mountView : (mountView files tables t).get k =
    if t.toLower = k then (files.get t).or (tables.get k) else tables.get k := by
  unfold mountView
  split
  · rename_i hf
    rw [Dict.get_set, hf]
    split <;> rfl
  · rename_i hf
    rw [hf]
    split <;> rfl

theorem get_mount_of_notMem (hk : ∀ t ∈ ts, t.toLower ≠ k) :
    (mountSnapshotViews tables ts files).get k = tables.get k := by
  induction ts generalizing tables with
  | nil => rfl
  | cons u ts ih =>
    have hu := hk u List.mem_cons_self
    have hts : ∀ t ∈ ts, t.toLower ≠ k := fun t ht => hk t (List.mem_cons_of_mem _ ht)
    unfold mountSnapshotViews at ih ⊢
    rw [List.foldl_cons, ih hts, get_mountView, if_neg hu]

theorem get_mount_of_mem (hn : (ts.map String.toLower).Nodup) (ht : t ∈ ts) (hnone : tables.get t.toLower = none) :
    (mountSnapshotViews tables ts files).get t.toLower = files.get t := by
  induction ts generalizing tables with
  | nil => cases ht
  | cons u ts ih =>
    rw [List.map_cons, List.nodup_cons] at hn
    have hnot : ∀ t ∈ ts, t.toLower ≠ u.toLower := fun t ht heq => hn.1 (heq ▸ List.mem_map_of_mem ht)
    by_cases hu : u = t
    · subst hu
      have hrest := @get_mount_of_notMem ρ (mountView files tables u) ts files u.toLower hnot
      unfold mountSnapshotViews at hrest ⊢
      rw [List.foldl_cons, hrest, get_mountView, if_pos rfl, hnone, Option.or_none]
    · have ht' := (List.mem_cons.1 ht).resolve_left (Ne.symm hu)
      have hstep : (mountView files tables u).get t.toLower = none := by
        rw [get_mountView, if_neg (Ne.symm (hnot t ht'))]
        exact hnone
      have hrest := ih hn.2 ht' hstep
      unfold mountSnapshotViews at hrest ⊢
      rw [List.foldl_cons]
      exact hrest

/-- A view mounted for a missing table returns the rows of the snapshot. -/
theorem get_withViews {mount : Bool} {dir : ParquetDir ρ} (hn : (ts.map String.toLower).Nodup) (ht : t ∈ ts)
    (hnone : tables.get t.toLower = none) (hsome : ((withViews mount tables dir ts).get t.toLower).isSome = true) :
    (withViews mount tables dir ts).get t.toLower = (dir.files.getD []).get t := by
  unfold withViews at hsome ⊢
  split at hsome
  · rename_i files hfiles
    rw [hfiles, Option.getD_some]
    refine get_mount_of_mem ?_ (List.mem_filter.2 ⟨ht, by simp [present, hnone]⟩) hnone
    exact hn.sublist (List.filter_sublist.map _)
  · rw [hnone] at hsome
    cases hsome

/-! ## Binding -/

section
variable {s s' : Session ρ} {m : EngineManifest ρ} {name : String} {mount : Bool} {ingest : Ingest} {e : Nat}
  {r : Except ScanError (Option Nat)}

theorem bindParquet_frame (h : bindParquet mount s name m ts = (s', r)) :
    s'.registry = s.registry ∧ s'.closed = s.closed ∧ s.engines.length ≤ s'.engines.length := by
  unfold bindParquet at h
  split at h
  · cases h
    exact ⟨rfl, rfl, Nat.le_refl _⟩
  · split at h
    · cases h
      exact ⟨rfl, rfl, Nat.le_refl _⟩
    · dsimp only at h
      split at h
      · cases h
        exact ⟨rfl, rfl, Nat.le_refl _⟩
      · split at h
        · cases h
          exact ⟨rfl, rfl, Nat.le_refl _⟩
        · cases h
          simp [Session.build]

theorem bindParquet_ok (h : bindParquet mount s name m (engineTables sql m) = (s', .ok (some e))) :
    s.engines.length ≤ e ∧ ∃ eng, s'.engines[e]? = some eng ∧ eng.workspace = name ∧ eng.manifest = m ∧
      BoundData sql s.tables s'.tables eng := by
  unfold bindParquet at h
  split at h
  · cases h
  · rename_i dir hdir
    split at h
    · cases h
    · dsimp only at h
      split at h
      · cases h
      · rename_i hall
        split at h
        · cases h
        · simp only [Prod.mk.injEq, Except.ok.injEq, Option.some.injEq] at h
          obtain ⟨rfl, rfl⟩ := h
          simp only [Bool.not_eq_true', Bool.not_eq_false, List.all_eq_true] at hall
          refine ⟨Nat.le_refl _, ⟨.process, name, m, dir.files.getD []⟩, by simp [Session.build], rfl, rfl, ?_⟩
          constructor
          · exact hall
          · nofun
          · intro _
            exact ⟨dir, hdir, rfl⟩
          · intro _ hn t ht hnone
            exact (get_withViews hn ht hnone (hall t ht)).symm

theorem bindEngine_frame (h : bindEngine sql mount ingest s name m = (s', r)) :
    s'.registry = s.registry ∧ s.engines.length ≤ s'.engines.length := by
  unfold bindEngine at h
  dsimp only at h
  split at h
  · cases ingest with
    | staged =>
      cases h
      simp [Session.build]
    | fails =>
      cases h
      simp [Session.build]
    | tooSmall =>
      dsimp only at h
      split at h
      · cases h
        simp [Session.build, Session.closeQuietly]
      · obtain ⟨hreg, -, hlen⟩ := bindParquet_frame h
        simp only [Session.closeQuietly, Session.build, List.length_append, List.length_singleton] at hreg hlen
        exact ⟨hreg, by omega⟩
  · obtain ⟨hreg, -, hlen⟩ := bindParquet_frame h
    exact ⟨hreg, hlen⟩

/-- The shm plane loads what the connection returns. -/
theorem boundData_shm (hall : (engineTables sql m).all (present s.tables) = true) :
    BoundData sql s.tables s.tables ⟨.shm, name, m, alignedArrow s.tables (engineTables sql m)⟩ := by
  rw [List.all_eq_true] at hall
  constructor
  · exact hall
  · intro _ t ht
    exact get_alignedArrow ht (hall t ht)
  · nofun
  · nofun

theorem bindEngine_ok (h : bindEngine sql mount ingest s name m = (s', .ok (some e))) :
    s.engines.length ≤ e ∧ ∃ eng, s'.engines[e]? = some eng ∧ eng.workspace = name ∧ eng.manifest = m ∧
      BoundData sql s.tables s'.tables eng := by
  unfold bindEngine at h
  dsimp only at h
  split at h
  · rename_i hshm
    simp only [Bool.and_eq_true] at hshm
    cases ingest with
    | staged =>
      cases h
      exact ⟨Nat.le_refl _, _, by simp [Session.build], rfl, rfl, boundData_shm hshm.1.2⟩
    | fails => cases h
    | tooSmall =>
      dsimp only at h
      split at h
      · cases h
      · obtain ⟨hle, heng⟩ := bindParquet_ok h
        simp only [Session.closeQuietly, Session.build, List.length_append, List.length_singleton] at hle
        exact ⟨by omega, heng⟩
  · exact bindParquet_ok h

/-! ## One look -/

/-- Bindings refer to engines that were built. -/
def Session.Wf (s : Session ρ) : Prop :=
  ∀ k b e, s.registry.byNorm.get k = some b → b.engine = some e → e < s.engines.length

theorem Session.Wf.closeQuietly (h : s.Wf) (e : Nat) : (s.closeQuietly e).Wf := h

theorem Session.Wf.bind {r : Except ScanError (Option Nat)} (h : s.Wf)
    (hb : bindEngine sql mount ingest s name m = (s', r)) :
    s'.Wf := by
  obtain ⟨hreg, hlen⟩ := bindEngine_frame hb
  intro k b e hk he
  rw [hreg] at hk
  have := h k b e hk he
  omega

theorem Session.Wf.register {err : Option ScanError} (h : s.Wf) (he : e < s.engines.length)
    (hr : registerManifest sql s m e = (s', err)) : s'.Wf := by
  obtain ⟨-, heng, -⟩ := registerManifest_frame hr
  intro k b e' hk hb
  rw [heng]
  rcases registerManifest_get hr hk with hold | ⟨hnew, -⟩
  · exact h k b e' hold hb
  · rw [hnew] at hb
    cases hb
    exact he

theorem Session.Wf.build (h : s.Wf) (eng : Engine ρ) : (s.build eng).Wf := by
  intro k b e hk he
  have := h k b e hk he
  simp only [Session.build, List.length_append, List.length_singleton]
  omega

theorem wf_promote {ok : Option Bool} (h : s.Wf) (hp : promoteToShm sql ingest s name m = (s', ok)) : s'.Wf := by
  unfold promoteToShm at hp
  split at hp
  · cases hp
    exact h
  · dsimp only at hp
    cases ingest with
    | tooSmall =>
      cases hp
      exact h.build _
    | fails =>
      cases hp
      exact h.build _
    | staged =>
      dsimp only at hp
      split at hp
      · rename_i hr
        cases hp
        exact ((h.build _).register (by simp [Session.build]) hr).closeQuietly _
      · rename_i hr
        cases hp
        exact ((h.build _).register (by simp [Session.build]) hr).closeQuietly _

theorem wf_visit {registered : List Key} {out : Option (List Key)} (h : s.Wf)
    (hv : visit sql mount ingest s registered name m = (s', out)) : s'.Wf := by
  unfold visit at hv
  dsimp only at hv
  split at hv
  · cases hv
    exact wf_promote h rfl
  · split at hv
    · rename_i hb
      cases hv
      exact h.bind hb
    · rename_i hb
      cases hv
      exact h.bind hb
    · rename_i s₁ e hb
      have hwf := h.bind hb
      obtain ⟨-, eng, heng, -⟩ := bindEngine_ok hb
      have he := (List.getElem?_eq_some_iff.1 heng).1
      split at hv
      · rename_i hr
        cases hv
        exact (hwf.register he hr).closeQuietly _
      · rename_i hr
        cases hv
        exact hwf.register he hr

/-- Bindings to engines that were built since. -/
def NewBinding (s s' : Session ρ) (e : Nat) : Prop :=
  s.engines.length ≤ e ∧ ∃ k b, s'.registry.byNorm.get k = some b ∧ b.engine = some e

theorem newBinding_of_registry (hwf : s.Wf) (hreg : s'.registry = s.registry) : ¬ NewBinding s s' e := by
  rintro ⟨hle, k, b, hk, he⟩
  rw [hreg] at hk
  have := hwf k b e hk he
  omega

/-- After a registration, a binding to an engine built since is one to the engine registered. -/
theorem NewBinding.register {s₁ : Session ρ} {e' : Nat} {err : Option ScanError} (hwf : s.Wf)
    (hr : registerManifest sql s₁ m e = (s', err)) (hreg : s₁.registry = s.registry) (hn : NewBinding s s' e') :
    e' = e := by
  obtain ⟨hle, k, b, hk, he⟩ := hn
  rcases registerManifest_get hr hk with hold | ⟨hnew, -⟩
  · rw [hreg] at hold
    have := hwf k b e' hold he
    omega
  · rw [hnew] at he
    exact (Option.some.inj he).symm

theorem promote_data {ok : Option Bool} (hwf : s.Wf) (hp : promoteToShm sql ingest s name m = (s', ok)) :
    (∀ e, NewBinding s s' e → e ∉ s'.closed →
      ∃ eng, s'.engines[e]? = some eng ∧ eng.workspace = name ∧ eng.manifest = m ∧
        BoundData sql s.tables s'.tables eng) ∧
    (s'.engines.length = s.engines.length → s'.registry = s.registry) := by
  unfold promoteToShm at hp
  split at hp
  · cases hp
    exact ⟨fun e he => absurd he (newBinding_of_registry hwf rfl), fun _ => rfl⟩
  · rename_i current hprom
    dsimp only at hp
    cases ingest with
    | tooSmall =>
      cases hp
      exact ⟨fun e he => absurd he (newBinding_of_registry hwf rfl), fun _ => rfl⟩
    | fails =>
      cases hp
      exact ⟨fun e he => absurd he (newBinding_of_registry hwf rfl), fun _ => rfl⟩
    | staged =>
      dsimp only at hp
      split at hp
      · rename_i s₂ err hr
        obtain ⟨htab, heng, hcl⟩ := registerManifest_frame hr
        cases hp
        constructor
        · intro e hnew hopen
          have hbound : NewBinding s s₂ e := hnew
          have he : e = s.engines.length := hbound.register hwf hr rfl
          exact absurd (he ▸ List.mem_cons_self) hopen
        · intro hlen
          simp only [Session.closeQuietly, heng, Session.build, List.length_append, List.length_singleton] at hlen
          omega
      · rename_i s₂ hr
        obtain ⟨htab, heng, hcl⟩ := registerManifest_frame hr
        cases hp
        constructor
        · intro e hnew _
          have hbound : NewBinding s s₂ e := hnew
          have he : e = s.engines.length := hbound.register hwf hr rfl
          subst he
          refine ⟨⟨.shm, name, m, alignedArrow s.tables (engineTables sql m)⟩, ?_, rfl, rfl, ?_⟩
          · simp [Session.closeQuietly, heng, Session.build]
          · have hall : (engineTables sql m).all (present s.tables) = true := by
              unfold promotable at hprom
              split at hprom
              · rw [Option.filter_eq_some_iff] at hprom
                simp only [Bool.and_eq_true] at hprom
                exact hprom.2.2.1
              · cases hprom
            show BoundData sql s.tables s₂.tables _
            rw [htab]
            exact boundData_shm hall
        · intro hlen
          simp only [Session.closeQuietly, heng, Session.build, List.length_append, List.length_singleton] at hlen
          omega

/-- **One look**: what is bound and open loads the rows of its plane; without a new engine nothing is bound. -/
theorem visit_data {registered : List Key} {out : Option (List Key)} (hwf : s.Wf)
    (hv : visit sql mount ingest s registered name m = (s', out)) :
    (∀ e, NewBinding s s' e → e ∉ s'.closed →
      ∃ eng, s'.engines[e]? = some eng ∧ eng.workspace = name ∧ eng.manifest = m ∧
        BoundData sql s.tables s'.tables eng) ∧
    (s'.engines.length = s.engines.length → s'.registry = s.registry) := by
  unfold visit at hv
  dsimp only at hv
  split at hv
  · cases hv
    exact promote_data hwf rfl
  · split at hv
    · rename_i hb
      cases hv
      obtain ⟨hreg, -⟩ := bindEngine_frame hb
      exact ⟨fun e he => absurd he (newBinding_of_registry hwf hreg), fun _ => hreg⟩
    · rename_i hb
      cases hv
      obtain ⟨hreg, -⟩ := bindEngine_frame hb
      exact ⟨fun e he => absurd he (newBinding_of_registry hwf hreg), fun _ => hreg⟩
    · rename_i s₁ e₁ hb
      obtain ⟨hreg, -⟩ := bindEngine_frame hb
      obtain ⟨hle, eng, heng, hname, hm, hdata⟩ := bindEngine_ok hb
      have hlt := (List.getElem?_eq_some_iff.1 heng).1
      split at hv
      · rename_i s₂ err hr
        obtain ⟨htab, hengs, -⟩ := registerManifest_frame hr
        cases hv
        constructor
        · intro e hnew hopen
          have hbound : NewBinding s s₂ e := hnew
          have he : e = e₁ := hbound.register hwf hr hreg
          exact absurd (he ▸ List.mem_cons_self) hopen
        · intro hlen
          simp only [Session.closeQuietly, hengs] at hlen
          omega
      · rename_i s₂ hr
        obtain ⟨htab, hengs, -⟩ := registerManifest_frame hr
        cases hv
        constructor
        · intro e hnew _
          have he : e = e₁ := hnew.register hwf hr hreg
          subst he
          refine ⟨eng, ?_, hname, hm, ?_⟩
          · rw [hengs]
            exact heng
          · rw [htab]
            exact hdata
        · intro hlen
          rw [hengs] at hlen
          omega

end

/-! ## Runs -/

theorem wf_planeStep {a : PlaneAct ρ} {s s' : Session ρ} (hwf : s.Wf) (hs : planeStep sql s a = some s') : s'.Wf := by
  cases a with
  | change tables =>
    cases hs
    exact hwf
  | look mount ingest registered name m =>
    cases hs
    exact wf_visit hwf rfl

theorem wf_reach {acts : List (PlaneAct ρ)} {s : Session ρ} (h : Trace.exec (planeStep sql) {} acts = some s) :
    s.Wf := by
  refine Trace.reach_invariant (I := Session.Wf) (fun _ _ _ => wf_planeStep) ?_ ⟨acts, h⟩
  intro k b e hk
  cases hk

/-- A scan is looks, each with what is registered by then. -/
theorem scanLoop_reach {mount : Bool} {ingest : String → Ingest} : ∀ {ps : List (String × EngineManifest ρ)}
    {s s' : Session ρ} {registered : List Key} {out : Option (List Key)},
    scanLoop sql mount ingest ps s registered = (s', out) → Trace.Reach (planeStep sql) s s'
  | [], s, s', _, _, h => by
    cases h
    exact ⟨[], rfl⟩
  | (name, m) :: ps, s, s', registered, out, h => by
    simp only [scanLoop] at h
    split at h
    · rename_i s₁ hv
      cases h
      refine ⟨[.look mount (ingest name) registered name m], ?_⟩
      simp [Trace.exec, planeStep, hv]
    · rename_i s₁ registered' hv
      obtain ⟨acts, hacts⟩ := scanLoop_reach h
      refine ⟨.look mount (ingest name) registered name m :: acts, ?_⟩
      simp only [Trace.exec, planeStep, hv]
      exact hacts

/-- Every template is its own key, every query reads `t` and is describable. -/
def plainSql : Sql Nat where
  normalize := some
  tablesIn := fun _ => ["t"]
  describeOutput := fun _ _ => .ok [⟨"n", "BIGINT"⟩]
  unsupported := fun _ => false
  fingerprint := fun _ _ => .ok "f"

def columnsT : List ColumnSpec := [⟨"x", "INTEGER"⟩]

/-- A package over `t` that ships a snapshot with other rows. -/
def snapshotPackage (shmCapable : Bool) : EngineManifest Nat where
  engineId := "e"
  queries := [{ queryId := "1", sqlTemplate := "select sum(x) from t" }]
  expectedTables := [("t", columnsT)]
  parquetDir := some { files := some [("t", ⟨columnsT, 2⟩)] }
  shmCapable := shmCapable

/-- The user's table. -/
def ownTable : Tables Nat := [("t", ⟨columnsT, 1⟩)]

def runOwnTable : List (PlaneAct Nat) := [.change ownTable]

theorem newBinding_of_bind {s s' : Session ρ} {e : Nat} {k : String} (hlen : s.engines.length ≤ e)
    (h : (s'.registry.byNorm.get k).bind EngineBinding.engine = some e) : NewBinding s s' e := by
  obtain ⟨b, hb, he⟩ := Option.bind_eq_some_iff.1 h
  exact ⟨hlen, k, b, hb, he⟩

/-- What a look at the package of the snapshot leaves, after the user's table was created. -/
def afterLook (ingest : Ingest) (shmCapable : Bool) : Session Nat :=
  (visit plainSql false ingest { tables := ownTable } [] "p" (snapshotPackage shmCapable)).1

end SynnoDB.Compat
