import SynnoDB.Tools.Publish
import SynnoDB.Lib.Trace

/-!
# Executions on the current build (`tools/run.py:371-420,589-700`, `compiler_cached.py:61-139`, `hotpatch/pool.py`)

The compile cache keeps verdicts, never binaries. After a cached verdict a batch is built when it is to be executed;
only the path with a validator does so, and the outcome of that build is dropped. The pool is asked for a process with
the build-id that the loader has before. In a run that none of this breaks, each batch is executed on the build of the
present sources (`executed_current`).
-/

namespace SynnoDB.Tools

/-- One loader: it was built from the same inputs, or it has the same build-id. -/
def SameLoader (W : World) (l l' : BuildInputs) : Prop :=
  l = l' ∨ ∃ id, W.buildId .loader l = some id ∧ W.buildId .loader l' = some id

/-- What is on disk is the build of the present sources, and the process ingested through its loader. -/
structure Executed.Current (W : World) (x : Executed) : Prop where
  disk : ∀ a, x.call.disk a = some x.sources
  loader : ∃ l, x.call.proc.loader = some l ∧ SameLoader W l x.sources

/-! ## Steps of a session -/

inductive SessionAct where
  | edit (files outside : Tree)
  /-- A snapshot of another tool. -/
  | commit
  | restore (hash : String)
  | run (w : WorkerArgs)

section
variable (W : World) (T : RunTool)

def Git.commitTree (g : Git) (files : Tree) : Git :=
  let new := W.commit g.head files
  { g with currentHash := some new, head := some new, commits := g.commits.set new files }

def sessionStep (s : State) : SessionAct → Option State
  | .edit files outside => some { s with files, outside }
  | .commit => s.git.map fun g => { s with git := some (g.commitTree W s.files) }
  | .restore hash => s.git.bind fun g => (g.restore hash).map fun p => { s with git := some p.1, files := p.2 }
  | .run w => some (runWorker W T w s).2

/-- The turns of a `run_worker`. -/
def workerTurns (w : WorkerArgs) (s : State) : List Turn :=
  match beginRun W T w s with
  | (some (some (run, batches)), s) => turns W T run batches s
  | _ => []

/-! ## The condition -/

/-- What a build would read in this turn. -/
def Turn.inputs (t : Turn) : BuildInputs :=
  T.compiler.inputs (compileOptions t.run.optimize t.run.traceMode) t.state

/-- The batch is to be executed, not replayed. -/
def Turn.Executes (t : Turn) : Prop :=
  ∀ v, T.validator = some v → cachedVerdict T v t.run t.state t.batch = none ∧ v.onlyFromCache = false

/-- The loader can be told by its build-id, a rebuild neither fails nor changes it, and a replay restores the sources
that a call which compiled live has built. -/
structure Turn.Settled (t : Turn) : Prop where
  fingerprint : ∃ id, (t.state.disk .loader).bind (W.buildId .loader) = some id ∧
    (t.Executes T → W.buildId .loader (t.inputs T) = some id)
  unvalidated : T.validator = none → t.run.compileUsedCache = false
  rebuild : T.validator ≠ none → t.run.compileUsedCache = true → t.Executes T → W.compile t.state.tick (t.inputs T) = none
  restore : t.run.compileUsedCache = false → ∀ v cached g hash g' files, T.validator = some v →
    cachedVerdict T v t.run t.state t.batch = some cached → t.state.git = some g → cached.snapshotHash = some hash →
    g.restore hash = some (g', files) → files = t.state.files

def SessionSettled (s : State) : SessionAct → Prop
  | .run w => ∀ t ∈ workerTurns W T w s, t.Settled W T
  | _ => True

end

variable {W : World} {T : RunTool} {p : BatchRun} {b : QueryBatch} {s s' : State} {r : Request} {sources : BuildInputs}
  {v : Validator} {id : String}

/-! ## The invariant -/

/-- Each runner is stored under a build-id, that of the loader its process ingested with. -/
def PoolOk (W : World) (s : State) : Prop :=
  ∀ key r, s.pool.get key = some r → ∃ id, r.fingerprint = some id ∧
    ∀ p, r.proc = some p → ∃ l, p.loader = some l ∧ W.buildId .loader l = some id

structure SessionInv (W : World) (s : State) : Prop where
  pool : PoolOk W s
  ran : ∀ x ∈ s.ran, x.Current W

theorem SessionInv.congr (h : SessionInv W s) (hpool : s'.pool = s.pool) (hran : s'.ran = s.ran) : SessionInv W s' := by
  refine ⟨?_, hran ▸ h.ran⟩
  unfold PoolOk
  rw [hpool]
  exact h.pool

/-- On disk is the build of these sources. -/
def BuiltFrom (s : State) (sources : BuildInputs) : Prop := ∀ a, s.disk a = some sources

/-- The pool has a runner for the key under this build-id. -/
def Serves (s : State) (key id : String) : Prop := ∃ r, s.pool.get key = some r ∧ r.fingerprint = some id

theorem poolGet_inv {key : String} (h : SessionInv W s) :
    SessionInv W (poolGet key (some id) s) ∧ Serves (poolGet key (some id) s) key id := by
  have hfresh : SessionInv W { s with pool := s.pool.set key { fingerprint := some id, proc := none } } := by
    refine ⟨?_, h.ran⟩
    intro k r hk
    dsimp only at hk
    rw [Dict.get_set] at hk
    split at hk
    · cases hk
      exact ⟨id, rfl, fun p hp => by cases hp⟩
    · exact h.pool k r hk
  have hserves : Serves { s with pool := s.pool.set key { fingerprint := some id, proc := none } } key id :=
    ⟨{ fingerprint := some id, proc := none }, by rw [Dict.get_set, if_pos rfl], rfl⟩
  unfold poolGet
  dsimp only
  split
  · exact ⟨hfresh, hserves⟩
  · rename_i r hr
    obtain ⟨id', hid', -⟩ := h.pool key r hr
    split
    · exact ⟨hfresh, hserves⟩
    · rename_i hsame
      rw [hid'] at hsame
      have heq : id' = id := by simpa using hsame
      exact ⟨h, r, hr, heq ▸ hid'⟩

/-! ## Executions -/

theorem engineRun_inv (h : SessionInv W s) (hserves : Serves s r.key id) (hbuilt : BuiltFrom s sources)
    (hid : W.buildId .loader sources = some id) :
    SessionInv W (engineRun W sources r b s).2 ∧ Serves (engineRun W sources r b s).2 r.key id ∧
      Kept s (engineRun W sources r b s).2 := by
  unfold engineRun
  split
  · exact ⟨h, hserves, Kept.refl s⟩
  · rename_i p hp
    obtain ⟨runner, hrunner, hfp⟩ := hserves
    -- the process was warm under this build-id, or it starts on what is on disk
    have hloader : ∃ l, p.loader = some l ∧ W.buildId .loader l = some id ∧ SameLoader W l sources := by
      unfold startProc at hp
      rw [hrunner, Option.bind_some] at hp
      split at hp
      · rename_i q hq
        cases hp
        obtain ⟨id', hid', hproc⟩ := h.pool _ runner hrunner
        obtain ⟨l, hl, hlid⟩ := hproc p hq
        have heq : id' = id := Option.some.inj (hid'.symm.trans hfp)
        rw [heq] at hlid
        exact ⟨l, hl, hlid, Or.inr ⟨id, hlid, hid⟩⟩
      · rw [hbuilt .db, Option.map_some] at hp
        cases hp
        exact ⟨sources, hbuilt .loader, hid, Or.inl rfl⟩
    obtain ⟨l, hl, hlid, hsame⟩ := hloader
    rw [hrunner, Option.bind_some, hfp]
    refine ⟨⟨?_, ?_⟩, ⟨_, by rw [Dict.get_set, if_pos rfl], rfl⟩, ⟨rfl, rfl, rfl, rfl, rfl, rfl⟩⟩
    · intro k q hq
      dsimp only at hq
      rw [Dict.get_set] at hq
      split at hq
      · cases hq
        refine ⟨id, rfl, fun q hq => ?_⟩
        dsimp only at hq
        split at hq
        · cases hq
          exact ⟨l, hl, hlid⟩
        · cases hq
      · exact h.pool k q hq
    · intro x hx
      rcases List.mem_append.1 hx with hx | hx
      · exact h.ran x hx
      · rw [List.mem_singleton.1 hx]
        exact ⟨hbuilt, l, hl, hsame⟩

theorem callHotpatchProc_inv (h : SessionInv W s) (hserves : Serves s r.key id) (hbuilt : BuiltFrom s sources)
    (hid : W.buildId .loader sources = some id) :
    SessionInv W (callHotpatchProc W sources r b s).2 ∧ Kept s (callHotpatchProc W sources r b s).2 := by
  obtain ⟨hinv, hserves', hkept⟩ := engineRun_inv (b := b) h hserves hbuilt hid
  unfold callHotpatchProc
  split
  · rename_i t ht
    rw [ht] at hinv hkept
    exact ⟨hinv, hkept⟩
  · rename_i a t ht
    rw [ht] at hinv hserves' hkept
    split
    · have hbuilt' : BuiltFrom t sources := by
        unfold BuiltFrom
        rw [hkept.disk]
        exact hbuilt
      obtain ⟨hinv', -, hkept'⟩ := engineRun_inv (b := b) hinv hserves' hbuilt' hid
      exact ⟨hinv', hkept.trans hkept'⟩
    · exact ⟨hinv, hkept⟩

/-- What a build would read now. -/
def nowSources (T : RunTool) (p : BatchRun) (s : State) : BuildInputs :=
  T.compiler.inputs (compileOptions p.optimize p.traceMode) s

theorem nowSources_congr (hfiles : s'.files = s.files) (houtside : s'.outside = s.outside) :
    nowSources T p s' = nowSources T p s := by
  unfold nowSources CompilerSetup.inputs
  rw [hfiles, houtside]

theorem execute_inv (h : SessionInv W s) (hserves : Serves s r.key id) (hbuilt : BuiltFrom s (nowSources T p s))
    (hid : W.buildId .loader (nowSources T p s) = some id) :
    SessionInv W (execute W T p r b s).2 ∧ Kept s (execute W T p r b s).2 := by
  unfold execute
  split
  · exact ⟨h, Kept.refl s⟩
  · exact callHotpatchProc_inv h hserves hbuilt hid

theorem record_frame {key : Option ValidatePayload} {result : ExecValidateResult} :
    (record W v key result s).2.pool = s.pool ∧ (record W v key result s).2.ran = s.ran ∧
      (record W v key result s).2.disk = s.disk ∧ (record W v key result s).2.files = s.files ∧
      (record W v key result s).2.outside = s.outside := by
  unfold record
  split
  · split
    · exact ⟨rfl, rfl, rfl, rfl, rfl⟩
    · split
      · exact ⟨rfl, rfl, rfl, rfl, rfl⟩
      · dsimp only
        split
        · split <;> exact ⟨rfl, rfl, rfl, rfl, rfl⟩
        · exact ⟨rfl, rfl, rfl, rfl, rfl⟩
  · exact ⟨rfl, rfl, rfl, rfl, rfl⟩

/-! ## Builds -/

theorem build_ok {c : CompilerSetup} {flags : List String} (h : W.compile s.tick (c.inputs flags s) = none) :
    BuiltFrom (build W c flags s).2 (c.inputs flags s) := by
  unfold build
  dsimp only
  rw [h]
  exact fun _ => rfl

/-- What is not answered by the cache is a build. -/
theorem buildCached_live {c : CompilerSetup} {flags : List String} {skip write : Bool} {current output : Option String}
    {key : Option CompilePayload} (h : buildCached W c flags skip write current s = (some (output, false, key), s')) :
    output = (build W c flags s).1 ∧ s'.disk = (build W c flags s).2.disk := by
  unfold buildCached at h
  split at h
  · cases h
  · split at h
    · cases h
    · split at h
      · cases h
      · dsimp only at h
        split at h
        · cases h
          refine ⟨rfl, ?_⟩
          split <;> rfl
        · cases h
          exact ⟨rfl, rfl⟩

theorem recompile_inv (hbuilt : p.compileUsedCache = false → BuiltFrom s (nowSources T p s))
    (hrebuild : p.compileUsedCache = true → W.compile s.tick (nowSources T p s) = none) :
    ((recompileIfNecessary W T p s).1 = some () → BuiltFrom (recompileIfNecessary W T p s).2 (nowSources T p s)) ∧
      (p.compileUsedCache = false → (recompileIfNecessary W T p s).2.disk = s.disk) := by
  unfold recompileIfNecessary
  cases hused : p.compileUsedCache with
  | false => exact ⟨fun _ => hbuilt hused, fun _ => rfl⟩
  | true =>
    simp only [if_true]
    refine ⟨fun hsome => ?_, fun hfalse => by cases hfalse⟩
    split at hsome
    · cases hsome
    · rename_i out t ht
      obtain ⟨output, used, key⟩ := out
      obtain ⟨rfl, -⟩ := buildCached_skip ht
      unfold BuiltFrom
      rw [(buildCached_live ht).2]
      exact build_ok (hrebuild hused)

theorem executeAndValidate_inv (h : SessionInv W s) (hserves : Serves s r.key id)
    (hbuilt : p.compileUsedCache = false → BuiltFrom s (nowSources T p s))
    (hrebuild : v.onlyFromCache = false → p.compileUsedCache = true → W.compile s.tick (nowSources T p s) = none)
    (hid : v.onlyFromCache = false → W.buildId .loader (nowSources T p s) = some id) :
    SessionInv W (executeAndValidate W T v p r b s).2 ∧ (executeAndValidate W T v p r b s).2.files = s.files ∧
      (executeAndValidate W T v p r b s).2.outside = s.outside ∧
      (p.compileUsedCache = false → (executeAndValidate W T v p r b s).2.disk = s.disk) := by
  unfold executeAndValidate
  dsimp only
  cases hlive : v.onlyFromCache with
  | true => exact ⟨h, rfl, rfl, fun _ => rfl⟩
  | false =>
    simp only [Bool.false_eq_true, if_false]
    obtain ⟨hnow, hdisk⟩ := recompile_inv hbuilt (hrebuild hlive)
    have hkept := @recompile_kept W s T p
    revert hnow hdisk hkept
    cases recompileIfNecessary W T p s with
    | mk re t =>
      intro hnow hdisk hkept
      have ht : SessionInv W t := h.congr hkept.pool hkept.ran
      cases re with
      | none => exact ⟨ht, hkept.files, hkept.outside, hdisk⟩
      | some u =>
        have hsources : nowSources T p t = nowSources T p s := nowSources_congr hkept.files hkept.outside
        have hservest : Serves t r.key id := by
          unfold Serves
          rw [hkept.pool]
          exact hserves
        have hbuiltt : BuiltFrom t (nowSources T p t) := by
          rw [hsources]
          exact hnow rfl
        obtain ⟨hinv, hkeptx⟩ := execute_inv (b := b) ht hservest hbuiltt (by rw [hsources]; exact hid hlive)
        dsimp only
        revert hinv hkeptx
        cases execute W T p r b t with
        | mk ans x =>
          intro hinv hkeptx
          have hfiles : x.files = s.files := hkeptx.files.trans hkept.files
          have houtside : x.outside = s.outside := hkeptx.outside.trans hkept.outside
          have hdiskx : p.compileUsedCache = false → x.disk = s.disk := fun hused => hkeptx.disk.trans (hdisk hused)
          cases ans with
          | none => exact ⟨hinv, hfiles, houtside, hdiskx⟩
          | some a =>
            dsimp only
            split
            · exact ⟨hinv, hfiles, houtside, hdiskx⟩
            · obtain ⟨hpool, hran, hdisk', hfiles', houtside'⟩ := @record_frame W x v
                (s.git.map fun g => validateKey T p g b) _
              exact ⟨hinv.congr hpool hran, hfiles'.trans hfiles, houtside'.trans houtside,
                fun hused => hdisk'.trans (hdiskx hused)⟩

/-! ## Turns -/

/-- In a call that compiled live the build of the present sources is on disk. -/
def LiveBuilt (T : RunTool) (p : BatchRun) (s : State) : Prop :=
  p.compileUsedCache = false → BuiltFrom s (nowSources T p s)

theorem LiveBuilt.congr (h : LiveBuilt T p s) (hfiles : s'.files = s.files) (houtside : s'.outside = s.outside)
    (hdisk : p.compileUsedCache = false → s'.disk = s.disk) : LiveBuilt T p s' := by
  intro hused
  rw [nowSources_congr hfiles houtside]
  unfold BuiltFrom
  rw [hdisk hused]
  exact h hused

theorem runQueryBatch_inv (h : SessionInv W s) (hlive : LiveBuilt T p s) (hs : Turn.Settled W T ⟨p, b, s⟩) :
    SessionInv W (runQueryBatch W T p b s).2 ∧ LiveBuilt T p (runQueryBatch W T p b s).2 := by
  obtain ⟨⟨id, hfp, hid⟩, hunvalidated, hrebuild, hrestore⟩ := hs
  dsimp only at hfp hunvalidated hrebuild hrestore
  unfold runQueryBatch
  split
  · exact ⟨h, hlive⟩
  · dsimp only
    rw [hfp]
    obtain ⟨hinv, hserves⟩ := @poolGet_inv W s id (T.request p b).key h
    obtain ⟨hk, -⟩ := @poolGet_kept s (T.request p b).key (some id)
    have hsources : nowSources T p (poolGet (T.request p b).key (some id) s) = nowSources T p s :=
      nowSources_congr hk.files hk.outside
    have htick : (poolGet (T.request p b).key (some id) s).tick = s.tick := by
      unfold poolGet
      dsimp only
      split
      · rfl
      · split <;> rfl
    have hcached : ∀ v, cachedVerdict T v p (poolGet (T.request p b).key (some id) s) b = cachedVerdict T v p s b :=
      fun v => cachedVerdict_poolGet
    have hlive' := hlive.congr hk.files hk.outside fun _ => hk.disk
    revert hinv hserves hk hsources htick hcached hlive'
    generalize poolGet (T.request p b).key (some id) s = t
    intro hinv hserves hk hsources htick hcached hlive'
    cases hv : T.validator with
    | none =>
      have hexec : Turn.Executes T ⟨p, b, s⟩ := by
        intro v hv'
        rw [hv] at hv'
        cases hv'
      obtain ⟨hx, hkx⟩ := execute_inv (b := b) hinv hserves (hlive' (hunvalidated hv))
        (by rw [hsources]; exact hid hexec)
      have hlivex := hlive'.congr hkx.files hkx.outside fun _ => hkx.disk
      dsimp only
      split <;> rename_i heq <;> rw [heq] at hx hlivex <;> exact ⟨hx, hlivex⟩
    | some v =>
      have hvalidated : SessionInv W (execAndValidate W T v p (T.request p b) b t).2 ∧
          LiveBuilt T p (execAndValidate W T v p (T.request p b) b t).2 := by
        unfold execAndValidate
        split
        · rename_i cached hc
          split
          · exact ⟨hinv, hlive'⟩
          · rename_i g files hg
            obtain ⟨g₀, hg₀, hbind⟩ := Option.bind_eq_some_iff.1 hg
            obtain ⟨hash, hhash, hres⟩ := Option.bind_eq_some_iff.1 hbind
            refine ⟨hinv.congr rfl rfl, fun hused => ?_⟩
            rw [hcached] at hc
            have hfiles : files = s.files :=
              hrestore hused v cached g₀ hash g files hv hc (hk.git ▸ hg₀) hhash hres
            exact hlive'.congr (hfiles.trans hk.files.symm) rfl (fun _ => rfl) hused
        · rename_i hc
          rw [hcached] at hc
          have hexec : v.onlyFromCache = false → Turn.Executes T ⟨p, b, s⟩ := by
            intro honly v' hv'
            rw [hv] at hv'
            cases hv'
            exact ⟨hc, honly⟩
          have hne : T.validator ≠ none := by
            rw [hv]
            exact Option.some_ne_none v
          obtain ⟨hx, hfiles, houtside, hdisk⟩ := executeAndValidate_inv (b := b) hinv hserves hlive'
            (fun honly hused => by rw [htick, hsources]; exact hrebuild hne hused (hexec honly))
            (fun honly => by rw [hsources]; exact hid (hexec honly))
          have hlivex := hlive'.congr hfiles houtside hdisk
          split <;> rename_i heq <;> rw [heq] at hx hlivex <;> exact ⟨hx, hlivex⟩
      dsimp only
      split
      · rename_i u hu
        rw [hu] at hvalidated
        exact hvalidated
      · rename_i result replayed u hu
        rw [hu] at hvalidated
        split <;> exact hvalidated

theorem runBatches_inv {bs : List QueryBatch} (h : SessionInv W s) (hlive : LiveBuilt T p s)
    (hs : ∀ t ∈ turns W T p bs s, t.Settled W T) : SessionInv W (runBatches W T p bs s).2 := by
  induction bs generalizing s with
  | nil => exact h
  | cons b bs ih =>
    obtain ⟨hinv, hlive'⟩ := runQueryBatch_inv h hlive (hs ⟨p, b, s⟩ (by rw [turns]; exact List.mem_cons_self))
    rw [runBatches]
    split
    · rename_i t ht
      rw [ht] at hinv hlive'
      split
      · exact hinv
      · refine ih hinv hlive' fun t' ht' => hs t' ?_
        rw [turns_cons ht]
        exact List.mem_cons_of_mem _ ht'
    · exact hinv

/-! ## Runs -/

/-- A call that begins has built, or it was answered by a cached verdict. -/
theorem beginRun_inv {w : WorkerArgs} (h : SessionInv W s) :
    SessionInv W (beginRun W T w s).2 ∧
      ∀ run batches, (beginRun W T w s).1 = some (some (run, batches)) → LiveBuilt T run (beginRun W T w s).2 := by
  unfold beginRun
  dsimp only
  split
  · exact ⟨h, fun run batches heq => by cases heq⟩
  · have hkept := @buildCached_kept W s T.compiler (compileOptions w.optimize w.traceMode) w.forceCompile true
      w.currentGitSnapshot
    split
    · rename_i t ht
      rw [ht] at hkept
      exact ⟨h.congr hkept.pool hkept.ran, fun run batches heq => by cases heq⟩
    · rename_i t ht
      rw [ht] at hkept
      exact ⟨h.congr hkept.pool hkept.ran, fun run batches heq => by cases heq⟩
    · rename_i used key t ht
      rw [ht] at hkept
      split
      · exact ⟨h.congr hkept.pool hkept.ran, fun run batches heq => by cases heq⟩
      · refine ⟨h.congr hkept.pool hkept.ran, fun run batches heq => ?_⟩
        cases heq
        intro hused
        dsimp only at hused
        subst hused
        obtain ⟨hnone, hdisk⟩ := buildCached_live ht
        have hok : W.compile s.tick (T.compiler.inputs (compileOptions w.optimize w.traceMode) s) = none := by
          unfold build at hnone
          dsimp only at hnone
          split at hnone
          · assumption
          · cases hnone
        unfold BuiltFrom nowSources CompilerSetup.inputs
        dsimp only at hkept ⊢
        rw [hdisk, hkept.files, hkept.outside]
        exact build_ok hok

theorem inv_sessionStep {act : SessionAct} (h : SessionInv W s) (hs : SessionSettled W T s act)
    (hstep : sessionStep W T s act = some s') : SessionInv W s' := by
  cases act with
  | edit files outside =>
    cases hstep
    exact h.congr rfl rfl
  | commit =>
    obtain ⟨g, -, rfl⟩ := Option.map_eq_some_iff.1 hstep
    exact h.congr rfl rfl
  | restore hash =>
    obtain ⟨g, -, hmap⟩ := Option.bind_eq_some_iff.1 hstep
    obtain ⟨q, -, rfl⟩ := Option.map_eq_some_iff.1 hmap
    exact h.congr rfl rfl
  | run w =>
    cases hstep
    obtain ⟨hinv, hlive⟩ := @beginRun_inv W T s w h
    have hturns : ∀ t ∈ workerTurns W T w s, t.Settled W T := hs
    unfold workerTurns at hturns
    unfold runWorker
    split
    · rename_i t ht
      rw [ht] at hinv
      exact hinv
    · rename_i t ht
      rw [ht] at hinv
      exact hinv
    · rename_i run batches t ht
      rw [ht] at hinv hlive
      rw [ht] at hturns
      exact runBatches_inv hinv (hlive run batches rfl) hturns

/-- **Every batch is executed on the build of the present sources**, by a process that ingested through its loader, in
every session whose turns are settled. -/
theorem executed_current (W : World) (T : RunTool) (acts : List SessionAct) (s s' : State) (hpool : s.pool = [])
    (hran : s.ran = []) (hsettled : Trace.Meets (sessionStep W T) (SessionSettled W T) s acts)
    (hrun : Trace.exec (sessionStep W T) s acts = some s') : ∀ x ∈ s'.ran, x.Current W := by
  have hinv : SessionInv W s := by
    refine ⟨?_, ?_⟩
    · intro key r hr
      rw [hpool] at hr
      cases hr
    · rw [hran]
      intro x hx
      cases hx
  exact (Trace.exec_invariant (fun _ _ _ => inv_sessionStep) hinv hsettled hrun).ran

/-! ## A rebuild that fails -/

/-- Engines answer right; the third build does not come through. -/
def failingWorld : World :=
  { agingWorld with
    compile := fun n _ => if n = 4 then some "out of memory" else none
    engine := fun _ c => {
      answer := some
        { resp := "", out := "", err := "", queryResults := c.argsList.map fun line => ⟨"1", line, "", ""⟩,
          written := c.argsList.map fun line => (line, some "42") }
      alive := true }
    commit := fun _ files => if files = [] then "c0" else "c1" }

def exhaustiveRun (forceLive : Bool) : SessionAct := .run { mode := .exhaustive, optimize := true, forceLive }

/-- The turn is not answered by a cache, and the loader has its build-id. -/
def turnCheck (t : Turn) : Bool :=
  ((t.state.disk .loader).bind (failingWorld.buildId .loader)).isSome && !t.run.compileUsedCache &&
    constantTool.validator.all fun v => (cachedVerdict constantTool v t.run t.state t.batch).isNone

theorem settled_of_check {t : Turn} (h : turnCheck t = true) : t.Settled failingWorld constantTool := by
  simp only [turnCheck, Bool.and_eq_true, Bool.not_eq_true'] at h
  obtain ⟨⟨hloader, hused⟩, hmiss⟩ := h
  obtain ⟨id, hid⟩ := Option.isSome_iff_exists.1 hloader
  obtain ⟨l, -, hl⟩ := Option.bind_eq_some_iff.1 hid
  refine ⟨⟨id, hid, fun _ => hl⟩, fun _ => hused, ?_, ?_⟩
  · intro _ hcached
    rw [hused] at hcached
    cases hcached
  · intro _ v cached g hash g' files hv hc
    rw [hv, Option.all_some, hc] at hmiss
    cases hmiss

theorem executed_current_once : ∃ s', Trace.exec (sessionStep failingWorld constantTool) startState
    [exhaustiveRun false] = some s' ∧ s'.ran ≠ [] ∧ ∀ x ∈ s'.ran, x.Current failingWorld := by
  have hturns : (workerTurns failingWorld constantTool { mode := .exhaustive, optimize := true, forceLive := false }
      startState).all turnCheck = true := by decide +kernel
  have hran : ((Trace.exec (sessionStep failingWorld constantTool) startState [exhaustiveRun false]).any fun s =>
      !s.ran.isEmpty) = true := by decide +kernel
  obtain ⟨s', hs', hne⟩ := (Option.any_eq_true _ _).1 hran
  have hmeets : Trace.Meets (sessionStep failingWorld constantTool) (SessionSettled failingWorld constantTool)
      startState [exhaustiveRun false] :=
    ⟨fun t ht => settled_of_check (List.all_eq_true.1 hturns t ht), fun _ _ => trivial⟩
  refine ⟨s', hs', ?_, executed_current failingWorld constantTool [exhaustiveRun false] startState s' rfl rfl hmeets hs'⟩
  intro hnil
  rw [hnil] at hne
  cases hne

/-- The sources change and come back; then a call with the cached compile verdict is to execute live, and its rebuild
fails. -/
def failedRebuild : List SessionAct :=
  [exhaustiveRun false, .edit [("db.cpp", "2")] [], .commit, exhaustiveRun false, .restore "c0", exhaustiveRun true]

theorem failed_rebuild_executes : ∃ s', Trace.exec (sessionStep failingWorld constantTool) startState failedRebuild =
    some s' ∧ ∃ x ∈ s'.ran, ¬ x.Current failingWorld := by
  have h : ((Trace.exec (sessionStep failingWorld constantTool) startState failedRebuild).any fun s =>
      s.ran.any fun x => !((x.call.disk .db).map (·.files) == some x.sources.files)) = true := by decide +kernel
  obtain ⟨s', hs', hx⟩ := (Option.any_eq_true _ _).1 h
  obtain ⟨x, hmem, hne⟩ := List.any_eq_true.1 hx
  refine ⟨s', hs', x, hmem, fun hcur => ?_⟩
  rw [hcur.disk .db] at hne
  simp at hne

end SynnoDB.Tools
