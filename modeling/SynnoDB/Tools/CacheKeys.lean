import SynnoDB.Tools.RunTool
import Mathlib.Data.List.Nodup

/-!
# Cache keys against what a run reads (`compiler_cached.py:141-231`, `query_validator_class.py:386-435,524-571`)

A verdict is looked up under a key that is put together by hand. The key of a build has the names of the sources and
of the include directories but not where they are, and neither the compiler nor the sanitizer; the key of a batch has
neither what the engine was built with nor the settings that markers change between stages. A replayed verdict is that
of the same run exactly when the calls agree on what is left out (`replay_sound`).
-/

namespace SynnoDB.Tools

/-- Compiler and engines depend on their inputs alone. -/
def World.Deterministic (W : World) : Prop :=
  (∀ m n i, W.compile m i = W.compile n i) ∧ ∀ m n c, W.engine m c = W.engine n c

/-! ## Builds -/

/-- A call of `build_cached` with all that it reads. -/
structure BuildCall where
  setup : CompilerSetup
  flags : List String
  /-- The version is given as `current_git_snapshot`. -/
  external : Bool := false
  hash : Option String
  files : Tree
  outside : Tree := []

namespace BuildCall

variable (c : BuildCall)

def key : CompilePayload := c.setup.payload c.files c.hash c.flags

def inputs : BuildInputs where
  files := c.files
  outside := c.outside
  config := c.setup.config c.files
  flags := c.flags

def current : Option String := if c.external then c.hash else none

/-- The call is made in this state. -/
def At (s : State) : Prop :=
  s.files = c.files ∧ s.outside = c.outside ∧ compileKey c.setup c.flags c.current s = some (some c.key)

def run (W : World) (s : State) : Option (Option String × Bool × Option CompilePayload) × State :=
  buildCached W c.setup c.flags false true c.current s

/-- Its output when it does not ask the cache. -/
def live (W : World) (s : State) : Option String := (build W c.setup c.flags s).1

/-- The call can leave an entry. -/
def Writes : Prop := c.setup.hasCacheDir = true ∧ c.setup.doNotCache = false ∧ c.setup.onlyFromCache = false

end BuildCall

/-- The entry that the first call wrote answers the second as a build would. -/
def BuildReplay (c₁ c₂ : BuildCall) : Prop :=
  ∀ W : World, W.Deterministic → ∀ s₁ s₁' s₂ s₂' out, c₁.At s₁ → c₂.At s₂ →
    c₁.run W s₁ = (some (out, false, some c₁.key), s₁') → s₁'.compileCache.get c₁.key = some out →
    c₂.run W s₂ = (some (out, true, some c₂.key), s₂') → c₂.live W s₂ = out

/-- The calls agree on what a build reads and the key leaves out. -/
structure SameBuild (c₁ c₂ : BuildCall) : Prop where
  files : c₁.files = c₂.files
  outside : c₁.outside = c₂.outside
  workdir : c₁.setup.workingDir = c₂.setup.workingDir
  cwd : c₁.setup.cwd = c₂.setup.cwd
  libs : c₁.inputs.config.libs = c₂.inputs.config.libs
  mainSrc : c₁.inputs.config.mainSrc = c₂.inputs.config.mainSrc
  appExtraSrcs : c₁.inputs.config.appExtraSrcs = c₂.inputs.config.appExtraSrcs
  includeFlags : c₁.inputs.config.includeFlags = c₂.inputs.config.includeFlags
  cxx : c₁.setup.environ.cxx.getD "g++" = c₂.setup.environ.cxx.getD "g++"
  sanitizeFlags : sanitizeFlagsFromEnv c₁.setup.environ = sanitizeFlagsFromEnv c₂.setup.environ
  pkgCflags : c₁.inputs.config.pkgCflags = c₂.inputs.config.pkgCflags
  pkgLibs : c₁.inputs.config.pkgLibs = c₂.inputs.config.pkgLibs

/-! ## Batches -/

/-- A call of `exec_and_validate` with all that it reads; the process and the disk are those of its execution. -/
structure ValidateCall where
  tool : RunTool
  validator : Validator
  run : BatchRun
  batch : QueryBatch
  hash : Option String
  proc : Proc
  disk : Disk

namespace ValidateCall

variable (c : ValidateCall)

def request : Request := c.tool.request c.run c.batch

def key : ValidatePayload := validateKey c.tool c.run { currentHash := c.hash, head := none } c.batch

def skipValidate : Bool := !c.tool.parseOutAndValidateOutput

/-- The call is made in this state: these are the version, and the process and the disk after a recompile. -/
def At (W : World) (s : State) : Prop :=
  (∃ g, s.git = some g ∧ g.currentHash = c.hash) ∧
    ∃ s', recompileIfNecessary W c.tool c.run s = (some (), s') ∧ startProc c.request.key s' = some c.proc ∧ s'.disk = c.disk

def exec (W : World) (s : State) : Option (ExecValidateResult × Bool) × State :=
  execAndValidate W c.tool c.validator c.run c.request c.batch s

/-- The outcome when it does not ask the cache; `none`: it raises. -/
def live (W : World) (s : State) : Option ValidationOutput :=
  match recompileIfNecessary W c.tool c.run s with
  | (none, _) => none
  | (some (), s) => match execute W c.tool c.run c.request c.batch s with
    | (none, _) => none
    | (some a, _) => c.validator.outcome W c.batch.payload a c.run.traceMode c.skipValidate

/-- The call can leave an entry and find one; with a snapshotter, `current_git_snapshot` is not given. -/
def Caches : Prop :=
  c.validator.hasCacheDir = true ∧ c.validator.doNotCache = false ∧ c.validator.onlyFromCache = false ∧
    c.run.forceLive = false ∧ c.run.currentGitSnapshot = none

end ValidateCall

/-- The entry that the first call wrote answers the second as an execution would. -/
def VerdictReplay (c₁ c₂ : ValidateCall) : Prop :=
  ∀ W : World, W.Deterministic → ∀ s₁ s₁' s₂ s₂' r, c₁.At W s₁ → c₂.At W s₂ →
    c₁.exec W s₁ = (some (r, false), s₁') → s₁'.validateCache.get c₁.key = some r →
    c₂.exec W s₂ = (some (r, true), s₂') →
    ∃ o, c₂.live W s₂ = some o ∧ o.correct = r.success ∧ o.message = r.message ∧ o.metrics = r.metrics

/-- The settings that a comparison reads and the key leaves out. -/
structure SameSettings (c₁ c₂ : ValidateCall) : Prop where
  traceMode : c₁.run.traceMode = c₂.run.traceMode
  outputStdoutStderr : c₁.validator.outputStdoutStderr = c₂.validator.outputStdoutStderr
  useUmbra : c₁.validator.useUmbra = c₂.validator.useUmbra
  allQueryIds : c₁.batch.payload.executedIds.length = c₁.validator.allQueryIds.length ↔
    c₂.batch.payload.executedIds.length = c₂.validator.allQueryIds.length

/-- The calls agree on what an execution and its validation read and the key leaves out. -/
structure SameRun (c₁ c₂ : ValidateCall) : Prop where
  proc : c₁.proc = c₂.proc
  disk : c₁.disk = c₂.disk
  memoryLimit : c₁.request.memoryLimit = c₂.request.memoryLimit
  policy : c₁.request.policy = c₂.request.policy
  runEnv : c₁.request.runEnv = c₂.request.runEnv
  queryArgs : c₁.batch.queryList.map QueryEntry.queryArgs = c₂.batch.queryList.map QueryEntry.queryArgs
  settings : c₁.skipValidate = true ∨ c₁.batch.queryList = [] ∨ SameSettings c₁ c₂

variable {W : World} {c₁ c₂ : BuildCall} {d₁ d₂ : ValidateCall}

/-! ## Replayed builds -/

theorem inputs_eq_iff (hkey : c₁.key = c₂.key) : c₁.inputs = c₂.inputs ↔ SameBuild c₁ c₂ := by
  simp only [BuildCall.key, CompilerSetup.payload, CompilePayload.mk.injEq] at hkey
  obtain ⟨-, -, -, -, hdir, hlink, hpkg, -, hflags, -⟩ := hkey
  constructor
  · intro h
    have hconfig := congrArg BuildInputs.config h
    exact ⟨congrArg BuildInputs.files h, congrArg BuildInputs.outside h, congrArg Cpp.Config.workdir hconfig,
      congrArg Cpp.Config.cwd hconfig, congrArg Cpp.Config.libs hconfig, congrArg Cpp.Config.mainSrc hconfig,
      congrArg Cpp.Config.appExtraSrcs hconfig, congrArg Cpp.Config.includeFlags hconfig,
        congrArg Cpp.Config.cxx hconfig,
      congrArg Cpp.Config.sanitizeFlags hconfig, congrArg Cpp.Config.pkgCflags hconfig,
        congrArg Cpp.Config.pkgLibs hconfig⟩
  · intro h
    rw [BuildCall.inputs, BuildCall.inputs, BuildInputs.mk.injEq]
    refine ⟨h.files, h.outside, ?_, hflags⟩
    have h1 := h.libs
    have h2 := h.mainSrc
    have h3 := h.appExtraSrcs
    have h4 := h.includeFlags
    have h5 := h.pkgCflags
    have h6 := h.pkgLibs
    simp only [BuildCall.inputs, CompilerSetup.config, CompilerSetup.baseConfig] at h1 h2 h3 h4 h5 h6 ⊢
    rw [Cpp.Config.mk.injEq]
    exact ⟨h.workdir, h.cwd, h1, h2, h3, hdir, hlink, rfl, rfl, h.cxx, h.sanitizeFlags, h4, h5, h6⟩

theorem run_false {s s' : State} {out : Option String} {key : Option CompilePayload}
    (h : c₁.run W s = (some (out, false, key), s')) : out = c₁.live W s := by
  unfold BuildCall.run buildCached at h
  split at h
  · cases h
  · split at h
    · cases h
    · simp only [Bool.not_false, Bool.and_true] at h
      split at h
      · cases h
      · split at h <;> (cases h; rfl)

theorem live_eq {s : State} (hat : c₁.At s) : c₁.live W s = W.compile s.tick c₁.inputs := by
  have hinputs : c₁.setup.inputs c₁.flags s = c₁.inputs := by
    rw [CompilerSetup.inputs, BuildCall.inputs, hat.1, hat.2.1]
  rw [BuildCall.live, build, hinputs]
  split <;> rename_i h <;> exact h.symm

/-- A state in which the call is made, with this cache. -/
def BuildCall.stateWith (c : BuildCall) (cache : Dict CompilePayload (Option String)) : State where
  files := c.files
  outside := c.outside
  git := if c.external ∧ c.hash.isSome then none else some { currentHash := c.hash, head := none }
  compileCache := cache

theorem at_stateWith {cache : Dict CompilePayload (Option String)} (hcache : c₁.setup.hasCacheDir = true) :
    c₁.At (c₁.stateWith cache) := by
  refine ⟨rfl, rfl, ?_⟩
  unfold compileKey BuildCall.current BuildCall.stateWith BuildCall.key
  cases hex : c₁.external <;> cases hh : c₁.hash <;> simp [hcache]

theorem run_miss {out : Option String} (hw : c₁.Writes) (hout : c₁.live W (c₁.stateWith []) = out) :
    ∃ s', c₁.run W (c₁.stateWith []) = (some (out, false, some c₁.key), s') ∧
      s'.compileCache.get c₁.key = some out := by
  obtain ⟨hdir, hdo, honly⟩ := hw
  subst hout
  have hempty : (c₁.stateWith []).compileCache = [] := rfl
  have hrun : c₁.run W (c₁.stateWith []) =
      (some (c₁.live W (c₁.stateWith []), false, some c₁.key),
        { (build W c₁.setup c₁.flags (c₁.stateWith [])).2 with
          compileCache := (build W c₁.setup c₁.flags (c₁.stateWith [])).2.compileCache.set c₁.key
            (c₁.live W (c₁.stateWith [])) }) := by
    unfold BuildCall.run buildCached
    rw [(at_stateWith hdir).2.2]
    simp only [hempty, Option.bind_some, Dict.get_nil, honly, hdo, Bool.false_eq_true, if_false, Option.isSome_none,
      Bool.and_false, Bool.not_false, Bool.and_true, if_true]
    rfl
  refine ⟨_, hrun, ?_⟩
  rw [Dict.get_set, if_pos rfl]

theorem run_hit {out : Option String} (hdir : c₁.setup.hasCacheDir = true) :
    c₁.run W (c₁.stateWith [(c₁.key, out)]) =
      (some (out, true, some c₁.key), c₁.stateWith [(c₁.key, out)]) := by
  unfold BuildCall.run buildCached
  rw [(at_stateWith hdir).2.2]
  simp only [BuildCall.stateWith, Option.bind_some, Dict.get, if_true]

theorem build_replay_iff (hkey : c₁.key = c₂.key) (hw₁ : c₁.Writes) (hw₂ : c₂.setup.hasCacheDir = true) :
    BuildReplay c₁ c₂ ↔ SameBuild c₁ c₂ := by
  rw [← inputs_eq_iff hkey]
  constructor
  · intro h
    classical
    -- a compiler that accepts the inputs of the first call only
    let W : World :=
      { compile := fun _ i => if i = c₁.inputs then none else some "error"
        wreck := fun _ _ d => d, engine := fun _ _ => ⟨none, false⟩, reference := fun _ _ _ _ => none
        compare := fun _ _ _ => .raises, stage := fun _ => none, buildId := fun _ _ => none, symbolize := fun _ => ""
        commit := fun _ _ => "" }
    have hlive : c₁.live W (c₁.stateWith []) = none := by
      rw [live_eq (at_stateWith hw₁.1)]
      exact if_pos rfl
    obtain ⟨s', hrun, hget⟩ := run_miss hw₁ hlive
    have hout := h W ⟨fun _ _ _ => rfl, fun _ _ _ => rfl⟩ _ _ _ _ none (at_stateWith hw₁.1) (at_stateWith hw₂) hrun hget
      (run_hit hw₂)
    rw [live_eq (at_stateWith hw₂)] at hout
    by_contra hne
    have hif : W.compile 0 c₂.inputs = some "error" := if_neg fun heq => hne heq.symm
    exact absurd (hout.symm.trans hif) (by simp)
  · intro hin W hW s₁ s₁' s₂ s₂' out hat₁ hat₂ hrun _ _
    rw [run_false hrun, live_eq hat₁, live_eq hat₂, hin]
    exact hW.1 _ _ _

/-! ## What an execution reads -/

/-- The call of a retry: on the process that is there, else on one that is started now. -/
def EngineCall.again (c : EngineCall) (alive : Bool) : Option EngineCall :=
  if alive then some c else (c.disk .db).map fun db => { c with proc := { db, loader := c.disk .loader } }

/-- The answer of a deterministic engine. -/
def World.answer (W : World) (c : EngineCall) : Option Answer :=
  (W.engine 0 c).answer.bind fun a =>
    if a.badAlloc then (c.again (W.engine 0 c).alive).bind fun c' => (W.engine 0 c').answer else some a

variable {s s' : State} {r : Request} {b : QueryBatch} {p : Proc} {sources : BuildInputs}

theorem callHotpatchProc_fst (hW : W.Deterministic) (hp : startProc r.key s = some p) :
    (callHotpatchProc W sources r b s).1 = W.answer (r.call b p s.disk) := by
  unfold callHotpatchProc World.answer
  rw [engineRun, hp]
  simp only [hW.2 s.tick 0]
  cases ha : (W.engine 0 (r.call b p s.disk)).answer with
  | none => rfl
  | some a =>
    simp only [Option.bind_some]
    by_cases hbad : a.badAlloc = true
    · simp only [hbad, if_true]
      rw [engineRun, startProc]
      simp only [Dict.get_set, if_true, Option.bind_some]
      unfold EngineCall.again
      cases halive : (W.engine 0 (r.call b p s.disk)).alive with
      | true =>
        simp only [if_true, Option.bind_some]
        exact congrArg EngineRun.answer (hW.2 _ _ _)
      | false =>
        simp only [Bool.false_eq_true, if_false, Request.call]
        cases s.disk .db with
        | none => rfl
        | some db =>
          simp only [Option.map_some, Option.bind_some]
          exact congrArg EngineRun.answer (hW.2 _ _ _)
    · simp only [hbad, if_false, Bool.false_eq_true]

namespace ValidateCall

variable (c : ValidateCall)

/-- The call of the engine, from the environment with the staged data. -/
def engineCall (env : List (String × String)) : EngineCall := { c.request with runEnv := env : Request }.call c.batch c.proc c.disk

/-- The outcome as a function of what the execution reads. -/
def outcome (W : World) : Option ValidationOutput :=
  (shmIngestEnv W c.batch c.request.runEnv).bind fun env => (W.answer (c.engineCall env)).bind fun a =>
    c.validator.outcome W c.batch.payload a c.run.traceMode c.skipValidate

end ValidateCall

theorem live_eq_outcome (hW : W.Deterministic) (hat : d₁.At W s) : d₁.live W s = d₁.outcome W := by
  obtain ⟨-, t, hre, hp, hd⟩ := hat
  rw [ValidateCall.live, hre, ValidateCall.outcome]
  simp only [execute]
  cases henv : shmIngestEnv W d₁.batch d₁.request.runEnv with
  | none => rfl
  | some env =>
    simp only [Option.bind_some]
    let sources := d₁.tool.compiler.inputs (compileOptions d₁.run.optimize d₁.run.traceMode) t
    have hfst : (callHotpatchProc W sources { d₁.request with runEnv := env } d₁.batch t).1 = _ :=
      callHotpatchProc_fst hW hp
    rw [hd] at hfst
    rw [ValidateCall.engineCall, ← hfst]
    split <;> rename_i heq <;> rw [heq] <;> rfl

/-- A call that is executed returns its outcome. -/
theorem exec_false {res : ExecValidateResult} (h : d₁.exec W s = (some (res, false), s')) :
    ∃ o, d₁.live W s = some o ∧ o.correct = res.success ∧ o.message = res.message ∧ o.metrics = res.metrics := by
  unfold ValidateCall.exec execAndValidate at h
  split at h
  · split at h <;> cases h
  · split at h
    · cases h
    · rename_i hexec
      cases h
      unfold executeAndValidate at hexec
      dsimp only at hexec
      split at hexec
      · cases hexec
      · split at hexec
        · cases hexec
        · rename_i t ht
          split at hexec
          · cases hexec
          · rename_i a u hx
            split at hexec
            · cases hexec
            · rename_i o ho
              obtain ⟨⟨hash, rfl⟩, -, -⟩ := record_some hexec
              refine ⟨o, ?_, rfl, rfl, rfl⟩
              rw [ValidateCall.live, ht]
              simp only [hx]
              exact ho

/-! ## Calls that agree -/

theorem shmIngestEnv_congr {b₁ b₂ : QueryBatch} {env : List (String × String)} (h : b₁.execSettings = b₂.execSettings) :
    shmIngestEnv W b₁ env = shmIngestEnv W b₂ env := by
  unfold shmIngestEnv subsetDb
  rw [h]

theorem successMetrics_congr {v₁ v₂ : Validator} {b : BatchPayload} (hu : v₁.useUmbra = v₂.useUmbra)
    (hall : b.executedIds.length = v₁.allQueryIds.length ↔ b.executedIds.length = v₂.allQueryIds.length) :
    v₁.successMetrics b = v₂.successMetrics b := by
  simp only [Validator.successMetrics, hu, hall]

theorem outcomeAgainst_congr {v₁ v₂ : Validator} {refs : System → Option (List Table)} {b : BatchPayload} {a : Answer}
    {t₁ t₂ skip : Bool}
    (h : skip = true ∨ b.queryList = [] ∨ (t₁ = t₂ ∧ v₁.outputStdoutStderr = v₂.outputStdoutStderr ∧
      v₁.useUmbra = v₂.useUmbra ∧
      (b.executedIds.length = v₁.allQueryIds.length ↔ b.executedIds.length = v₂.allQueryIds.length))) :
    v₁.outcomeAgainst W refs b a t₁ skip = v₂.outcomeAgainst W refs b a t₂ skip := by
  unfold Validator.outcomeAgainst
  rcases h with rfl | hnil | ⟨rfl, ho, hu, hall⟩
  · rfl
  · -- no entry: the engine crashed, or it returned more results than entries
    have hv : v₁.validateQuery W refs b a t₁ = v₂.validateQuery W refs b a t₂ := by
      unfold Validator.validateQuery
      by_cases hlen : a.queryResults.length = 0
      · simp [hlen]
      · simp [hlen, hnil]
    rw [hv]
  · have hv : v₁.validateQuery W refs b a t₁ = v₂.validateQuery W refs b a t₁ := by
      simp only [Validator.validateQuery, Validator.checkOutputCorrectness, Validator.successMessage, ho, hu,
        successMetrics_congr hu hall]
    rw [hv]

theorem key_fields (hkey : d₁.key = d₂.key) :
    d₁.batch.payload = d₂.batch.payload ∧ d₁.skipValidate = d₂.skipValidate := by
  simp only [ValidateCall.key, validateKey, ValidatePayload.mk.injEq] at hkey
  exact ⟨hkey.1, hkey.2.2.1⟩

theorem engineCall_congr (hkey : d₁.key = d₂.key) (h : SameRun d₁ d₂) {env : List (String × String)} :
    d₁.engineCall env = d₂.engineCall env := by
  obtain ⟨hb, -⟩ := key_fields hkey
  have hcli : d₁.batch.cliCallArgs = d₂.batch.cliCallArgs := congrArg BatchPayload.cliCallArgs hb
  have htime : d₁.batch.timeoutS = d₂.batch.timeoutS := congrArg BatchPayload.timeoutS hb
  have hmem := h.memoryLimit
  have hpol := h.policy
  rw [ValidateCall.engineCall, ValidateCall.engineCall, Request.call, Request.call, EngineCall.mk.injEq]
  exact ⟨h.proc, h.disk, congrArg ("./db " ++ ·) hcli, hmem, hpol, h.queryArgs, htime, rfl⟩

theorem outcome_eq (hkey : d₁.key = d₂.key) (h : SameRun d₁ d₂) : d₁.outcome W = d₂.outcome W := by
  obtain ⟨hb, hskip⟩ := key_fields hkey
  have hsettings : d₁.skipValidate = true ∨ d₁.batch.payload.queryList = [] ∨
      (d₁.run.traceMode = d₂.run.traceMode ∧ d₁.validator.outputStdoutStderr = d₂.validator.outputStdoutStderr ∧
        d₁.validator.useUmbra = d₂.validator.useUmbra ∧
        (d₁.batch.payload.executedIds.length = d₁.validator.allQueryIds.length ↔
          d₁.batch.payload.executedIds.length = d₂.validator.allQueryIds.length)) := by
    rcases h.settings with hs | hnil | hsame
    · exact Or.inl hs
    · exact Or.inr (Or.inl (by rw [QueryBatch.payload, hnil]; rfl))
    · exact Or.inr (Or.inr ⟨hsame.traceMode, hsame.outputStdoutStderr, hsame.useUmbra, by
        have hall := hsame.allQueryIds
        rwa [← hb] at hall⟩)
  unfold ValidateCall.outcome
  rw [shmIngestEnv_congr (congrArg BatchPayload.execSettings hb), h.runEnv, ← hskip, ← hb]
  congr 1
  funext env
  rw [engineCall_congr hkey h]
  congr 1
  funext a
  exact outcomeAgainst_congr hsettings

/-! ## Calls that differ -/

/-- A world whose engine is `engine` and whose comparisons are all equal. -/
def probe (engine : EngineCall → Answer) : World where
  compile := fun _ _ => some ""
  wreck := fun _ _ d => d
  engine := fun _ c => { answer := some (engine c), alive := true }
  reference := fun _ _ _ _ => some ""
  compare := fun _ _ _ => .equal
  stage := fun path => some path
  buildId := fun _ _ => none
  symbolize := fun _ => ""
  commit := fun _ _ => "new"

theorem probe_deterministic (engine : EngineCall → Answer) : (probe engine).Deterministic :=
  ⟨fun _ _ _ => rfl, fun _ _ _ => rfl⟩

variable {engine : EngineCall → Answer}

/-- A state in which the call is made, with this cache. -/
def ValidateCall.stateWith (c : ValidateCall) (cache : Dict ValidatePayload ExecValidateResult) : State where
  files := []
  git := some { currentHash := c.hash, head := none, commits := [("new", [])] }
  disk := c.disk
  validateCache := cache
  pool := [(c.request.key, { fingerprint := none, proc := some c.proc })]

theorem probe_at {cache : Dict ValidatePayload ExecValidateResult} (hc : d₁.run.currentGitSnapshot = none) :
    d₁.At (probe engine) (d₁.stateWith cache) := by
  have hpool : startProc d₁.request.key (d₁.stateWith cache) = some d₁.proc := by
    simp [startProc, ValidateCall.stateWith, Dict.get]
  refine ⟨⟨_, rfl, rfl⟩, ?_⟩
  by_cases hused : d₁.run.compileUsedCache = true
  · -- the build fails and leaves the disk as it is
    refine ⟨{ d₁.stateWith cache with tick := 1 }, ?_, hpool, rfl⟩
    unfold recompileIfNecessary buildCached compileKey
    rw [if_pos hused, hc]
    simp only [ValidateCall.stateWith, Bool.not_true, Bool.and_false, Bool.false_eq_true, if_false]
    split_ifs <;> rfl
  · refine ⟨d₁.stateWith cache, ?_, hpool, rfl⟩
    rw [recompileIfNecessary, if_neg hused]

/-- The first call is executed and leaves its entry; the second finds it. -/
theorem probe_replay (hkey : d₁.key = d₂.key) (h₁ : d₁.Caches) (h₂ : d₂.Caches) {o : ValidationOutput}
    (ho : d₁.outcome (probe engine) = some o) (h : VerdictReplay d₁ d₂) :
    ∃ o', d₂.outcome (probe engine) = some o' ∧ o'.message = o.message ∧ o'.metrics = o.metrics := by
  obtain ⟨hdir, hdo, honly, hlive, hsnap⟩ := h₁
  have hW := probe_deterministic engine
  have hat : d₁.At (probe engine) (d₁.stateWith []) := probe_at hsnap
  have hlo := live_eq_outcome hW hat
  rw [ho] at hlo
  have hstart := recompile_kept (W := probe engine) (T := d₁.tool) (p := d₁.run) (s := d₁.stateWith [])
  -- the first call
  have hexec : ∃ res s', d₁.exec (probe engine) (d₁.stateWith []) = (some (res, false), s') ∧
      s'.validateCache.get d₁.key = some res ∧ res.message = o.message ∧ res.metrics = o.metrics ∧
      res.snapshotHash = some "new" := by
    unfold ValidateCall.exec execAndValidate
    have hmiss : cachedVerdict d₁.tool d₁.validator d₁.run (d₁.stateWith []) d₁.batch = none := by
      simp [cachedVerdict, ValidateCall.stateWith]
    rw [hmiss]
    simp only [executeAndValidate, honly, Bool.false_eq_true, if_false]
    rw [ValidateCall.live] at hlo
    revert hlo hstart
    cases hre : recompileIfNecessary (probe engine) d₁.tool d₁.run (d₁.stateWith []) with
    | mk re t =>
      intro hlo hstart
      cases re with
      | none => cases hlo
      | some u =>
        cases hx : execute (probe engine) d₁.tool d₁.run d₁.request d₁.batch t with
        | mk ans u' =>
          simp only [hx] at hlo
          cases ans with
          | none => cases hlo
          | some a =>
            have hk := execute_kept hx
            have hgit : u'.git = some { currentHash := d₁.hash, head := none, commits := [("new", [])] } :=
              hk.git.trans hstart.git
            have hcache : u'.validateCache = [] := hk.validateCache.trans hstart.validateCache
            have hname : Option.map (fun g => validateKey d₁.tool d₁.run g d₁.batch) (d₁.stateWith []).git =
                some d₁.key := rfl
            rw [ValidateCall.skipValidate] at hlo
            simp only [hx, hlo, hname, record, hgit, hdo, hdir, Git.snapshot, Git.snapshot.commit, hcache, Dict.get_nil,
              List.not_mem_nil, if_false, Bool.false_eq_true, if_true, Option.isSome_none]
            refine ⟨_, _, rfl, ?_, rfl, rfl, rfl⟩
            simp only [Dict.get_set, if_true]
  obtain ⟨res, s', hrun, hget, hmsg, hmet, hnew⟩ := hexec
  -- the second call
  have hhit : ∃ s'', d₂.exec (probe engine) (d₂.stateWith [(d₁.key, res)]) = (some (res, true), s'') := by
    unfold ValidateCall.exec execAndValidate
    have hv : cachedVerdict d₂.tool d₂.validator d₂.run (d₂.stateWith [(d₁.key, res)]) d₂.batch = some res := by
      rw [cachedVerdict]
      simp only [ValidateCall.stateWith, h₂.1, h₂.2.2.2.1, Bool.not_false, Bool.and_true, if_true]
      have hk : validateKey d₂.tool d₂.run { currentHash := d₂.hash, head := none, commits := [("new", [])] } d₂.batch =
          d₁.key := hkey.symm
      rw [hk, Dict.get, if_pos rfl]
    rw [hv]
    simp only [ValidateCall.stateWith, Option.bind_some, hnew, Git.restore, Dict.get, if_true, Option.map_some]
    exact ⟨_, rfl⟩
  obtain ⟨s'', hhit⟩ := hhit
  have hat₂ : d₂.At (probe engine) (d₂.stateWith [(d₁.key, res)]) := probe_at h₂.2.2.2.2
  obtain ⟨o', ho', -, hm, hme⟩ := h _ hW _ _ _ _ res hat hat₂ hrun hget hhit
  rw [live_eq_outcome hW hat₂] at ho'
  exact ⟨o', ho', hm.trans hmsg, hme.trans hmet⟩

/-- What staging adds to the environment in a `probe`. -/
def stagedEnv (b : QueryBatch) : List (String × String) :=
  ((subsetDb b).map fun path => ("SYNNODB_SHM_INGEST", path)).toList

theorem probe_outcome : d₁.outcome (probe engine) = d₁.validator.outcome (probe engine) d₁.batch.payload
    (engine (d₁.engineCall (d₁.request.runEnv ++ stagedEnv d₁.batch))) d₁.run.traceMode d₁.skipValidate := by
  have henv : shmIngestEnv (probe engine) d₁.batch d₁.request.runEnv =
      some (d₁.request.runEnv ++ stagedEnv d₁.batch) := by
    unfold shmIngestEnv stagedEnv
    cases subsetDb d₁.batch with
    | none => simp
    | some path => rfl
  have hans : ∀ c, (probe engine).answer c = some (engine c) := by
    intro c
    simp only [World.answer, probe, Option.bind_some, EngineCall.again, if_true]
    split <;> rfl
  rw [ValidateCall.outcome, henv, Option.bind_some, hans, Option.bind_some]

/-! ### The engine's inputs -/

/-- The message of a batch without results, up to the ingest time. -/
def crashText (engine : EngineCall → Answer) (b : BatchPayload) (a : Answer) (skip : Bool) : Message :=
  if skip then [.text ("stdout: " ++ rstrip a.out ++ "\n"), .text ("stderr: " ++ rstrip a.err ++ "\n"), .text a.resp]
  else Validator.crashMessage (probe engine) b a

theorem crash_outcome {v : Validator} {b : BatchPayload} {a : Answer} {t skip : Bool} (h : a.queryResults = []) :
    ∃ o, v.outcome (probe engine) b a t skip = some o ∧ o.message = crashText engine b a skip ++
      [.text "DB ingest/build time (ms): ", .time, .text "\n"] := by
  unfold Validator.outcome Validator.outcomeAgainst crashText
  cases skip with
  | true => exact ⟨_, rfl, rfl⟩
  | false =>
    simp only [Bool.false_eq_true, if_false, Validator.validateQuery, h, List.length_nil, if_true, Option.map_some]
    exact ⟨_, rfl, rfl⟩

theorem crashText_resp {b : BatchPayload} {skip : Bool} {r₁ r₂ : String} (h₁ : r₁ ≠ "") (h₂ : r₂ ≠ "")
    (h : crashText engine b { resp := r₁, out := "", err := "", queryResults := [] } skip =
      crashText engine b { resp := r₂, out := "", err := "", queryResults := [] } skip) : r₁ = r₂ := by
  unfold crashText at h
  cases skip with
  | true => simpa using h
  | false =>
    simp only [Bool.false_eq_true, if_false, Validator.crashMessage, h₁, h₂, List.cons.injEq, Piece.text.injEq] at h
    exact String.append_right_inj _ |>.1 h.2.1

theorem engineCall_of_replay (hkey : d₁.key = d₂.key) (h₁ : d₁.Caches) (h₂ : d₂.Caches) (h : VerdictReplay d₁ d₂) :
    d₂.engineCall (d₂.request.runEnv ++ stagedEnv d₂.batch) =
      d₁.engineCall (d₁.request.runEnv ++ stagedEnv d₁.batch) := by
  classical
  by_contra hne
  obtain ⟨hb, hskip⟩ := key_fields hkey
  -- an engine that answers the call of the first batch in another way than all others
  let eng : EngineCall → Answer := fun c =>
    { resp := if c = d₁.engineCall (d₁.request.runEnv ++ stagedEnv d₁.batch) then "a" else "b"
      out := "", err := "", queryResults := [] }
  obtain ⟨o₁, ho₁, hm₁⟩ := @crash_outcome eng d₁.validator d₁.batch.payload
    (eng (d₁.engineCall (d₁.request.runEnv ++ stagedEnv d₁.batch))) d₁.run.traceMode d₁.skipValidate rfl
  obtain ⟨o₂, ho₂, hm₂⟩ := @crash_outcome eng d₂.validator d₂.batch.payload
    (eng (d₂.engineCall (d₂.request.runEnv ++ stagedEnv d₂.batch))) d₂.run.traceMode d₂.skipValidate rfl
  obtain ⟨o, ho, hmsg, -⟩ := probe_replay hkey h₁ h₂ (probe_outcome.trans ho₁) h
  rw [probe_outcome, ho₂] at ho
  cases ho
  rw [hm₁, hm₂, ← hb, ← hskip] at hmsg
  refine absurd (crashText_resp ?_ ?_ (List.append_cancel_right hmsg)) ?_
  · split <;> decide
  · split <;> decide
  · rw [if_neg hne, if_pos rfl]
    decide

/-! ### The settings -/

/-- One result a line, each in a file of its own. -/
def perfect (c : EngineCall) : Answer where
  resp := ""
  out := ""
  err := ""
  queryResults := (List.range c.argsList.length).map fun i => ⟨"", String.ofList (List.replicate i 'r'), "", ""⟩
  written := (List.range c.argsList.length).map fun i => (String.ofList (List.replicate i 'r'), some "")

theorem reqId_injective : Function.Injective fun i : Nat => String.ofList (List.replicate i 'r') := by
  intro i j h
  have hl := congrArg String.toList h
  simp only [String.toList_ofList] at hl
  simpa using congrArg List.length hl

theorem checkEntries_equal : ∀ {entries : List (HashEntry × QueryResult)} {refs : List Table}
    {written : Dict String (Option Table)}, (entries.map fun e => e.2.reqId).Nodup →
    (∀ e ∈ entries, written.get e.2.reqId = some (some "")) →
    Validator.checkEntries (probe engine) entries refs written = some none
  | [], _, _, _, _ => by simp [Validator.checkEntries]
  | _ :: _, [], _, _, _ => by simp [Validator.checkEntries]
  | (inst, rt) :: entries, ref :: refs, written, hnd, hget => by
    rw [List.map_cons, List.nodup_cons] at hnd
    rw [Validator.checkEntries, hget (inst, rt) List.mem_cons_self]
    refine checkEntries_equal hnd.2 fun e he => ?_
    rw [Dict.get_erase, if_neg]
    · exact hget e (List.mem_cons_of_mem _ he)
    · rintro heq
      exact hnd.1 (heq ▸ List.mem_map_of_mem he)

theorem references_probe {system : System} {b : BatchPayload} :
    ∃ refs, Validator.references (probe engine) system b = some refs := by
  unfold Validator.references
  induction b.queryList with
  | nil => exact ⟨[], rfl⟩
  | cons e es ih =>
    obtain ⟨refs, hrefs⟩ := ih
    refine ⟨"" :: refs, ?_⟩
    rw [List.mapM_cons, hrefs]
    rfl

/-- The outcome of a batch whose results all match. -/
theorem perfect_outcome {v : Validator} {b : BatchPayload} {c : EngineCall} {t : Bool} (hne : b.queryList ≠ [])
    (hlen : c.argsList.length = b.queryList.length) :
    ∃ o, v.outcome (probe engine) b (perfect c) t false = some o ∧
      o.message = v.successMessage b "" ""
        (if t then some (formatQueryTraces (perfect c).queryResults b.queryList) else none) ++
        [.text "DB ingest/build time (ms): ", .time, .text "\n"] ∧
      o.metrics = v.successMetrics b ++ [("validation/executed_queries", .nat b.queryList.length),
        ("validation/runtime_seconds", .time), ("validation/ingest_time_ms", .time),
          ("validation/skip_validate", .bool false)] := by
  have hpos : b.queryList.length ≠ 0 := fun h => hne (List.length_eq_zero_iff.1 h)
  have hres : (perfect c).queryResults.length = b.queryList.length := by simp [perfect, hlen]
  have herr : formatPerQueryErrors (perfect c).queryResults = "" := by
    have hnil : ((perfect c).queryResults.filter fun r => r.error ≠ "") = [] := by
      rw [List.filter_eq_nil_iff]
      simp [perfect]
    rw [formatPerQueryErrors, hnil]
    rfl
  have hids : ((b.queryList.zip (perfect c).queryResults).map fun e => e.2.reqId) =
      (List.range c.argsList.length).map fun i => String.ofList (List.replicate i 'r') := by
    rw [show (fun e : HashEntry × QueryResult => e.2.reqId) = QueryResult.reqId ∘ Prod.snd from rfl, ← List.map_map,
      List.map_snd_zip (by rw [hres])]
    simp [perfect]
  have hcheck : ∀ refs, Validator.checkEntries (probe engine) (b.queryList.zip (perfect c).queryResults) refs
      (perfect c).written = some none := by
    intro refs
    refine checkEntries_equal ?_ ?_
    · rw [hids]
      exact (List.nodup_map_iff reqId_injective).2 List.nodup_range
    · intro e he
      have hmem : e.2.reqId ∈ (List.range c.argsList.length).map fun i => String.ofList (List.replicate i 'r') :=
        hids ▸ List.mem_map_of_mem he
      obtain ⟨i, hi, heq⟩ := List.mem_map.1 hmem
      refine Dict.Keyed.get_of_mem ?_ (List.mem_map.2 ⟨i, hi, by rw [heq]⟩)
      rw [Dict.Keyed, perfect, List.map_map]
      exact (List.nodup_map_iff reqId_injective).2 List.nodup_range
  obtain ⟨refs, hrefs⟩ := @references_probe engine .duckdb b
  obtain ⟨umbra, humbra⟩ := @references_probe engine .umbra b
  unfold Validator.outcome Validator.outcomeAgainst
  simp only [Bool.false_eq_true, if_false, Validator.validateQuery, hres, hpos, herr, ne_eq, not_true_eq_false,
    Validator.checkOutputCorrectness, hrefs, humbra, Option.map_some, ite_self, hcheck]
  exact ⟨_, rfl, rfl, rfl⟩

theorem successMessage_inj {v₁ v₂ : Validator} {b : BatchPayload} {t₁ t₂ : Bool} {x : String}
    (h : v₁.successMessage b "" "" (if t₁ then some x else none) =
      v₂.successMessage b "" "" (if t₂ then some x else none)) :
    v₁.outputStdoutStderr = v₂.outputStdoutStderr ∧ t₁ = t₂ := by
  unfold Validator.successMessage at h
  cases h₁ : v₁.outputStdoutStderr <;> cases h₂ : v₂.outputStdoutStderr <;>
    simp only [h₁, h₂, Bool.false_eq_true, if_false,
    if_true, List.nil_append, List.append_assoc, List.cons_append, List.cons.injEq, Piece.text.injEq, true_and,
    List.append_cancel_left_eq] at h ⊢
  · cases t₁ <;> cases t₂ <;> simp at h ⊢
  · exact absurd h.1 (by decide)
  · exact absurd h.1 (by decide)
  · cases t₁ <;> cases t₂ <;> simp at h ⊢

theorem successMetrics_inj {v₁ v₂ : Validator} {b : BatchPayload} (h : v₁.successMetrics b = v₂.successMetrics b) :
    v₁.useUmbra = v₂.useUmbra ∧
      (b.executedIds.length = v₁.allQueryIds.length ↔ b.executedIds.length = v₂.allQueryIds.length) := by
  have hu : v₁.useUmbra = v₂.useUmbra := by
    simp only [Validator.successMetrics, List.append_assoc, List.append_cancel_left_eq, List.cons_append,
      List.cons.injEq, true_and, Prod.mk.injEq] at h
    cases h₁ : v₁.useUmbra <;> cases h₂ : v₂.useUmbra <;> simp [h₁, h₂] at h ⊢
  refine ⟨hu, ?_⟩
  simp only [Validator.successMetrics, hu, List.append_cancel_right_eq, List.append_cancel_left_eq] at h
  split_ifs at h with h₁ h₂ h₂
  · exact ⟨fun _ => h₂, fun _ => h₁⟩
  · exact ⟨fun hlen => absurd hlen h₁, fun hlen => absurd hlen h₂⟩

theorem settings_of_replay (hkey : d₁.key = d₂.key) (h₁ : d₁.Caches) (h₂ : d₂.Caches) (hskip : d₁.skipValidate = false)
    (hne : d₁.batch.queryList ≠ []) (h : VerdictReplay d₁ d₂) : SameSettings d₁ d₂ := by
  obtain ⟨hb, hskip'⟩ := key_fields hkey
  have hne' : d₁.batch.payload.queryList ≠ [] := by
    intro hnil
    rw [QueryBatch.payload, List.map_eq_nil_iff] at hnil
    exact hne hnil
  have hlen : ∀ (d : ValidateCall) (env : List (String × String)),
      (d.engineCall env).argsList.length = d.batch.payload.queryList.length := by
    intro d env
    rw [QueryBatch.length_payload]
    exact List.length_map _
  obtain ⟨o₁, ho₁, hm₁, hx₁⟩ := @perfect_outcome perfect d₁.validator _ _ d₁.run.traceMode hne'
    (hlen d₁ (d₁.request.runEnv ++ stagedEnv d₁.batch))
  obtain ⟨o₂, ho₂, hm₂, hx₂⟩ := @perfect_outcome perfect d₂.validator d₂.batch.payload _ d₂.run.traceMode (hb ▸ hne')
    (hlen d₂ (d₂.request.runEnv ++ stagedEnv d₂.batch))
  have hp₁ : d₁.outcome (probe perfect) = some o₁ := by
    rw [probe_outcome, hskip]
    exact ho₁
  obtain ⟨o, ho, hmsg, hmet⟩ := probe_replay hkey h₁ h₂ hp₁ h
  rw [probe_outcome, ← hskip', hskip, ho₂] at ho
  cases ho
  rw [engineCall_of_replay hkey h₁ h₂ h] at hm₂
  rw [hm₁, hm₂, ← hb] at hmsg
  rw [hx₁, hx₂, ← hb] at hmet
  obtain ⟨hout, htrace⟩ := successMessage_inj (List.append_cancel_right hmsg)
  obtain ⟨humbra, hall⟩ := successMetrics_inj (List.append_cancel_right hmet)
  refine ⟨htrace.symm, hout.symm, humbra.symm, ?_⟩
  rw [← hb]
  exact hall.symm

theorem verdict_replay_iff (hkey : d₁.key = d₂.key) (h₁ : d₁.Caches) (h₂ : d₂.Caches) :
    VerdictReplay d₁ d₂ ↔ SameRun d₁ d₂ := by
  constructor
  · intro h
    obtain ⟨hb, -⟩ := key_fields hkey
    have hcall := engineCall_of_replay hkey h₁ h₂ h
    rw [ValidateCall.engineCall, ValidateCall.engineCall, Request.call, Request.call, EngineCall.mk.injEq] at hcall
    obtain ⟨hproc, hdisk, -, hmem, hpol, hargs, -, henv⟩ := hcall
    have hstaged : stagedEnv d₁.batch = stagedEnv d₂.batch := by
      unfold stagedEnv subsetDb
      rw [show d₁.batch.execSettings = d₂.batch.execSettings from congrArg BatchPayload.execSettings hb]
    refine ⟨hproc.symm, hdisk.symm, hmem.symm, hpol.symm, ?_, hargs.symm, ?_⟩
    · rw [hstaged] at henv
      exact (List.append_cancel_right henv).symm
    · by_cases hskip : d₁.skipValidate = true
      · exact Or.inl hskip
      · by_cases hnil : d₁.batch.queryList = []
        · exact Or.inr (Or.inl hnil)
        · exact Or.inr (Or.inr (settings_of_replay hkey h₁ h₂ (by simpa using hskip) hnil h))
  · intro h W hW s₁ s₁' s₂ s₂' res hat₁ hat₂ hexec _ _
    obtain ⟨o, ho, hc, hm, hx⟩ := exec_false hexec
    refine ⟨o, ?_, hc, hm, hx⟩
    rw [live_eq_outcome hW hat₂, ← outcome_eq hkey h, ← live_eq_outcome hW hat₁]
    exact ho

/-- **A replayed verdict is that of the same run exactly when the calls agree on what their key leaves out**: for
builds the files, the paths, the compiler and the sanitizer; for batches the engine, its environment, the lines of the
requests and, where a result is compared, the settings of the comparison. -/
theorem replay_sound (c₁ c₂ : BuildCall) (d₁ d₂ : ValidateCall) :
    (c₁.key = c₂.key → c₁.Writes → c₂.setup.hasCacheDir = true → (BuildReplay c₁ c₂ ↔ SameBuild c₁ c₂)) ∧
      (d₁.key = d₂.key → d₁.Caches → d₂.Caches → (VerdictReplay d₁ d₂ ↔ SameRun d₁ d₂)) :=
  ⟨build_replay_iff, verdict_replay_iff⟩

/-! ## Two sanitizer profiles, two settings of the output -/

/-- A build with the sanitizers of `SYNNO_SANITIZE`. -/
def sanitizedBuild (sanitize : Option String) : BuildCall where
  setup :=
    { args := { libs := [], mainSrc := { parts := ["db.cpp"] } }, workingDir := ["w"], cwd := ["w"], environ := { sanitize } }
  flags := ["-O3"]
  hash := some "c0"
  files := []

/-- A batch of one query, before or after the marker that asks for stdout and stderr. -/
def printingCall (outputStdoutStderr : Bool) : ValidateCall where
  tool :=
    { compiler := (sanitizedBuild none).setup, datasetName := "d"
      validator := some { allQueryIds := ["1"], outputStdoutStderr }
      provider :=
        { benchmark := "b", queryIds := ["1"], fastCheckSfs := [], exhaustiveSfs := [], ingestSfs := []
          serveFromDuckdb := false, benchmarkSf := 1, gen := fun _ _ => none, seed := 0, orderBy := fun _ => []
          argsElement := fun id _ _ => id, subsetDir := fun _ => none, subsetBytes := fun _ => 0, storageDir := fun _ => "" }
      resolveCores := fun n => (n, []), coreIdsToEnv := fun _ => "1", cgroupPolicy := fun _ => "" }
  validator := { allQueryIds := ["1"], outputStdoutStderr }
  run := { optimize := true }
  batch :=
    { queryList := [⟨"b", "1", "SELECT 1", "1", [], [], 0, 1⟩], benchmark := "b"
      execSettings := ⟨1, .inMemory, "fraction1/", none, .flat⟩, cliCallArgs := "fraction1/"
      generalSystemConfig := ⟨none, 1, none⟩, timeoutS := 120, extraEnv := [] }
  hash := some "c0"
  proc := ⟨(sanitizedBuild none).inputs, none⟩
  disk := fun _ => none

theorem replay_sound_settings :
    (BuildReplay (sanitizedBuild none) (sanitizedBuild "address") ↔
        SameBuild (sanitizedBuild none) (sanitizedBuild "address")) ∧
      (VerdictReplay (printingCall false) (printingCall true) ↔ SameRun (printingCall false) (printingCall true)) := by
  have h := replay_sound (sanitizedBuild none) (sanitizedBuild "address") (printingCall false) (printingCall true)
  exact ⟨h.1 rfl ⟨rfl, rfl, rfl⟩ rfl, h.2 rfl ⟨rfl, rfl, rfl, rfl, rfl⟩ ⟨rfl, rfl, rfl, rfl, rfl⟩⟩

/-- The keys have neither the sanitizers nor the setting. -/
theorem replay_of_other_settings :
    (sanitizedBuild none).key = (sanitizedBuild "address").key ∧
      ¬ BuildReplay (sanitizedBuild none) (sanitizedBuild "address") ∧
      (printingCall false).key = (printingCall true).key ∧ ¬ VerdictReplay (printingCall false) (printingCall true) := by
  have hbuild : (sanitizedBuild none).key = (sanitizedBuild "address").key := rfl
  have hbatch : (printingCall false).key = (printingCall true).key := rfl
  refine ⟨hbuild, fun h => ?_, hbatch, fun h => ?_⟩
  · have hsame := (build_replay_iff hbuild ⟨rfl, rfl, rfl⟩ rfl).1 h
    exact absurd hsame.sanitizeFlags (by decide +kernel)
  · have hsame := (verdict_replay_iff hbatch ⟨rfl, rfl, rfl, rfl, rfl⟩ ⟨rfl, rfl, rfl, rfl, rfl⟩).1 h
    rcases hsame.settings with hskip | hnil | hset
    · exact absurd hskip (by decide)
    · exact absurd hnil (by decide)
    · exact absurd hset.outputStdoutStderr (by decide)

end SynnoDB.Tools
