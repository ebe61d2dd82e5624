import Mathlib
import SynnoDB.Tools.Validator

/-!
# The run tool (`tools/run.py:140-700`, `query_validator_class.py:199-435`, `compiler_cached.py:61-139`, `pool.py`)

| here | there |
| --- | --- |
| `State`           | the files, git, what is on disk, the two caches, the pool; `tick` counts builds and executions |
| `State.ran`       | **what was executed**: one entry a `run` of an engine, newest last; the code keeps no such record |
| `Runner`          | a `HotpatchProc` of the pool with its stored fingerprint |
| `resolveCores`, `coreIdsToEnv` | `resolve_target_cores`, `core_ids_to_env` |
| `cgroupPolicy`    | the pool key suffix of `_cgroup_launch_policy`, from the environment |
| `Option`          | `none`: an exception; the state keeps what was done before it |

A running process never ingests again; its builder and query plugins are those on disk when it gets a RUN. A restore
puts the whole tree of the commit in the workspace. The snapshots of other tools have other names. Left out: the lines
of `Ingest ms`, the truncation of texts and of CSV files, the statistics and the sweep of result files.
-/

namespace SynnoDB.Tools

structure ValidatePayload where
  queryBatch : BatchPayload
  snapshotterHash : Option String
  skipValidate : Bool
  stopOnFirstError : Bool
  compileKeyHash : Option CompilePayload
  optimize : Bool
  memoryBudgetMb : Option Nat
deriving DecidableEq

structure ExecValidateResult where
  message : Message
  success : Bool
  metrics : Metrics
  stdout : String
  stderr : String
  resp : String
  traceOutput : Option String
  snapshotHash : Option String
deriving DecidableEq

structure Git where
  currentHash : Option String
  head : Option String
  refs : List ValidatePayload := []
  commits : Dict String Tree := []

structure Runner where
  fingerprint : Option String
  proc : Option Proc

structure Executed where
  batch : QueryBatch
  call : EngineCall
  /-- What a build would read now. -/
  sources : BuildInputs
  answer : Option Answer

structure State where
  files : Tree
  outside : Tree := []
  git : Option Git := none
  disk : Disk := fun _ => none
  compileCache : Dict CompilePayload (Option String) := []
  validateCache : Dict ValidatePayload ExecValidateResult := []
  pool : Dict String Runner := []
  tick : Nat := 0
  ran : List Executed := []

structure RunTool where
  compiler : CompilerSetup
  validator : Option Validator
  parseOutAndValidateOutput : Bool := true
  memoryBudgetMb : Option Nat := none
  numThreads : Nat := 1
  datasetName : String
  provider : Provider
  resolveCores : Nat → Nat × List Nat
  coreIdsToEnv : Option (List Nat) → String
  cgroupPolicy : Option Nat → String
  physLimit : Option Nat := none

/-- The arguments that `run_worker` passes on to each batch. -/
structure BatchRun where
  optimize : Bool
  traceMode : Bool := false
  forceCompile : Bool := false
  forceLive : Bool := false
  currentGitSnapshot : Option String := none
  compileUsedCache : Bool := false
  compileKeyHash : Option CompilePayload := none
  extraEnv : List (String × String) := []

/-! ## Snapshots -/

namespace Git

/-- `snapshot`; `none`: the name is taken. -/
def snapshot (W : World) (g : Git) (files : Tree) (name : ValidatePayload) : Option (Git × String) :=
  if name ∈ g.refs then none
  else match g.head with
    | some parent =>
      if g.commits.get parent = some files then
        some ({ g with refs := name :: g.refs, currentHash := some parent }, parent)
      else commit parent
    | none => commit none
where
  commit (parent : Option String) : Option (Git × String) :=
    let new := W.commit parent files
    some ({ currentHash := some new, head := some new, refs := name :: g.refs, commits := g.commits.set new files }, new)

/-- `restore`; `none`: git does not know the commit. -/
def restore (g : Git) (hash : String) : Option (Git × Tree) :=
  (g.commits.get hash).map fun files => ({ g with currentHash := some hash, head := some hash }, files)

end Git

/-! ## Builds -/

section
variable (W : World)

def CompilerSetup.inputs (c : CompilerSetup) (flags : List String) (s : State) : BuildInputs where
  files := s.files
  outside := s.outside
  config := c.config s.files
  flags := flags

/-- `Compiler.build`. -/
def build (c : CompilerSetup) (flags : List String) (s : State) : Option String × State :=
  let inputs := c.inputs flags s
  match W.compile s.tick inputs with
  | none => (none, { s with disk := fun _ => some inputs, tick := s.tick + 1 })
  | some err => (some err, { s with disk := W.wreck s.tick inputs s.disk, tick := s.tick + 1 })

/-- The key of `_check_answer_from_cache`, if there is one; `none`: the assertion fails. -/
def compileKey (c : CompilerSetup) (flags : List String) (current : Option String) (s : State) :
    Option (Option CompilePayload) :=
  match current, s.git with
  | none, none => some none
  | some _, some _ => none
  | some hash, none => some (if c.hasCacheDir then some (c.payload s.files (some hash) flags) else none)
  | none, some g => some (if c.hasCacheDir then some (c.payload s.files g.currentHash flags) else none)

/-- `build_cached`: output, whether it is from the cache, the key. -/
def buildCached (c : CompilerSetup) (flags : List String) (skipCache writeCache : Bool) (current : Option String)
    (s : State) : Option (Option String × Bool × Option CompilePayload) × State :=
  match compileKey c flags current s with
  | none => (none, s)
  | some key =>
    match key.bind s.compileCache.get, skipCache with
    | some outputs, false => (some (outputs, true, key), s)
    | cached, _ =>
      if c.onlyFromCache && !skipCache then (none, s)
      else
        let (output, s) := build W c flags s
        let write := writeCache && !(skipCache && cached.isSome) && !c.doNotCache && !c.onlyFromCache
        match key with
        | some k => (some (output, false, key), if write then { s with compileCache := s.compileCache.set k output } else s)
        | none => (some (output, false, key), s)

/-! ## Engines -/

/-- `_HotpatchHolder.get`. -/
def poolGet (key : String) (fingerprint : Option String) (s : State) : State :=
  let fresh : State := { s with pool := s.pool.set key { fingerprint := fingerprint, proc := none } }
  match s.pool.get key with
  | none => fresh
  | some r => if fingerprint.isSome && r.fingerprint.isSome && r.fingerprint != fingerprint then fresh else s

/-- What an engine process runs on: binary and loader as it started, the other plugins from disk. -/
def Proc.running (p : Proc) (d : Disk) : Disk
  | .db => some p.db
  | .loader => p.loader
  | a => d a

/-- What a call ran on. -/
def EngineCall.running (c : EngineCall) : Disk := c.proc.running c.disk

/-- `_start`: a process that is there is kept. -/
def startProc (key : String) (s : State) : Option Proc :=
  match (s.pool.get key).bind Runner.proc with
  | some p => some p
  | none => (s.disk .db).map fun db => { db, loader := s.disk .loader }

/-- An execution, before it is known on which process. -/
structure Request where
  key : String
  command : String
  memoryLimit : Option Nat
  policy : String
  runEnv : List (String × String)

def Request.call (r : Request) (b : QueryBatch) (p : Proc) (d : Disk) : EngineCall where
  proc := p
  disk := d
  command := r.command
  memoryLimit := r.memoryLimit
  policy := r.policy
  argsList := b.queryList.map QueryEntry.queryArgs
  timeoutS := b.timeoutS
  runEnv := r.runEnv

/-- `HotpatchProc.run`. -/
def engineRun (sources : BuildInputs) (r : Request) (b : QueryBatch) (s : State) : Option Answer × State :=
  match startProc r.key s with
  | none => (none, s)
  | some p =>
    let run := W.engine s.tick (r.call b p s.disk)
    let runner : Runner := { fingerprint := (s.pool.get r.key).bind Runner.fingerprint, proc := if run.alive then some p else none }
    (run.answer,
      { s with
        pool := s.pool.set r.key runner
        tick := s.tick + 1
        ran := s.ran ++ [{ batch := b, call := r.call b p s.disk, sources, answer := run.answer }] })

def Answer.badAlloc (a : Answer) : Bool :=
  a.queryResults.isEmpty &&
    (decide ("std::bad_alloc".toList <:+: a.out.toList) || decide ("std::bad_alloc".toList <:+: a.err.toList))

/-- `call_hotpatch_proc`: one more try when the process ran out of memory. -/
def callHotpatchProc (sources : BuildInputs) (r : Request) (b : QueryBatch) (s : State) : Option Answer × State :=
  match engineRun W sources r b s with
  | (none, s) => (none, s)
  | (some a, s) => if a.badAlloc then engineRun W sources r b s else (some a, s)

/-! ## Validation with its cache -/

def validateKey (T : RunTool) (p : BatchRun) (g : Git) (b : QueryBatch) : ValidatePayload where
  queryBatch := b.payload
  snapshotterHash := g.currentHash
  skipValidate := !T.parseOutAndValidateOutput
  stopOnFirstError := true
  compileKeyHash := p.compileKeyHash
  optimize := p.optimize
  memoryBudgetMb := T.memoryBudgetMb

/-- The entry that answers a batch: there is a cache, it is not bypassed, and it has the key. -/
def cachedVerdict (T : RunTool) (v : Validator) (p : BatchRun) (s : State) (b : QueryBatch) : Option ExecValidateResult :=
  match s.git with
  | none => none
  | some g => if v.hasCacheDir && !p.forceLive then s.validateCache.get (validateKey T p g b) else none

/-- `fn_compile_callback`; its outcome is dropped. -/
def recompileIfNecessary (T : RunTool) (p : BatchRun) (s : State) : Option Unit × State :=
  if p.compileUsedCache then
    match buildCached W T.compiler (compileOptions p.optimize p.traceMode) true false p.currentGitSnapshot s with
    | (none, s) => (none, s)
    | (some _, s) => (some (), s)
  else (some (), s)

def subsetDb (b : QueryBatch) : Option String :=
  if b.execSettings.dataSource = .duckdb then some (b.execSettings.parquetDir ++ "subset.duckdb") else none

/-- `_run_env_with_optional_shm_ingest`. -/
def shmIngestEnv (b : QueryBatch) (env : List (String × String)) : Option (List (String × String)) :=
  match subsetDb b with
  | none => some env
  | some path => (W.stage path).map fun dir => env ++ [("SYNNODB_SHM_INGEST", dir)]

/-- `execute_fn`. -/
def execute (T : RunTool) (p : BatchRun) (r : Request) (b : QueryBatch) (s : State) : Option Answer × State :=
  match shmIngestEnv W b r.runEnv with
  | none => (none, s)
  | some env =>
    callHotpatchProc W (T.compiler.inputs (compileOptions p.optimize p.traceMode) s) { r with runEnv := env } b s

/-- Snapshot and write of the cache; `none`: the name or the entry is there already. -/
def record (v : Validator) (key : Option ValidatePayload) (result : ExecValidateResult) (s : State) :
    Option ExecValidateResult × State :=
  match s.git, key with
  | some g, some name =>
    if v.doNotCache then (some result, s)
    else match g.snapshot W s.files name with
      | none => (none, s)
      | some (g', hash) =>
        let result := { result with snapshotHash := some hash }
        let s := { s with git := some g' }
        if v.hasCacheDir then
          if (s.validateCache.get name).isSome then (none, s)
          else (some result, { s with validateCache := s.validateCache.set name result })
        else (some result, s)
  | _, _ => (some result, s)

/-- `_execute_and_validate`. -/
def executeAndValidate (T : RunTool) (v : Validator) (p : BatchRun) (r : Request) (b : QueryBatch) (s : State) :
    Option ExecValidateResult × State :=
  let key := s.git.map fun g => validateKey T p g b
  if v.onlyFromCache then (none, s)
  else match recompileIfNecessary W T p s with
    | (none, s) => (none, s)
    | (some (), s) => match execute W T p r b s with
      | (none, s) => (none, s)
      | (some a, s) => match v.outcome W b.payload a p.traceMode (!T.parseOutAndValidateOutput) with
        | none => (none, s)
        | some o => record W v key
            { message := o.message, success := o.correct, metrics := o.metrics, stdout := a.out, stderr := a.err,
              resp := a.resp, traceOutput := o.traceOutput, snapshotHash := none } s

/-- `exec_and_validate`, with the flag `replayed_from_cache`. -/
def execAndValidate (T : RunTool) (v : Validator) (p : BatchRun) (r : Request) (b : QueryBatch) (s : State) :
    Option (ExecValidateResult × Bool) × State :=
  match cachedVerdict T v p s b with
  | some cached =>
    match s.git.bind fun g => cached.snapshotHash.bind g.restore with
    | none => (none, s)
    | some (g, files) => (some (cached, true), { s with git := some g, files })
  | none =>
    match executeAndValidate W T v p r b s with
    | (none, s) => (none, s)
    | (some result, s) => (some (result, false), s)

/-! ## Batches -/

def RunTool.request (T : RunTool) (p : BatchRun) (b : QueryBatch) : Request :=
  let command := "./db " ++ b.cliCallArgs
  let mb := b.generalSystemConfig.memoryLimitMb
  let limit := (mb.map fun mb => mb * 1024 * 1024).or T.physLimit
  { key := command ++ (mb.elim "" fun mb => "|memory_budget_mb=" ++ toString mb) ++ T.cgroupPolicy limit
    command := command
    memoryLimit := limit
    policy := T.cgroupPolicy limit
    runEnv := p.extraEnv ++ b.extraEnv }

/-- `run_query_batch`; whether the batch succeeded. -/
def runQueryBatch (T : RunTool) (p : BatchRun) (b : QueryBatch) (s : State) : Option Bool × State :=
  if (p.extraEnv.map Prod.fst).any (· ∈ b.extraEnv.map Prod.fst) then (none, s)
  else
    let r := T.request p b
    let s := poolGet r.key ((s.disk .loader).bind (W.buildId .loader)) s
    match T.validator with
    | some v => match execAndValidate W T v p r b s with
      | (none, s) => (none, s)
      | (some (result, replayed), s) =>
        if replayed && !p.forceCompile && !p.compileUsedCache then (none, s) else (some result.success, s)
    | none => match execute W T p r b s with
      | (none, s) => (none, s)
      | (some a, s) => (some (a.queryResults.all fun q => q.error = ""), s)

/-- The loop over the batches: the first failure ends it. The result is the last one; `none` on no batch. -/
def runBatches (T : RunTool) (p : BatchRun) : List QueryBatch → State → Option Bool × State
  | [], s => (none, s)
  | b :: bs, s => match runQueryBatch W T p b s with
    | (some true, s') => if bs.isEmpty then (some true, s') else runBatches T p bs s'
    | other => other

/-! ## `run_worker` -/

/-- `q1` is read as `1` where there is such a query; `none`: a query is not known. -/
def rewriteIds (available : List String) : List String → Option (List String)
  | [] => some []
  | id :: ids =>
    let rest := String.ofList (id.toList.drop 1)
    let rewritten :=
      if id ∈ available then some id
      else if (id.toList.head? = some 'q' ∨ id.toList.head? = some 'Q') ∧ rest ∈ available then some rest
      else none
    rewritten.bind fun id => (rewriteIds available ids).map (id :: ·)

structure WorkerArgs where
  mode : RunToolMode
  optimize : Bool
  queryIds : Option (List String) := none
  traceMode : Bool := false
  forceCompile : Bool := false
  forceLive : Bool := false
  currentGitSnapshot : Option String := none
  numThreads : Option Nat := none

/-- `run_worker` up to the loop: the batches and what each of them is run with; `some none`: it returns a failure. -/
def beginRun (T : RunTool) (w : WorkerArgs) (s : State) : Option (Option (BatchRun × List QueryBatch)) × State :=
  let ids := if w.queryIds = some [] then none else w.queryIds
  match ids.elim (some none) fun ids => (rewriteIds T.provider.queryIds ids).map some with
  | none => (some none, s)
  | some ids =>
    let threads := w.numThreads.getD T.numThreads
    let (threads, cores) :=
      if 1 < threads then ((T.resolveCores threads).1, some (T.resolveCores threads).2) else (threads, none)
    let flags := compileOptions w.optimize w.traceMode
    match buildCached W T.compiler flags w.forceCompile true w.currentGitSnapshot s with
    | (none, s) => (none, s)
    | (some (some _, _, _), s) => (some none, s)
    | (some (none, usedCache, key), s) =>
      match T.provider.produceWorkload w.mode ids threads cores with
      | none => (none, s)
      | some batches =>
        let run : BatchRun :=
          { optimize := w.optimize
            traceMode := w.traceMode
            forceCompile := w.forceCompile
            forceLive := w.forceLive
            currentGitSnapshot := w.currentGitSnapshot
            compileUsedCache := usedCache
            compileKeyHash := key
            extraEnv := [("CORE_IDS", T.coreIdsToEnv cores)] }
        (some (some (run, batches)), s)

/-- `run_worker`; whether it succeeded. -/
def runWorker (T : RunTool) (w : WorkerArgs) (s : State) : Option Bool × State :=
  match beginRun W T w s with
  | (none, s) => (none, s)
  | (some none, s) => (some false, s)
  | (some (some (run, batches)), s) => runBatches W T run batches s

end

variable {W : World} {b : QueryBatch} {s s' : State} {r : Request} {sources : BuildInputs} {v : Validator} {a : Answer}

/-! ## What the operations keep -/

/-- What an execution leaves as it is. -/
structure Kept (s s' : State) : Prop where
  disk : s'.disk = s.disk
  files : s'.files = s.files
  outside : s'.outside = s.outside
  git : s'.git = s.git
  compileCache : s'.compileCache = s.compileCache
  validateCache : s'.validateCache = s.validateCache

theorem Kept.refl (s : State) : Kept s s := ⟨rfl, rfl, rfl, rfl, rfl, rfl⟩

theorem Kept.trans {t : State} (h : Kept s t) (h' : Kept t s') : Kept s s' :=
  ⟨h'.disk.trans h.disk, h'.files.trans h.files, h'.outside.trans h.outside, h'.git.trans h.git,
    h'.compileCache.trans h.compileCache, h'.validateCache.trans h.validateCache⟩

theorem poolGet_kept {key : String} {f : Option String} : Kept s (poolGet key f s) ∧ (poolGet key f s).ran = s.ran := by
  unfold poolGet
  dsimp only
  split
  · exact ⟨⟨rfl, rfl, rfl, rfl, rfl, rfl⟩, rfl⟩
  · split <;> exact ⟨⟨rfl, rfl, rfl, rfl, rfl, rfl⟩, rfl⟩

theorem engineRun_some (h : engineRun W sources r b s = (some a, s')) :
    ∃ proc, startProc r.key s = some proc ∧ Kept s s' ∧
      s'.ran = s.ran ++ [{ batch := b, call := r.call b proc s.disk, sources, answer := some a }] := by
  unfold engineRun at h
  split at h
  · cases h
  · rename_i proc hp
    dsimp only at h
    rw [Prod.mk.injEq] at h
    obtain ⟨ha, rfl⟩ := h
    exact ⟨proc, hp, ⟨rfl, rfl, rfl, rfl, rfl, rfl⟩, by rw [ha]⟩

theorem record_some {key : Option ValidatePayload} {result result' : ExecValidateResult}
    (h : record W v key result s = (some result', s')) :
    (∃ hash, result' = { result with snapshotHash := hash }) ∧ s'.disk = s.disk ∧ s'.ran = s.ran := by
  unfold record at h
  split at h
  · split at h
    · cases h
      exact ⟨⟨_, rfl⟩, rfl, rfl⟩
    · split at h
      · cases h
      · dsimp only at h
        split at h
        · split at h
          · cases h
          · cases h
            exact ⟨⟨_, rfl⟩, rfl, rfl⟩
        · cases h
          exact ⟨⟨_, rfl⟩, rfl, rfl⟩
  · cases h
    exact ⟨⟨_, rfl⟩, rfl, rfl⟩

theorem execute_kept {T : RunTool} {p : BatchRun} (h : execute W T p r b s = (some a, s')) : Kept s s' := by
  unfold execute at h
  split at h
  · cases h
  · unfold callHotpatchProc at h
    split at h
    · cases h
    · rename_i first t ht
      obtain ⟨-, -, hkept, -⟩ := engineRun_some ht
      split at h
      · obtain ⟨-, -, hkept', -⟩ := engineRun_some h
        exact hkept.trans hkept'
      · cases h
        exact hkept

/-- What a build leaves as it is. -/
structure KeptByBuild (s s' : State) : Prop where
  files : s'.files = s.files
  outside : s'.outside = s.outside
  git : s'.git = s.git
  validateCache : s'.validateCache = s.validateCache
  pool : s'.pool = s.pool
  ran : s'.ran = s.ran

theorem build_kept {c : CompilerSetup} {flags : List String} : KeptByBuild s (build W c flags s).2 := by
  unfold build
  dsimp only
  split <;> exact ⟨rfl, rfl, rfl, rfl, rfl, rfl⟩

theorem buildCached_kept {c : CompilerSetup} {flags : List String} {skip write : Bool} {current : Option String} :
    KeptByBuild s (buildCached W c flags skip write current s).2 := by
  have hb := @build_kept W s c flags
  unfold buildCached
  split
  · exact ⟨rfl, rfl, rfl, rfl, rfl, rfl⟩
  · split
    · exact ⟨rfl, rfl, rfl, rfl, rfl, rfl⟩
    · split
      · exact ⟨rfl, rfl, rfl, rfl, rfl, rfl⟩
      · dsimp only
        split
        · split
          · exact ⟨hb.files, hb.outside, hb.git, hb.validateCache, hb.pool, hb.ran⟩
          · exact hb
        · exact hb

theorem recompile_kept {T : RunTool} {p : BatchRun} : KeptByBuild s (recompileIfNecessary W T p s).2 := by
  unfold recompileIfNecessary
  split
  · have hb := @buildCached_kept W s T.compiler (compileOptions p.optimize p.traceMode) true false p.currentGitSnapshot
    split <;> rename_i h <;> rw [h] at hb <;> exact hb
  · exact ⟨rfl, rfl, rfl, rfl, rfl, rfl⟩

end SynnoDB.Tools
