import SynnoDB.Tools.CacheKeys
import SynnoDB.Workload.Subsets
import SynnoDB.Lib.MapM
import SynnoDB.Lib.Trace

/-!
# Caches over data that is swapped out (`query_execution_cache.py`, `system_factory_olap.py:26-109`,
`byo_workload.py:803-1060`)

A resync puts other data into the directory `fraction1` and drops the fractional ones, which `prepare` builds again
under the same names. Reference results and verdicts are kept under the path of the directory, so they outlive the data
that they were made of. They refer to the current data in every run in which no step puts other data into a directory
that something is cached of (`validation_current`).

| here | there |
| --- | --- |
| `Site`           | **the world for each data that a directory may hold**, and the name of a directory |
| `State`          | one managed root with the caches and warm engines over it |
| `Session`        | one `QueryExecutionCache` with its `OLAPSystemFactory` |
| `resident`       | what each warm engine has ingested, with the directory; a process does not ingest again |
| `Obs`            | **what was returned, with the data that the directory held then**; the code keeps no such record |
| `StoredVerdict.call`| the call that wrote the entry; the code keeps its outcome |

A run validates the batches of `produce_workload` one by one; version, process and binaries are those of each call.
DuckDB is the only reference of these workloads. The widened references of a LIMIT are looked up in the same way and
left out.
-/

namespace SynnoDB.Tools

open Workload (Root WorkloadSpec RegisterArgs Origin Scaler ServeFrom FrozenSource)

structure Site (Data : Type) where
  scaler : Scaler Data
  world : Option Data → World
  sql : Data → String → Nat → Option Table
  dirname : Rat → String
  /-- Of the configuration DuckDB applies the number of threads. -/
  reference_duckdb : ∀ d e es c, (world (some d)).reference .duckdb e es c = sql d e.sql c.numThreads

/-- The batch names its directory as `produce_workload` writes it. -/
def Site.names {Data : Type} (M : Site Data) (b : QueryBatch) : Bool :=
  b.execSettings.parquetDir == M.dirname b.execSettings.scaleFactor && b.cliCallArgs == b.execSettings.parquetDir

/-- A fraction in one of the two representations. -/
abbrev Place := Rat × ServeFrom

def ExecSettings.place (es : ExecSettings) : Place := (es.scaleFactor, if es.dataSource = .duckdb then .duckdb else .parquet)

/-- `query_exec_cache_hash_entries` and the rest of the key of a DuckDB result. -/
structure RefKey where
  benchmark : String
  entry : HashEntry
  repIndex : Nat
  numReps : Nat
  execSettings : ExecSettings
  numThreads : Nat
deriving DecidableEq

def QueryBatch.refKey (b : QueryBatch) (e : QueryEntry) : RefKey where
  benchmark := b.benchmark
  entry := e.hashEntries
  repIndex := e.repIndex
  numReps := e.numReps
  execSettings := b.execSettings
  numThreads := b.generalSystemConfig.numThreads

def QueryBatch.refKeys (b : QueryBatch) : List RefKey := b.queryList.map b.refKey

structure Session (Data : Type) where
  doNotCache : Bool := false
  onlyFromCache : Bool := false
  inMemCache : Dict RefKey Table := []
  duckdbCons : Dict (Rat × DataSource) Data := []

structure StoredVerdict where
  call : ValidateCall
  result : ExecValidateResult

inductive Obs (Data : Type) where
  | references (batch : QueryBatch) (held : Option Data) (tables : List Table)
  | replay (call : ValidateCall) (held : Option Data) (result : ExecValidateResult)
  | prepared (source : Option Data) (subsets : Dict Rat (Workload.Subset Data))

namespace CurrentData

structure State (Data : Type) where
  root : Root Data
  activeRuns : Nat := 0
  specs : List WorkloadSpec := []
  session : Session Data := {}
  diskCache : Dict RefKey Table := []
  verdicts : Dict ValidatePayload StoredVerdict := []
  resident : Dict String (Place × Option Data) := []
  log : List (Obs Data) := []

inductive Act (Data : Type) where
  /-- Someone writes a database file of a static source. -/
  | write (path : String) (data : Data)
  | register (args : RegisterArgs Data)
  | prepare (spec : WorkloadSpec) (benchmarkSf : Rat)
  | newSession (doNotCache onlyFromCache : Bool)
  | beginRun
  | endRun
  /-- A warm engine ends: a crash, another fingerprint, the end of the process. -/
  | retire (key : String)
  | lookup (batch : QueryBatch)
  | validate (call : ValidateCall)

section
variable {Data : Type} (M : Site Data)

namespace State

variable (s : State Data)

/-- What the directory of these settings holds now. -/
def held (p : Place) : Option Data := s.root.held p.1 p.2

/-! ## `lookup_or_execute_query_batch` -/

/-- The first lookup: what is on disk comes into memory. -/
def load (key : RefKey) : State Data :=
  match s.session.inMemCache.get key, s.diskCache.get key with
  | none, some t => { s with session := { s.session with inMemCache := s.session.inMemCache.set key t } }
  | _, _ => s

def loadAll (keys : List RefKey) : State Data := keys.foldl load s

/-- `duckdb_source` of `get_system`. -/
def duckdbSource (es : ExecSettings) : DataSource := if es.dataSource = .parquet ∨ es.dataSource = .duckdb then es.dataSource else .flat

/-- What a query of the reference connection reads: views are over the files, tables are loaded once. -/
def connect (es : ExecSettings) : Option Data × State Data :=
  let key := (es.scaleFactor, duckdbSource es)
  if es.dataSource = .parquet then (s.held es.place, s)
  else match s.session.duckdbCons.get key, s.held es.place with
    | some d, _ => (some d, s)
    | none, none => (none, s)
    | none, some d => (some d, { s with session := { s.session with duckdbCons := s.session.duckdbCons.set key d } })

/-- `dump_pickle` of the results; `false`: it raises. -/
def store : List (RefKey × Table) → State Data → Bool × State Data
  | [], s => (true, s)
  | (key, t) :: rest, s =>
    if s.session.doNotCache || (s.diskCache.get key).isSome then (false, s)
    else store rest { s with diskCache := s.diskCache.set key t }

/-- `lookup_or_execute_query_batch`; `none`: it raises. -/
def lookupBatch (b : QueryBatch) : Option (List Table) × State Data :=
  let s := s.loadAll b.refKeys
  match b.queryList.filter fun e => (s.session.inMemCache.get (b.refKey e)).isNone with
  | [] => (b.refKeys.mapM s.session.inMemCache.get, s)
  | missing =>
    if s.session.onlyFromCache then (none, s)
    else match s.connect b.execSettings with
      | (none, s) => (none, s)
      | (some d, s) => match missing.mapM fun e => M.sql d e.sql b.generalSystemConfig.numThreads with
        | none => (none, s)
        | some tables => match store ((missing.map b.refKey).zip tables) s with
          | (false, s) => (none, s)
          | (true, s) =>
            let s := s.loadAll b.refKeys
            (b.refKeys.mapM s.session.inMemCache.get, s)

/-- With the record of what was returned. -/
def lookup (b : QueryBatch) : Option (List Table) × State Data :=
  match s.lookupBatch M b with
  | (none, s) => (none, s)
  | (some tables, s) => (some tables, { s with log := s.log ++ [.references b (s.held b.execSettings.place) tables] })

end State

/-! ## `exec_and_validate` -/

/-- The answer of an engine and what it has ingested then; a process that is started for the retry ingests `now`. -/
def answerOn (warm now : Option Data) (c : EngineCall) : Option Answer × Option (Option Data) :=
  let first := (M.world warm).engine 0 c
  let left : Option (Option Data) := if first.alive then some warm else none
  match first.answer with
  | none => (none, left)
  | some a =>
    if a.badAlloc then
      match c.again first.alive with
      | none => (none, left)
      | some c =>
        let second := (M.world (if first.alive then warm else now)).engine 0 c
        (second.answer, if second.alive then some (if first.alive then warm else now) else none)
    else (some a, left)

/-- The check comes to the comparison with the references. -/
def asksReferences (b : BatchPayload) (a : Answer) (skip : Bool) : Bool :=
  !skip && a.queryResults.length != 0 && a.queryResults.length == b.queryList.length &&
    formatPerQueryErrors a.queryResults == ""

namespace State

variable (s : State Data)

/-- An execution up to its validation; `none`: it raises. -/
def execute (c : ValidateCall) : Option (ValidationOutput × Answer) × State Data :=
  let place := c.batch.execSettings.place
  let now := s.held place
  let warm := ((s.resident.get c.request.key).map Prod.snd).getD now
  match shmIngestEnv (M.world now) c.batch c.request.runEnv with
  | none => (none, s)
  | some env =>
    let (answer, left) := answerOn M warm now (c.engineCall env)
    let s := { s with
      resident := match left with
        | some d => s.resident.set c.request.key (((s.resident.get c.request.key).map Prod.fst).getD place, d)
        | none => s.resident.erase c.request.key }
    match answer with
    | none => (none, s)
    | some a =>
      let (refs, s) := if asksReferences c.batch.payload a c.skipValidate then s.lookup M c.batch else (none, s)
      let outcome := c.validator.outcomeAgainst (M.world now) (fun | .duckdb => refs | .umbra => none) c.batch.payload a
        c.run.traceMode c.skipValidate
      (outcome.map fun o => (o, a), s)

/-- The write of the cache; an entry that is there makes it raise. -/
def record (c : ValidateCall) (o : ValidationOutput) (a : Answer) : State Data :=
  if c.validator.doNotCache || !c.validator.hasCacheDir || (s.verdicts.get c.key).isSome then s
  else { s with
    verdicts := s.verdicts.set c.key
      { call := c
        result :=
          { message := o.message, success := o.correct, metrics := o.metrics, stdout := a.out, stderr := a.err,
            resp := a.resp, traceOutput := o.traceOutput, snapshotHash := none } } }

/-- The entry that answers the call. -/
def cached (c : ValidateCall) : Option StoredVerdict :=
  if c.validator.hasCacheDir && !c.run.forceLive then s.verdicts.get c.key else none

/-- `exec_and_validate`, with the record of what was replayed. -/
def validate (c : ValidateCall) : State Data :=
  match s.cached c with
  | some e => { s with log := s.log ++ [.replay c (s.held c.batch.execSettings.place) e.result] }
  | none =>
    if c.validator.onlyFromCache then s
    else match s.execute M c with
      | (none, s) => s
      | (some (o, a), s) => s.record c o a

end State

/-! ## Steps -/

def step (s : State Data) : Act Data → Option (State Data)
  | .write path d => some { s with root := { s.root with outside := s.root.outside.set path d } }
  | .register a =>
    let (spec, reset, root) := a.register M.scaler (s.activeRuns != 0) s.root
    some { s with root, specs := s.specs ++ spec.toList, resident := if reset then [] else s.resident }
  | .prepare spec benchmarkSf =>
    if spec ∈ s.specs then
      match spec.prepare M.scaler benchmarkSf s.root with
      | (false, root) => some { s with root }
      | (true, root) => some { s with root, log := s.log ++ [.prepared (root.file spec.frozenSource) root.subsets] }
    else none
  | .newSession doNotCache onlyFromCache => some { s with session := { doNotCache, onlyFromCache } }
  | .beginRun => some { s with activeRuns := s.activeRuns + 1 }
  | .endRun => if s.activeRuns = 0 then none else some { s with activeRuns := s.activeRuns - 1 }
  | .retire key => some { s with resident := s.resident.erase key }
  | .lookup b => if M.names b then some (s.lookup M b).2 else none
  | .validate c => if M.names c.batch && !c.validator.useUmbra then some (s.validate M c) else none

/-! ## What holds of what is returned -/

/-- Each fractional subset was downscaled from this source. -/
def Downscaled (source : Option Data) (subsets : Dict Rat (Workload.Subset Data)) : Prop :=
  ∀ f sub, f < 1 → subsets.get f = some sub → ∃ d params x, source = some d ∧
    Origin.content M.scaler { data := d, params := some params } f = some x ∧ (sub = .duckdb x ∨ sub = .parquet x)

/-- What was returned is what executing on the data that the directory held would have given. -/
def Obs.Current : Obs Data → Prop
  | .references b held tables => ∀ d, held = some d →
      b.queryList.mapM (fun e => M.sql d e.sql b.generalSystemConfig.numThreads) = some tables
  | .replay c held r => ∀ d, held = some d → ∃ o, c.outcome (M.world (some d)) = some o ∧ o.correct = r.success ∧
      o.message = r.message ∧ o.metrics = r.metrics
  | .prepared source subsets => Downscaled M source subsets

/-- The directory of a connection. -/
def conPlace (key : Rat × DataSource) : Place := (key.1, if key.2 = .duckdb then .duckdb else .parquet)

/-- Something is cached of the directory, or a warm engine has ingested it. -/
inductive State.Holds (s : State Data) : Place → Prop
  | inMem {k : RefKey} {t : Table} (h : s.session.inMemCache.get k = some t) : Holds s k.execSettings.place
  | onDisk {k : RefKey} {t : Table} (h : s.diskCache.get k = some t) : Holds s k.execSettings.place
  | connected {k : Rat × DataSource} {d : Data} (h : s.session.duckdbCons.get k = some d) : Holds s (conPlace k)
  | warm {k : String} {p : Place} {d : Option Data} (h : s.resident.get k = some (p, d)) : Holds s p
  | judged {k : ValidatePayload} {e : StoredVerdict} (h : s.verdicts.get k = some e) : Holds s e.call.batch.execSettings.place

/-- A file that the directory links to still holds the data it was linked with. -/
def State.Unmoved (s : State Data) (p : Place) : Prop :=
  ∀ src o d, s.root.subsets.get p.1 = some (.link src) → s.root.built.get (p.1, .duckdb) = some o →
    s.root.file src = some d → d = o.data

/-- The step puts no other data into a directory that something is cached of, and reads no directory that someone has
changed; a call that is replayed agrees with the one that wrote the entry on what the key leaves out. -/
def Settled (s : State Data) : Act Data → Prop
  | .register a => ∀ d relationships, a.probed s.root = some d →
      M.scaler.relationships d a.sqlById a.joinRelationships = some relationships →
      a.reuses M.scaler d relationships s.root = false → ∀ x, a.toFreeze s.root = some x →
      s.Holds (1, a.serveFrom) → s.root.built.get (1, a.serveFrom) = some { data := x, params := none }
  | .prepare spec benchmarkSf => s.root.file spec.frozenSource = s.root.frozen ∧
      ∀ f ∈ spec.missing M.scaler benchmarkSf s.root, s.Holds (f, spec.serveFrom) →
        s.root.built.get (f, spec.serveFrom) = spec.origin M.scaler s.root
  | .lookup b => s.Unmoved b.execSettings.place
  | .validate c => s.Unmoved c.batch.execSettings.place ∧ (s.held c.batch.execSettings.place).isSome ∧
      (∀ e, s.cached c = some e → SameRun e.call c) ∧
      ∀ p d, s.resident.get c.request.key = some (p, d) → p = c.batch.execSettings.place
  | _ => True

end

variable {Data : Type} {M : Site Data} {s s' : State Data} {r : Root Data} {p : Place} {d x : Data}

/-! ## The invariant -/

/-- The directory was last built with this data. -/
def On (M : Site Data) (r : Root Data) (p : Place) (d : Data) : Prop :=
  ∃ o, r.built.get p = some o ∧ o.content M.scaler p.1 = some d

theorem On.unique (h : On M r p d) (h' : On M r p x) : d = x := by
  obtain ⟨o, ho, hd⟩ := h
  obtain ⟨o', ho', hx⟩ := h'
  rw [ho] at ho'
  cases ho'
  rw [hd] at hx
  exact Option.some.inj hx

structure RootInv (M : Site Data) (r : Root Data) : Prop where
  link : ∀ f src, r.subsets.get f = some (.link src) → f = 1 ∧ ∃ d, r.built.get (f, .duckdb) = some { data := d, params := none }
  files : ∀ f sub, r.subsets.get f = some sub → ∀ d, sub = .duckdb d ∨ sub = .parquet d → On M r (f, sub.serveFrom) d
  fractional : Downscaled M r.frozen r.subsets

/-- The result is that of the query on what the directory was last built with. -/
def Recorded (M : Site Data) (r : Root Data) (k : RefKey) (t : Table) : Prop :=
  ∃ d, On M r k.execSettings.place d ∧ M.sql d k.entry.sql k.numThreads = some t

structure RefsInv (M : Site Data) (s : State Data) : Prop where
  inMem : ∀ k t, s.session.inMemCache.get k = some t → Recorded M s.root k t
  onDisk : ∀ k t, s.diskCache.get k = some t → Recorded M s.root k t
  connected : ∀ k d, s.session.duckdbCons.get k = some d → On M s.root (conPlace k) d

structure Inv (M : Site Data) (s : State Data) : Prop where
  root : RootInv M s.root
  refs : RefsInv M s
  resident : ∀ k p d, s.resident.get k = some (p, d) → ∃ x, d = some x ∧ On M s.root p x
  verdicts : ∀ k e, s.verdicts.get k = some e → e.call.key = k ∧ ∃ d, On M s.root e.call.batch.execSettings.place d ∧
    ∃ o, e.call.outcome (M.world (some d)) = some o ∧ o.correct = e.result.success ∧ o.message = e.result.message ∧
      o.metrics = e.result.metrics
  log : ∀ obs ∈ s.log, Obs.Current M obs

theorem on_of_held (h : RootInv M s.root) (hu : s.Unmoved p) (hd : s.held p = some d) : On M s.root p d := by
  obtain ⟨f, serveFrom⟩ := p
  unfold State.held Root.held at hd
  split at hd
  · rename_i src hsub hserve
    obtain rfl : serveFrom = .duckdb := hserve
    obtain ⟨-, x, hx⟩ := h.link f src hsub
    have hmoved : d = x := hu src _ d hsub hx hd
    exact ⟨_, hx, by rw [hmoved]; rfl⟩
  · rename_i x hsub hserve
    obtain rfl : serveFrom = .duckdb := hserve
    cases hd
    exact h.files f _ hsub d (Or.inl rfl)
  · rename_i x hsub hserve
    obtain rfl : serveFrom = .parquet := hserve
    cases hd
    exact h.files f _ hsub d (Or.inr rfl)
  · cases hd

/-! ## References -/

/-- A lookup works on the session and the cache on disk alone. -/
structure Frame (s s' : State Data) : Prop where
  root : s'.root = s.root
  activeRuns : s'.activeRuns = s.activeRuns
  specs : s'.specs = s.specs
  verdicts : s'.verdicts = s.verdicts
  resident : s'.resident = s.resident
  log : s'.log = s.log

theorem Frame.refl (s : State Data) : Frame s s := ⟨rfl, rfl, rfl, rfl, rfl, rfl⟩

theorem Frame.trans {t : State Data} (h : Frame s t) (h' : Frame t s') : Frame s s' :=
  ⟨h'.root.trans h.root, h'.activeRuns.trans h.activeRuns, h'.specs.trans h.specs, h'.verdicts.trans h.verdicts,
    h'.resident.trans h.resident, h'.log.trans h.log⟩

theorem load_spec (h : RefsInv M s) (k : RefKey) : Frame s (s.load k) ∧ RefsInv M (s.load k) := by
  unfold State.load
  split
  · rename_i t _ ht
    refine ⟨⟨rfl, rfl, rfl, rfl, rfl, rfl⟩, ⟨?_, h.onDisk, h.connected⟩⟩
    intro k' t' ht'
    dsimp only at ht'
    rw [Dict.get_set] at ht'
    split at ht'
    · rename_i heq
      cases ht'
      exact heq ▸ h.onDisk k t ht
    · exact h.inMem k' t' ht'
  · exact ⟨Frame.refl s, h⟩

theorem loadAll_spec (h : RefsInv M s) (ks : List RefKey) : Frame s (s.loadAll ks) ∧ RefsInv M (s.loadAll ks) := by
  unfold State.loadAll
  induction ks generalizing s with
  | nil => exact ⟨Frame.refl s, h⟩
  | cons k ks ih =>
    obtain ⟨hframe, hinv⟩ := load_spec h k
    obtain ⟨hframe', hinv'⟩ := ih hinv
    exact ⟨hframe.trans hframe', hinv'⟩

theorem conPlace_duckdbSource (es : ExecSettings) : conPlace (es.scaleFactor, State.duckdbSource es) = es.place := by
  unfold conPlace State.duckdbSource ExecSettings.place
  cases es.dataSource <;> rfl

/-- The reference connection reads what the directory was last built with. -/
theorem connect_spec {es : ExecSettings} (h : RefsInv M s) (hheld : ∀ d, s.held es.place = some d →
    On M s.root es.place d) :
    Frame s (s.connect es).2 ∧ RefsInv M (s.connect es).2 ∧ ∀ d, (s.connect es).1 = some d →
      On M s.root es.place d := by
  unfold State.connect
  dsimp only
  split
  · exact ⟨Frame.refl s, h, hheld⟩
  · split
    · rename_i d hcon
      refine ⟨Frame.refl s, h, ?_⟩
      intro d' hd'
      cases hd'
      have hon := h.connected _ d hcon
      rwa [conPlace_duckdbSource] at hon
    · exact ⟨Frame.refl s, h, fun d hd => by cases hd⟩
    · rename_i d hcon hd
      refine ⟨⟨rfl, rfl, rfl, rfl, rfl, rfl⟩, ⟨h.inMem, h.onDisk, ?_⟩, ?_⟩
      · intro k d' hd'
        dsimp only at hd'
        rw [Dict.get_set] at hd'
        split at hd'
        · rename_i heq
          cases hd'
          rw [← heq, conPlace_duckdbSource]
          exact hheld d hd
        · exact h.connected k d' hd'
      · intro d' hd'
        cases hd'
        exact hheld d hd

theorem store_spec {items : List (RefKey × Table)} (h : RefsInv M s) (hitems : ∀ e ∈ items, Recorded M s.root e.1 e.2) :
    Frame s (State.store items s).2 ∧ RefsInv M (State.store items s).2 := by
  induction items generalizing s with
  | nil => exact ⟨Frame.refl s, h⟩
  | cons e items ih =>
    obtain ⟨k, t⟩ := e
    rw [State.store]
    split
    · exact ⟨Frame.refl s, h⟩
    · have hset : Frame s { s with diskCache := s.diskCache.set k t } := ⟨rfl, rfl, rfl, rfl, rfl, rfl⟩
      have hstep : RefsInv M { s with diskCache := s.diskCache.set k t } := by
        refine ⟨h.inMem, ?_, h.connected⟩
        intro k' t' ht'
        dsimp only at ht'
        rw [Dict.get_set] at ht'
        split at ht'
        · rename_i heq
          cases ht'
          exact heq ▸ hitems (k, t) List.mem_cons_self
        · exact h.onDisk k' t' ht'
      obtain ⟨hframe, hinv⟩ := ih hstep fun e he => hitems e (List.mem_cons_of_mem _ he)
      exact ⟨hset.trans hframe, hinv⟩

theorem mem_zip_of_mapM {α β γ : Type} {f : α → Option β} {g : α → γ} :
    ∀ {l : List α} {l' : List β}, l.mapM f = some l' →
    ∀ e ∈ (l.map g).zip l', ∃ a ∈ l, e.1 = g a ∧ f a = some e.2
  | [], l', _, e, he => by simp at he
  | a :: l, l', h, e, he => by
    rw [List.mapM_cons] at h
    simp only [Option.pure_def, Option.bind_eq_bind, Option.bind_eq_some_iff, Option.some.injEq] at h
    obtain ⟨b, hb, bs, hbs, rfl⟩ := h
    rcases List.mem_cons.1 he with rfl | he
    · exact ⟨a, List.mem_cons_self, rfl, hb⟩
    · obtain ⟨c, hc, hkey, hval⟩ := mem_zip_of_mapM hbs e he
      exact ⟨c, List.mem_cons_of_mem _ hc, hkey, hval⟩

/-- What comes out of memory is what the queries give on the directory. -/
theorem inMem_tables {b : QueryBatch} {tables : List Table} (h : RefsInv M s) (hon : On M s.root b.execSettings.place d)
    (hget : b.refKeys.mapM s.session.inMemCache.get = some tables) :
    b.queryList.mapM (fun e => M.sql d e.sql b.generalSystemConfig.numThreads) = some tables := by
  rw [QueryBatch.refKeys, List.mapM_map] at hget
  refine MapM.imp hget ?_
  intro e _ t ht
  obtain ⟨d', hon', hsql⟩ := h.inMem _ t ht
  rwa [hon.unique hon']

theorem lookupBatch_spec {b : QueryBatch} (h : RefsInv M s)
    (hheld : ∀ d, s.held b.execSettings.place = some d → On M s.root b.execSettings.place d) :
    Frame s (s.lookupBatch M b).2 ∧ RefsInv M (s.lookupBatch M b).2 ∧
      ∀ tables d, (s.lookupBatch M b).1 = some tables → On M s.root b.execSettings.place d →
        b.queryList.mapM (fun e => M.sql d e.sql b.generalSystemConfig.numThreads) = some tables := by
  obtain ⟨hload, hinv⟩ := loadAll_spec h b.refKeys
  unfold State.lookupBatch
  dsimp only
  generalize b.queryList.filter (fun e => ((s.loadAll b.refKeys).session.inMemCache.get (b.refKey e)).isNone) = missing
  split
  · refine ⟨hload, hinv, fun tables d htables hon => ?_⟩
    exact inMem_tables hinv (hload.root ▸ hon) htables
  · split
    · exact ⟨hload, hinv, fun tables d htables => by cases htables⟩
    · have hheld' : ∀ d, (s.loadAll b.refKeys).held b.execSettings.place = some d →
          On M (s.loadAll b.refKeys).root b.execSettings.place d := by
        intro d hd
        rw [State.held, hload.root] at hd
        rw [hload.root]
        exact hheld d hd
      obtain ⟨hcon, hconinv, hread⟩ := connect_spec hinv hheld'
      split
      · rename_i t hc
        rw [hc] at hcon hconinv
        exact ⟨hload.trans hcon, hconinv, fun tables d htables => by cases htables⟩
      · rename_i x t hc
        rw [hc] at hcon hconinv hread
        have hon : On M t.root b.execSettings.place x := by
          rw [hcon.root]
          exact hread x rfl
        split
        · exact ⟨hload.trans hcon, hconinv, fun tables d htables => by cases htables⟩
        · rename_i tables htables
          have hitems : ∀ e ∈ (missing.map b.refKey).zip tables, Recorded M t.root e.1 e.2 := by
            intro e he
            obtain ⟨q, -, hkey, hsql⟩ := mem_zip_of_mapM htables e he
            exact ⟨x, by rw [hkey]; exact hon, by rw [hkey]; exact hsql⟩
          have hstore := (store_spec hconinv hitems).1
          have hstoreinv := (store_spec hconinv hitems).2
          dsimp only at hcon hconinv hstore hstoreinv
          split
          · rename_i u hu
            rw [hu] at hstore hstoreinv
            exact ⟨(hload.trans hcon).trans hstore, hstoreinv, fun tables d htables => by cases htables⟩
          · rename_i u hu
            rw [hu] at hstore hstoreinv
            obtain ⟨hagain, hagaininv⟩ := loadAll_spec hstoreinv b.refKeys
            have hframe := ((hload.trans hcon).trans hstore).trans hagain
            refine ⟨hframe, hagaininv, fun tables d htables hd => ?_⟩
            exact inMem_tables hagaininv (hframe.root ▸ hd) htables

theorem Inv.frame (h : Inv M s) (hf : Frame s s') (hr : RefsInv M s') : Inv M s' := by
  refine ⟨hf.root ▸ h.root, hr, ?_, ?_, hf.log ▸ h.log⟩
  · rw [hf.resident, hf.root]
    exact h.resident
  · rw [hf.verdicts, hf.root]
    exact h.verdicts

theorem Inv.observe (h : Inv M s) {obs : Obs Data} (hobs : Obs.Current M obs) :
    Inv M { s with log := s.log ++ [obs] } := by
  refine ⟨h.root, ⟨h.refs.inMem, h.refs.onDisk, h.refs.connected⟩, h.resident, h.verdicts, ?_⟩
  intro obs' hmem
  rcases List.mem_append.1 hmem with hmem | hmem
  · exact h.log obs' hmem
  · rw [List.mem_singleton.1 hmem]
    exact hobs

theorem lookup_spec {b : QueryBatch} (h : Inv M s)
    (hheld : ∀ d, s.held b.execSettings.place = some d → On M s.root b.execSettings.place d) :
    Inv M (s.lookup M b).2 ∧ (s.lookup M b).2.root = s.root ∧
      ∀ tables d, (s.lookup M b).1 = some tables → On M s.root b.execSettings.place d →
        b.queryList.mapM (fun e => M.sql d e.sql b.generalSystemConfig.numThreads) = some tables := by
  obtain ⟨hframe, hrefs, htables⟩ := lookupBatch_spec h.refs hheld
  unfold State.lookup
  split
  · rename_i t ht
    rw [ht] at hframe hrefs
    exact ⟨h.frame hframe hrefs, hframe.root, fun tables d htab => by cases htab⟩
  · rename_i tables t ht
    rw [ht] at hframe hrefs htables
    have hroot : t.root = s.root := hframe.root
    refine ⟨(h.frame hframe hrefs).observe ?_, hroot, ?_⟩
    · intro d hd
      rw [State.held, hroot] at hd
      exact htables tables d rfl (hheld d hd)
    · intro tables' d htab hon
      cases htab
      exact htables tables d rfl hon

/-! ## Verdicts -/

/-- A retry on the same data is the retry of `World.answer`. -/
theorem answerOn_same (now : Option Data) (c : EngineCall) :
    (answerOn M now now c).1 = (M.world now).answer c ∧ ∀ x, (answerOn M now now c).2 = some x → x = now := by
  unfold answerOn World.answer
  simp only [ite_self]
  cases ((M.world now).engine 0 c).answer with
  | none =>
    refine ⟨rfl, fun x hx => ?_⟩
    dsimp only at hx
    split at hx <;> cases hx
    rfl
  | some a =>
    simp only [Option.bind_some]
    by_cases hbad : a.badAlloc = true
    · simp only [hbad, if_true]
      cases c.again ((M.world now).engine 0 c).alive with
      | none =>
        refine ⟨rfl, fun x hx => ?_⟩
        dsimp only at hx
        split at hx <;> cases hx
        rfl
      | some c' =>
        refine ⟨rfl, fun x hx => ?_⟩
        dsimp only at hx
        split at hx <;> cases hx
        rfl
    · simp only [hbad, Bool.false_eq_true, if_false]
      refine ⟨trivial, fun x hx => ?_⟩
      split at hx <;> cases hx
      rfl

/-- An outcome depends on the references only where it asks for them. -/
theorem outcomeAgainst_refs {W : World} {v : Validator} {refs refs' : System → Option (List Table)} {b : BatchPayload}
    {a : Answer} {t skip : Bool} (humbra : v.useUmbra = false)
    (h : asksReferences b a skip = true → refs .duckdb = refs' .duckdb) :
    v.outcomeAgainst W refs b a t skip = v.outcomeAgainst W refs' b a t skip := by
  unfold Validator.outcomeAgainst
  cases skip with
  | true => rfl
  | false =>
    have hv : v.validateQuery W refs b a t = v.validateQuery W refs' b a t := by
      unfold Validator.validateQuery
      by_cases hzero : a.queryResults.length = 0
      · simp only [hzero, if_true]
      · by_cases hlen : a.queryResults.length = b.queryList.length
        · by_cases herr : formatPerQueryErrors a.queryResults = ""
          · have hasks : asksReferences b a false = true := by
              rw [hlen] at hzero
              simp [asksReferences, hzero, hlen, herr]
            simp only [Validator.checkOutputCorrectness, humbra, h hasks, Bool.false_eq_true, if_false]
          · simp only [hlen, herr, ne_eq, not_false_eq_true, not_true_eq_false, if_true, if_false]
        · simp only [hzero, hlen, ne_eq, not_false_eq_true, if_true, if_false]
    simp only [Bool.false_eq_true, if_false, hv]

/-- A check whose references raise raises. -/
theorem outcomeAgainst_none {W : World} {v : Validator} {refs : System → Option (List Table)} {b : BatchPayload}
    {a : Answer} {t skip : Bool} (hasks : asksReferences b a skip = true) (href : refs .duckdb = none) :
    v.outcomeAgainst W refs b a t skip = none := by
  simp only [asksReferences, Bool.and_eq_true, Bool.not_eq_true', bne_iff_ne, ne_eq, beq_iff_eq] at hasks
  obtain ⟨⟨⟨rfl, hzero⟩, hlen⟩, herr⟩ := hasks
  unfold Validator.outcomeAgainst Validator.validateQuery Validator.checkOutputCorrectness
  rw [hlen] at hzero
  simp [hzero, hlen, herr, href]

/-- The references that a lookup returns on this data are those of the world on it. -/
theorem references_eq {b : QueryBatch} {tables : List Table}
    (h : b.queryList.mapM (fun e => M.sql d e.sql b.generalSystemConfig.numThreads) = some tables) :
    Validator.references (M.world (some d)) .duckdb b.payload = some tables := by
  rw [Validator.references, QueryBatch.payload, List.mapM_map, ← h]
  congr 1
  funext e
  exact M.reference_duckdb d _ _ _

/-- What an engine has ingested for this directory is what the directory was last built with. -/
theorem warm_eq {c : ValidateCall} (h : Inv M s) (hon : On M s.root c.batch.execSettings.place d)
    (hwarm : ∀ p x, s.resident.get c.request.key = some (p, x) → p = c.batch.execSettings.place) :
    ((s.resident.get c.request.key).map Prod.snd).getD (some d) = some d := by
  cases hget : s.resident.get c.request.key with
  | none => rfl
  | some e =>
    obtain ⟨p, x⟩ := e
    obtain ⟨y, rfl, hy⟩ := h.resident _ p x hget
    rw [hwarm p _ hget] at hy
    rw [Option.map_some, Option.getD_some, hon.unique hy]

theorem Inv.withResident {resident : Dict String (Place × Option Data)} (h : Inv M s)
    (hres : ∀ k p x, resident.get k = some (p, x) → ∃ y, x = some y ∧ On M s.root p y) :
    Inv M { s with resident := resident } :=
  ⟨h.root, ⟨h.refs.inMem, h.refs.onDisk, h.refs.connected⟩, hres, h.verdicts, h.log⟩

/-- The place of the engine that answers. -/
theorem warm_place {c : ValidateCall} (hwarm : ∀ p x, s.resident.get c.request.key = some (p, x) →
    p = c.batch.execSettings.place) :
    ((s.resident.get c.request.key).map Prod.fst).getD c.batch.execSettings.place = c.batch.execSettings.place := by
  cases hget : s.resident.get c.request.key with
  | none => rfl
  | some e => exact hwarm e.1 e.2 hget

theorem execute_spec {c : ValidateCall} (h : Inv M s) (hu : s.Unmoved c.batch.execSettings.place)
    (hd : s.held c.batch.execSettings.place = some d) (humbra : c.validator.useUmbra = false)
    (hwarm : ∀ p x, s.resident.get c.request.key = some (p, x) → p = c.batch.execSettings.place) :
    Inv M (s.execute M c).2 ∧ (s.execute M c).2.root = s.root ∧
      ∀ o a, (s.execute M c).1 = some (o, a) → c.outcome (M.world (some d)) = some o := by
  have hon : On M s.root c.batch.execSettings.place d := on_of_held h.root hu hd
  unfold State.execute
  simp only [hd, warm_eq h hon hwarm]
  split
  · exact ⟨h, rfl, fun o a ho => by cases ho⟩
  · rename_i env henv
    obtain ⟨hanswer, hleft⟩ := answerOn_same (M := M) (some d) (c.engineCall env)
    revert hanswer hleft
    cases hans : answerOn M (some d) (some d) (c.engineCall env) with
    | mk answer left =>
      intro hanswer hleft
      dsimp only at hanswer hleft ⊢
      -- what the engine has ingested is the data of the directory
      rw [warm_place hwarm]
      generalize hres : (match left with
        | some x => s.resident.set c.request.key (c.batch.execSettings.place, x)
        | none => s.resident.erase c.request.key) = resident
      have ht : Inv M { s with resident := resident } := by
        refine h.withResident fun k p x hget => ?_
        rw [← hres] at hget
        cases left with
        | none =>
          dsimp only at hget
          rw [Dict.get_erase] at hget
          split at hget
          · cases hget
          · exact h.resident k p x hget
        | some y =>
          dsimp only at hget
          rw [Dict.get_set] at hget
          split at hget
          · cases hget
            exact ⟨d, hleft x rfl, hon⟩
          · exact h.resident k p x hget
      cases answer with
      | none => exact ⟨ht, rfl, fun o a ho => by cases ho⟩
      | some a =>
        have hout : ∀ o, c.validator.outcome (M.world (some d)) c.batch.payload a c.run.traceMode c.skipValidate
          = some o →
            c.outcome (M.world (some d)) = some o := by
          intro o ho
          rw [ValidateCall.outcome, henv, Option.bind_some, ← hanswer]
          exact ho
        dsimp only
        by_cases hasks : asksReferences c.batch.payload a c.skipValidate = true
        · simp only [hasks, if_true]
          obtain ⟨hlook, hroot, htables⟩ := lookup_spec ht fun x hx => on_of_held h.root hu hx
          revert hlook hroot htables
          cases State.lookup M { s with resident := resident } c.batch with
          | mk refs u =>
            intro hlook hroot htables
            refine ⟨hlook, hroot, fun o a' ho => ?_⟩
            obtain ⟨o', ho', heq⟩ := Option.map_eq_some_iff.1 ho
            cases heq
            cases refs with
            | none =>
              rw [outcomeAgainst_none hasks rfl] at ho'
              cases ho'
            | some tables =>
              refine hout o ?_
              rw [Validator.outcome, ← ho']
              exact outcomeAgainst_refs humbra fun _ => references_eq (htables tables d rfl hon)
        · simp only [hasks, Bool.false_eq_true, if_false]
          refine ⟨ht, trivial, fun o a' ho => ?_⟩
          obtain ⟨o', ho', heq⟩ := Option.map_eq_some_iff.1 ho
          cases heq
          refine hout o ?_
          rw [Validator.outcome, ← ho']
          exact outcomeAgainst_refs humbra fun h => absurd h hasks

theorem Inv.record {c : ValidateCall} {o : ValidationOutput} {a : Answer} (h : Inv M s)
    (hon : On M s.root c.batch.execSettings.place d) (ho : c.outcome (M.world (some d)) = some o) :
    Inv M (s.record c o a) := by
  unfold State.record
  split
  · exact h
  · refine ⟨h.root, ⟨h.refs.inMem, h.refs.onDisk, h.refs.connected⟩, h.resident, ?_, h.log⟩
    intro k e he
    dsimp only at he
    rw [Dict.get_set] at he
    split at he
    · rename_i heq
      cases he
      exact ⟨heq, d, hon, o, ho, rfl, rfl, rfl⟩
    · exact h.verdicts k e he

theorem inv_validate {c : ValidateCall} (h : Inv M s) (hs : Settled M s (.validate c))
    (humbra : c.validator.useUmbra = false) : Inv M (s.validate M c) := by
  obtain ⟨hu, hheld, hsame, hwarm⟩ := hs
  unfold State.validate
  split
  · rename_i e he
    refine h.observe fun d hd => ?_
    have hentry : s.verdicts.get c.key = some e := by
      unfold State.cached at he
      split at he
      · exact he
      · cases he
    obtain ⟨hkey, d', hon', o, ho, hmatch⟩ := h.verdicts _ e hentry
    have hplace : e.call.batch.execSettings = c.batch.execSettings :=
      congrArg BatchPayload.execSettings (key_fields hkey).1
    rw [hplace] at hon'
    rw [hon'.unique (on_of_held h.root hu hd), outcome_eq hkey (hsame e he)] at ho
    exact ⟨o, ho, hmatch⟩
  · split
    · exact h
    · obtain ⟨d, hd⟩ := Option.isSome_iff_exists.1 hheld
      have hon := on_of_held h.root hu hd
      obtain ⟨hinv, hroot, hout⟩ := execute_spec h hu hd humbra hwarm
      split
      · rename_i t ht
        rw [ht] at hinv
        exact hinv
      · rename_i o a t ht
        rw [ht] at hinv hroot hout
        exact hinv.record (hroot ▸ hon) (hout o a rfl)

/-! ## The managed root -/

theorem Inv.withRoot (h : Inv M s) (hr : RootInv M r) (hon : ∀ p d, s.Holds p → On M s.root p d → On M r p d) :
    Inv M { s with root := r } := by
  refine ⟨hr, ⟨?_, ?_, ?_⟩, ?_, ?_, h.log⟩
  · intro k t hk
    obtain ⟨d, hd, hsql⟩ := h.refs.inMem k t hk
    exact ⟨d, hon _ d (.inMem hk) hd, hsql⟩
  · intro k t hk
    obtain ⟨d, hd, hsql⟩ := h.refs.onDisk k t hk
    exact ⟨d, hon _ d (.onDisk hk) hd, hsql⟩
  · intro k d hk
    exact hon _ d (.connected hk) (h.refs.connected k d hk)
  · intro k p d hk
    obtain ⟨x, hx, hd⟩ := h.resident k p d hk
    exact ⟨x, hx, hon p x (.warm hk) hd⟩
  · intro k e hk
    obtain ⟨hkey, d, hd, hsound⟩ := h.verdicts k e hk
    exact ⟨hkey, d, hon _ d (.judged hk) hd, hsound⟩

/-- Files alone do not matter: the directories were built as before. -/
theorem RootInv.files_changed (h : RootInv M r) {r' : Root Data} (hsub : r'.subsets = r.subsets)
    (hbuilt : r'.built = r.built)
    (hfrozen : r'.frozen = r.frozen) : RootInv M r' := by
  refine ⟨?_, ?_, ?_⟩
  · rw [hsub, hbuilt]
    exact h.link
  · unfold On
    rw [hsub, hbuilt]
    exact h.files
  · rw [hsub, hfrozen]
    exact h.fractional

/-- A directory that is built again from what it was built from keeps its data. -/
theorem On.rebuild {p' : Place} {o : Origin Data} (h : On M r p d) {r' : Root Data}
    (hbuilt : r'.built = r.built.set p' o)
    (hsame : p' = p → r.built.get p' = some o) : On M r' p d := by
  obtain ⟨o', ho', hd⟩ := h
  refine ⟨o', ?_, hd⟩
  rw [hbuilt, Dict.get_set]
  split
  · rename_i heq
    rw [← hsame heq, heq]
    exact ho'
  · exact ho'

/-- After a resync there is the benchmark subset alone. -/
theorem rootInv_resync {a : RegisterArgs Data} {built : Dict Place (Origin Data)}
    (hsub : r.subsets = [(1, a.benchmarkSubset d)])
    (hbuilt : r.built = built.set (1, a.serveFrom) { data := d, params := none }) : RootInv M r := by
  have hone : r.built.get (1, a.serveFrom) = some { data := d, params := none } := by
    rw [hbuilt, Dict.get_set, if_pos rfl]
  have hget : ∀ f sub, r.subsets.get f = some sub → f = 1 ∧ sub = a.benchmarkSubset d := by
    intro f sub hf
    rw [hsub, Dict.get] at hf
    split at hf
    · rename_i heq
      cases hf
      exact ⟨heq.symm, rfl⟩
    · cases hf
  refine ⟨?_, ?_, ?_⟩
  · intro f src hf
    obtain ⟨rfl, hb⟩ := hget f _ hf
    unfold RegisterArgs.benchmarkSubset at hb
    cases hserve : a.serveFrom with
    | duckdb => exact ⟨rfl, d, hserve ▸ hone⟩
    | parquet =>
      rw [hserve] at hb
      cases hb
  · intro f sub hf x hx
    obtain ⟨rfl, rfl⟩ := hget f sub hf
    unfold RegisterArgs.benchmarkSubset at hx ⊢
    cases hserve : a.serveFrom with
    | duckdb =>
      rw [hserve] at hx
      rcases hx with hx | hx <;> cases hx
    | parquet =>
      rw [hserve] at hx hone
      rcases hx with hx | hx <;> cases hx
      exact ⟨_, hone, rfl⟩
  · intro f sub hlt hf
    obtain ⟨rfl, -⟩ := hget f sub hf
    exact absurd hlt (lt_irrefl 1)

theorem inv_register {a : RegisterArgs Data} {inFlight reset : Bool} {spec : Option WorkloadSpec}
    {specs : List WorkloadSpec}
    (h : Inv M s) (hs : Settled M s (.register a)) (hr : a.register M.scaler inFlight s.root = (spec, reset, r)) :
    Inv M { s with root := r, specs := specs, resident := if reset then [] else s.resident } := by
  have hcases := @Workload.register_cases _ M.scaler a s.root inFlight
  rw [hr] at hcases
  rcases hcases with heq | ⟨d, relationships, hd, hrel, hreuse, heq⟩
  · cases heq
    exact ⟨h.root, ⟨h.refs.inMem, h.refs.onDisk, h.refs.connected⟩, h.resident, h.verdicts, h.log⟩
  · cases heq
    -- the warm engines end before anything is frozen
    let t : State Data := { s with specs := specs, resident := [] }
    have ht : Inv M t := by
      refine ⟨h.root, ⟨h.refs.inMem, h.refs.onDisk, h.refs.connected⟩, fun k p d hk => ?_, h.verdicts, h.log⟩
      cases hk
    have hholds : ∀ p, t.Holds p → s.Holds p := by
      intro p hp
      cases hp with
      | inMem hk => exact .inMem hk
      | onDisk hk => exact .onDisk hk
      | connected hk => exact .connected hk
      | warm hk => cases hk
      | judged hk => exact .judged hk
    have hfreeze : RootInv M (a.freeze s.root) :=
      h.root.files_changed Workload.freeze_subsets Workload.freeze_built Workload.freeze_frozen
    rcases @Workload.resync_cases _ M.scaler a s.root with hkeep | ⟨x, version, hx, hnew⟩
    · rw [hkeep]
      refine ht.withRoot hfreeze fun p d _ hon => ?_
      unfold On at hon ⊢
      rwa [Workload.freeze_built]
    · rw [hnew]
      refine ht.withRoot (rootInv_resync rfl rfl) ?_
      intro p y hp hon
      refine hon.rebuild rfl ?_
      rintro rfl
      exact hs d relationships hd hrel hreuse x hx (hholds _ hp)

theorem RootInv.drop (h : RootInv M r) {f : Rat} : RootInv M { r with subsets := r.subsets.erase f } := by
  have hget : ∀ g sub, (r.subsets.erase f).get g = some sub → r.subsets.get g = some sub := by
    intro g sub hg
    rw [Dict.get_erase] at hg
    split at hg
    · cases hg
    · exact hg
  exact ⟨fun g src hg => h.link g src (hget g _ hg), fun g sub hg => h.files g sub (hget g sub hg),
    fun g sub hlt hg => h.fractional g sub hlt (hget g sub hg)⟩

/-- One subset is built from what the last resync froze. -/
theorem RootInv.build {spec : WorkloadSpec} {o : Origin Data} {f : Rat} (h : RootInv M r)
    (hfrozen : r.frozen = some o.data) (hparams : ∃ params, o = { data := o.data, params := some params })
    (hcontent : o.content M.scaler f = some d) :
    RootInv M { r with
      subsets := r.subsets.set f (match spec.serveFrom with | .duckdb => .duckdb d | .parquet => .parquet d)
      built := r.built.set (f, spec.serveFrom) o } := by
  have hnew : ∀ sub, sub = (match spec.serveFrom with | .duckdb => Workload.Subset.duckdb d | .parquet => .parquet d) →
      sub.serveFrom = spec.serveFrom ∧ (sub = .duckdb d ∨ sub = .parquet d) := by
    rintro sub rfl
    cases spec.serveFrom
    · exact ⟨rfl, Or.inl rfl⟩
    · exact ⟨rfl, Or.inr rfl⟩
  refine ⟨?_, ?_, ?_⟩
  · intro g src hg
    rw [Dict.get_set] at hg
    split at hg
    · obtain ⟨-, hsub | hsub⟩ := hnew _ (Option.some.inj hg).symm <;> cases hsub
    · rename_i hne
      obtain ⟨rfl, x, hx⟩ := h.link g src hg
      refine ⟨rfl, x, ?_⟩
      rw [Dict.get_set, if_neg]
      · exact hx
      · intro heq
        exact hne (congrArg Prod.fst heq)
  · intro g sub hg x hx
    rw [Dict.get_set] at hg
    split at hg
    · rename_i heq
      subst heq
      obtain ⟨hserve, hsub⟩ := hnew _ (Option.some.inj hg).symm
      have hxd : x = d := by
        rcases hsub with rfl | rfl <;> rcases hx with hx | hx <;> cases hx <;> rfl
      subst hxd
      refine ⟨o, ?_, hcontent⟩
      rw [hserve, Dict.get_set, if_pos rfl]
    · rename_i hne
      refine (h.files g sub hg x hx).rebuild rfl fun heq => ?_
      exact absurd (congrArg Prod.fst heq) hne
  · intro g sub hg hget
    rw [Dict.get_set] at hget
    split at hget
    · rename_i heq
      subst heq
      obtain ⟨params, hparams⟩ := hparams
      refine ⟨o.data, params, d, hfrozen, hparams ▸ hcontent, ?_⟩
      exact (hnew _ (Option.some.inj hget).symm).2
    · exact h.fractional g sub hg hget

theorem materialize_spec {spec : WorkloadSpec} {o : Origin Data}
    (hparams : ∃ params, o = { data := o.data, params := some params })
    {fs : List Rat} (h : RootInv M r) (hfrozen : r.frozen = some o.data) :
    RootInv M (spec.materialize M.scaler o fs r).2 ∧ (spec.materialize M.scaler o fs r).2.frozen = r.frozen ∧
      (spec.materialize M.scaler o fs r).2.file = r.file ∧
      ∀ p d, On M r p d → (∀ f ∈ fs, (f, spec.serveFrom) = p → r.built.get p = some o) →
        On M (spec.materialize M.scaler o fs r).2 p d := by
  induction fs generalizing r with
  | nil => exact ⟨h, rfl, rfl, fun p d hon _ => hon⟩
  | cons f fs ih =>
    rw [WorkloadSpec.materialize]
    split
    · exact ⟨h.drop, rfl, rfl, fun p d hon _ => hon⟩
    · rename_i x hx
      have hbuild := @RootInv.build _ M r x spec o f h hfrozen hparams hx
      obtain ⟨hroot, hfr, hfile, hkeep⟩ := ih hbuild hfrozen
      refine ⟨hroot, hfr, hfile.trans ?_, ?_⟩
      · funext src
        cases src <;> rfl
      · intro p d hon hsame
        refine hkeep p d (hon.rebuild rfl fun heq => ?_) ?_
        · rw [heq]
          exact hsame f List.mem_cons_self heq
        · intro g hg hgp
          rw [Dict.get_set]
          split
          · rfl
          · exact hsame g (List.mem_cons_of_mem _ hg) hgp

theorem inv_prepare {spec : WorkloadSpec} {benchmarkSf : Rat} (h : Inv M s)
    (hs : Settled M s (.prepare spec benchmarkSf)) :
    Inv M { s with root := (spec.prepare M.scaler benchmarkSf s.root).2 } ∧
      (spec.prepare M.scaler benchmarkSf s.root).2.file spec.frozenSource =
        (spec.prepare M.scaler benchmarkSf s.root).2.frozen := by
  obtain ⟨hsource, hsame⟩ := hs
  rcases @Workload.prepare_cases _ M.scaler s.root spec benchmarkSf with heq | ⟨o, ho, heq⟩
  · rw [heq]
    exact ⟨h, hsource⟩
  · obtain ⟨hdata, hparams⟩ := Workload.origin_some ho
    have hfrozen : s.root.frozen = some o.data := hsource.symm.trans hdata
    obtain ⟨hroot, hfr, hfile, hkeep⟩ := @materialize_spec _ M s.root spec o hparams
      (spec.missing M.scaler benchmarkSf s.root) h.root hfrozen
    rw [heq]
    refine ⟨h.withRoot hroot fun p d hp hon => hkeep p d hon ?_, ?_⟩
    · rintro f hf rfl
      rw [hsame f hf hp, ho]
    · rw [hfile, hfr, hsource]

/-! ## Runs -/

theorem inv_step {act : Act Data} (h : Inv M s) (hs : Settled M s act) (hstep : step M s act = some s') : Inv M s' := by
  cases act with
  | write path data =>
    cases hstep
    exact h.withRoot (h.root.files_changed rfl rfl rfl) fun p d _ hon => hon
  | register a =>
    rw [step] at hstep
    cases hstep
    exact inv_register h hs rfl
  | prepare spec benchmarkSf =>
    rw [step] at hstep
    split at hstep
    · obtain ⟨hinv, hsource⟩ := inv_prepare h hs
      split at hstep
      · rename_i root hroot
        cases hstep
        rw [hroot] at hinv
        exact hinv
      · rename_i root hroot
        cases hstep
        rw [hroot] at hinv hsource
        refine hinv.observe ?_
        show Downscaled M (root.file spec.frozenSource) root.subsets
        rw [hsource]
        exact hinv.root.fractional
    · cases hstep
  | newSession doNotCache onlyFromCache =>
    cases hstep
    exact ⟨h.root, ⟨fun k t hk => (by cases hk), h.refs.onDisk, fun k d hk => (by cases hk)⟩, h.resident,
      h.verdicts, h.log⟩
  | beginRun =>
    cases hstep
    exact ⟨h.root, ⟨h.refs.inMem, h.refs.onDisk, h.refs.connected⟩, h.resident, h.verdicts, h.log⟩
  | endRun =>
    rw [step] at hstep
    split at hstep
    · cases hstep
    · cases hstep
      exact ⟨h.root, ⟨h.refs.inMem, h.refs.onDisk, h.refs.connected⟩, h.resident, h.verdicts, h.log⟩
  | retire key =>
    cases hstep
    refine h.withResident fun k p x hk => ?_
    rw [Dict.get_erase] at hk
    split at hk
    · cases hk
    · exact h.resident k p x hk
  | lookup b =>
    rw [step] at hstep
    split at hstep
    · cases hstep
      exact (lookup_spec h fun d hd => on_of_held h.root hs hd).1
    · cases hstep
  | validate c =>
    rw [step] at hstep
    split at hstep
    · rename_i hok
      cases hstep
      simp only [Bool.and_eq_true, Bool.not_eq_true'] at hok
      exact inv_validate h hs hok.2
    · cases hstep

/-- Before anything is registered or run. -/
def start (outside : Dict String Data) : State Data := { root := { outside } }

theorem inv_start (outside : Dict String Data) : Inv M (start outside) := by
  have hroot : RootInv M (start outside).root :=
    ⟨fun f src hf => (by cases hf), fun f sub hf => (by cases hf), fun f sub _ hf => (by cases hf)⟩
  have hrefs : RefsInv M (start outside) :=
    ⟨fun k t hk => (by cases hk), fun k t hk => (by cases hk), fun k d hk => (by cases hk)⟩
  exact ⟨hroot, hrefs, fun k p d hk => (by cases hk), fun k e hk => (by cases hk), fun obs hobs => (by cases hobs)⟩

/-- **Validation refers to the current data in every run whose steps are settled**: what a lookup returns and what is
replayed is what executing on the data of the directory gives, and each fractional subset is of the frozen source. -/
theorem validation_current (M : Site Data) (outside : Dict String Data) (acts : List (Act Data)) (s : State Data)
    (hsettled : Trace.Meets (step M) (Settled M) (start outside) acts)
    (hrun : Trace.exec (step M) (start outside) acts = some s) : ∀ obs ∈ s.log, Obs.Current M obs :=
  (Trace.exec_invariant (fun _ _ _ => inv_step) (inv_start outside) hsettled hrun).log

/-! ## A source that grew -/

/-- Every query gives the number of rows; the engine crashes on two of them. -/
def countingWorld (d : Option Nat) : World where
  compile := fun _ _ => none
  wreck := fun _ _ disk => disk
  engine := fun _ c => {
    answer := some (if d = some 2 then { resp := "killed", out := "", err := "", queryResults := [] } else
      { resp := "", out := "", err := "", queryResults := c.argsList.map fun line => ⟨"1", line, "", ""⟩,
        written := c.argsList.map fun line => (line, d.map toString) })
    alive := true }
  reference := fun _ _ _ _ => d.map toString
  compare := fun _ a b => if a = b then .equal else .differs "rows differ"
  stage := fun _ => none
  buildId := fun _ _ => none
  symbolize := fun _ => ""
  commit := fun _ _ => ""

def countingSite : Site Nat where
  scaler :=
    { tables := fun _ => ["t"], rowCounts := fun d => [("t", d)], relationships := fun _ _ _ => some []
      sample := fun _ _ _ _ _ => none }
  world := countingWorld
  sql := fun d _ _ => some (toString d)
  dirname := fun f => if f = 1 then "fraction1/" else "fraction/"
  reference_duckdb := fun _ _ _ _ => rfl

/-- A live connection with this number of rows, no fast-check rungs. -/
def registerRows (n : Nat) : Act Nat :=
  .register
    { sqlById := [("1", "SELECT count(*) FROM t")], downscaleFractions := [], serveFrom := .parquet, source := .live n n
      duckdb := "1" }

theorem validation_current_once : ∃ s, Trace.exec (step countingSite) (start [])
    [registerRows 1, .lookup (printingCall false).batch] = some s ∧ ∀ obs ∈ s.log, Obs.Current countingSite obs := by
  refine ⟨_, rfl, validation_current countingSite [] [registerRows 1, .lookup (printingCall false).batch] _ ?_ rfl⟩
  refine ⟨?_, fun s hs => ⟨?_, fun _ _ => trivial⟩⟩
  · intro d relationships _ _ _ x _ hholds
    generalize ((1 : Rat), ServeFrom.parquet) = p at hholds
    cases hholds <;> rename_i hk <;> cases hk
  · have hsub : s.root.subsets.get 1 = some (.parquet 1) := by
      cases hs
      rfl
    intro src o d hlink
    have hlink' : s.root.subsets.get 1 = some (.link src) := hlink
    rw [hsub] at hlink'
    cases hlink'

/-- What is returned on two rows and is not what they give. -/
def staleReference : Obs Nat → Bool
  | .references b held tables =>
    held == some 2 && b.queryList.mapM (fun e => countingSite.sql 2 e.sql b.generalSystemConfig.numThreads) != some tables
  | _ => false

def staleReplay : Obs Nat → Bool
  | .replay c held r => held == some 2 && !(c.outcome (countingWorld (some 2))).any fun o => o.message == r.message
  | _ => false

/-- The reference and the verdict of one row answer for two. -/
theorem stale_after_resync : ∃ s, Trace.exec (step countingSite) (start [])
      [registerRows 1, .validate (printingCall false), registerRows 2, .newSession false false,
        .lookup (printingCall false).batch, .validate (printingCall false)] = some s ∧
    (∃ b tables, .references b (some 2) tables ∈ s.log ∧ ¬ Obs.Current countingSite (.references b (some 2) tables)) ∧
    ∃ c r, .replay c (some 2) r ∈ s.log ∧ ¬ Obs.Current countingSite (.replay c (some 2) r) := by
  have h : ((Trace.exec (step countingSite) (start [])
      [registerRows 1, .validate (printingCall false), registerRows 2, .newSession false false,
        .lookup (printingCall false).batch, .validate (printingCall false)]).any fun s =>
      s.log.any staleReference && s.log.any staleReplay) = true := by decide +kernel
  obtain ⟨s, hs, hstale⟩ := (Option.any_eq_true _ _).1 h
  rw [Bool.and_eq_true, List.any_eq_true, List.any_eq_true] at hstale
  obtain ⟨⟨obs, hmem, hobs⟩, obs', hmem', hobs'⟩ := hstale
  refine ⟨s, hs, ?_, ?_⟩
  · cases obs with
    | references b held tables =>
      simp only [staleReference, Bool.and_eq_true, beq_iff_eq, bne_iff_ne, ne_eq] at hobs
      obtain ⟨rfl, hne⟩ := hobs
      exact ⟨b, tables, hmem, fun hcur => hne (hcur 2 rfl)⟩
    | replay c held r => cases hobs
    | prepared source subsets => cases hobs
  · cases obs' with
    | references b held tables => cases hobs'
    | replay c held r =>
      simp only [staleReplay, Bool.and_eq_true, beq_iff_eq, Bool.not_eq_true'] at hobs'
      obtain ⟨rfl, hne⟩ := hobs'
      refine ⟨c, r, hmem', fun hcur => ?_⟩
      obtain ⟨o, ho, -, hmessage, -⟩ := hcur 2 rfl
      have ho' : c.outcome (countingWorld (some 2)) = some o := ho
      simp [ho', hmessage] at hne
    | prepared source subsets => cases hobs'

end CurrentData

end SynnoDB.Tools
