import SynnoDB.Lib.MapM
import SynnoDB.Tools.RunTool

/-!
# Publish receipts (`tools/run.py:421-520`, `workloads/validation_receipt.py`)

`validate_for_publish` runs a workload and then assembles its receipt from three places: the verdict of the last
batch, a second enumeration of the workload and the build-ids on disk. `live_run` is written down, not observed: a
batch that the validation cache answers passes without being executed. What a receipt says is true when each listed
binding is executed at each listed scale factor (`receipt_truthful`).
-/

namespace SynnoDB.Tools

inductive Verdict where
  | pass
  | fail
deriving DecidableEq, Repr

inductive Plane where
  | parquet
  | shm
deriving DecidableEq, Repr

structure ValidationReceipt where
  snapshotId : Option String
  buildIds : List (String × String)
  validatedQueries : Dict String (List Placeholders)
  dataPlanes : List Plane
  dataset : String
  validatedScaleFactors : List Rat
  mode : RunToolMode
  liveRun : Bool
  verdict : Verdict

def Artifact.path : Artifact → String
  | .db => "db"
  | .loader => "build/libloader.so"
  | .builder => "build/libbuilder.so"
  | .query => "build/libquery.so"

section
variable (W : World)

/-- `engine_build_ids`: what has no build-id is left out. -/
def engineBuildIds (d : Disk) : List (String × String) :=
  [Artifact.db, .builder, .loader, .query].filterMap fun a => ((d a).bind (W.buildId a)).map fun id => (a.path, id)

/-- `abs(a - b) < 1e-9`. -/
def sfEqual (a b : Rat) : Bool := decide (a - b < 1 / 1000000000 ∧ b - a < 1 / 1000000000)

def addScaleFactor (sfs : List Rat) (b : QueryBatch) : List Rat :=
  if sfs.any (sfEqual b.execSettings.scaleFactor) then sfs else sfs ++ [b.execSettings.scaleFactor]

def addBinding (d : Dict String (List Placeholders)) (e : QueryEntry) : Dict String (List Placeholders) :=
  let seen := d.getD e.queryId []
  d.set e.queryId (if e.placeholders ∈ seen then seen else seen ++ [e.placeholders])

/-- The bindings of the batches by query. -/
def bindingsOf (batches : List QueryBatch) : Dict String (List Placeholders) :=
  (batches.flatMap QueryBatch.queryList).foldl addBinding []

def scaleFactorsOf (batches : List QueryBatch) : List Rat := batches.foldl addScaleFactor []

def planeOf (batches : List QueryBatch) : Plane :=
  if batches.any fun b => b.execSettings.dataSource = .duckdb then .shm else .parquet

/-- `validate_for_publish`. -/
def validateForPublish (T : RunTool) (ids : List String) (mode : RunToolMode) (optimize : Bool) (s : State) :
    Option ValidationReceipt × State :=
  if T.validator.isNone || !T.parseOutAndValidateOutput then (none, s)
  else match runWorker W T { mode, optimize, queryIds := some ids, forceCompile := true, forceLive := false } s with
    | (none, s) => (none, s)
    | (some success, s) => match T.provider.produceWorkload mode (some ids) 1 none with
      | none => (none, s)
      | some batches =>
        (some
          { snapshotId := s.git.bind Git.currentHash
            buildIds := engineBuildIds W s.disk
            validatedQueries := bindingsOf batches
            dataPlanes := [planeOf batches]
            dataset := T.datasetName
            validatedScaleFactors := scaleFactorsOf batches
            mode := mode
            liveRun := true
            verdict := if success then .pass else .fail }, s)

/-! ## What a receipt attests -/

/-- The receipt lists the binding for the query. -/
def ValidationReceipt.Lists (r : ValidationReceipt) (queryId : String) (binding : Placeholders) : Prop :=
  binding ∈ r.validatedQueries.getD queryId []

def QueryBatch.Has (b : QueryBatch) (queryId : String) (binding : Placeholders) (e : QueryEntry) : Prop :=
  e ∈ b.queryList ∧ e.queryId = queryId ∧ e.placeholders = binding

/-- The plane of an execution. -/
def Executed.plane (x : Executed) : Plane :=
  if "SYNNODB_SHM_INGEST" ∈ x.call.runEnv.map Prod.fst then .shm else .parquet

/-- The result that the engine wrote for the entry equals the reference. -/
def Executed.Matches (x : Executed) (e : QueryEntry) : Prop :=
  ∃ a result table ref, x.answer = some a ∧ (e, result) ∈ x.batch.queryList.zip a.queryResults ∧
    a.written.get result.reqId = some (some table) ∧
    W.reference .duckdb e.hashEntries x.batch.execSettings x.batch.generalSystemConfig = some ref ∧
    W.compare e.hashEntries table ref = .equal

/-- The build of the receipt was executed over its plane on the binding at the scale factor, and the result is right. -/
def Executed.Attests (r : ValidationReceipt) (sf : Rat) (queryId : String) (binding : Placeholders) (x : Executed) : Prop :=
  x.batch.execSettings.scaleFactor = sf ∧ engineBuildIds W x.call.running = r.buildIds ∧ r.dataPlanes = [x.plane] ∧
    ∃ e, x.batch.Has queryId binding e ∧ x.Matches W e

/-- What the receipt of a call that executed `ran` says is so. -/
structure Truthful (r : ValidationReceipt) (ran : List Executed) : Prop where
  executed : ∀ sf ∈ r.validatedScaleFactors, ∀ q b, r.Lists q b → ∃ x ∈ ran, x.Attests W r sf q b
  scales : ∀ sf ∈ r.validatedScaleFactors, ∃ x ∈ ran, x.batch.execSettings.scaleFactor = sf
  only : ∀ x ∈ ran, x.batch.execSettings.scaleFactor ∈ r.validatedScaleFactors ∧
    ∀ e ∈ x.batch.queryList, r.Lists e.queryId e.placeholders

/-! ## Its condition -/

/-- A batch with the state in which its turn comes. -/
structure Turn where
  run : BatchRun
  batch : QueryBatch
  state : State

/-- The batches of the loop, each in its turn. -/
def turns (T : RunTool) (p : BatchRun) : List QueryBatch → State → List Turn
  | [], _ => []
  | b :: bs, s => ⟨p, b, s⟩ :: match runQueryBatch W T p b s with
    | (some true, s') => turns T p bs s'
    | _ => []

/-- The turns of a `validate_for_publish`. -/
def publishTurns (T : RunTool) (ids : List String) (mode : RunToolMode) (optimize : Bool) (s : State) : List Turn :=
  match beginRun W T { mode, optimize, queryIds := some ids, forceCompile := true, forceLive := false } s with
  | (some (some (run, batches)), s) => turns W T run batches s
  | _ => []

/-- The batches that the receipt is filled from. -/
def listedBatches (T : RunTool) (ids : List String) (mode : RunToolMode) : List QueryBatch :=
  (T.provider.produceWorkload mode (some ids) 1 none).getD []

/-- The validation cache has no entry for the batch. -/
def Turn.Misses (T : RunTool) (t : Turn) : Prop :=
  ∀ v, T.validator = some v → cachedVerdict T v t.run t.state t.batch = none

/-- The process that answers a request: after a retry, the one that is there then. -/
def answeringProc (sources : BuildInputs) (r : Request) (b : QueryBatch) (s : State) : Option Proc :=
  match engineRun W sources r b s with
  | (some a, s') => if a.badAlloc then startProc r.key s' else startProc r.key s
  | (none, _) => none

/-- The process that an execution of the batch would be answered by. -/
def Turn.servedBy (T : RunTool) (t : Turn) : Option Proc :=
  let r := T.request t.run t.batch
  let s := poolGet r.key ((t.state.disk .loader).bind (W.buildId .loader)) t.state
  (shmIngestEnv W t.batch r.runEnv).bind fun env =>
    answeringProc W (T.compiler.inputs (compileOptions t.run.optimize t.run.traceMode) s) { r with runEnv := env } t.batch s

/-- No warm engine that was started on another binary or loader serves the batch. -/
def Turn.Fresh (T : RunTool) (t : Turn) : Prop :=
  ∀ proc, t.servedBy W T = some proc → engineBuildIds W (proc.running t.state.disk) = engineBuildIds W t.state.disk

/-- Each binding of the enumeration is the turn of a batch at each of its scale factors that misses the cache and
meets no stale engine, and nothing else is executed. -/
structure Attested (T : RunTool) (listed : List QueryBatch) (ts : List Turn) : Prop where
  executed : ∀ sf ∈ scaleFactorsOf listed, ∀ d ∈ listed, ∀ e ∈ d.queryList, ∃ t ∈ ts, t.Misses T ∧ t.Fresh W T ∧
    t.batch.execSettings.scaleFactor = sf ∧ ∃ e', t.batch.Has e.queryId e.placeholders e'
  scales : ∀ sf ∈ scaleFactorsOf listed, ∃ t ∈ ts, t.Misses T ∧ t.batch.execSettings.scaleFactor = sf
  only : ∀ t ∈ ts, t.Misses T → t.batch.execSettings.scaleFactor ∈ scaleFactorsOf listed ∧
    ∀ e ∈ t.batch.queryList, ∃ d ∈ listed, ∃ e', d.Has e.queryId e.placeholders e'

end

variable {W : World} {T : RunTool} {p : BatchRun} {b : QueryBatch} {s s' : State} {r : Request} {sources : BuildInputs}
  {v : Validator} {a : Answer}

/-! ## What is listed -/

theorem getD_addBinding {d : Dict String (List Placeholders)} {e : QueryEntry} {q : String} {x : Placeholders} :
    x ∈ (addBinding d e).getD q [] ↔ x ∈ d.getD q [] ∨ (e.queryId = q ∧ e.placeholders = x) := by
  unfold addBinding
  rw [Dict.getD_set]
  by_cases hq : e.queryId = q
  · subst hq
    rw [if_pos rfl]
    split
    · rename_i hmem
      constructor
      · exact Or.inl
      · rintro (h | ⟨-, rfl⟩)
        · exact h
        · exact hmem
    · simp [eq_comm]
  · simp [hq]

theorem mem_bindings {es : List QueryEntry} : ∀ {d : Dict String (List Placeholders)} {q : String} {x : Placeholders},
    x ∈ (es.foldl addBinding d).getD q [] ↔ x ∈ d.getD q [] ∨ ∃ e ∈ es, e.queryId = q ∧ e.placeholders = x := by
  induction es with
  | nil => simp
  | cons e es ih =>
    intro d q x
    rw [List.foldl_cons, ih, getD_addBinding]
    simp only [List.mem_cons, exists_eq_or_imp, or_assoc]

/-- The bindings of a receipt are those of the batches. -/
theorem mem_bindingsOf {batches : List QueryBatch} {q : String} {x : Placeholders} :
    x ∈ (bindingsOf batches).getD q [] ↔ ∃ d ∈ batches, ∃ e, d.Has q x e := by
  unfold bindingsOf
  rw [mem_bindings]
  simp only [Dict.getD, Dict.get_nil, Option.getD_none, List.not_mem_nil, false_or, List.mem_flatMap, QueryBatch.Has]
  constructor
  · rintro ⟨e, ⟨d, hd, he⟩, hq, hx⟩
    exact ⟨d, hd, e, he, hq, hx⟩
  · rintro ⟨d, hd, e, he, hq, hx⟩
    exact ⟨e, ⟨d, hd, he⟩, hq, hx⟩

/-! ## One execution -/

/-- One answer is the last entry of the record; an entry before it is that of a try that ran out of memory. -/
theorem callHotpatchProc_some (h : callHotpatchProc W sources r b s = (some a, s')) :
    ∃ proc tried, answeringProc W sources r b s = some proc ∧ Kept s s' ∧
      s'.ran = s.ran ++ tried ++ [{ batch := b, call := r.call b proc s.disk, sources, answer := some a }] ∧
      ∀ x ∈ tried, x.batch = b ∧ ∃ a', x.answer = some a' ∧ a'.queryResults = [] := by
  unfold callHotpatchProc at h
  split at h
  · cases h
  · rename_i first t ht
    obtain ⟨proc, hp, hkept, hran⟩ := engineRun_some ht
    split at h
    · rename_i hbad
      obtain ⟨proc', hp', hkept', hran'⟩ := engineRun_some h
      refine ⟨proc', _, ?_, hkept.trans hkept', by rw [hran', hran, hkept.disk], ?_⟩
      · rw [answeringProc, ht]
        simpa only [hbad, if_true] using hp'
      · simp only [List.mem_singleton]
        rintro x rfl
        refine ⟨rfl, first, rfl, ?_⟩
        simp only [Answer.badAlloc, Bool.and_eq_true, List.isEmpty_iff] at hbad
        exact hbad.1
    · rename_i hbad
      cases h
      refine ⟨proc, [], ?_, hkept, by rw [hran, List.append_nil], by simp⟩
      simp only [answeringProc, ht]
      rw [if_neg hbad]
      exact hp

/-! ## One validation -/

/-- A batch without a difference has, for each entry, a file that equals its reference. -/
theorem checkEntries_none {entries : List (HashEntry × QueryResult)} : ∀ {refs : List Table}
    {written : Dict String (Option Table)}, refs.length = entries.length →
    Validator.checkEntries W entries refs written = some none →
    ∀ i (hi : i < entries.length), ∃ table, ∃ ref, refs[i]? = some ref ∧
      written.get entries[i].2.reqId = some (some table) ∧ W.compare entries[i].1 table ref = .equal := by
  induction entries with
  | nil =>
    intro refs written _ _ i hi
    exact absurd hi (by simp)
  | cons entry entries ih =>
    obtain ⟨inst, rt⟩ := entry
    intro refs written hlen h
    match refs with
    | [] => cases hlen
    | ref :: refs =>
      rw [Validator.checkEntries] at h
      split at h
      · cases h
      · cases h
      · rename_i table hget
        split at h
        · rename_i hcmp
          intro i hi
          cases i with
          | zero => exact ⟨table, ref, rfl, hget, hcmp⟩
          | succ i =>
            obtain ⟨t, ref', hr, hg, hc⟩ := ih (by simpa using hlen) h i (by simpa using hi)
            refine ⟨t, ref', by simpa using hr, ?_, by simpa using hc⟩
            rw [Dict.get_erase] at hg
            split at hg
            · cases hg
            · simpa using hg
        · cases h
        · cases h

/-- A validation that is passed has compared the result of each entry with its reference. -/
theorem outcome_correct {o : ValidationOutput} {traceMode : Bool} (h : v.outcome W b.payload a traceMode false = some o)
    (hc : o.correct = true) {x : Executed} (hb : x.batch = b) (ha : x.answer = some a) :
    ∀ e ∈ b.queryList, x.Matches W e := by
  unfold Validator.outcome Validator.outcomeAgainst at h
  simp only [Bool.false_eq_true, if_false, Option.map_eq_some_iff] at h
  obtain ⟨o', ho', rfl⟩ := h
  have hc' : o'.correct = true := hc
  unfold Validator.validateQuery at ho'
  dsimp only at ho'
  split at ho'
  · cases ho'
    cases hc'
  · split at ho'
    · split at ho'
      · cases ho'
      · cases ho'
        cases hc'
    · rename_i hlen
      split at ho'
      · cases ho'
        cases hc'
      · unfold Validator.checkOutputCorrectness at ho'
        dsimp only at ho'
        split at ho'
        · cases ho'
        · rename_i refs hrefs
          split at ho'
          · cases ho'
          · split at ho'
            · cases ho'
            · cases ho'
              cases hc'
            · rename_i hnone
              obtain ⟨hrl, hr⟩ := MapM.getElem?_eq hrefs
              have hlenp := b.length_payload
              have hzip : (b.payload.queryList.zip a.queryResults).length = b.queryList.length := by
                rw [List.length_zip]
                omega
              intro e he
              obtain ⟨i, hi, rfl⟩ := List.getElem_of_mem he
              obtain ⟨table, ref, href, hget, hcmp⟩ :=
                checkEntries_none (by rw [hrl, hzip, hlenp]) hnone i (by rw [hzip]; exact hi)
              have hi' : i < a.queryResults.length := by omega
              simp only [List.getElem_zip, b.getElem_payload hi] at hget hcmp
              refine ⟨a, a.queryResults[i], table, ref, ha, ?_, hget, ?_, hcmp⟩
              · rw [hb]
                exact List.mem_iff_getElem.2 ⟨i, by rw [List.length_zip]; omega, by simp⟩
              · rw [hb, ← href, hr i (by omega), b.getElem_payload hi]
                rfl

/-- What the execution of a batch by `proc` adds to the record. -/
structure Adds (W : World) (b : QueryBatch) (env : List (String × String)) (proc : Proc) (a : Answer) (s s' : State)
    (events : List Executed) : Prop where
  ran : s'.ran = s.ran ++ events
  last : ∃ tried x, events = tried ++ [x] ∧ x.batch = b ∧ x.answer = some a ∧ x.call.proc = proc ∧
    x.call.disk = s.disk ∧ x.call.runEnv = env ∧ ∀ y ∈ tried, y.batch = b ∧ ∃ a', y.answer = some a' ∧ a'.queryResults = []

theorem execute_some (h : execute W T p r b s = (some a, s')) :
    ∃ env proc events, shmIngestEnv W b r.runEnv = some env ∧
      answeringProc W (T.compiler.inputs (compileOptions p.optimize p.traceMode) s) { r with runEnv := env } b s
        = some proc ∧
      Kept s s' ∧ Adds W b env proc a s s' events := by
  unfold execute at h
  split at h
  · cases h
  · rename_i env henv
    obtain ⟨proc, tried, hp, hkept, hran, htried⟩ := callHotpatchProc_some h
    exact ⟨env, proc, _, henv, hp, hkept, by rw [hran, List.append_assoc], tried, _, rfl, rfl, rfl, rfl, rfl,
      rfl, htried⟩

theorem executeAndValidate_some {result : ExecValidateResult} (hused : p.compileUsedCache = false)
    (h : executeAndValidate W T v p r b s = (some result, s')) :
    ∃ env proc a events o, shmIngestEnv W b r.runEnv = some env ∧
      answeringProc W (T.compiler.inputs (compileOptions p.optimize p.traceMode) s) { r with runEnv := env } b s
        = some proc ∧
      s'.disk = s.disk ∧ Adds W b env proc a s s' events ∧
      v.outcome W b.payload a p.traceMode (!T.parseOutAndValidateOutput) = some o ∧ result.success = o.correct := by
  unfold executeAndValidate at h
  dsimp only at h
  split at h
  · cases h
  · rw [recompileIfNecessary, hused] at h
    simp only [Bool.false_eq_true, if_false] at h
    split at h
    · cases h
    · rename_i a t hx
      obtain ⟨env, proc, events, henv, hp, hkept, hadds⟩ := execute_some hx
      split at h
      · cases h
      · rename_i o ho
        obtain ⟨⟨hash, rfl⟩, hd, hr⟩ := record_some h
        exact ⟨env, proc, a, events, o, henv, hp, hd.trans hkept.disk, ⟨hr.trans hadds.ran, hadds.last⟩, ho, rfl⟩

/-! ## One turn -/

/-- What a turn that succeeds adds to the record: nothing when the cache answers, else one execution that is right. -/
inductive TurnAdds (W : World) (T : RunTool) (t : Turn) : List Executed → Prop
  | replayed (h : ¬ t.Misses T) : TurnAdds W T t []
  | executed {tried : List Executed} {x : Executed} {proc : Proc} (hm : t.Misses T) (hp : t.servedBy W T = some proc)
      (hb : x.batch = t.batch) (hproc : x.call.proc = proc) (hdisk : x.call.disk = t.state.disk)
      (henv : shmIngestEnv W t.batch (T.request t.run t.batch).runEnv = some x.call.runEnv)
      (hall : ∀ e ∈ t.batch.queryList, x.Matches W e)
      (ht : ∀ y ∈ tried, y.batch = t.batch ∧ ∃ a, y.answer = some a ∧ a.queryResults = []) :
      TurnAdds W T t (tried ++ [x])

theorem cachedVerdict_poolGet {key : String} {f : Option String} :
    cachedVerdict T v p (poolGet key f s) b = cachedVerdict T v p s b := by
  unfold cachedVerdict
  rw [poolGet_kept.1.git, poolGet_kept.1.validateCache]

theorem runQueryBatch_true (hv : T.validator = some v) (hparse : T.parseOutAndValidateOutput = true)
    (hused : p.compileUsedCache = false) (h : runQueryBatch W T p b s = (some true, s')) :
    s'.disk = s.disk ∧ ∃ events, s'.ran = s.ran ++ events ∧ TurnAdds W T ⟨p, b, s⟩ events := by
  unfold runQueryBatch at h
  split at h
  · cases h
  · rw [hv] at h
    dsimp only at h
    obtain ⟨hk, hr⟩ := @poolGet_kept s (T.request p b).key ((s.disk .loader).bind (W.buildId .loader))
    split at h
    · cases h
    · rename_i result replayed t hx
      split at h
      · cases h
      · rw [Prod.mk.injEq, Option.some.injEq] at h
        obtain ⟨hsucc, rfl⟩ := h
        unfold execAndValidate at hx
        split at hx
        · rename_i cached hcached
          split at hx
          · cases hx
          · cases hx
            refine ⟨hk.disk, [], by rw [List.append_nil]; exact hr, .replayed fun hm => ?_⟩
            rw [cachedVerdict_poolGet, hm v hv] at hcached
            cases hcached
        · rename_i hmiss
          split at hx
          · cases hx
          · rename_i res t' hexec
            cases hx
            obtain ⟨env, proc, a, events, o, henv, hp, hd, hadds, ho, hs⟩ := executeAndValidate_some hused hexec
            rw [hparse] at ho
            obtain ⟨tried, x, rfl, hb, ha, hproc, hdisk, hxenv, htried⟩ := hadds.last
            refine ⟨hd.trans hk.disk, tried ++ [x], by rw [hadds.ran, hr], ?_⟩
            refine @TurnAdds.executed W T _ tried x proc ?_ ?_ hb hproc ?_ ?_ ?_ htried
            · intro v' hv'
              rw [hv] at hv'
              cases hv'
              rw [cachedVerdict_poolGet] at hmiss
              exact hmiss
            · rw [Turn.servedBy]
              dsimp only
              rw [henv]
              exact hp
            · rw [hdisk]
              exact hk.disk
            · rw [hxenv]
              exact henv
            · exact outcome_correct ho (hs ▸ hsucc) hb ha

/-! ## The loop -/

theorem mem_turns {bs : List QueryBatch} : ∀ {s : State} {t : Turn}, t ∈ turns W T p bs s → t.run = p ∧
    t.batch ∈ bs := by
  induction bs with
  | nil =>
    intro s t h
    cases h
  | cons b bs ih =>
    intro s t h
    rw [turns] at h
    rcases List.mem_cons.1 h with rfl | h
    · exact ⟨rfl, List.mem_cons_self⟩
    · split at h
      · obtain ⟨hrun, hmem⟩ := ih h
        exact ⟨hrun, List.mem_cons_of_mem _ hmem⟩
      · cases h

theorem turns_cons {bs : List QueryBatch} {t : State} (h : runQueryBatch W T p b s = (some true, t)) :
    turns W T p (b :: bs) s = ⟨p, b, s⟩ :: turns W T p bs t := by
  simp only [turns, h]

/-- A loop that succeeds: the record grows turn by turn, and the disk stays as the build left it. -/
theorem runBatches_true (hv : T.validator = some v) (hparse : T.parseOutAndValidateOutput = true)
    (hused : p.compileUsedCache = false) {bs : List QueryBatch} : ∀ {s s' : State},
    runBatches W T p bs s = (some true, s') →
    s'.disk = s.disk ∧ (∀ t ∈ turns W T p bs s, t.state.disk = s.disk) ∧
      ∃ events, s'.ran = s.ran ++ events.flatten ∧ List.Forall₂ (TurnAdds W T) (turns W T p bs s) events := by
  induction bs with
  | nil =>
    intro s s' h
    cases h
  | cons b bs ih =>
    intro s s' h
    rw [runBatches] at h
    split at h
    · rename_i t ht
      obtain ⟨hd, first, hr, hfirst⟩ := runQueryBatch_true hv hparse hused ht
      rw [turns_cons ht]
      split at h
      · rename_i hempty
        cases h
        rw [List.isEmpty_iff] at hempty
        subst hempty
        exact ⟨hd, by simp [turns], [first], by simp [hr], .cons hfirst .nil⟩
      · obtain ⟨hd', hts, events, hr', hevents⟩ := ih h
        refine ⟨hd'.trans hd, ?_, first :: events, ?_, .cons hfirst hevents⟩
        · intro u hu
          rcases List.mem_cons.1 hu with rfl | hu
          · rfl
          · rw [hts u hu, hd]
        · rw [hr', hr, List.flatten_cons, List.append_assoc]
    · rename_i hne
      exact absurd h (hne s')

theorem forall₂_mem {α β : Type} {R : α → β → Prop} {l : List α} {l' : List β} (h : List.Forall₂ R l l') :
    (∀ a ∈ l, ∃ b ∈ l', R a b) ∧ ∀ b ∈ l', ∃ a ∈ l, R a b := by
  induction h with
  | nil => simp
  | cons h _ ih =>
    constructor
    · rintro a ha
      rcases List.mem_cons.1 ha with rfl | ha
      · exact ⟨_, List.mem_cons_self, h⟩
      · obtain ⟨b, hb, hr⟩ := ih.1 a ha
        exact ⟨b, List.mem_cons_of_mem _ hb, hr⟩
    · rintro b hb
      rcases List.mem_cons.1 hb with rfl | hb
      · exact ⟨_, List.mem_cons_self, h⟩
      · obtain ⟨a, ha, hr⟩ := ih.2 b hb
        exact ⟨a, List.mem_cons_of_mem _ ha, hr⟩

/-! ## The workload -/

theorem mem_batches {q : Provider} {threads reps : Nat} {cores : Option (List Nat)} {ids : List String} :
    ∀ {sfs : List Rat} {rnd : Nat} {bs : List QueryBatch}, q.batches threads cores reps ids sfs rnd = some bs →
      ∀ b ∈ bs, b.execSettings.dataSource = q.dataSource ∧ b.extraEnv = q.extraEnv b.execSettings.scaleFactor := by
  intro sfs
  induction sfs with
  | nil =>
    intro rnd bs h b hb
    cases h
    cases hb
  | cons sf sfs ih =>
    intro rnd bs h b hb
    rw [Provider.batches] at h
    split at h
    · cases h
    · split at h
      · cases h
      · split at h
        · cases h
        · rw [Option.map_eq_some_iff] at h
          obtain ⟨rest, hrest, rfl⟩ := h
          rcases List.mem_cons.1 hb with rfl | hb
          · exact ⟨rfl, rfl⟩
          · exact ih hrest b hb

theorem mem_produceWorkload {q : Provider} {mode : RunToolMode} {ids : Option (List String)} {threads : Nat}
    {cores : Option (List Nat)} {bs : List QueryBatch} (h : q.produceWorkload mode ids threads cores = some bs) :
    ∀ b ∈ bs, b.execSettings.dataSource = q.dataSource ∧ b.extraEnv = q.extraEnv b.execSettings.scaleFactor := by
  unfold Provider.produceWorkload at h
  dsimp only at h
  rw [Option.bind_eq_some_iff] at h
  obtain ⟨sfs, -, h⟩ := h
  exact mem_batches h

theorem buildCached_skip {c : CompilerSetup} {flags : List String} {write used : Bool} {current output : Option String}
    {key : Option CompilePayload} (h : buildCached W c flags true write current s = (some (output, used, key), s')) :
    used = false ∧ s'.ran = s.ran := by
  unfold buildCached at h
  have hran : (build W c flags s).2.ran = s.ran := by
    unfold build
    dsimp only
    split <;> rfl
  split at h
  · cases h
  · split at h
    · rename_i hskip
      cases hskip
    · simp only [Bool.not_true, Bool.and_false, Bool.false_eq_true, if_false] at h
      split at h
      · cases h
        refine ⟨rfl, ?_⟩
        split <;> exact hran
      · cases h
        exact ⟨rfl, hran⟩

theorem beginRun_some {w : WorkerArgs} {run : BatchRun} {batches : List QueryBatch} (hforce : w.forceCompile = true)
    (h : beginRun W T w s = (some (some (run, batches)), s')) :
    run.compileUsedCache = false ∧ s'.ran = s.ran ∧ (∃ ids, run.extraEnv = [("CORE_IDS", ids)]) ∧
      ∀ b ∈ batches, b.execSettings.dataSource = T.provider.dataSource ∧
        b.extraEnv = T.provider.extraEnv b.execSettings.scaleFactor := by
  unfold beginRun at h
  dsimp only at h
  rw [hforce] at h
  split at h
  · cases h
  · split at h
    · cases h
    · cases h
    · rename_i usedCache key t hbuild
      obtain ⟨hused, hran⟩ := buildCached_skip hbuild
      split at h
      · cases h
      · rename_i bs hbs
        cases h
        exact ⟨hused, hran, ⟨_, rfl⟩, mem_produceWorkload hbs⟩

/-- An execution goes over shared memory exactly when its batch is staged there. -/
theorem plane_eq {q : Provider} {x : Executed} {t : Turn} {ids : String} (hx : t.run.extraEnv = [("CORE_IDS", ids)])
    (hb : t.batch.execSettings.dataSource = q.dataSource ∧ t.batch.extraEnv =
      q.extraEnv t.batch.execSettings.scaleFactor)
    (henv : shmIngestEnv W t.batch (T.request t.run t.batch).runEnv = some x.call.runEnv) :
    x.plane = if q.dataSource = .duckdb then .shm else .parquet := by
  have hkeys : "SYNNODB_SHM_INGEST" ∉ (T.request t.run t.batch).runEnv.map Prod.fst := by
    simp only [RunTool.request, hx, hb.2, Provider.extraEnv]
    split <;> cases q.memoryLimitMb <;> simp
  unfold shmIngestEnv subsetDb at henv
  rw [hb.1] at henv
  unfold Executed.plane
  split at henv
  · rename_i hnone
    split at hnone
    · cases hnone
    · rename_i hne
      rw [if_neg hne]
      rw [Option.some.injEq] at henv
      rw [← henv, if_neg hkeys]
  · rename_i path hpath
    split at hpath
    · rename_i heq
      rw [if_pos heq]
      rw [Option.map_eq_some_iff] at henv
      obtain ⟨dir, -, henv⟩ := henv
      rw [← henv, if_pos (by simp)]
    · cases hpath

theorem planeOf_eq {q : Provider} {mode : RunToolMode} {ids : Option (List String)} {threads : Nat}
    {cores : Option (List Nat)} {bs : List QueryBatch} (h : q.produceWorkload mode ids threads cores = some bs)
    {d : QueryBatch} (hd : d ∈ bs) : planeOf bs = if q.dataSource = .duckdb then .shm else .parquet := by
  have hall := mem_produceWorkload h
  unfold planeOf
  by_cases hq : q.dataSource = .duckdb
  · rw [if_pos hq, if_pos]
    rw [List.any_eq_true]
    exact ⟨d, hd, by simp [(hall d hd).1, hq]⟩
  · rw [if_neg hq, if_neg]
    rw [List.any_eq_true]
    rintro ⟨b, hb, hdb⟩
    rw [decide_eq_true_eq, (hall b hb).1] at hdb
    exact hq hdb

/-! ## The receipt -/

/-- A call that returns a passing receipt: its loop, its record and what the receipt is made of. -/
theorem validateForPublish_pass {ids : List String} {mode : RunToolMode} {optimize : Bool} {rc : ValidationReceipt}
    (h : validateForPublish W T ids mode optimize s = (some rc, s')) (hpass : rc.verdict = .pass) :
    ∃ events, s'.ran = s.ran ++ events.flatten ∧
      List.Forall₂ (TurnAdds W T) (publishTurns W T ids mode optimize s) events ∧
      (∀ t ∈ publishTurns W T ids mode optimize s, t.state.disk = s'.disk ∧
        (∃ ids, t.run.extraEnv = [("CORE_IDS", ids)]) ∧
        t.batch.execSettings.dataSource = T.provider.dataSource ∧
        t.batch.extraEnv = T.provider.extraEnv t.batch.execSettings.scaleFactor) ∧
      T.provider.produceWorkload mode (some ids) 1 none = some (listedBatches T ids mode) ∧
      rc.buildIds = engineBuildIds W s'.disk ∧ rc.validatedQueries = bindingsOf (listedBatches T ids mode) ∧
      rc.dataPlanes = [planeOf (listedBatches T ids mode)] ∧
      rc.validatedScaleFactors = scaleFactorsOf (listedBatches T ids mode) := by
  unfold validateForPublish at h
  split at h
  · cases h
  · rename_i hgate
    simp only [Bool.or_eq_true, Option.isNone_iff_eq_none, Bool.not_eq_true', not_or, Bool.not_eq_false] at hgate
    obtain ⟨hv, hparse⟩ := hgate
    obtain ⟨v, hv⟩ := Option.ne_none_iff_exists'.1 hv
    split at h
    · cases h
    · rename_i success t hrun
      split at h
      · cases h
      · rename_i listed hlisted
        have hl : listedBatches T ids mode = listed := by rw [listedBatches, hlisted, Option.getD_some]
        rw [Prod.mk.injEq, Option.some.injEq] at h
        obtain ⟨rfl, rfl⟩ := h
        have hsucc : success = true := by
          cases success
          · cases hpass
          · rfl
        subst hsucc
        unfold runWorker at hrun
        unfold publishTurns
        split at hrun
        · cases hrun
        · cases hrun
        · rename_i run batches u hbegin
          obtain ⟨hused, hran, hcores, hbs⟩ := beginRun_some rfl hbegin
          obtain ⟨hd, hts, events, hr, hevents⟩ := runBatches_true hv hparse hused hrun
          rw [hbegin, hl]
          refine ⟨events, by rw [hr, hran], hevents, fun t ht => ?_, hlisted, rfl, rfl, rfl, rfl⟩
          obtain ⟨htr, htb⟩ := mem_turns ht
          exact ⟨(hts t ht).trans hd.symm, htr ▸ hcores, hbs t.batch htb⟩

/-- **A receipt is truthful exactly when nothing it lists was left to the cache or to a stale engine**: each binding
of its enumeration has, at each of its scale factors, a turn that misses the validation cache and that no warm engine of
another build serves, and what is executed is what it lists. -/
theorem receipt_truthful {ids : List String} {mode : RunToolMode} {optimize : Bool} {rc : ValidationReceipt}
    (h : validateForPublish W T ids mode optimize s = (some rc, s')) (hpass : rc.verdict = .pass) :
    Truthful W rc (s'.ran.drop s.ran.length) ↔
      Attested W T (listedBatches T ids mode) (publishTurns W T ids mode optimize s) := by
  obtain ⟨events, hran, hevents, hturns, hlisted, hids, hqs, hplanes, hsfs⟩ := validateForPublish_pass h hpass
  obtain ⟨hfwd, hback⟩ := forall₂_mem hevents
  have hlists : ∀ q b, rc.Lists q b ↔ ∃ d ∈ listedBatches T ids mode, ∃ e, d.Has q b e := by
    intro q b
    rw [ValidationReceipt.Lists, hqs, mem_bindingsOf]
  rw [hran, List.drop_left]
  -- an execution of the record belongs to a turn that missed the cache
  have hturn : ∀ x ∈ events.flatten, ∃ t ∈ publishTurns W T ids mode optimize s, t.Misses T ∧ x.batch = t.batch ∧
      ((∃ a, x.answer = some a ∧ a.queryResults = []) ∨ ∃ proc, t.servedBy W T = some proc ∧
        x.call.running = proc.running t.state.disk) := by
    intro x hx
    obtain ⟨ev, hev, hx⟩ := List.mem_flatten.1 hx
    obtain ⟨t, ht, hadds⟩ := hback ev hev
    cases hadds with
    | replayed => cases hx
    | executed hm hp hb hproc hdisk _ _ htried =>
      rcases List.mem_append.1 hx with hx | hx
      · exact ⟨t, ht, hm, (htried x hx).1, Or.inl (htried x hx).2⟩
      · rw [List.mem_singleton] at hx
        subst hx
        exact ⟨t, ht, hm, hb, Or.inr ⟨_, hp, by rw [EngineCall.running, hproc, hdisk]⟩⟩
  -- a turn that missed the cache has an execution with right results
  have hexec : ∀ t ∈ publishTurns W T ids mode optimize s, t.Misses T → ∃ x ∈ events.flatten, x.batch = t.batch ∧
      (∀ e ∈ t.batch.queryList, x.Matches W e) ∧
      (∃ proc, t.servedBy W T = some proc ∧ x.call.running = proc.running t.state.disk) ∧
      x.plane = if T.provider.dataSource = .duckdb then .shm else .parquet := by
    intro t ht hm
    obtain ⟨ev, hev, hadds⟩ := hfwd t ht
    obtain ⟨-, ⟨cores, hcores⟩, hsource⟩ := hturns t ht
    cases hadds with
    | replayed hn => exact absurd hm hn
    | @executed tried x proc _ hp hb hproc hdisk henv hall _ =>
      refine ⟨x, List.mem_flatten.2 ⟨_, hev, by simp⟩, hb, hall, ⟨proc, hp, ?_⟩, plane_eq hcores hsource henv⟩
      rw [EngineCall.running, hproc, hdisk]
  constructor
  · intro htrue
    refine ⟨?_, ?_, ?_⟩
    · intro sf hsf d hd e he
      obtain ⟨x, hx, hscale, hbuild, -, e', hhas, a, res, -, -, ha, hzip, -⟩ :=
        htrue.executed sf (hsfs ▸ hsf) e.queryId e.placeholders ((hlists _ _).2 ⟨d, hd, e, he, rfl, rfl⟩)
      obtain ⟨t, ht, hm, hb, hcase⟩ := hturn x hx
      rcases hcase with ⟨a', ha', hempty⟩ | ⟨proc, hp, hrunning⟩
      · rw [ha] at ha'
        cases ha'
        simp [hempty] at hzip
      · refine ⟨t, ht, hm, ?_, hb ▸ hscale, e', hb ▸ hhas⟩
        intro proc' hp'
        rw [hp] at hp'
        cases hp'
        rw [← hrunning, hbuild, hids, (hturns t ht).1]
    · intro sf hsf
      obtain ⟨x, hx, hscale⟩ := htrue.scales sf (hsfs ▸ hsf)
      obtain ⟨t, ht, hm, hb, -⟩ := hturn x hx
      exact ⟨t, ht, hm, hb ▸ hscale⟩
    · intro t ht hm
      obtain ⟨x, hx, hb, -⟩ := hexec t ht hm
      obtain ⟨hscale, hall⟩ := htrue.only x hx
      rw [hb] at hscale hall
      exact ⟨hsfs ▸ hscale, fun e he => (hlists _ _).1 (hall e he)⟩
  · intro hatt
    refine ⟨?_, ?_, ?_⟩
    · intro sf hsf q b hq
      obtain ⟨d, hd, e, he, rfl, rfl⟩ := (hlists q b).1 hq
      obtain ⟨t, ht, hm, hfresh, hscale, e', hhas⟩ := hatt.executed sf (hsfs ▸ hsf) d hd e he
      obtain ⟨x, hx, hb, hall, ⟨proc, hp, hrunning⟩, hplane⟩ := hexec t ht hm
      refine ⟨x, hx, by rw [hb, hscale], ?_, ?_, e', by rw [hb]; exact hhas, hall e' hhas.1⟩
      · rw [hrunning, hfresh proc hp, hids, (hturns t ht).1]
      · rw [hplanes, planeOf_eq hlisted hd, hplane]
    · intro sf hsf
      obtain ⟨t, ht, hm, hscale⟩ := hatt.scales sf (hsfs ▸ hsf)
      obtain ⟨x, hx, hb, -⟩ := hexec t ht hm
      exact ⟨x, hx, by rw [hb, hscale]⟩
    · intro x hx
      obtain ⟨t, ht, hm, hb, -⟩ := hturn x hx
      obtain ⟨hscale, hall⟩ := hatt.only t ht hm
      rw [hb]
      exact ⟨hsfs ▸ hscale, fun e he => (hlists _ _).2 (hall e he)⟩

/-! ## A verdict of an earlier run -/

/-- Engines answer right until the third event; what comes later crashes. -/
def agingWorld : World where
  compile := fun _ _ => none
  wreck := fun _ _ d => d
  engine := fun n c => {
    answer := some (if n < 2 then
        { resp := "", out := "", err := "", queryResults := c.argsList.map fun line => ⟨"1", line, "", ""⟩,
          written := c.argsList.map fun line => (line, some "42") }
      else { resp := "killed", out := "", err := "", queryResults := [] })
    alive := n < 2 }
  reference := fun _ _ _ _ => some "42"
  compare := fun _ a b => if a = b then .equal else .differs "rows differ"
  stage := fun _ => none
  buildId := fun a _ => some a.path
  symbolize := fun _ => ""
  commit := fun _ _ => "c1"

/-- One constant query at the scale factor 1. -/
def constantTool : RunTool where
  compiler := { args := { libs := [], mainSrc := { parts := ["db.cpp"] } }, workingDir := ["w"], cwd := ["w"], environ := {} }
  validator := some { allQueryIds := ["1"] }
  datasetName := "d"
  provider :=
    { benchmark := "b", queryIds := ["1"], fastCheckSfs := [1], exhaustiveSfs := [1], ingestSfs := [1],
      serveFromDuckdb := false, benchmarkSf := 1, numInstantiations := 1
      gen := fun name rnd => if name = "Q1" then some ("SELECT 42", [], rnd) else none
      seed := 42, orderBy := fun _ => [], argsElement := fun id _ _ => id, subsetDir := fun _ => some "fraction1"
      subsetBytes := fun _ => 0, storageDir := fun _ => "" }
  resolveCores := fun n => (n, [])
  coreIdsToEnv := fun _ => "1"
  cgroupPolicy := fun _ => ""

def startState : State where
  files := []
  git := some { currentHash := some "c0", head := some "c0", commits := [("c0", [])] }

/-- After a run of the same workload. -/
def afterRun : State := (runWorker agingWorld constantTool { mode := .exhaustive, optimize := true } startState).2

theorem receipt_truthful_cold : ∃ rc s', validateForPublish agingWorld constantTool ["1"] .exhaustive true startState =
    (some rc, s') ∧ (Truthful agingWorld rc (s'.ran.drop startState.ran.length) ↔
      Attested agingWorld constantTool (listedBatches constantTool ["1"] .exhaustive)
        (publishTurns agingWorld constantTool ["1"] .exhaustive true startState)) := by
  have h : ((validateForPublish agingWorld constantTool ["1"] .exhaustive true startState).1.any fun rc =>
      rc.verdict == .pass) = true := by decide +kernel
  obtain ⟨rc, hrc, hpass⟩ := (Option.any_eq_true _ _).1 h
  refine ⟨rc, _, Prod.ext hrc rfl, ?_⟩
  exact receipt_truthful (Prod.ext hrc rfl) (by simpa using hpass)

/-- The engine crashes on every query by now, and nothing is executed. -/
theorem receipt_of_replay : ∃ rc s', validateForPublish agingWorld constantTool ["1"] .exhaustive true afterRun =
    (some rc, s') ∧ rc.liveRun = true ∧ rc.verdict = .pass ∧ s'.ran = afterRun.ran ∧
    ¬ Truthful agingWorld rc (s'.ran.drop afterRun.ran.length) := by
  have h : ((validateForPublish agingWorld constantTool ["1"] .exhaustive true afterRun).1.any fun rc =>
      rc.liveRun && rc.verdict == .pass && rc.validatedScaleFactors == [1]) = true := by decide +kernel
  have hlen : (validateForPublish agingWorld constantTool ["1"] .exhaustive true afterRun).2.ran.length =
      afterRun.ran.length := by decide +kernel
  obtain ⟨rc, hrc, hrec⟩ := (Option.any_eq_true _ _).1 h
  simp only [Bool.and_eq_true, beq_iff_eq] at hrec
  obtain ⟨⟨hlive, hpass⟩, hsfs⟩ := hrec
  obtain ⟨events, hran, -⟩ := validateForPublish_pass (Prod.ext hrc rfl) hpass
  have hnone : events.flatten = [] := by
    rw [hran, List.length_append] at hlen
    exact List.length_eq_zero_iff.1 (by omega)
  rw [hnone, List.append_nil] at hran
  refine ⟨rc, _, Prod.ext hrc rfl, hlive, hpass, hran, fun htrue => ?_⟩
  obtain ⟨x, hx, -⟩ := htrue.scales 1 (by rw [hsfs]; exact List.mem_singleton_self 1)
  rw [hran, List.drop_length] at hx
  cases hx

end SynnoDB.Tools
