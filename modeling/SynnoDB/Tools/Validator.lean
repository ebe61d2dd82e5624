import SynnoDB.Tools.Batch
import SynnoDB.Tools.CachedCompiler

/-!
# Validating a batch (`query_validator_class.py:33-61,437-571`, `run_and_check_queries.py:24-61,117-560`)

| here | there |
| --- | --- |
| `World`       | **what is outside the code**: the compiler, the engines, the reference systems, the comparison, git's hashes |
| `Message`, `Metric` | texts and metrics in which a measured time is only `time` |
| `Answer`      | `ExecCallbackResult`, with the result files that the engine wrote |
| `EngineCall`  | **all that an execution depends on** besides the benchmark data |
| `compare`     | the column check and `results_equal`, with the text of the difference |
| `BatchPayload` | the batch: of an entry only the hashed fields are read here |

`raises` and `none` stand for exceptions; their texts, the log, the plots for wandb and the truncation of messages are
left out. The check for missing measurements cannot fail and is left out, too.
-/

namespace SynnoDB.Tools

/-! ## Messages and metrics -/

inductive Piece where
  | text (s : String)
  | time
deriving DecidableEq, Repr

abbrev Message := List Piece

inductive Metric where
  | bool (b : Bool)
  | nat (n : Nat)
  | rat (q : Rat)
  | text (s : String)
  | texts (ss : List String)
  | null
  | time
deriving DecidableEq

abbrev Metrics := Dict String Metric

def Metric.ofOption (s : Option String) : Metric := s.elim .null .text

def DbStorage.value : DbStorage → String
  | .inMemory => "in_memory"
  | .ssd => "ssd"
  | .labstore => "labstore"

def DataSource.value : DataSource → String
  | .flat => "flat"
  | .bespoke => "bespoke"
  | .parquet => "parquet"
  | .duckdb => "duckdb"

/-- `prefix_dict(asdict(exec_settings), "validation/")`. -/
def ExecSettings.metrics (es : ExecSettings) : Metrics :=
  [("validation/_scale_factor", .rat es.scaleFactor), ("validation/_db_storage", .text es.dbStorage.value),
    ("validation/_parquet_dir", .text es.parquetDir), ("validation/_disk_db_dir", .ofOption es.diskDbDir),
    ("validation/_data_source", .text es.dataSource.value)]

def assembleError (es : ExecSettings) (executed : List String) (exception : Bool) (queryId : Option String) : Metrics :=
  es.metrics ++
    [("validation/correct", .bool false), ("validation/error", .bool exception),
      ("validation/query_ids_executed", .texts executed), ("validation/num_queries", .nat executed.length),
      ("validation/num_successful_queries", .nat 0), ("validation/failed_query_id", .ofOption queryId),
      ("validation/query_id_not_recognized", .null)]

def assembleExec (es : ExecSettings) (executed : Nat) : Metrics := es.metrics ++ [("validation/num_queries", .nat executed)]

/-! ## The world -/

inductive Artifact where
  | db
  | loader
  | builder
  | query
deriving DecidableEq, Repr

/-- What each artifact on disk was built from. -/
abbrev Disk := Artifact → Option BuildInputs

/-- A child process: the binary it was started from and the loader it ingested with. -/
structure Proc where
  db : BuildInputs
  loader : Option BuildInputs

structure QueryResult where
  queryId : String
  reqId : String
  trace : String
  error : String
deriving DecidableEq, Repr

abbrev Table := String

structure Answer where
  resp : String
  out : String
  err : String
  queryResults : List QueryResult
  /-- The files of the run by request id; `none`: unreadable. -/
  written : Dict String (Option Table) := []
deriving DecidableEq, Repr

structure EngineCall where
  proc : Proc
  disk : Disk
  command : String
  memoryLimit : Option Nat
  policy : String
  argsList : List String
  timeoutS : Nat
  runEnv : List (String × String)

structure EngineRun where
  /-- `none`: `run` raised. -/
  answer : Option Answer
  /-- The child is there for the next call. -/
  alive : Bool

inductive System where
  | duckdb
  | umbra
deriving DecidableEq, Repr

inductive Comparison where
  | equal
  | differs (text : String)
  | raises
deriving DecidableEq, Repr

structure World where
  compile : Nat → BuildInputs → Option String
  /-- What a build that fails leaves on disk. -/
  wreck : Nat → BuildInputs → Disk → Disk
  engine : Nat → EngineCall → EngineRun
  /-- `lookup_or_execute_query_batch` for one entry; `none`: it raises. -/
  reference : System → HashEntry → ExecSettings → GeneralSystemConfig → Option Table
  compare : HashEntry → Table → Table → Comparison
  /-- `stage_subset_duckdb_to_shm`. -/
  stage : String → Option String
  buildId : Artifact → BuildInputs → Option String
  /-- `_symbolize_crash_backtrace`. -/
  symbolize : String → String
  /-- The hash of a commit of the tree on the parent. -/
  commit : Option String → Tree → String

structure Validator where
  allQueryIds : List String
  outputStdoutStderr : Bool := false
  useUmbra : Bool := false
  hasCacheDir : Bool := true
  doNotCache : Bool := false
  onlyFromCache : Bool := false
deriving DecidableEq, Repr

structure ValidationOutput where
  message : Message
  correct : Bool
  metrics : Metrics
  traceOutput : Option String := none
deriving DecidableEq

/-! ## `_validate_query` -/

/-- `sorted(set(ids))`. -/
def sortedIds (ids : List String) : List String := ids.dedup.mergeSort fun a b => decide (a ≤ b)

def BatchPayload.executedIds (b : BatchPayload) : List String := sortedIds (b.queryList.map HashEntry.queryId)

def formatPerQueryErrors (results : List QueryResult) : String :=
  match (results.filter fun r => r.error ≠ "").map fun r => "  - " ++ r.error with
  | [] => ""
  | lines => "Per-query errors:\n" ++ "\n".intercalate lines

def formatQueryTraces (results : List QueryResult) (items : List HashEntry) : String :=
  "\n".intercalate (((results.zip items).filter fun p => strip p.1.trace ≠ "").map
    fun p => "--- Query " ++ p.2.queryId ++ " ---\n" ++ p.1.trace)

namespace Validator

variable (W : World) (v : Validator)

/-- The id of the entry at the first result with an error. -/
def failedId (results : List QueryResult) (items : List HashEntry) : Option String :=
  ((results.zip items).find? fun p => p.1.error ≠ "").map fun p => p.2.queryId

/-- The loop over the entries: the first difference ends it. `none`: it raises. -/
def checkEntries : List (HashEntry × QueryResult) → List Table → Dict String (Option Table) →
    Option (Option (String × Bool × HashEntry))
  | (inst, rt) :: rest, reference :: references, written =>
    match written.get rt.reqId with
    | none => some (some ("Error: result_" ++ rt.reqId ++ ".arrow not found after executing command: None", true, inst))
    | some none => some (some ("Error: failed to read result Arrow result_" ++ rt.reqId ++ ".arrow", true, inst))
    | some (some table) => match W.compare inst table reference with
      | .equal => checkEntries rest references (written.erase rt.reqId)
      | .differs text => some (some (text, false, inst))
      | .raises => none
  | _, _, _ => some none

/-- The references of a batch; `none`: one of them fails. -/
def references (system : System) (b : BatchPayload) : Option (List Table) :=
  b.queryList.mapM fun e => W.reference system e b.execSettings b.generalSystemConfig

/-- `str.zfill(3)`. -/
def zfill3 (q : String) : String := String.ofList (List.replicate (3 - q.length) '0') ++ q

/-- The metrics of a batch whose results all match. -/
def successMetrics (b : BatchPayload) : Metrics :=
  let ids := b.executedIds
  b.execSettings.metrics ++
    [("validation/correct", .bool true), ("validation/error", .bool false), ("validation/total_duckdb_runtime_ms", .time),
      ("validation/total_bespoke_runtime_ms", .time),
      ("validation/total_umbra_runtime_ms", if v.useUmbra then .time else .null),
      ("validation/total_speedup", .time), ("validation/avg_speedup", .time), ("validation/num_queries", .nat ids.length),
      ("validation/num_successful_queries", .nat ids.length), ("validation/query_ids_executed", .texts ids)] ++
    (if ids.length = v.allQueryIds.length then
      [("validation/all_queries", .bool true), ("validation/all_queries_avg_speedup", .time),
        ("validation/all_queries_total_speedup", .time)]
    else []) ++
    ids.flatMap fun q =>
      [("validation/query_" ++ zfill3 q ++ "/duckdb_runtime_ms", .time),
        ("validation/query_" ++ zfill3 q ++ "/bespoke_runtime_ms", .time),
        ("validation/query_" ++ zfill3 q ++ "/umbra_runtime_ms", if v.useUmbra then .time else .null),
        ("validation/query_" ++ zfill3 q ++ "/speedup", .time)]

/-- `', '.join(f'Query {q}: {r:.2f}' …)` and the sum. -/
def runtimes (label : String) (ids : List String) : Message :=
  [.text label] ++ ((ids.map fun q => [Piece.text ("Query " ++ q ++ ": "), .time]).intersperse [.text ", "]).flatten ++
    [.text " - sum: ", .time, .text "\n"]

def successMessage (b : BatchPayload) (stdout stderr : String) (trace : Option String) : Message :=
  (if v.outputStdoutStderr then
    [.text ("STDOUT:\n" ++ stdout ++ "\n"), .text ("STDERR:\n" ++ stderr ++ "\n"),
      .text "BENCHMARK AND VALIDATION RESULTS:\n"]
  else []) ++
    [.text "All results match!\n"] ++ runtimes "DuckDB runtimes (ms): " b.executedIds ++
    runtimes "Your Implementation runtimes (ms): " b.executedIds ++
    (trace.map fun t => Piece.text ("Tracing output: \n" ++ t)).toList

/-- `check_output_correctness` with `stop_on_first_error` against these references; `none`: it raises. -/
def checkOutputCorrectness (refs : System → Option (List Table)) (b : BatchPayload) (a : Answer) (traceMode : Bool) :
    Option ValidationOutput :=
  let trace := if traceMode then some (formatQueryTraces a.queryResults b.queryList) else none
  match refs .duckdb with
  | none => none
  | some tables =>
    match if v.useUmbra then (refs .umbra).map fun _ => () else some () with
    | none => none
    | some () => match checkEntries W (b.queryList.zip a.queryResults) tables a.written with
      | none => none
      | some (some (text, exception, inst)) => some
          { message := [.text text]
            correct := false
            metrics := assembleError b.execSettings b.executedIds exception (some inst.queryId)
            traceOutput := trace }
      | some none => some
          { message := v.successMessage b a.out a.err trace
            correct := true
            metrics := v.successMetrics b
            traceOutput := trace }

def crashMessage (b : BatchPayload) (a : Answer) : Message :=
  [.text ("Error: the engine process crashed during query execution and returned no results. Requested queries: " ++
      ", ".intercalate (b.queryList.map fun e => "Q" ++ e.queryId)),
    .text (if a.resp = "" then "" else "\nResponse:\n" ++ a.resp),
    .text (if W.symbolize a.err = "" then "" else "\n\n" ++ W.symbolize a.err),
    .text ("\nSTDOUT:\n" ++ a.out), .text ("\nSTDERR:\n" ++ a.err)]

/-- `_validate_query`; `none`: it raises. -/
def validateQuery (refs : System → Option (List Table)) (b : BatchPayload) (a : Answer) (traceMode : Bool) :
    Option ValidationOutput :=
  let respBlock := if a.resp = "" then "" else "\nResponse:\n" ++ a.resp
  let errors := formatPerQueryErrors a.queryResults
  let failed (message : Message) (queryId : Option String) : ValidationOutput :=
    { message, correct := false, metrics := assembleError b.execSettings b.executedIds true queryId }
  if a.queryResults.length = 0 then some (failed (crashMessage W b a) none)
  else if a.queryResults.length ≠ b.queryList.length then
    match b.queryList[a.queryResults.length]? with
    | none => none
    | some crashed => some (failed
        [.text ("Error: unexpected number of query results. Got " ++ toString a.queryResults.length ++ " but expected " ++
          toString b.queryList.length ++ ". First missing slot: run #" ++ toString (a.queryResults.length + 1) ++ " (Q" ++
          crashed.queryId ++ ")." ++ respBlock ++ (if errors = "" then "" else "\n" ++ errors))] (some crashed.queryId))
  else if errors ≠ "" then
    some (failed [.text ("Error: one or more queries threw an exception." ++ respBlock ++ "\n" ++ errors)]
      (failedId a.queryResults b.queryList))
  else checkOutputCorrectness W v refs b a traceMode

/-- The outcome of a batch that was executed, against these references. -/
def outcomeAgainst (refs : System → Option (List Table)) (b : BatchPayload) (a : Answer) (traceMode skipValidate : Bool) :
    Option ValidationOutput :=
  let output := if skipValidate then
      some { message := [.text ("stdout: " ++ rstrip a.out ++ "\n"), .text ("stderr: " ++ rstrip a.err ++ "\n"), .text a.resp]
             correct := true
             metrics := assembleExec b.execSettings b.queryList.length }
    else validateQuery W v refs b a traceMode
  output.map fun o =>
    { o with
      message := o.message ++ [.text "DB ingest/build time (ms): ", .time, .text "\n"]
      metrics := o.metrics ++ [("validation/executed_queries", .nat b.queryList.length),
        ("validation/runtime_seconds", .time), ("validation/ingest_time_ms", .time),
        ("validation/skip_validate", .bool skipValidate)] }

/-- The outcome of a batch that was executed. -/
def outcome (b : BatchPayload) (a : Answer) (traceMode skipValidate : Bool) : Option ValidationOutput :=
  outcomeAgainst W v (references W · b) b a traceMode skipValidate

end Validator

end SynnoDB.Tools
