import SynnoDB.Lib.Dict
import Mathlib.Algebra.Order.Ring.Rat

/-!
# Query batches (`workloads/workload_provider.py:52-150`, `workloads/workload_provider_olap.py:289-474`)

| here | there |
| --- | --- |
| `QueryBatch`, `QueryEntry`, `ExecSettings` | the dataclasses of the same names; a `dict` is the list of its items, by key |
| `BatchPayload`   | `_query_batch_cache_payload` (`query_validator_class.py:152-164`) |
| `Provider`       | `OLAPWorkloadProvider` and the spec it reads |
| `gen`            | **the generator of the workload package**: `none` when it raises |
| `subsetDir`      | `find_sf_dir` after `prepare()`; `subsetBytes` the size of the files there |
| `storageDir`     | `bespoke_ssd_storage_dir / f"sf{scale_factor}"` |

Scale factors are the rationals that the floats stand for. The state of `random.Random` is a number. Creating the
storage directories and the texts of the errors are left out.
-/

namespace SynnoDB.Tools

inductive RunToolMode where
  | fastCheck
  | exhaustive
  | benchmark
  | ingest
deriving DecidableEq, Repr

inductive DataSource where
  | flat
  | bespoke
  | parquet
  | duckdb
deriving DecidableEq, Repr

inductive DbStorage where
  | inMemory
  | ssd
  | labstore
deriving DecidableEq, Repr

/-- `OLAPExecSettings`. -/
structure ExecSettings where
  scaleFactor : Rat
  dbStorage : DbStorage
  parquetDir : String
  diskDbDir : Option String
  dataSource : DataSource
deriving DecidableEq

abbrev Placeholders := List (String × String)

structure QueryEntry where
  benchmark : String
  queryId : String
  sql : String
  queryArgs : String
  placeholders : Placeholders
  orderByInfo : List (String × String)
  repIndex : Nat := 0
  numReps : Nat := 1
deriving DecidableEq

structure GeneralSystemConfig where
  memoryLimitMb : Option Nat
  numThreads : Nat
  coreIds : Option (List Nat)
deriving DecidableEq

structure QueryBatch where
  queryList : List QueryEntry
  benchmark : String
  execSettings : ExecSettings
  cliCallArgs : String
  generalSystemConfig : GeneralSystemConfig
  timeoutS : Nat
  extraEnv : List (String × String)
deriving DecidableEq

/-! ## What of a batch is hashed -/

structure HashEntry where
  benchmark : String
  queryId : String
  sql : String
  placeholders : Placeholders
  orderByInfo : List (String × String)
deriving DecidableEq

/-- `hash_entries`: neither the repetition nor `query_args`, which holds the request id. -/
def QueryEntry.hashEntries (e : QueryEntry) : HashEntry where
  benchmark := e.benchmark
  queryId := e.queryId
  sql := e.sql
  placeholders := e.placeholders
  orderByInfo := e.orderByInfo

structure BatchPayload where
  queryList : List HashEntry
  benchmark : String
  execSettings : ExecSettings
  cliCallArgs : String
  generalSystemConfig : GeneralSystemConfig
  timeoutS : Nat
  extraEnv : List (String × String)
deriving DecidableEq

/-- `_query_batch_cache_payload`. -/
def QueryBatch.payload (b : QueryBatch) : BatchPayload where
  queryList := b.queryList.map QueryEntry.hashEntries
  benchmark := b.benchmark
  execSettings := b.execSettings
  cliCallArgs := b.cliCallArgs
  generalSystemConfig := b.generalSystemConfig
  timeoutS := b.timeoutS
  extraEnv := b.extraEnv

@[simp] theorem QueryBatch.length_payload (b : QueryBatch) : b.payload.queryList.length = b.queryList.length :=
  List.length_map _

theorem QueryBatch.getElem_payload (b : QueryBatch) {i : Nat} (h : i < b.queryList.length)
    (h' : i < b.payload.queryList.length) : b.payload.queryList[i] = b.queryList[i].hashEntries :=
  List.getElem_map _

/-! ## Producing a workload -/

structure Provider where
  benchmark : String
  queryIds : List String
  fastCheckSfs : List Rat
  exhaustiveSfs : List Rat
  ingestSfs : List Rat
  ingestInstantiations : Nat := 3
  serveFromDuckdb : Bool
  benchmarkSf : Rat
  numInstantiations : Nat := 10
  benchmarkInstantiations : Nat := 1
  benchmarkRepetitions : Nat := 3
  dbStorage : DbStorage := .inMemory
  memoryLimitMb : Option Nat := none
  gen : String → Nat → Option (String × Placeholders × Nat)
  seed : Nat
  orderBy : String → List (String × String)
  argsElement : String → Placeholders → Nat → String
  subsetDir : Rat → Option String
  subsetBytes : String → Nat
  storageDir : Rat → String

namespace Provider

variable (p : Provider)

/-- At most `n` draws, until one gives a statement this batch does not have yet. -/
def attempt (name : String) (sqlSet : List String) : Nat → Nat → Option (Option (String × Placeholders) × Nat)
  | 0, rnd => some (none, rnd)
  | n + 1, rnd => match p.gen name rnd with
    | none => none
    | some (sql, placeholders, rnd) =>
      if sql ∈ sqlSet then attempt name sqlSet n rnd else some (some (sql, placeholders), rnd)

def entry (queryId sql : String) (placeholders : Placeholders) (repetitions rep : Nat) : QueryEntry where
  benchmark := p.benchmark
  queryId := queryId
  sql := sql
  queryArgs := p.argsElement queryId placeholders rep
  placeholders := placeholders
  orderByInfo := p.orderBy sql
  repIndex := rep
  numReps := repetitions

/-- The loop over the instantiations and the queries; a query whose draws are used up is skipped. -/
def queryList (repetitions : Nat) : List String → List String → Nat → Option (List QueryEntry × Nat)
  | [], _, rnd => some ([], rnd)
  | queryId :: ids, sqlSet, rnd =>
    match p.attempt ("Q" ++ queryId) sqlSet 100 rnd with
    | none => none
    | some (none, rnd) => queryList repetitions ids sqlSet rnd
    | some (some (sql, placeholders), rnd) =>
      match queryList repetitions ids (sql :: sqlSet) rnd with
      | none => none
      | some (rest, rnd) =>
        some ((List.range repetitions).map (p.entry queryId sql placeholders repetitions) ++ rest, rnd)

def persistent : Bool := p.dbStorage != .inMemory

/-- The variables of a batch on a persistent medium. -/
def extraEnv (scaleFactor : Rat) : List (String × String) :=
  if p.persistent then
    [("STORAGE_DIR", p.storageDir scaleFactor ++ "/")] ++
      (p.memoryLimitMb.map fun mb => ("BUFFER_POOL_MB", toString (mb * 60 / 100))).toList
  else []

def dataSource : DataSource :=
  if p.persistent then .bespoke else if p.serveFromDuckdb then .duckdb else .flat

/-- `approx_timeout_for_validation`. -/
def approxTimeout (scaleFactor : Rat) (executions bytes : Nat) : Nat :=
  let volume := max scaleFactor (bytes / 1000000000)
  let timeout := min (max (volume * executions * 2) 120) 1200
  (((timeout + 59) / 60).floor * 60).toNat

def batch (scaleFactor : Rat) (subset : String) (threads : Nat) (cores : Option (List Nat))
    (queryList : List QueryEntry) : QueryBatch where
  queryList := queryList
  benchmark := p.benchmark
  execSettings :=
    { scaleFactor := scaleFactor
      dbStorage := p.dbStorage
      parquetDir := subset ++ "/"
      diskDbDir := if p.persistent then some (p.storageDir scaleFactor) else none
      dataSource := p.dataSource }
  cliCallArgs := subset ++ "/"
  generalSystemConfig := { memoryLimitMb := p.memoryLimitMb, numThreads := threads, coreIds := cores }
  timeoutS := approxTimeout scaleFactor queryList.length (p.subsetBytes subset)
  extraEnv := p.extraEnv scaleFactor

/-- The loop over the scale factors; one generator state goes through all of them. -/
def batches (threads : Nat) (cores : Option (List Nat)) (repetitions : Nat) (ids : List String) :
    List Rat → Nat → Option (List QueryBatch)
  | [], _ => some []
  | sf :: sfs, rnd =>
    if p.persistent && p.serveFromDuckdb then none
    else match p.subsetDir sf with
      | none => none
      | some subset => match p.queryList repetitions ids [] rnd with
        | none => none
        | some (entries, rnd) =>
          (batches threads cores repetitions ids sfs rnd).map (p.batch sf subset threads cores entries :: ·)

/-- The scale factors of a mode; `exhaustive` ends with the one of the benchmark, and raises on an empty ladder. -/
def scaleFactors : RunToolMode → Option (List Rat)
  | .fastCheck => some p.fastCheckSfs
  | .exhaustive => p.exhaustiveSfs.getLast?.map fun last =>
    if last = p.benchmarkSf then p.exhaustiveSfs else p.exhaustiveSfs ++ [p.benchmarkSf]
  | .benchmark => some [p.benchmarkSf]
  | .ingest => some p.ingestSfs

def instantiations : RunToolMode → Nat
  | .fastCheck | .exhaustive => p.numInstantiations
  | .benchmark => p.benchmarkInstantiations
  | .ingest => p.ingestInstantiations

def repetitions : RunToolMode → Nat
  | .benchmark => p.benchmarkRepetitions
  | _ => 1

/-- `produce_workload`; `none`: it raises. -/
def produceWorkload (mode : RunToolMode) (ids : Option (List String)) (threads : Nat) (cores : Option (List Nat)) :
    Option (List QueryBatch) :=
  let queries := match ids with
    | none | some [] => p.queryIds
    | some ids => ids
  (p.scaleFactors mode).bind fun sfs =>
    p.batches threads cores (p.repetitions mode) (List.replicate (p.instantiations mode) queries).flatten sfs p.seed

end Provider

end SynnoDB.Tools
