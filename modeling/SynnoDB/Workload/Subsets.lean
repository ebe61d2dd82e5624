import SynnoDB.Lib.Dict
import Mathlib.Algebra.Order.Ring.Rat

/-!
# The managed subsets of a DuckDB workload (`byo_workload.py:597-1060`, `workload_provider_olap.py:205-250`)

| here | there |
| --- | --- |
| `Scaler`          | **what DuckDB and `ReferentialDownscaler` do with a database** |
| `Root`            | `managed_root`: snapshot, manifest and the directories `fraction<f>` by fraction; `outside` the files of static sources |
| `Root.frozen`, `Root.built` | what the last resync froze, and what each directory was last built from; the code keeps neither |
| `FrozenSource`    | `frozen_source_path` |
| `DatasetVersion`  | what `_duckdb_dataset_version` hashes; two payloads with one hash are one payload |
| `Source.live`     | a live connection: what the probe reads, and what it holds when it is snapshotted |

`none`: an exception; the root keeps what was done before it. Fractions are the rationals that the floats stand for.
-/

namespace SynnoDB.Workload

inductive ServeFrom where
  | duckdb
  | parquet
deriving DecidableEq, Repr

abbrev Relationship := String × String × List (String × String)

structure Scaler (Data : Type) where
  tables : Data → List String
  rowCounts : Data → List (String × Nat)
  /-- `build_join_relationships` with `sql_by_id` and the explicit pairs; `none`: it raises. -/
  relationships : Data → List (String × String) → List (String × String) → Option (List Relationship)
  /-- The subset of a fraction below 1, for a threshold and a version of DuckDB; `none`: it raises. -/
  sample : Data → List Relationship → Nat → String → Rat → Option Data

inductive FrozenSource where
  | snapshot
  | path (p : String)
deriving DecidableEq, Repr

inductive Source (Data : Type) where
  | live (probed frozen : Data)
  | static (path : String)

structure DatasetVersion where
  tables : List (String × Nat)
  relationships : List Relationship
  subsets : List Rat
  wholeTableThreshold : Nat
  serveFrom : ServeFrom
  duckdb : String
deriving DecidableEq

inductive Subset (Data : Type) where
  | link (source : FrozenSource)
  | duckdb (data : Data)
  | parquet (data : Data)

structure SampleParams where
  relationships : List Relationship
  wholeTableThreshold : Nat
  duckdb : String

/-- What a directory is built from; without parameters it is the whole source. -/
structure Origin (Data : Type) where
  data : Data
  params : Option SampleParams

structure Root (Data : Type) where
  outside : Dict String Data
  snapshot : Option Data := none
  manifest : Option DatasetVersion := none
  subsets : Dict Rat (Subset Data) := []
  frozen : Option Data := none
  built : Dict (Rat × ServeFrom) (Origin Data) := []

structure RegisterArgs (Data : Type) where
  sqlById : List (String × String)
  downscaleFractions : List Rat
  joinRelationships : List (String × String) := []
  tables : List String := []
  wholeTableThreshold : Nat := 10000
  serveFrom : ServeFrom := .duckdb
  source : Source Data
  alwaysResample : Bool := false
  duckdb : String

/-- A `WorkloadSpec` with its `DuckDBSubsetSource`. -/
structure WorkloadSpec where
  tables : List String
  subsets : List Rat
  datasetVersion : DatasetVersion
  serveFrom : ServeFrom
  frozenSource : FrozenSource
  sqlById : List (String × String)
  joinRelationships : List (String × String)
  wholeTableThreshold : Nat
  duckdb : String
deriving DecidableEq

section
variable {Data : Type} (M : Scaler Data)

/-- `tuple(sorted(set(fractions)))`. -/
def sortedFractions (fs : List Rat) : List Rat := fs.dedup.mergeSort fun a b => decide (a ≤ b)

namespace Origin

/-- The data of a directory with this origin. -/
def content (o : Origin Data) (fraction : Rat) : Option Data :=
  match o.params with
  | none => some o.data
  | some p => M.sample o.data p.relationships p.wholeTableThreshold p.duckdb fraction

end Origin

namespace Subset

def serveFrom : Subset Data → ServeFrom
  | .link _ | .duckdb _ => .duckdb
  | .parquet _ => .parquet

end Subset

namespace Root

variable (r : Root Data)

def file : FrozenSource → Option Data
  | .snapshot => r.snapshot
  | .path p => r.outside.get p

/-- What the directory holds in this representation. -/
def held (fraction : Rat) (serveFrom : ServeFrom) : Option Data :=
  match r.subsets.get fraction, serveFrom with
  | some (.link source), .duckdb => r.file source
  | some (.duckdb d), .duckdb => some d
  | some (.parquet d), .parquet => some d
  | _, _ => none

/-- All of `_subset_artifacts`, or of `subset_files`, exist. -/
def hasArtifacts (fraction : Rat) (serveFrom : ServeFrom) (tables : List String) : Bool :=
  match r.held fraction serveFrom with
  | none => false
  | some d => serveFrom == .duckdb || tables.all (· ∈ M.tables d)

/-- `_benchmark_is_current`. -/
def benchmarkIsCurrent (version : DatasetVersion) (serveFrom : ServeFrom) (tables : List String) : Bool :=
  r.manifest == some version && r.hasArtifacts M 1 serveFrom tables

end Root

/-! ## Registration -/

namespace RegisterArgs

variable (a : RegisterArgs Data)

def frozenSource : FrozenSource :=
  match a.source with
  | .live _ _ => .snapshot
  | .static p => .path p

/-- What the probe reads. -/
def probed (r : Root Data) : Option Data :=
  match a.source with
  | .live d _ => some d
  | .static p => r.outside.get p

/-- The source as it is frozen. -/
def toFreeze (r : Root Data) : Option Data :=
  match a.source with
  | .live _ d => some d
  | .static p => r.outside.get p

def version (d : Data) (relationships : List Relationship) : DatasetVersion where
  tables := M.rowCounts d
  relationships := relationships
  subsets := sortedFractions a.downscaleFractions
  wholeTableThreshold := a.wholeTableThreshold
  serveFrom := a.serveFrom
  duckdb := a.duckdb

/-- `tables or list(schema.tables)`. -/
def resolvedTables (d : Data) : List String := if a.tables = [] then M.tables d else a.tables

def spec (d : Data) (relationships : List Relationship) : WorkloadSpec where
  tables := a.resolvedTables M d
  subsets := sortedFractions a.downscaleFractions
  datasetVersion := a.version M d relationships
  serveFrom := a.serveFrom
  frozenSource := a.frozenSource
  sqlById := a.sqlById
  joinRelationships := a.joinRelationships
  wholeTableThreshold := a.wholeTableThreshold
  duckdb := a.duckdb

/-- `reused`. -/
def reuses (d : Data) (relationships : List Relationship) (r : Root Data) : Bool :=
  !a.alwaysResample && r.benchmarkIsCurrent M (a.version M d relationships) a.serveFrom (a.resolvedTables M d) &&
    match a.source with
    | .live _ _ => r.snapshot.isSome
    | .static _ => true

/-- `snapshot_source_database`; a static source is read in place. -/
def freeze (r : Root Data) : Root Data :=
  match a.source with
  | .live _ d => { r with snapshot := some d }
  | .static _ => r

/-- The symlink to the frozen source, or the files of all tables. -/
def benchmarkSubset (d : Data) : Subset Data :=
  match a.serveFrom with
  | .duckdb => .link a.frozenSource
  | .parquet => .parquet d

/-- Freezing, `_clear_managed_subsets` and the benchmark subset. -/
def resync (r : Root Data) : Option WorkloadSpec × Root Data :=
  let r := a.freeze r
  match r.file a.frozenSource with
  | none => (none, r)
  | some d => match M.relationships d a.sqlById a.joinRelationships with
    | none => (none, r)
    | some relationships =>
      (some (a.spec M d relationships),
        { r with
          subsets := [(1, a.benchmarkSubset d)]
          manifest := some (a.version M d relationships)
          frozen := some d
          built := r.built.set (1, a.serveFrom) { data := d, params := none } })

/-- `register_workload_from_duckdb`: the spec, whether it came to a resync, and the root. With a run in flight
`reset_warm_runtime` raises. -/
def register (inFlight : Bool) (r : Root Data) : Option WorkloadSpec × Bool × Root Data :=
  if a.downscaleFractions.any fun f => !decide (0 < f ∧ f < 1) then (none, false, r)
  else match a.probed r with
    | none => (none, false, r)
    | some d => match M.relationships d a.sqlById a.joinRelationships with
      | none => (none, false, r)
      | some relationships =>
        if a.reuses M d relationships r then (some (a.spec M d relationships), false, r)
        else if inFlight then (none, false, r)
        else
          let (spec, r) := a.resync M r
          (spec, true, r)

end RegisterArgs

/-! ## `prepare` -/

namespace WorkloadSpec

variable (spec : WorkloadSpec)

/-- The fractions below 1 of `_candidate_sfs`, for a provider with this `benchmark_sf`. -/
def candidates (benchmarkSf : Rat) : List Rat := sortedFractions ((benchmarkSf :: spec.subsets).filter (· < 1))

/-- What `prepare` builds: all of it when the manifest has another version. -/
def missing (benchmarkSf : Rat) (r : Root Data) : List Rat :=
  (spec.candidates benchmarkSf).filter fun f =>
    r.manifest != some spec.datasetVersion || !r.hasArtifacts M f spec.serveFrom spec.tables

def sampleParams (relationships : List Relationship) : SampleParams where
  relationships := relationships
  wholeTableThreshold := spec.wholeTableThreshold
  duckdb := spec.duckdb

/-- What `prepare` builds from. -/
def origin (r : Root Data) : Option (Origin Data) :=
  (r.file spec.frozenSource).bind fun d => (M.relationships d spec.sqlById spec.joinRelationships).map fun relationships =>
    { data := d, params := some (spec.sampleParams relationships) }

/-- The loop of `materialize_duckdb_subsets`; whether it came to its end. -/
def materialize (o : Origin Data) : List Rat → Root Data → Bool × Root Data
  | [], r => (true, r)
  | f :: fs, r => match o.content M f with
    | none => (false, { r with subsets := r.subsets.erase f })
    | some d => materialize o fs
        { r with
          subsets := r.subsets.set f (match spec.serveFrom with | .duckdb => .duckdb d | .parquet => .parquet d)
          built := r.built.set (f, spec.serveFrom) o }

/-- `OLAPWorkloadProvider.prepare`. -/
def prepare (benchmarkSf : Rat) (r : Root Data) : Bool × Root Data :=
  match spec.missing M benchmarkSf r with
  | [] => (true, r)
  | missing => match spec.origin M r with
    | none => (false, r)
    | some o => spec.materialize M o missing r

end WorkloadSpec

end

variable {Data : Type} {M : Scaler Data} {a : RegisterArgs Data} {r : Root Data}

/-! ## What a registration and `prepare` do -/

@[simp] theorem freeze_subsets : (a.freeze r).subsets = r.subsets := by unfold RegisterArgs.freeze; split <;> rfl

@[simp] theorem freeze_built : (a.freeze r).built = r.built := by unfold RegisterArgs.freeze; split <;> rfl

@[simp] theorem freeze_frozen : (a.freeze r).frozen = r.frozen := by unfold RegisterArgs.freeze; split <;> rfl

theorem file_freeze : (a.freeze r).file a.frozenSource = a.toFreeze r := by
  unfold RegisterArgs.freeze RegisterArgs.frozenSource RegisterArgs.toFreeze
  cases a.source <;> rfl

/-- A resync freezes the source and, unless that raises, leaves `fraction1` alone. -/
theorem resync_cases : (a.resync M r).2 = a.freeze r ∨ ∃ d version, a.toFreeze r = some d ∧
    (a.resync M r).2 = { a.freeze r with
      subsets := [(1, a.benchmarkSubset d)]
      manifest := some version
      frozen := some d
      built := r.built.set (1, a.serveFrom) { data := d, params := none } } := by
  unfold RegisterArgs.resync
  dsimp only
  rw [file_freeze]
  split
  · exact Or.inl rfl
  · rename_i d hd
    split
    · exact Or.inl rfl
    · exact Or.inr ⟨d, _, hd, by rw [freeze_built]⟩

/-- A registration keeps the root, or it comes to a resync. -/
theorem register_cases {inFlight : Bool} : (a.register M inFlight r).2 = (false, r) ∨
    ∃ d relationships, a.probed r = some d ∧ M.relationships d a.sqlById a.joinRelationships = some relationships ∧
      a.reuses M d relationships r = false ∧ (a.register M inFlight r).2 = (true, (a.resync M r).2) := by
  unfold RegisterArgs.register
  split
  · exact Or.inl rfl
  · split
    · exact Or.inl rfl
    · rename_i d hd
      split
      · exact Or.inl rfl
      · rename_i relationships hrel
        split
        · exact Or.inl rfl
        · rename_i hreuse
          split
          · exact Or.inl rfl
          · exact Or.inr ⟨d, relationships, hd, hrel, by simpa using hreuse, rfl⟩

/-- `prepare` keeps the root, or it builds what is missing from one origin. -/
theorem prepare_cases {spec : WorkloadSpec} {benchmarkSf : Rat} : (spec.prepare M benchmarkSf r).2 = r ∨
    ∃ o, spec.origin M r = some o ∧
      spec.prepare M benchmarkSf r = spec.materialize M o (spec.missing M benchmarkSf r) r := by
  unfold WorkloadSpec.prepare
  split
  · exact Or.inl rfl
  · split
    · exact Or.inl rfl
    · rename_i o ho
      exact Or.inr ⟨o, ho, rfl⟩

theorem origin_some {spec : WorkloadSpec} {o : Origin Data} (h : spec.origin M r = some o) :
    r.file spec.frozenSource = some o.data ∧ ∃ params, o = { data := o.data, params := some params } := by
  unfold WorkloadSpec.origin at h
  obtain ⟨d, hd, hrel⟩ := Option.bind_eq_some_iff.1 h
  obtain ⟨relationships, -, rfl⟩ := Option.map_eq_some_iff.1 hrel
  exact ⟨hd, _, rfl⟩

end SynnoDB.Workload
