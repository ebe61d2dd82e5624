import SynnoDB.Compat.Handles

/-!
# Discovery of published engines (`duckdb_compat/discovery.py`, `router/manifest.py:313-389`)

| here | there |
| --- | --- |
| `Relation`, `Tables`   | what `SELECT *` of a table or view of the connection returns; keys in lower case |
| `ParquetDir`           | the snapshot a manifest names: does the path escape the package, and which `<t>.parquet` are there |
| `Engine`               | a `ProcessEngine` or a `ShmHotLoadEngine`: the package it was built for and the rows it will load |
| `Sql`                  | `normalize_sql`, `tables_in`, `describe_output`, `_unsupported_output_reasons`, `schema_fingerprint` |
| `Ingest`               | how `engine.ingest` ends: staged, refused for lack of shared memory, failed otherwise |
| `Session`              | what the handles of one router share: registry, tables, the engines ever built, those closed |

`visit` is one round of the loop of `discover_engines`; its answer is `none` when an exception leaves the
loop. The recorded key is the pair of directory name and engine id. One schema is modelled; thread counts and
log messages are left out.
-/

namespace SynnoDB.Compat

open SynnoDB.Router

variable {ρ : Type}

structure Relation (ρ : Type) where
  columns : List ColumnSpec
  rows : ρ

abbrev Tables (ρ : Type) := Dict String (Relation ρ)

structure ParquetDir (ρ : Type) where
  escapes : Bool := false
  /-- `none`: the directory does not exist. -/
  files : Option (Dict String (Relation ρ))

structure QueryTemplate where
  queryId : String
  sqlTemplate : String
  placeholders : List PlaceholderSpec := []
deriving DecidableEq, Repr

structure EngineManifest (ρ : Type) where
  engineId : String
  queries : List QueryTemplate
  expectedTables : Dict String (List ColumnSpec) := []
  parquetDir : Option (ParquetDir ρ) := none
  shmCapable : Bool := false

/-- The engines directory: every subdirectory, with its manifest if it has a readable one. -/
abbrev EnginesDir (ρ : Type) := Dict String (Option (EngineManifest ρ))

inductive Plane where
  | process | shm
deriving DecidableEq, Repr

structure Engine (ρ : Type) where
  plane : Plane
  /-- The package: its directory, and what it held when the engine was built. -/
  workspace : String
  manifest : EngineManifest ρ
  data : Dict String (Relation ρ)

inductive ScanError where
  | unsupported | synno | other
deriving DecidableEq, Repr

inductive Ingest where
  | staged | tooSmall | fails
deriving DecidableEq, Repr

structure Sql (ρ : Type) where
  normalize : String → Option String
  tablesIn : String → List String
  describeOutput : Tables ρ → QueryTemplate → Except ScanError (List ColumnSpec)
  unsupported : List ColumnSpec → Bool
  fingerprint : Tables ρ → List String → Except ScanError String

structure Session (ρ : Type) where
  registry : TemplateRegistry := {}
  tables : Tables ρ := []
  engines : List (Engine ρ) := []
  closed : List Nat := []

abbrev Key := String × String

instance : LawfulBEq Key := inferInstance

/-! ## Checks -/

/-- `_norm_type`. -/
def normType (t : String) : String := String.ofList (t.toUpper.toList.filter fun c => !c.isWhitespace)

def normColumns (cols : List ColumnSpec) : List (String × String) := cols.map fun c => (c.name.toLower, normType c.type)

/-- `check_compatibility`; the lookup is by lower-case name. -/
def checkCompatibility (tables : Tables ρ) (m : EngineManifest ρ) : List String :=
  m.expectedTables.filterMap fun (table, expected) =>
    match tables.get table.toLower with
    | none => some (table ++ ": missing from the database")
    | some rel =>
      if rel.columns = [] then some (table ++ ": missing from the database")
      else if normColumns rel.columns ≠ normColumns expected then some (table ++ ": schema differs from engine build")
      else none

/-- `_engine_tables`. -/
def engineTables (sql : Sql ρ) (m : EngineManifest ρ) : List String :=
  if m.expectedTables ≠ [] then m.expectedTables.map Prod.fst
  else (m.queries.flatMap fun q => sql.tablesIn q.sqlTemplate).eraseDups.mergeSort fun a b => !(b < a)

/-- `_tables_present` for one table. -/
def present (tables : Tables ρ) (t : String) : Bool := (tables.get t.toLower).isSome

/-- `_shm_schema_ok`. -/
def shmSchemaOk (tables : Tables ρ) (m : EngineManifest ρ) : Bool :=
  m.expectedTables ≠ [] && checkCompatibility tables m = []

/-- `_aligned_arrow`. -/
def alignedArrow (tables : Tables ρ) (ts : List String) : Dict String (Relation ρ) :=
  ts.filterMap fun t => (tables.get t.toLower).map fun rel => (t, rel)

def mountView (files : Dict String (Relation ρ)) (tables : Tables ρ) (t : String) : Tables ρ :=
  match files.get t with
  | some rel => tables.set t.toLower rel
  | none => tables

/-- `_mount_snapshot_views`. -/
def mountSnapshotViews (tables : Tables ρ) (ts : List String) (files : Dict String (Relation ρ)) : Tables ρ :=
  ts.foldl (mountView files) tables

/-! ## Registration -/

def makeBinding (sql : Sql ρ) (tables : Tables ρ) (engineId : String) (q : QueryTemplate) (engine : Nat) :
    Except ScanError EngineBinding :=
  match sql.normalize q.sqlTemplate with
  | none => .error .other
  | some normalizedSql => match sql.describeOutput tables q with
    | .error e => .error e
    | .ok outputSchema =>
      if sql.unsupported outputSchema then .error .unsupported
      else match sql.fingerprint tables (sql.tablesIn q.sqlTemplate) with
        | .error e => .error e
        | .ok schemaFingerprint => .ok
          { templateId := engineId ++ "::" ++ q.queryId, normalizedSql, queryId := q.queryId, engineId
            placeholders := q.placeholders, outputSchema, tables := sql.tablesIn q.sqlTemplate, schemaFingerprint
            engine := some engine, templateSql := some q.sqlTemplate }

/-- The loop of `register_manifest`: what was registered before an exception stays. -/
def registerQueries (sql : Sql ρ) (tables : Tables ρ) (engineId : String) (engine : Nat) :
    List QueryTemplate → TemplateRegistry → TemplateRegistry × Option ScanError
  | [], r => (r, none)
  | q :: qs, r => match makeBinding sql tables engineId q engine with
    | .error e => (r, some e)
    | .ok b => registerQueries sql tables engineId engine qs ((r.register b).clearDirty (some b.tables))

def registerManifest (sql : Sql ρ) (s : Session ρ) (m : EngineManifest ρ) (engine : Nat) :
    Session ρ × Option ScanError :=
  if m.expectedTables ≠ [] ∧ checkCompatibility s.tables m ≠ [] then (s, some .synno)
  else
    let (registry, e) := registerQueries sql s.tables m.engineId engine m.queries s.registry
    ({ s with registry }, e)

/-! ## Binding -/

namespace Session

variable (s : Session ρ)

def build (e : Engine ρ) : Session ρ := { s with engines := s.engines ++ [e] }

/-- `_close_quietly`. -/
def closeQuietly (e : Nat) : Session ρ := { s with closed := e :: s.closed }

end Session

/-- The tables after the mounting, where it is asked for and the snapshot is there. -/
def withViews (mount : Bool) (tables : Tables ρ) (dir : ParquetDir ρ) (ts : List String) : Tables ρ :=
  match mount, dir.files with
  | true, some files => mountSnapshotViews tables (ts.filter fun t => !present tables t) files
  | _, _ => tables

/-- The parquet plane of `_bind_engine`. -/
def bindParquet (mount : Bool) (s : Session ρ) (name : String) (m : EngineManifest ρ) (tables : List String) :
    Session ρ × Except ScanError (Option Nat) :=
  match m.parquetDir with
  | none => (s, .ok none)
  | some dir =>
    if mount && dir.escapes then (s, .error .synno)
    else
      let s := { s with tables := withViews mount s.tables dir tables }
      if !tables.all (present s.tables) then (s, .ok none)
      else if dir.escapes then (s, .error .synno)
      else (s.build ⟨.process, name, m, dir.files.getD []⟩, .ok (some s.engines.length))

def bindEngine (sql : Sql ρ) (mount : Bool) (ingest : Ingest) (s : Session ρ) (name : String) (m : EngineManifest ρ) :
    Session ρ × Except ScanError (Option Nat) :=
  let tables := engineTables sql m
  if m.shmCapable && tables.all (present s.tables) && shmSchemaOk s.tables m then
    let e := s.engines.length
    match ingest with
    | .staged => (s.build ⟨.shm, name, m, alignedArrow s.tables tables⟩, .ok (some e))
    | .fails => (s.build ⟨.shm, name, m, []⟩, .error .other)
    | .tooSmall =>
      let s := (s.build ⟨.shm, name, m, []⟩).closeQuietly e
      if m.parquetDir.isNone then (s, .error .synno) else bindParquet mount s name m tables
  else bindParquet mount s name m tables

/-- The engine bound for this package, if any. -/
def currentEngine (s : Session ρ) (name : String) (m : EngineManifest ρ) : Option Nat :=
  (TemplateRegistry.bindings s.registry).findSome? fun b =>
    if b.engineId = m.engineId then
      b.engine.filter fun e => (s.engines[e]?).any fun eng => eng.workspace = name
    else none

/-- What a promotion would replace: an engine on the parquet plane, when the live tables fit. -/
def promotable (sql : Sql ρ) (s : Session ρ) (name : String) (m : EngineManifest ρ) : Option Nat :=
  if m.shmCapable then
    (currentEngine s name m).filter fun c =>
      !((s.engines[c]?).any fun eng => eng.plane = .shm) &&
        ((engineTables sql m).all (present s.tables) && shmSchemaOk s.tables m)
  else none

/-- `_promote_to_shm`; `none`: `ingest` raises, outside any `try`. -/
def promoteToShm (sql : Sql ρ) (ingest : Ingest) (s : Session ρ) (name : String) (m : EngineManifest ρ) :
    Session ρ × Option Bool :=
  match promotable sql s name m with
  | none => (s, some false)
  | some current =>
    let e := s.engines.length
    match ingest with
    | .tooSmall | .fails => (s.build ⟨.shm, name, m, []⟩, none)
    | .staged =>
      let s := s.build ⟨.shm, name, m, alignedArrow s.tables (engineTables sql m)⟩
      match registerManifest sql s m e with
      | (s, some _) => (s.closeQuietly e, some false)
      | (s, none) => (s.closeQuietly current, some true)

/-! ## The scan -/

/-- How the handlers of the loop end: refusals are recorded, what may pass later is not. -/
def afterError (registered : List Key) (key : Key) : ScanError → List Key
  | .unsupported | .synno => key :: registered
  | .other => registered

def visit (sql : Sql ρ) (mount : Bool) (ingest : Ingest) (s : Session ρ) (registered : List Key) (name : String)
    (m : EngineManifest ρ) : Session ρ × Option (List Key) :=
  let key := (name, m.engineId)
  if key ∈ registered then
    let (s, r) := promoteToShm sql ingest s name m
    (s, r.map fun _ => registered)
  else match bindEngine sql mount ingest s name m with
    | (s, .error e) => (s, some (afterError registered key e))
    | (s, .ok none) => (s, some registered)
    | (s, .ok (some e)) => match registerManifest sql s m e with
      | (s, some err) => (s.closeQuietly e, some (afterError registered key err))
      | (s, none) => (s, some (key :: registered))

def scanLoop (sql : Sql ρ) (mount : Bool) (ingest : String → Ingest) :
    List (String × EngineManifest ρ) → Session ρ → List Key → Session ρ × Option (List Key)
  | [], s, registered => (s, some registered)
  | (name, m) :: rest, s, registered => match visit sql mount (ingest name) s registered name m with
    | (s, none) => (s, none)
    | (s, some registered) => scanLoop sql mount ingest rest s registered

/-- The packages a scan looks at, in order. -/
def packages (dir : EnginesDir ρ) : List (String × EngineManifest ρ) :=
  ((dir.filter fun p => !(p.1.startsWith ".")).mergeSort fun p q => !(q.1 < p.1)).filterMap fun p =>
    p.2.map fun m => (p.1, m)

/-- `discover_engines`; `none`: an exception escapes, and nothing of the scan is recorded. -/
def discoverEngines (sql : Sql ρ) (mount : Bool) (ingest : String → Ingest) (s : Session ρ) (dir : EnginesDir ρ)
    (registered : List Key) : Session ρ × Option (List Key) :=
  scanLoop sql mount ingest (packages dir) s registered

/-! ## What registration changes -/

/-- The templates of a package. -/
def templates (sql : Sql ρ) (qs : List QueryTemplate) : List String := qs.filterMap fun q => sql.normalize q.sqlTemplate

variable {sql : Sql ρ} {tables : Tables ρ} {engineId : String} {engine : Nat} {r r' : TemplateRegistry}
  {qs : List QueryTemplate} {err : Option ScanError}

theorem templates_cons {q : QueryTemplate} {t : String} (h : sql.normalize q.sqlTemplate = some t) :
    templates sql (q :: qs) = t :: templates sql qs := by
  simp [templates, h]

theorem makeBinding_ok {q : QueryTemplate} {b : EngineBinding} (h : makeBinding sql tables engineId q engine = .ok b) :
    sql.normalize q.sqlTemplate = some b.normalizedSql ∧ b.engine = some engine ∧ b.engineId = engineId := by
  unfold makeBinding at h
  split at h
  · cases h
  · rename_i k hk
    split at h
    · cases h
    · split at h
      · cases h
      · split at h
        · cases h
        · cases h
          exact ⟨hk, rfl, rfl⟩

theorem get_register {b : EngineBinding} (k : String) : ((r.register b).clearDirty (some b.tables)).byNorm.get k =
    if b.normalizedSql = k then some b else r.byNorm.get k := by
  simp [TemplateRegistry.register, TemplateRegistry.clearDirty]

/-- A binding is an old one, or one of the new engine under a template of its package. -/
theorem registerQueries_get {k : String} {b : EngineBinding}
    (h : registerQueries sql tables engineId engine qs r = (r', err))
    (hb : r'.byNorm.get k = some b) : r.byNorm.get k = some b ∨
      b.engine = some engine ∧ b.engineId = engineId ∧ b.normalizedSql = k ∧ k ∈ templates sql qs := by
  induction qs generalizing r with
  | nil =>
    cases h
    exact .inl hb
  | cons q qs ih =>
    simp only [registerQueries] at h
    split at h
    · cases h
      exact .inl hb
    · rename_i b' hb'
      obtain ⟨hq, he, hi⟩ := makeBinding_ok hb'
      rcases ih h with hold | ⟨h1, h2, h3, h4⟩
      · rw [get_register] at hold
        split at hold
        · rename_i hk
          cases hold
          refine .inr ⟨he, hi, hk, ?_⟩
          rw [templates_cons hq, hk]
          exact List.mem_cons_self
        · exact .inl hold
      · refine .inr ⟨h1, h2, h3, ?_⟩
        rw [templates_cons hq]
        exact List.mem_cons_of_mem _ h4

/-- Other templates keep their bindings. -/
theorem registerQueries_keep {k : String} (h : registerQueries sql tables engineId engine qs r = (r', err))
    (hk : k ∉ templates sql qs) : r'.byNorm.get k = r.byNorm.get k := by
  induction qs generalizing r with
  | nil =>
    cases h
    rfl
  | cons q qs ih =>
    simp only [registerQueries] at h
    split at h
    · cases h
      rfl
    · rename_i b' hb'
      obtain ⟨hq, -, -⟩ := makeBinding_ok hb'
      rw [templates_cons hq, List.mem_cons, not_or] at hk
      rw [ih h hk.2, get_register, if_neg (Ne.symm hk.1)]

/-- A template that is bound stays bound. -/
theorem registerQueries_isSome {k : String} (h : registerQueries sql tables engineId engine qs r = (r', err))
    (hk : (r.byNorm.get k).isSome = true) : (r'.byNorm.get k).isSome = true := by
  induction qs generalizing r with
  | nil =>
    cases h
    exact hk
  | cons q qs ih =>
    simp only [registerQueries] at h
    split at h
    · cases h
      exact hk
    · refine ih h ?_
      rw [get_register]
      split
      · rfl
      · exact hk

/-- A registration that ends binds every template to the engine. -/
theorem registerQueries_done {k : String} (h : registerQueries sql tables engineId engine qs r = (r', none))
    (hk : k ∈ templates sql qs) : ∃ b, r'.byNorm.get k = some b ∧ b.engine = some engine := by
  induction qs generalizing r with
  | nil => cases hk
  | cons q qs ih =>
    simp only [registerQueries] at h
    split at h
    · cases h
    · rename_i b' hb'
      obtain ⟨hq, he, -⟩ := makeBinding_ok hb'
      by_cases hlater : k ∈ templates sql qs
      · exact ih h hlater
      · rw [templates_cons hq, List.mem_cons] at hk
        have hkq := hk.resolve_right hlater
        refine ⟨b', ?_, he⟩
        rw [registerQueries_keep h hlater, get_register, if_pos hkq.symm]

section
variable {s s' : Session ρ} {m : EngineManifest ρ} {name : String} {mount : Bool} {ingest : Ingest}

/-- Registration touches the registry only. -/
theorem registerManifest_frame (h : registerManifest sql s m engine = (s', err)) :
    s'.tables = s.tables ∧ s'.engines = s.engines ∧ s'.closed = s.closed := by
  unfold registerManifest at h
  split at h
  · cases h
    exact ⟨rfl, rfl, rfl⟩
  · cases h
    exact ⟨rfl, rfl, rfl⟩

theorem registerManifest_get {k : String} {b : EngineBinding} (h : registerManifest sql s m engine = (s', err))
    (hb : s'.registry.byNorm.get k = some b) : s.registry.byNorm.get k = some b ∨
      b.engine = some engine ∧ b.engineId = m.engineId ∧ b.normalizedSql = k ∧ k ∈ templates sql m.queries := by
  unfold registerManifest at h
  split at h
  · cases h
    exact .inl hb
  · cases h
    exact registerQueries_get rfl hb

theorem registerManifest_keep {k : String} (h : registerManifest sql s m engine = (s', err))
    (hk : k ∉ templates sql m.queries) : s'.registry.byNorm.get k = s.registry.byNorm.get k := by
  unfold registerManifest at h
  split at h
  · cases h
    rfl
  · cases h
    exact registerQueries_keep rfl hk

theorem registerManifest_isSome {k : String} (h : registerManifest sql s m engine = (s', err))
    (hk : (s.registry.byNorm.get k).isSome = true) : (s'.registry.byNorm.get k).isSome = true := by
  unfold registerManifest at h
  split at h
  · cases h
    exact hk
  · cases h
    exact registerQueries_isSome rfl hk

theorem registerManifest_done {k : String} (h : registerManifest sql s m engine = (s', none))
    (hk : k ∈ templates sql m.queries) : ∃ b, s'.registry.byNorm.get k = some b ∧ b.engine = some engine := by
  unfold registerManifest at h
  split at h
  · cases h
  · simp only [Prod.mk.injEq] at h
    obtain ⟨rfl, hnone⟩ := h
    exact registerQueries_done (Prod.ext rfl hnone) hk

end

end SynnoDB.Compat
