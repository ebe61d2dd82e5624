import SynnoDB.Lib.Dict

/-!
# `TemplateRegistry` (`router/registry.py`)

`_by_norm`, `_dirty_tables` and `_quarantined` as the source keeps them; every method is one step under
`_lock`. The logged collision warning of `register` is left out.
-/

namespace SynnoDB.Router

structure ColumnSpec where
  name : String
  type : String
deriving DecidableEq, Repr

structure PlaceholderSpec where
  name : String
  type : String
  affixPrefix : String := ""
  affixSuffix : String := ""
  group : Int := -1
deriving DecidableEq, Repr

/-- `engine` is the live worker handle; `none` = registered but not runnable. -/
structure EngineBinding where
  templateId : String
  normalizedSql : String
  queryId : String
  engineId : String
  placeholders : List PlaceholderSpec
  outputSchema : List ColumnSpec
  tables : List String
  schemaFingerprint : String
  engine : Option Nat := none
  templateSql : Option String := none
deriving DecidableEq, Repr

def EngineBinding.runnable (b : EngineBinding) : Bool := b.engine.isSome

structure TemplateRegistry where
  byNorm : Dict String EngineBinding := []
  dirtyTables : List String := []
  quarantined : List String := []
deriving DecidableEq, Repr

namespace TemplateRegistry

variable (r : TemplateRegistry)

def register (b : EngineBinding) : TemplateRegistry := { r with byNorm := r.byNorm.set b.normalizedSql b }

def unregister (normalizedSql : String) : TemplateRegistry := { r with byNorm := r.byNorm.erase normalizedSql }

def len : Nat := r.byNorm.length

def isQuarantined (templateId : String) : Bool := templateId ∈ r.quarantined

/-- `match` (`:119-125`): a binding only if present and not quarantined. -/
def match? (normalizedSql : String) : Option EngineBinding :=
  match r.byNorm.get normalizedSql with
  | none => none
  | some b => if r.isQuarantined b.templateId then none else some b

def markTablesDirty (tables : List String) : TemplateRegistry :=
  { r with dirtyTables := tables.map String.toLower ++ r.dirtyTables }

def clearDirty (tables : Option (List String)) : TemplateRegistry :=
  { r with dirtyTables := match tables with
    | none => []
    | some tables => r.dirtyTables.filter (· ∉ tables.map String.toLower) }

def isDirty (b : EngineBinding) : Bool := b.tables.any fun t => t.toLower ∈ r.dirtyTables

def quarantine (templateId : String) : TemplateRegistry := { r with quarantined := templateId :: r.quarantined }

/-- `reset_quarantine`; `none` lifts every quarantine. -/
def resetQuarantine (templateId : Option String) : TemplateRegistry :=
  { r with quarantined := match templateId with
    | none => []
    | some t => r.quarantined.filter (· ≠ t) }

@[simp] theorem mem_quarantine {t u : String} : u ∈ (r.quarantine t).quarantined ↔ u = t ∨ u ∈ r.quarantined := by
  simp [quarantine]

theorem match?_not_quarantined {r : TemplateRegistry} {k : String} {b : EngineBinding} (h : r.match? k = some b) :
    b.templateId ∉ r.quarantined := by
  unfold match? isQuarantined at h
  split at h
  · cases h
  · split at h
    · cases h
    · rename_i hq
      cases h
      simpa using hq

/-- A reset that names another template keeps a quarantine. -/
theorem mem_resetQuarantine {r : TemplateRegistry} {t u : String} (h : u ∈ r.quarantined) (hne : u ≠ t) :
    u ∈ (r.resetQuarantine (some t)).quarantined := by
  simp [resetQuarantine, h, hne]

end TemplateRegistry

end SynnoDB.Router
