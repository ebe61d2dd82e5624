import SynnoDB.Lib.Dict

/-!
# The publish gate (`engine_publish.py:290-578`, `validation_receipt.py:131-211`)

| here | there |
| --- | --- |
| `Machine`     | `read_build_id`, `_sf_equal` and `engine_source_files` with `content_engine_id` |
| `Workspace`   | the executables of the engine on disk |
| `Call`        | the arguments of `publish_engine`; a `receipt` of another class is `none` |
| `Engines`     | the engines directory; staging directories, temporary links and lock files are `scratch` |
| `Calls`       | which file-system calls raise, and the `uuid`s |

Everything that is written is written by `_atomic_publish`, behind the gate: **a package that a publish adds carries the
executables and the planes that its receipt proves** (`publish_proven`). What happens between publishers of one
name is the matter of `NamedPublish.lean`.
-/

namespace SynnoDB.Workload.PublishGate

variable {File Sf : Type}

structure Workspace (File : Type) where
  db : Option File
  /-- `sorted(build.glob("*.so"))`, if there is such a directory. -/
  plugins : List (String × File)
  deriving DecidableEq

structure Machine (File Sf : Type) where
  readBuildId : File → Except Unit (Option String)
  sfEqual : Sf → Sf → Bool
  engineId : Workspace File → String

structure Receipt (Sf : Type) where
  buildIds : Dict String String
  validatedQueries : List String
  dataPlanes : List String
  validatedScaleFactors : List Sf := []
  liveRun : Bool := false
  verdict : String := "fail"

structure QueryTemplate where
  queryId : String
  sqlTemplate : String
  deriving DecidableEq

structure Manifest (Sf : Type) where
  engineId : String
  queries : List QueryTemplate
  scaleFactor : Option Sf
  parquetDir : Option String
  shmCapable : Bool
  deriving DecidableEq

structure Package (File Sf : Type) where
  engine : Workspace File
  manifest : Manifest Sf
  deriving DecidableEq

inductive Rejected (Sf : Type) where
  | notReceipt
  | notLive
  | verdict (v : String)
  | unidentifiable
  | otherBuild
  | queries (missing : List String)
  | scaleFactor (sf : Sf)
  | parquetPlane

inductive Raised (Sf : Type) where
  | receiptRejected (why : Rejected Sf)
  | other

def Receipt.coversPlane (r : Receipt Sf) (plane : String) : Bool := r.dataPlanes.contains plane

/-! ## The engines directory -/

inductive Entry (File Sf : Type) where
  | dir (p : Package File Sf)
  | link (version : String)

structure Engines (File Sf : Type) where
  made : Bool := false
  entries : Dict String (Entry File Sf) := []
  versions : Dict String (Package File Sf) := []
  scratch : List String := []

structure Calls where
  manifest : Bool := true
  mkdir : Bool := true
  lock : Bool := true
  staging : Bool := true
  populate : Bool := true
  replace : Bool := true
  symlink : Bool := true
  migrate : Bool := true
  flip : Bool := true
  /-- `rmtree` of the staging directory leaves something. -/
  leaves : Bool := false
  /-- Versions that `_gc_versions` cannot remove. -/
  stuck : String → Bool := fun _ => false
  uuid : String
  legacyUuid : String

namespace Engines

variable (E : Engines File Sf)

/-- `(engines_dir / name).exists()`. -/
def exists? (name : String) : Bool :=
  match E.entries.get name with
  | none => false
  | some (.dir _) => true
  | some (.link version) => (E.versions.get version).isSome

/-- A package that is somewhere in the directory. -/
def Holds (p : Package File Sf) : Prop := (∃ n, (n, .dir p) ∈ E.entries) ∨ ∃ n, (n, p) ∈ E.versions

end Engines

section
variable (w : Calls)

def abandon (E : Engines File Sf) (p : Package File Sf) : Engines File Sf :=
  if w.leaves then { E with scratch := (".tmp-" ++ p.manifest.engineId) :: E.scratch } else E

def publishContentAddressed (E : Engines File Sf) (p : Package File Sf) :
    Except (Raised Sf) String × Engines File Sf :=
  let dest := p.manifest.engineId
  if E.exists? dest then (.ok dest, E)
  else if !w.staging then (.error .other, E)
  -- a link that leads nowhere is no directory that could be replaced
  else if !(w.populate && w.replace && (E.entries.get dest).isNone) then (.error .other, abandon w E p)
  else (.ok dest, { E with entries := E.entries.set dest (.dir p) })

def versionPrefix (name : String) : String := name ++ "@"

def gcVersions (E : Engines File Sf) (name keep : String) : Engines File Sf :=
  { E with versions := E.versions.filter fun v =>
      !((versionPrefix name).toList.isPrefixOf v.1.toList) || v.1 = keep || w.stuck v.1 }

def flipLink (E : Engines File Sf) (name version : String) : Except (Raised Sf) String × Engines File Sf :=
  if !w.flip then (.error .other, E)
  else (.ok name, gcVersions w { E with entries := E.entries.set name (.link version) } name version)

/-- A real directory of that name is put away first. -/
def migrateAndFlip (E : Engines File Sf) (name version : String) : Except (Raised Sf) String × Engines File Sf :=
  match E.entries.get name with
  | some (.dir old) =>
    if !w.migrate then (.error .other, E)
    else flipLink w { E with
      entries := E.entries.erase name
      versions := E.versions.set (versionPrefix name ++ "legacy-" ++ w.legacyUuid) old } name version
  | _ => flipLink w E name version

def publishNamed (E : Engines File Sf) (name : String) (p : Package File Sf) :
    Except (Raised Sf) String × Engines File Sf :=
  if !w.lock then (.error .other, E)
  else
    let E := { E with scratch := (".locks/" ++ name) :: E.scratch }
    let version := versionPrefix name ++ w.uuid
    if !w.staging then (.error .other, E)
    else if !(w.populate && w.replace && (E.versions.get version).isNone) then (.error .other, abandon w E p)
    else
      let E := { E with versions := E.versions.set version p }
      if !w.symlink then (.error .other, E) else migrateAndFlip w E name version

def atomicPublish (E : Engines File Sf) (name : Option String) (p : Package File Sf) :
    Except (Raised Sf) String × Engines File Sf :=
  if !w.mkdir then (.error .other, E)
  else match name with
    | none => publishContentAddressed w { E with made := true } p
    | some name => publishNamed w { E with made := true } name p

end

/-! ## The gate -/

section
variable (M : Machine File Sf)

def candidates (ws : Workspace File) : List (String × File) :=
  ws.db.toList.map (fun f => ("db", f)) ++ ws.plugins.map fun so => ("build/" ++ so.1, so.2)

/-- An artifact without a build-id is left out. -/
def collectIds : List (String × File) → Dict String String → Except Unit (Dict String String)
  | [], out => .ok out
  | (path, f) :: rest, out => match M.readBuildId f with
    | .error e => .error e
    | .ok none => collectIds rest out
    | .ok (some id) => collectIds rest (if id = "" then out else out.set path id)

def engineBuildIds (ws : Workspace File) : Except Unit (Dict String String) := collectIds M (candidates ws) []

def verifyReceiptForPublish (receipt : Option (Receipt Sf)) (ws : Workspace File) (queryIds : List String)
    (scaleFactor : Option Sf) : Except (Raised Sf) (Receipt Sf) :=
  match receipt with
  | none => .error (.receiptRejected .notReceipt)
  | some r =>
    if !r.liveRun then .error (.receiptRejected .notLive)
    else if r.verdict ≠ "pass" then .error (.receiptRejected (.verdict r.verdict))
    else match engineBuildIds M ws with
      | .error _ => .error .other
      | .ok onDisk =>
        if onDisk = [] then .error (.receiptRejected .unidentifiable)
        else if !Dict.agree r.buildIds onDisk then .error (.receiptRejected .otherBuild)
        else match queryIds.filter fun q => !r.validatedQueries.contains q with
          | q :: missing => .error (.receiptRejected (.queries (q :: missing)))
          | [] => match scaleFactor with
            | none => .ok r
            | some sf => if r.validatedScaleFactors.any (M.sfEqual sf) then .ok r else .error (.receiptRejected (.scaleFactor sf))

structure Call (File Sf : Type) where
  /-- `resolve_engines_dir` finds one. -/
  target : Bool
  workspace : Workspace File
  queryTemplates : List QueryTemplate
  receipt : Option (Receipt Sf)
  parquetDir : Option String := none
  bundleParquetDir : Option String := none
  scaleFactor : Option Sf := none
  name : Option String := none
  shmCapable : Bool := false

def manifestOf (c : Call File Sf) (r : Receipt Sf) : Manifest Sf where
  engineId := M.engineId c.workspace
  queries := c.queryTemplates
  scaleFactor := c.scaleFactor
  parquetDir := if c.bundleParquetDir.isSome then some "data" else c.parquetDir
  shmCapable := c.shmCapable && r.coversPlane "shm"

def publishEngine (c : Call File Sf) (w : Calls) (E : Engines File Sf) :
    Except (Raised Sf) (Option String) × Engines File Sf :=
  if !c.target || c.queryTemplates = [] then (.ok none, E)
  else match verifyReceiptForPublish M c.receipt c.workspace (c.queryTemplates.map QueryTemplate.queryId) c.scaleFactor with
    | .error e => (.error e, E)
    | .ok r =>
      if (c.parquetDir.isSome || c.bundleParquetDir.isSome) && !r.coversPlane "parquet" then
        (.error (.receiptRejected .parquetPlane), E)
      else if !w.manifest then (.error .other, E)
      else match atomicPublish w E c.name ⟨c.workspace, manifestOf M c r⟩ with
        | (.error e, E) => (.error e, E)
        | (.ok dest, E) => (.ok (some dest), E)

/-- The receipt proves what the call would publish. -/
structure Proven (c : Call File Sf) (r : Receipt Sf) : Prop where
  given : c.receipt = some r
  live : r.liveRun = true
  passing : r.verdict = "pass"
  build : ∃ onDisk, engineBuildIds M c.workspace = .ok onDisk ∧ onDisk ≠ [] ∧ ∀ path, r.buildIds.get path = onDisk.get path
  queries : ∀ t ∈ c.queryTemplates, t.queryId ∈ r.validatedQueries
  scaleFactor : ∀ sf, c.scaleFactor = some sf → ∃ s ∈ r.validatedScaleFactors, M.sfEqual sf s = true
  parquet : c.parquetDir.isSome ∨ c.bundleParquetDir.isSome → "parquet" ∈ r.dataPlanes

/-- The receipt covers the package: its executables, its queries and scale factor, and each plane it will be served
from. -/
structure Covers (r : Receipt Sf) (p : Package File Sf) : Prop where
  build : ∃ onDisk, engineBuildIds M p.engine = .ok onDisk ∧ ∀ path, r.buildIds.get path = onDisk.get path
  queries : ∀ t ∈ p.manifest.queries, t.queryId ∈ r.validatedQueries
  scaleFactor : ∀ sf, p.manifest.scaleFactor = some sf → ∃ s ∈ r.validatedScaleFactors, M.sfEqual sf s = true
  parquet : p.manifest.parquetDir.isSome → "parquet" ∈ r.dataPlanes
  shm : p.manifest.shmCapable = true → "shm" ∈ r.dataPlanes

end

/-! ## What a publish adds -/

section
variable {w : Calls} {E : Engines File Sf} {p q : Package File Sf} {name version : String}

theorem holds_set_entry {e : Entry File Sf} (h : Engines.Holds { E with entries := E.entries.set name e } q) :
    E.Holds q ∨ e = .dir q := by
  rcases h with ⟨n, hn⟩ | hv
  · rcases Dict.mem_of_mem_set hn with hn | heq
    · exact .inl (.inl ⟨n, hn⟩)
    · exact .inr (Prod.mk.inj heq).2.symm
  · exact .inl (.inr hv)

theorem holds_set_version (h : Engines.Holds { E with versions := E.versions.set version p } q) :
    E.Holds q ∨ q = p := by
  rcases h with he | ⟨n, hn⟩
  · exact .inl (.inl he)
  · rcases Dict.mem_of_mem_set hn with hn | heq
    · exact .inl (.inr ⟨n, hn⟩)
    · exact .inr (Prod.mk.inj heq).2

theorem holds_abandon (h : (abandon w E p).Holds q) : E.Holds q := by
  unfold abandon at h
  split at h
  · exact h
  · exact h

theorem holds_gcVersions {keep : String} (h : (gcVersions w E name keep).Holds q) : E.Holds q := by
  rcases h with he | ⟨n, hn⟩
  · exact .inl he
  · exact .inr ⟨n, List.mem_of_mem_filter hn⟩

theorem holds_flipLink (h : (flipLink w E name version).2.Holds q) : E.Holds q := by
  unfold flipLink at h
  split at h
  · exact h
  · rcases holds_set_entry (holds_gcVersions h) with h | h
    · exact h
    · cases h

theorem holds_publishContentAddressed (h : (publishContentAddressed w E p).2.Holds q) : E.Holds q ∨ q = p := by
  unfold publishContentAddressed at h
  dsimp only at h
  split_ifs at h
  · exact .inl h
  · exact .inl h
  · exact .inl (holds_abandon h)
  · exact (holds_set_entry h).imp_right fun heq => (Entry.dir.inj heq).symm

/-- A real directory that is put away is a package that was there. -/
theorem holds_migrateAndFlip (h : (migrateAndFlip w E name version).2.Holds q) : E.Holds q := by
  unfold migrateAndFlip at h
  split at h
  · next old hold =>
    split at h
    · exact h
    · rcases holds_flipLink h with ⟨n, hn⟩ | ⟨n, hn⟩
      · exact .inl ⟨n, List.mem_of_mem_filter hn⟩
      · rcases Dict.mem_of_mem_set hn with hn | heq
        · exact .inr ⟨n, hn⟩
        · obtain rfl := (Prod.mk.inj heq).2
          exact .inl ⟨name, Dict.mem_of_get hold⟩
  · exact holds_flipLink h

theorem holds_publishNamed (h : (publishNamed w E name p).2.Holds q) : E.Holds q ∨ q = p := by
  let locked : Engines File Sf := { E with scratch := (".locks/" ++ name) :: E.scratch }
  unfold publishNamed at h
  dsimp only at h
  split_ifs at h
  · exact .inl h
  · exact .inl h
  · exact .inl (@holds_abandon _ _ w locked p q h)
  · exact @holds_set_version _ _ locked p q _ h
  · exact @holds_set_version _ _ locked p q _ (holds_migrateAndFlip h)

/-- **A publish adds its own package or none.** -/
theorem holds_atomicPublish {name : Option String} (h : (atomicPublish w E name p).2.Holds q) : E.Holds q ∨ q = p := by
  unfold atomicPublish at h
  split at h
  · exact .inl h
  · cases name with
    | none => exact (holds_publishContentAddressed h :)
    | some name => exact (holds_publishNamed h :)

end

/-! ## What passes the gate -/

section
variable {M : Machine File Sf} {c : Call File Sf} {r : Receipt Sf} {w : Calls} {E : Engines File Sf}

theorem verify_ok {receipt : Option (Receipt Sf)} {ws : Workspace File} {queryIds : List String}
    {scaleFactor : Option Sf}
    (h : verifyReceiptForPublish M receipt ws queryIds scaleFactor = .ok r) :
    receipt = some r ∧ r.liveRun = true ∧ r.verdict = "pass" ∧
      (∃ onDisk, engineBuildIds M ws = .ok onDisk ∧ onDisk ≠ [] ∧ ∀ path, r.buildIds.get path = onDisk.get path) ∧
      (∀ q ∈ queryIds, q ∈ r.validatedQueries) ∧
      ∀ sf, scaleFactor = some sf → ∃ s ∈ r.validatedScaleFactors, M.sfEqual sf s = true := by
  unfold verifyReceiptForPublish at h
  cases receipt with
  | none => cases h
  | some r' =>
    dsimp only at h
    split_ifs at h with hlive hpass
    cases hids : engineBuildIds M ws with
    | error e =>
      rw [hids] at h
      cases h
    | ok onDisk =>
      rw [hids] at h
      dsimp only at h
      split_ifs at h with hne hagree
      have hcovered : ∀ r'', r'' = r' → (∀ q ∈ queryIds.filter fun q => !r''.validatedQueries.contains q, False) →
          ∀ q ∈ queryIds, q ∈ r''.validatedQueries := by
        intro r'' _ hnone q hq
        by_contra hnot
        exact hnone q (List.mem_filter.mpr ⟨hq, by simpa using hnot⟩)
      split at h
      · cases h
      · next hmissing =>
        have hqueries := hcovered r' rfl fun q hq => by
          rw [hmissing] at hq
          cases hq
        have hbuild : ∃ d, Except.ok (ε := Unit) onDisk = .ok d ∧ d ≠ [] ∧ ∀ path, r'.buildIds.get path = d.get path :=
          ⟨onDisk, rfl, hne, Dict.agree_iff.mp (by simpa using hagree)⟩
        split at h
        · cases h
          exact ⟨rfl, by simpa using hlive, by simpa using hpass, hbuild, hqueries, fun sf hsf => by cases hsf⟩
        · next sf =>
          split_ifs at h with hsf
          cases h
          refine ⟨rfl, by simpa using hlive, by simpa using hpass, hbuild, hqueries, fun sf' hsf' => ?_⟩
          obtain rfl := Option.some.inj hsf'
          exact List.any_eq_true.mp hsf

/-- Past the gate the call publishes what the receipt proves. -/
theorem publishEngine_cases (M : Machine File Sf) (c : Call File Sf) (w : Calls) (E : Engines File Sf) :
    ((publishEngine M c w E).2 = E ∧
      ((∃ e, (publishEngine M c w E).1 = .error e) ∨ (publishEngine M c w E).1 = .ok none)) ∨
      ∃ r, Proven M c r ∧
        (publishEngine M c w E).2 = (atomicPublish w E c.name ⟨c.workspace, manifestOf M c r⟩).2 := by
  unfold publishEngine
  split
  · exact .inl ⟨rfl, .inr rfl⟩
  · cases hv : verifyReceiptForPublish M c.receipt c.workspace (c.queryTemplates.map QueryTemplate.queryId)
      c.scaleFactor with
    | error e => exact .inl ⟨rfl, .inl ⟨e, rfl⟩⟩
    | ok r =>
      dsimp only
      split
      · exact .inl ⟨rfl, .inl ⟨_, rfl⟩⟩
      · next hplane =>
        split
        · exact .inl ⟨rfl, .inl ⟨_, rfl⟩⟩
        · obtain ⟨hgiven, hlive, hpass, hbuild, hqueries, hsf⟩ := verify_ok hv
          have hparquet : c.parquetDir.isSome ∨ c.bundleParquetDir.isSome → "parquet" ∈ r.dataPlanes := by
            intro hserves
            by_contra hno
            exact hplane (by simpa [Receipt.coversPlane, hno] using hserves)
          refine .inr ⟨r, ⟨hgiven, hlive, hpass, hbuild, fun t ht =>
            hqueries _ (List.mem_map_of_mem ht), hsf, hparquet⟩, ?_⟩
          rcases atomicPublish w E c.name ⟨c.workspace, manifestOf M c r⟩ with ⟨e | dest, E'⟩
          · rfl
          · rfl

theorem Proven.covers (h : Proven M c r) : Covers M r ⟨c.workspace, manifestOf M c r⟩ where
  build := by
    obtain ⟨onDisk, hids, -, hagree⟩ := h.build
    exact ⟨onDisk, hids, hagree⟩
  queries := h.queries
  scaleFactor := h.scaleFactor
  parquet := by
    intro hdir
    refine h.parquet ?_
    unfold manifestOf at hdir
    dsimp only at hdir
    split at hdir
    · next hbundle => exact .inr hbundle
    · exact .inl hdir
  shm := by
    intro hshm
    have hboth := Bool.and_eq_true_iff.mp hshm
    simpa [Receipt.coversPlane] using hboth.2

end

/-- **Nothing unproven is published.** A call that changes the engines directory has a receipt that proves it; any
other raises or returns `None` and changes nothing; and each package that was not there before is covered by the
receipt. -/
theorem publish_proven (M : Machine File Sf) (c : Call File Sf) (w : Calls) (E : Engines File Sf) :
    ((publishEngine M c w E).2 ≠ E → ∃ r, Proven M c r) ∧
    ((¬∃ r, Proven M c r) →
      ((∃ e, (publishEngine M c w E).1 = .error e) ∨ (publishEngine M c w E).1 = .ok none) ∧ (publishEngine M c w E).2 = E) ∧
    ∀ p, (publishEngine M c w E).2.Holds p → ¬E.Holds p → ∃ r, Proven M c r ∧ p.engine = c.workspace ∧ Covers M r p := by
  rcases publishEngine_cases M c w E with ⟨hsame, hends⟩ | ⟨r, hr, hE⟩
  · refine ⟨fun hne => absurd hsame hne, fun _ => ⟨hends, hsame⟩, fun p hp hnew => ?_⟩
    rw [hsame] at hp
    exact absurd hp hnew
  · refine ⟨fun _ => ⟨r, hr⟩, fun hno => absurd ⟨r, hr⟩ hno, fun p hp hnew => ?_⟩
    rw [hE] at hp
    obtain rfl := (holds_atomicPublish hp).resolve_left hnew
    exact ⟨r, hr, rfl, hr.covers⟩

end SynnoDB.Workload.PublishGate
