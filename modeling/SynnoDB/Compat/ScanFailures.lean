import SynnoDB.Compat.DataPlane
import SynnoDB.Router.Route

/-!
# Failures inside a scan (`duckdb_compat/discovery.py:213-435`, `duckdb_compat/connection.py:113-133`, `:198-223`)

`Discovery.lean` lets only `ingest` fail. Here every call that a look at a package makes may raise; an `execute`
comes with what its scan finds and how DuckDB and the engine answer.

| here | there |
| --- | --- |
| `Raised`     | the exception classes that the handlers tell apart |
| `Look`       | one round of the loop of `discover_engines`: for each call, what it raises there |
| `Round`      | `engines_dir.iterdir()` and the looks at the packages |
| `look`       | the body of the loop; with calls that do not fail it is `visit` (`look_calm`) |
| `scanLog`    | the packages that the loop comes to, and the keys that are in `registered` when it ends or is left |

Two calls of the loop are in no `try`: `manifest_path.exists()` and `_promote_to_shm`, which does not catch what
its own checks and `ingest` raise. `_maybe_discover` and `execute` catch nothing. **A query is spared iff no
package of the scan raises there** (`execute_unharmed_iff`); an engine that was bound to its snapshot because
shared memory is too small raises at each later scan (`promotion_too_small`).
-/

namespace SynnoDB.Compat.ScanFailures

open SynnoDB.Router

variable {ρ Tbl Bound Result : Type}

/-- `resource` is an `EngineResourceError`, a `SynnoError` like `unsupported` and `synno`. -/
inductive Raised where
  | unsupported | synno | resource | os | other
  deriving DecidableEq, Repr

structure Look (ρ : Type) where
  /-- How DuckDB and the parser answer. -/
  sql : Sql ρ
  manifestExists : Option Raised := none
  bindings : Option Raised := none
  engineTables : Option Raised := none
  tablesPresent : Option Raised := none
  shmSchema : Option Raised := none
  /-- The environment or the constructor of the `ShmHotLoadEngine`. -/
  shmEngine : Option Raised := none
  /-- `engine.ingest(_aligned_arrow(...))`. -/
  ingest : Option Raised := none
  resolveDir : Option Raised := none
  /-- The views that are made before one fails. -/
  mountViews : Option (Nat × Raised) := none
  presentAgain : Option Raised := none
  processEngine : Option Raised := none
  register : Option Raised := none

def ofScanError : ScanError → Raised
  | .unsupported => .unsupported
  | .synno => .synno
  | .other => .other

/-! ## One look -/

section
variable (f : Look ρ) (mount : Bool) (s : Session ρ) (name : String) (m : EngineManifest ρ)

/-- `set(tables) <= _tables_present(conn, tables)`. -/
def tablesThere : Except Raised Bool :=
  match f.engineTables with
  | some e => .error e
  | none =>
    if engineTables f.sql m = [] then .ok true
    else match f.tablesPresent with
      | some e => .error e
      | none => .ok ((engineTables f.sql m).all (present s.tables))

/-- `_shm_schema_ok`. -/
def schemaOk : Except Raised Bool :=
  if m.expectedTables = [] then .ok false
  else match f.shmSchema with
    | some e => .error e
    | none => .ok (checkCompatibility s.tables m = [])

/-- The engine over the connection's data, and its ingest. -/
def stageShm : Session ρ × Except Raised Nat :=
  match f.shmEngine with
  | some e => (s, .error e)
  | none => match f.ingest with
    | some e => (s.build ⟨.shm, name, m, []⟩, .error e)
    | none => (s.build ⟨.shm, name, m, alignedArrow s.tables (engineTables f.sql m)⟩, .ok s.engines.length)

def mountSnapshot (dir : ParquetDir ρ) : Session ρ × Option Raised :=
  match f.resolveDir with
  | some e => (s, some e)
  | none =>
    if dir.escapes then (s, some .synno)
    else match dir.files with
      | none => (s, none)
      | some files =>
        let missing := (engineTables f.sql m).filter fun t => !present s.tables t
        if missing = [] then (s, none)
        else match f.mountViews with
          | some (made, e) => ({ s with tables := mountSnapshotViews s.tables (missing.take made) files }, some e)
          | none => ({ s with tables := mountSnapshotViews s.tables missing files }, f.presentAgain)

/-- The parquet plane of `_bind_engine`. -/
def bindParquet : Session ρ × Except Raised (Option Nat) :=
  match m.parquetDir with
  | none => (s, .ok none)
  | some dir =>
    match (if mount then mountSnapshot f s m dir else (s, none)) with
    | (s, some e) => (s, .error e)
    | (s, none) =>
      if !(engineTables f.sql m).all (present s.tables) then (s, .ok none)
      else match f.processEngine with
        | some e => (s, .error e)
        | none =>
          if dir.escapes then (s, .error .synno)
          else (s.build ⟨.process, name, m, dir.files.getD []⟩, .ok (some s.engines.length))

def bindEngine : Session ρ × Except Raised (Option Nat) :=
  match tablesThere f s m with
  | .error e => (s, .error e)
  | .ok there =>
    match (if m.shmCapable && there then schemaOk f s m else .ok false) with
    | .error e => (s, .error e)
    | .ok false => bindParquet f mount s name m
    | .ok true => match stageShm f s name m with
      | (s', .ok e) => (s', .ok (some e))
      | (s', .error e) =>
        if f.shmEngine = none ∧ e = .resource then
          let s' := s'.closeQuietly s.engines.length
          if m.parquetDir.isNone then (s', .error e) else bindParquet f mount s' name m
        else (s', .error e)

def register (s : Session ρ) (e : Nat) : Session ρ × Option Raised :=
  match f.register with
  | some err => (s, some err)
  | none => match registerManifest f.sql s m e with
    | (s, err) => (s, err.map ofScanError)

/-- The `try` of the loop: whether the package was registered. -/
def bindAndRegister : Session ρ × Except Raised Bool :=
  match bindEngine f mount s name m with
  | (s, .error e) => (s, .error e)
  | (s, .ok none) => (s, .ok false)
  | (s, .ok (some e)) => match register f m s e with
    | (s, some err) => (s.closeQuietly e, .error err)
    | (s, none) => (s, .ok true)

/-- The engine of this package that a promotion would replace. -/
def superseded : Option Nat :=
  (currentEngine s name m).filter fun c => !((s.engines[c]?).any fun eng => eng.plane = .shm)

def promoteToShm : Session ρ × Except Raised Bool :=
  if !m.shmCapable then (s, .ok false)
  else match f.bindings with
    | some e => (s, .error e)
    | none => match superseded s name m with
      | none => (s, .ok false)
      | some current => match tablesThere f s m with
        | .error e => (s, .error e)
        | .ok false => (s, .ok false)
        | .ok true => match schemaOk f s m with
          | .error e => (s, .error e)
          | .ok false => (s, .ok false)
          | .ok true => match stageShm f s name m with
            | (s, .error e) => (s, .error e)
            | (s, .ok e) => match register f m s e with
              | (s, some _) => (s.closeQuietly e, .ok false)
              | (s, none) => (s.closeQuietly current, .ok true)

/-- The handlers of the loop. -/
def afterRaised (registered : List Key) (key : Key) : Raised → List Key
  | .unsupported | .synno | .resource => key :: registered
  | .os | .other => registered

/-- A package without a manifest that can be read is passed over. -/
def look (registered : List Key) (p : String × Option (EngineManifest ρ)) : Session ρ × Except Raised (List Key) :=
  match f.manifestExists with
  | some e => (s, .error e)
  | none => match p.2 with
    | none => (s, .ok registered)
    | some m =>
      let key := (p.1, m.engineId)
      if key ∈ registered then
        match promoteToShm f s p.1 m with
        | (s, .error e) => (s, .error e)
        | (s, .ok _) => (s, .ok registered)
      else match bindAndRegister f mount s p.1 m with
        | (s, .error e) => (s, .ok (afterRaised registered key e))
        | (s, .ok false) => (s, .ok registered)
        | (s, .ok true) => (s, .ok (key :: registered))

end

/-! ## The scan -/

structure Round (ρ : Type) where
  listing : Except Raised (EnginesDir ρ)
  looks : String → Look ρ

/-- The subdirectories in order, without staging directories. -/
def children (dir : EnginesDir ρ) : List (String × Option (EngineManifest ρ)) :=
  (dir.filter fun p => !(p.1.startsWith ".")).mergeSort fun p q => !(q.1 < p.1)

section
variable (looks : String → Look ρ) (mount : Bool)

def scanLoop : List (String × Option (EngineManifest ρ)) → Session ρ → List Key → Session ρ × Except Raised (List Key)
  | [], s, registered => (s, .ok registered)
  | p :: ps, s, registered => match look (looks p.1) mount s registered p with
    | (s, .error e) => (s, .error e)
    | (s, .ok registered) => scanLoop ps s registered

def scanLog : List (String × Option (EngineManifest ρ)) → Session ρ → List Key → List String × List Key
  | [], _, registered => ([], registered)
  | p :: ps, s, registered => match look (looks p.1) mount s registered p with
    | (_, .error _) => ([p.1], registered)
    | (s, .ok registered) =>
      let rest := scanLog ps s registered
      (p.1 :: rest.1, rest.2)

end

def discoverEngines (round : Round ρ) (mount : Bool) (s : Session ρ) (registered : List Key) :
    Session ρ × Except Raised (List Key) :=
  match round.listing with
  | .error .os => (s, .ok registered)
  | .error e => (s, .error e)
  | .ok dir => scanLoop round.looks mount (children dir) s registered

/-! ## `execute` -/

/-- The registry of the router is that of the session. -/
structure Connection (ρ : Type) where
  session : Session ρ := {}
  router : Option QueryRouter
  blockWrites : Bool := true
  enginesDir : Bool := true
  registered : List Key := []
  lastDiscover : Option Rat := none
  discoverInterval : Rat := 1
  mount : Bool := false

structure Execute (ρ Tbl Bound Result : Type) where
  /-- `is_read_only_query(query)`. -/
  readOnly : Bool
  now : Rat
  round : Round ρ
  call : Call Tbl Bound Result
  /-- What DuckDB raises on the statement. -/
  duckdb : Option String

inductive Failure where
  | writeRefused
  | scan (e : Raised)
  | route (e : String)
  | duckdb (e : String)
  deriving DecidableEq, Repr

namespace Connection

variable (c : Connection ρ) (x : Execute ρ Tbl Bound Result)

def discoverNow (round : Round ρ) : Connection ρ × Option Raised :=
  match discoverEngines round c.mount c.session c.registered with
  | (session, .ok registered) => ({ c with session, registered }, none)
  | (session, .error e) => ({ c with session }, some e)

/-- The directory is set and the last scan is an interval ago. -/
def due (now : Rat) : Bool := c.enginesDir && !(c.lastDiscover.any fun last => now - last < c.discoverInterval)

def maybeDiscover (now : Rat) (round : Round ρ) : Connection ρ × Option Raised :=
  if c.due now then { c with lastDiscover := some now }.discoverNow round else (c, none)

/-- The decision whose result is served, or `none` where DuckDB ran. -/
def runDuckdb : Connection ρ × Except Failure (Option (RouteDecision Result)) :=
  match x.duckdb with
  | some e => (c, .error (.duckdb e))
  | none => (c, .ok none)

def withRouter (r : QueryRouter) : Connection ρ :=
  { c with router := some r, session := { c.session with registry := r.registry } }

def routeAndServe (r : QueryRouter) : Connection ρ × Except Failure (Option (RouteDecision Result)) :=
  match QueryRouter.route { r with registry := c.session.registry } x.call with
  | (r, .error e) => (c.withRouter r, .error (.route e))
  | (r, .ok d) => if d.routed && d.result.isSome then (c.withRouter r, .ok (some d)) else (c.withRouter r).runDuckdb x

def execute : Connection ρ × Except Failure (Option (RouteDecision Result)) :=
  match c.router with
  | none => c.runDuckdb x
  | some r =>
    if c.blockWrites && !x.readOnly then (c, .error .writeRefused)
    else if !r.policy.routingActive then c.runDuckdb x
    else match c.maybeDiscover x.now x.round with
      | (c, some e) => (c, .error (.scan e))
      | (c, none) => c.routeAndServe x r

end Connection

/-! ## Looks whose calls do not fail -/

def calm (sql : Sql ρ) : Ingest → Look ρ
  | .staged => { sql }
  | .tooSmall => { sql, ingest := some .resource }
  | .fails => { sql, ingest := some .other }

/-- The same value, or errors that the handlers of the loop treat alike. -/
def Agree {α : Type} : Except Raised α → Except ScanError α → Prop
  | .ok a, .ok b => a = b
  | .error e, .error e' => ∀ registered key, afterRaised registered key e = afterError registered key e'
  | _, _ => False

section
variable {sql : Sql ρ} {ingest : Ingest} {mount : Bool} {s : Session ρ} {name : String} {m : EngineManifest ρ}
  {f : Look ρ}
  {registered : List Key} {p : String × Option (EngineManifest ρ)}

theorem agree_ofScanError (e : ScanError) (registered : List Key) (key : Key) :
    afterRaised registered key (ofScanError e) = afterError registered key e := by
  cases e <;> rfl

theorem bindParquet_calm : (bindParquet (calm sql ingest) mount s name m).1 =
      (Compat.bindParquet mount s name m (engineTables sql m)).1 ∧
    Agree (bindParquet (calm sql ingest) mount s name m).2
      (Compat.bindParquet mount s name m (engineTables sql m)).2 := by
  have hsql : (calm sql ingest).sql = sql := by cases ingest <;> rfl
  have hproc : (calm sql ingest).processEngine = none := by cases ingest <;> rfl
  have hresolve : (calm sql ingest).resolveDir = none := by cases ingest <;> rfl
  have hviews : (calm sql ingest).mountViews = none := by cases ingest <;> rfl
  have hagain : (calm sql ingest).presentAgain = none := by cases ingest <;> rfl
  unfold bindParquet Compat.bindParquet
  cases m.parquetDir with
  | none => exact ⟨rfl, rfl⟩
  | some dir =>
    have hmount : (if mount then mountSnapshot (calm sql ingest) s m dir else (s, none)) =
        if mount && dir.escapes then (s, some .synno)
        else ({ s with tables := withViews mount s.tables dir (engineTables sql m) }, none) := by
      cases mount with
      | false => rfl
      | true =>
        simp only [if_true, mountSnapshot, hresolve, hsql, hviews, hagain, Bool.true_and]
        cases dir.escapes with
        | true => rfl
        | false =>
          simp only [Bool.false_eq_true, if_false, withViews]
          cases dir.files with
          | none => rfl
          | some files =>
            dsimp only
            split
            · next hmissing =>
              rw [hmissing]
              rfl
            · rfl
    dsimp only
    rw [hmount, hsql, hproc]
    cases mount && dir.escapes with
    | true => exact ⟨rfl, fun _ _ => rfl⟩
    | false =>
      simp only [Bool.false_eq_true, if_false]
      split
      · exact ⟨rfl, rfl⟩
      · cases dir.escapes with
        | true => exact ⟨rfl, fun _ _ => rfl⟩
        | false => exact ⟨rfl, rfl⟩

theorem tablesThere_calm : tablesThere (calm sql ingest) s m = .ok ((engineTables sql m).all (present s.tables)) := by
  have hsql : (calm sql ingest).sql = sql := by cases ingest <;> rfl
  have htables : (calm sql ingest).engineTables = none := by cases ingest <;> rfl
  have hpresent : (calm sql ingest).tablesPresent = none := by cases ingest <;> rfl
  unfold tablesThere
  rw [htables, hsql, hpresent]
  dsimp only
  split
  · next hnil =>
    rw [hnil]
    rfl
  · rfl

theorem schemaOk_calm : schemaOk (calm sql ingest) s m = .ok (shmSchemaOk s.tables m) := by
  have hschema : (calm sql ingest).shmSchema = none := by cases ingest <;> rfl
  unfold schemaOk shmSchemaOk
  rw [hschema]
  split
  · next hnil => simp [hnil]
  · next hne => simp [hne]

theorem bindEngine_calm : (bindEngine (calm sql ingest) mount s name m).1 =
    (Compat.bindEngine sql mount ingest s name m).1 ∧
    Agree (bindEngine (calm sql ingest) mount s name m).2 (Compat.bindEngine sql mount ingest s name m).2 := by
  unfold bindEngine Compat.bindEngine
  rw [tablesThere_calm, schemaOk_calm]
  dsimp only
  cases hlive : m.shmCapable && (engineTables sql m).all (present s.tables) with
  | false =>
    simp only [Bool.false_eq_true, if_false, Bool.false_and]
    exact bindParquet_calm
  | true =>
    cases hschema : shmSchemaOk s.tables m with
    | false =>
      simp only [if_true, Bool.and_false, Bool.false_eq_true, if_false]
      exact bindParquet_calm
    | true =>
      simp only [if_true, Bool.and_true]
      cases ingest with
      | staged => exact ⟨rfl, rfl⟩
      | fails => exact ⟨rfl, fun _ _ => rfl⟩
      | tooSmall =>
        simp only [stageShm, calm, and_self, if_true]
        split
        · exact ⟨rfl, fun _ _ => rfl⟩
        · exact @bindParquet_calm ρ sql .tooSmall mount
            (s.build ⟨.shm, name, m, []⟩ |>.closeQuietly s.engines.length) name m

theorem register_calm (e : Nat) : register (calm sql ingest) m s e =
    ((registerManifest sql s m e).1, (registerManifest sql s m e).2.map ofScanError) := by
  cases ingest <;> rfl

theorem stageShm_calm : stageShm (calm sql .staged) s name m =
    (s.build ⟨.shm, name, m, alignedArrow s.tables (engineTables sql m)⟩, .ok s.engines.length) := rfl

theorem promoteToShm_calm : (promoteToShm (calm sql ingest) s name m).1 = (Compat.promoteToShm sql ingest s name m).1 ∧
    (promoteToShm (calm sql ingest) s name m).2.toOption = (Compat.promoteToShm sql ingest s name m).2 := by
  have hbindings : (calm sql ingest).bindings = none := by cases ingest <;> rfl
  unfold promoteToShm Compat.promoteToShm promotable superseded
  rw [hbindings, tablesThere_calm, schemaOk_calm]
  cases m.shmCapable with
  | false => exact ⟨rfl, rfl⟩
  | true =>
    simp only [Bool.not_true, Bool.false_eq_true, if_false, if_true]
    cases currentEngine s name m with
    | none => exact ⟨rfl, rfl⟩
    | some current =>
      simp only [Option.filter_some]
      cases (s.engines[current]?).any fun eng => eng.plane = .shm with
      | true => exact ⟨rfl, rfl⟩
      | false =>
        cases (engineTables sql m).all (present s.tables) with
        | false => exact ⟨rfl, rfl⟩
        | true =>
          cases shmSchemaOk s.tables m with
          | false => exact ⟨rfl, rfl⟩
          | true =>
            cases ingest with
            | tooSmall => exact ⟨rfl, rfl⟩
            | fails => exact ⟨rfl, rfl⟩
            | staged =>
              simp only [Bool.not_false, Bool.and_self, if_true, stageShm_calm, register_calm]
              rcases registerManifest sql _ m s.engines.length with ⟨s', _ | err⟩
              · exact ⟨rfl, rfl⟩
              · exact ⟨rfl, rfl⟩

/-- **Without failures the look is the one of `Discovery.lean`.** -/
theorem look_calm : (look (calm sql ingest) mount s registered (name, some m)).1 =
      (visit sql mount ingest s registered name m).1 ∧
    (look (calm sql ingest) mount s registered (name, some m)).2.toOption =
      (visit sql mount ingest s registered name m).2 := by
  have hexists : (calm sql ingest).manifestExists = none := by cases ingest <;> rfl
  unfold look visit
  rw [hexists]
  dsimp only
  split
  · obtain ⟨hs, hr⟩ := @promoteToShm_calm ρ sql ingest s name m
    cases hp : promoteToShm (calm sql ingest) s name m with
    | mk s₁ r₁ =>
      cases hq : Compat.promoteToShm sql ingest s name m with
      | mk s₂ r₂ =>
        rw [hp, hq] at hs hr
        obtain rfl : s₁ = s₂ := hs
        obtain rfl : r₁.toOption = r₂ := hr
        cases r₁ <;> exact ⟨rfl, rfl⟩
  · obtain ⟨hs, hr⟩ := @bindEngine_calm ρ sql ingest mount s name m
    unfold bindAndRegister
    cases hp : bindEngine (calm sql ingest) mount s name m with
    | mk s₁ r₁ =>
      cases hq : Compat.bindEngine sql mount ingest s name m with
      | mk s₂ r₂ =>
        rw [hp, hq] at hs hr
        obtain rfl : s₁ = s₂ := hs
        cases r₁ with
        | error e =>
          cases r₂ with
          | error e' => exact ⟨rfl, congrArg some (hr registered (name, m.engineId))⟩
          | ok r => exact hr.elim
        | ok e =>
          cases r₂ with
          | error e' => exact hr.elim
          | ok e' =>
            obtain rfl : e = e' := hr
            cases e with
            | none => exact ⟨rfl, rfl⟩
            | some e =>
              dsimp only
              rw [register_calm]
              rcases registerManifest sql s₁ m e with ⟨s₂, _ | err⟩
              · exact ⟨rfl, rfl⟩
              · exact ⟨rfl, congrArg some (agree_ofScanError err registered (name, m.engineId))⟩

end

/-! ## What leaves the loop -/

/-- One of the calls that `_promote_to_shm` makes outside its `try` raises, and those before it lead there. -/
def PromotionFails (f : Look ρ) (s : Session ρ) (name : String) (m : EngineManifest ρ) : Prop :=
  m.shmCapable = true ∧ (f.bindings.isSome ∨ (superseded s name m).isSome ∧
    (f.engineTables.isSome ∨ engineTables f.sql m ≠ [] ∧ f.tablesPresent.isSome ∨
      (engineTables f.sql m).all (present s.tables) = true ∧
        (m.expectedTables ≠ [] ∧ f.shmSchema.isSome ∨
          shmSchemaOk s.tables m = true ∧ (f.shmEngine.isSome ∨ f.ingest.isSome))))

def LookFails (f : Look ρ) (s : Session ρ) (registered : List Key) (p : String × Option (EngineManifest ρ)) : Prop :=
  f.manifestExists.isSome ∨ ∃ m, p.2 = some m ∧ (p.1, m.engineId) ∈ registered ∧ PromotionFails f s p.1 m

/-- No look fails in the state that the looks before it leave. -/
def Quiet (looks : String → Look ρ) (mount : Bool) :
    List (String × Option (EngineManifest ρ)) → Session ρ → List Key → Prop
  | [], _, _ => True
  | p :: ps, s, registered => ¬LookFails (looks p.1) s registered p ∧
    ∀ s' registered', look (looks p.1) mount s registered p = (s', .ok registered') → Quiet looks mount ps s' registered'

def Round.Quiet (round : Round ρ) (mount : Bool) (s : Session ρ) (registered : List Key) : Prop :=
  match round.listing with
  | .error e => e = .os
  | .ok dir => ScanFailures.Quiet round.looks mount (children dir) s registered

def Raises {α ε : Type} (r : Except ε α) : Prop := ∃ e, r = .error e

section
variable {f : Look ρ} {looks : String → Look ρ} {mount : Bool} {s s' : Session ρ} {name : String} {m : EngineManifest ρ}
  {registered registered' : List Key} {p : String × Option (EngineManifest ρ)}
  {ps : List (String × Option (EngineManifest ρ))}

theorem raises_error {α ε : Type} (e : ε) : Raises (.error e : Except ε α) := ⟨e, rfl⟩

theorem not_raises_ok {α ε : Type} (a : α) : ¬Raises (.ok a : Except ε α) := fun ⟨_, h⟩ => by cases h

/-- How the engine over the connection's data ends. -/
theorem stageShm_raises : Raises (stageShm f s name m).2 ↔ f.shmEngine.isSome ∨ f.ingest.isSome := by
  unfold stageShm
  cases f.shmEngine with
  | some e => exact iff_of_true (raises_error e) (.inl rfl)
  | none =>
    cases f.ingest with
    | some e => exact iff_of_true (raises_error e) (.inr rfl)
    | none => exact iff_of_false (not_raises_ok _) (by simp)

theorem tablesThere_raises :
    Raises (tablesThere f s m) ↔ f.engineTables.isSome ∨ engineTables f.sql m ≠ [] ∧ f.tablesPresent.isSome := by
  unfold tablesThere
  cases f.engineTables with
  | some e => exact iff_of_true (raises_error e) (.inl rfl)
  | none =>
    dsimp only
    split
    · next hnil => exact iff_of_false (not_raises_ok _) (by simp [hnil])
    · next hne =>
      cases f.tablesPresent with
      | some e => exact iff_of_true (raises_error e) (.inr ⟨hne, rfl⟩)
      | none => exact iff_of_false (not_raises_ok _) (by simp)

theorem tablesThere_ok {b : Bool} (h : tablesThere f s m = .ok b) :
    (engineTables f.sql m).all (present s.tables) = b := by
  unfold tablesThere at h
  split at h
  · cases h
  · split at h
    · next hnil =>
      cases h
      rw [hnil]
      rfl
    · split at h
      · cases h
      · exact Except.ok.inj h

theorem schemaOk_raises : Raises (schemaOk f s m) ↔ m.expectedTables ≠ [] ∧ f.shmSchema.isSome := by
  unfold schemaOk
  split
  · next hnil => exact iff_of_false (not_raises_ok _) fun h => h.1 hnil
  · next hne =>
    cases f.shmSchema with
    | some e => exact iff_of_true (raises_error e) ⟨hne, rfl⟩
    | none => exact iff_of_false (not_raises_ok _) (by simp)

theorem schemaOk_ok {b : Bool} (h : schemaOk f s m = .ok b) : shmSchemaOk s.tables m = b := by
  unfold schemaOk at h
  unfold shmSchemaOk
  split at h
  · next hnil =>
    cases h
    simp [hnil]
  · next hne =>
    split at h
    · cases h
    · cases h
      simp [hne]

/-- Past the checks only the constructor and `ingest` can raise: what registration raises is caught. -/
theorem promoteToShm_raises : Raises (promoteToShm f s name m).2 ↔ PromotionFails f s name m := by
  unfold promoteToShm PromotionFails
  cases m.shmCapable with
  | false => exact iff_of_false (not_raises_ok _) (by simp)
  | true =>
    simp only [Bool.not_true, Bool.false_eq_true, if_false, true_and]
    cases f.bindings with
    | some e => exact iff_of_true (raises_error e) (.inl rfl)
    | none =>
      cases superseded s name m with
      | none => exact iff_of_false (not_raises_ok _) (by simp)
      | some current =>
        simp only [Option.isSome_none, Bool.false_eq_true, false_or, Option.isSome_some, true_and]
        rw [← or_assoc, ← @tablesThere_raises ρ f s m, ← @schemaOk_raises ρ f s m,
          ← @stageShm_raises ρ f s name m]
        cases hthere : tablesThere f s m with
        | error e => exact iff_of_true (raises_error e) (.inl (raises_error e))
        | ok there =>
          rw [tablesThere_ok hthere, or_iff_right (not_raises_ok there)]
          cases there with
          | false => exact iff_of_false (not_raises_ok _) (by simp)
          | true =>
            rw [and_iff_right rfl]
            cases hschema : schemaOk f s m with
            | error e => exact iff_of_true (raises_error e) (.inl (raises_error e))
            | ok fits =>
              rw [schemaOk_ok hschema, or_iff_right (not_raises_ok fits)]
              cases fits with
              | false => exact iff_of_false (not_raises_ok _) (by simp)
              | true =>
                rw [and_iff_right rfl]
                rcases stageShm f s name m with ⟨s₁, e | e⟩
                · exact iff_of_true (raises_error e) (raises_error e)
                · refine iff_of_false ?_ (not_raises_ok e)
                  dsimp only
                  rcases register f m s₁ e with ⟨s₂, _ | err⟩
                  · exact not_raises_ok _
                  · exact not_raises_ok _

theorem look_raises : Raises (look f mount s registered p).2 ↔ LookFails f s registered p := by
  unfold look LookFails
  cases f.manifestExists with
  | some e => exact iff_of_true (raises_error e) (.inl rfl)
  | none =>
    cases hm : p.2 with
    | none => exact iff_of_false (not_raises_ok _) (by simp)
    | some m =>
      have hfails : ((none : Option Raised).isSome = true ∨ ∃ m', some m = some m' ∧ (p.1, m'.engineId) ∈ registered ∧
          PromotionFails f s p.1 m') ↔ (p.1, m.engineId) ∈ registered ∧ PromotionFails f s p.1 m := by simp
      rw [hfails]
      dsimp only
      split
      · next hkey =>
        rw [← promoteToShm_raises, and_iff_right hkey]
        rcases promoteToShm f s p.1 m with ⟨s₁, e | b⟩
        · exact iff_of_true (raises_error e) (raises_error e)
        · exact iff_of_false (not_raises_ok _) (not_raises_ok _)
      · next hkey =>
        refine iff_of_false ?_ fun h => hkey h.1
        rcases bindAndRegister f mount s p.1 m with ⟨s₁, e | _ | _⟩
        · exact not_raises_ok _
        · exact not_raises_ok _
        · exact not_raises_ok _

theorem scanLoop_raises : Raises (scanLoop looks mount ps s registered).2 ↔ ¬Quiet looks mount ps s registered := by
  induction ps generalizing s registered with
  | nil => exact iff_of_false (not_raises_ok _) (not_not.mpr trivial)
  | cons p ps ih =>
    have hlook := @look_raises ρ (looks p.1) mount s registered p
    simp only [scanLoop, Quiet]
    rcases hl : look (looks p.1) mount s registered p with ⟨s₁, e | registered₁⟩
    · rw [hl] at hlook
      exact iff_of_true (raises_error e) fun h => h.1 (hlook.mp (raises_error e))
    · rw [hl] at hlook
      have hquiet : ¬LookFails (looks p.1) s registered p := fun h => not_raises_ok _ (hlook.mpr h)
      refine ih.trans (not_congr ⟨fun h => ⟨hquiet, ?_⟩, fun h => h.2 s₁ registered₁ rfl⟩)
      rintro _ _ ⟨⟩
      exact h

/-- A loop that ends has come to every package, and returns what is recorded. -/
theorem scanLog_of_ok (h : scanLoop looks mount ps s registered = (s', .ok registered')) :
    scanLog looks mount ps s registered = (ps.map Prod.fst, registered') := by
  induction ps generalizing s registered with
  | nil =>
    cases h
    rfl
  | cons p ps ih =>
    simp only [scanLoop] at h
    simp only [scanLog, List.map_cons]
    rcases hl : look (looks p.1) mount s registered p with ⟨s₁, e | registered₁⟩
    · rw [hl] at h
      cases h
    · rw [hl] at h
      dsimp only
      rw [ih h]

theorem discoverEngines_raises {round : Round ρ} :
    Raises (discoverEngines round mount s registered).2 ↔ ¬round.Quiet mount s registered := by
  unfold discoverEngines Round.Quiet
  cases round.listing with
  | ok dir => exact scanLoop_raises
  | error e =>
    cases e with
    | os => exact iff_of_false (not_raises_ok _) (not_not.mpr rfl)
    | unsupported => exact iff_of_true (raises_error _) (by simp)
    | synno => exact iff_of_true (raises_error _) (by simp)
    | resource => exact iff_of_true (raises_error _) (by simp)
    | other => exact iff_of_true (raises_error _) (by simp)

end

/-! ## The router's own call -/

/-- The result is built of the table. -/
def Converts (w : Call Tbl Bound Result) (b : EngineBinding) (table : Tbl) : Prop :=
  ∃ result, w.toSynnoResult table b.outputSchema = .ok result

/-- What `route` needs of the engine's table. -/
def TableServed (r : QueryRouter) (w : Call Tbl Bound Result) (b : EngineBinding) (table : Tbl) : Prop :=
  if (r.countExecution b).shouldCrossCheck b.templateId w.random && w.conn then
    match w.duckdb with
    | .error _ => True
    | .ok reference => match w.resultsEqual table reference with
      | .error _ => Converts w b reference
      | .ok false => (∃ diverged, w.resultsDiff table reference = .ok diverged) ∧ Converts w b reference
      | .ok true => Converts w b table
  else Converts w b table

/-- After a match a fallback raises in `bespoke_only` mode. -/
def RouteReturns (r : QueryRouter) (w : Call Tbl Bound Result) : Prop :=
  match (r.prepare w).2 with
  | .error (_, matched) => matched = true → r.policy.mode ≠ .bespokeOnly
  | .ok (b, bound) => match w.engineRun b.queryId bound with
    | .error _ => r.policy.mode ≠ .bespokeOnly
    | .ok table => TableServed r w b table

section
variable {r : QueryRouter} {w : Call Tbl Bound Result} {b : EngineBinding} {t : RouteTrace} {table : Tbl}

theorem fallback_raises {reason : String} {matched : Bool} :
    Raises (r.fallback t reason matched : QueryRouter × Except String (RouteDecision Result)).2 ↔
      matched = true ∧ r.policy.mode = .bespokeOnly := by
  unfold QueryRouter.fallback
  dsimp only
  split
  · next h => exact iff_of_true (raises_error _) (by simpa using h)
  · next h => exact iff_of_false (not_raises_ok _) (by simpa using h)

theorem serveReference_raises : Raises (r.serveReference t w table b).2 ↔ ¬Converts w b table := by
  unfold QueryRouter.serveReference Converts
  cases w.toSynnoResult table b.outputSchema with
  | error e => exact iff_of_true (raises_error e) (by simp)
  | ok result => exact iff_of_false (not_raises_ok _) (not_not.mpr ⟨result, rfl⟩)

theorem serveEngine_raises : Raises (r.serveEngine t w table b).2 ↔ ¬Converts w b table := by
  unfold QueryRouter.serveEngine Converts
  dsimp only
  cases w.toSynnoResult table b.outputSchema with
  | error e => exact iff_of_true (raises_error e) (by simp)
  | ok result => exact iff_of_false (not_raises_ok _) (not_not.mpr ⟨result, rfl⟩)

theorem mode_of_shouldCrossCheck {templateId : String} (h : r.shouldCrossCheck templateId w.random = true) :
    r.policy.mode ≠ .bespokeOnly := by
  unfold QueryRouter.shouldCrossCheck at h
  intro hmode
  rw [if_pos hmode] at h
  cases h

/-- A check never falls back in `bespoke_only` mode, where nothing is checked. -/
theorem tableServed_iff : Raises (if (r.countExecution b).shouldCrossCheck b.templateId w.random && w.conn then
      (r.countExecution b).crossCheck t w table b else (r.countExecution b).serveEngine t w table b).2 ↔
    ¬TableServed r w b table := by
  unfold TableServed
  split
  · next hcheck =>
    have hmode := mode_of_shouldCrossCheck (Bool.and_eq_true_iff.mp hcheck).1
    unfold QueryRouter.crossCheck
    cases w.duckdb with
    | error e => exact iff_of_false (fun h => hmode (fallback_raises.mp h).2) (not_not.mpr trivial)
    | ok reference =>
      dsimp only
      cases w.resultsEqual table reference with
      | error e => exact serveReference_raises
      | ok same =>
        cases same with
        | true => exact serveEngine_raises
        | false =>
          dsimp only
          cases w.resultsDiff table reference with
          | error e => exact iff_of_true (raises_error e) (by simp)
          | ok diverged => exact serveReference_raises.trans (by simp)
  · exact serveEngine_raises

theorem recordFailure_policy : (r.recordFailure b).policy = r.policy := by
  unfold QueryRouter.recordFailure
  dsimp only
  split
  · rfl
  · rfl

theorem route_raises : Raises (r.route w).2 ↔ ¬RouteReturns r w := by
  unfold QueryRouter.route RouteReturns
  rcases r.prepare w with ⟨t, ⟨reason, matched⟩ | ⟨b, bound⟩⟩
  · exact fallback_raises.trans (by simp)
  · dsimp only
    cases w.engineRun b.queryId bound with
    | error e => exact fallback_raises.trans (by simp [recordFailure_policy])
    | ok table => exact tableServed_iff

end

/-! ## What a query meets -/

namespace Connection

variable (c : Connection ρ) (x : Execute ρ Tbl Bound Result)

def routes : Bool := c.router.any fun r => r.policy.routingActive

/-- The query is one whose `execute` scans. -/
def scans : Bool := c.routes && c.due x.now

/-- What the claim asks for: only DuckDB raises, each package is looked at, and what is recorded stays recorded. -/
structure Unharmed : Prop where
  raises : ∀ e, (c.execute x).2 = .error e → x.duckdb.isSome ∧ ∃ d, e = .duckdb d
  scanned : c.scans x = true → ∀ dir, x.round.listing = .ok dir →
    (scanLog x.round.looks c.mount (children dir) c.session c.registered).1 = (children dir).map Prod.fst ∧
      (c.execute x).1.registered = (scanLog x.round.looks c.mount (children dir) c.session c.registered).2

/-- No look of the scan fails, and then the router's own call returns. -/
structure Calm : Prop where
  quiet : c.scans x = true → x.round.Quiet c.mount c.session c.registered
  returns : ∀ r, c.router = some r → r.policy.routingActive = true →
    RouteReturns { r with registry := (c.maybeDiscover x.now x.round).1.session.registry } x.call

variable {c x}

theorem runDuckdb_error {e : Failure} (h : (c.runDuckdb x).2 = .error e) : x.duckdb.isSome ∧ ∃ d, e = .duckdb d := by
  unfold runDuckdb at h
  cases hd : x.duckdb with
  | none =>
    rw [hd] at h
    cases h
  | some d =>
    rw [hd] at h
    exact ⟨rfl, d, (Except.error.inj h).symm⟩

theorem runDuckdb_registered : (c.runDuckdb x).1.registered = c.registered := by
  unfold runDuckdb
  cases x.duckdb <;> rfl

theorem routeAndServe_registered (r : QueryRouter) : (c.routeAndServe x r).1.registered = c.registered := by
  unfold routeAndServe
  rcases QueryRouter.route { r with registry := c.session.registry } x.call with ⟨r', e | d⟩
  · rfl
  · dsimp only
    split
    · rfl
    · exact runDuckdb_registered

theorem routeAndServe_error (r : QueryRouter) :
    (∀ e, (c.routeAndServe x r).2 = .error e → x.duckdb.isSome ∧ ∃ d, e = .duckdb d) ↔
      RouteReturns { r with registry := c.session.registry } x.call := by
  have hroute := route_raises (r := { r with registry := c.session.registry }) (w := x.call)
  unfold routeAndServe
  rcases hr : QueryRouter.route { r with registry := c.session.registry } x.call with ⟨r', e | d⟩
  · rw [hr] at hroute
    refine iff_of_false (fun h => ?_) (hroute.mp (raises_error e))
    obtain ⟨-, d, hd⟩ := h _ rfl
    cases hd
  · rw [hr] at hroute
    refine iff_of_true (fun e he => ?_) (not_not.mp fun h => not_raises_ok d (hroute.mpr h))
    dsimp only at he
    split at he
    · cases he
    · exact runDuckdb_error he

theorem maybeDiscover_idle (h : c.due x.now = false) : c.maybeDiscover x.now x.round = (c, none) := by
  rw [maybeDiscover, h]
  rfl

/-- A scan that is left keeps nothing of what it recorded. -/
theorem maybeDiscover_raises (h : c.due x.now = true) : (∃ e, (c.maybeDiscover x.now x.round).2 = some e) ↔
    ¬x.round.Quiet c.mount c.session c.registered := by
  rw [← discoverEngines_raises, maybeDiscover, h, if_pos rfl, discoverNow]
  dsimp only
  rcases discoverEngines x.round c.mount c.session c.registered with ⟨s, e | registered⟩
  · exact iff_of_true ⟨e, rfl⟩ (raises_error e)
  · exact iff_of_false (by simp) (not_raises_ok _)

theorem maybeDiscover_recorded (h : c.due x.now = true) (hok : (c.maybeDiscover x.now x.round).2 = none)
    {dir : EnginesDir ρ} (hdir : x.round.listing = .ok dir) :
    scanLog x.round.looks c.mount (children dir) c.session c.registered =
      ((children dir).map Prod.fst, (c.maybeDiscover x.now x.round).1.registered) := by
  rw [maybeDiscover, h, if_pos rfl, discoverNow] at hok ⊢
  have hdisc : discoverEngines x.round c.mount c.session c.registered =
      scanLoop x.round.looks c.mount (children dir) c.session c.registered := by
    rw [discoverEngines, hdir]
  dsimp only at hok ⊢
  rw [hdisc] at hok ⊢
  rcases hl : scanLoop x.round.looks c.mount (children dir) c.session c.registered with ⟨s, e | registered⟩
  · rw [hl] at hok
    cases hok
  · exact scanLog_of_ok hl

end Connection

open Connection

variable {c : Connection ρ} {x : Execute ρ Tbl Bound Result}

theorem execute_unrouted (hread : x.readOnly = true) (h : c.routes = false) : c.execute x = c.runDuckdb x := by
  unfold execute
  unfold routes at h
  cases hr : c.router with
  | none => rfl
  | some r =>
    rw [hr] at h
    have hactive : r.policy.routingActive = false := h
    simp [hread, hactive]

theorem execute_routed (hread : x.readOnly = true) {r : QueryRouter} (hr : c.router = some r)
    (h : r.policy.routingActive = true) : c.execute x = match c.maybeDiscover x.now x.round with
      | (c, some e) => (c, .error (.scan e))
      | (c, none) => c.routeAndServe x r := by
  unfold execute
  rw [hr]
  simp [hread, h]

/-- What leaves the loop leaves `execute`. -/
theorem execute_scan_raises (hread : x.readOnly = true) (hscans : c.scans x = true) {dir : EnginesDir ρ}
    (hdir : x.round.listing = .ok dir) {e : Raised}
    (h : (scanLoop x.round.looks c.mount (children dir) c.session c.registered).2 = .error e) :
    (c.execute x).2 = .error (.scan e) := by
  obtain ⟨hroutes, hdue⟩ := Bool.and_eq_true_iff.mp hscans
  obtain ⟨r, hr, hactive⟩ := (Option.any_eq_true _ _).mp hroutes
  rw [execute_routed hread hr hactive, maybeDiscover, hdue, if_pos rfl, discoverNow, discoverEngines, hdir]
  dsimp only
  rcases hl : scanLoop x.round.looks c.mount (children dir) c.session c.registered with ⟨s, e' | registered⟩
  · rw [hl] at h
    rw [Except.error.inj h]
  · rw [hl] at h
    cases h

/-- **A read is spared by its scan iff no look fails where nothing catches it**, whatever the packages, the state
and the failures are. -/
theorem execute_unharmed_iff (c : Connection ρ) (x : Execute ρ Tbl Bound Result) (hread : x.readOnly = true) :
    c.Unharmed x ↔ c.Calm x := by
  cases hroutes : c.routes with
  | false =>
    have hscans : c.scans x = false := by rw [scans, hroutes, Bool.false_and]
    refine iff_of_true ⟨fun e he => ?_, fun h => absurd h (by rw [hscans]; exact Bool.false_ne_true)⟩
      ⟨fun h => absurd h (by rw [hscans]; exact Bool.false_ne_true), fun r hr hactive => ?_⟩
    · rw [execute_unrouted hread hroutes] at he
      exact runDuckdb_error he
    · rw [routes, hr] at hroutes
      exact absurd hactive (by rw [show r.policy.routingActive = false from hroutes]; exact Bool.false_ne_true)
  | true =>
    obtain ⟨r, hr, hactive⟩ := (Option.any_eq_true _ _).mp hroutes
    have hscans : c.scans x = c.due x.now := by rw [scans, hroutes, Bool.true_and]
    have hexec := execute_routed hread hr hactive
    cases hm : c.maybeDiscover x.now x.round with
    | mk c' err =>
      cases err with
      | some e =>
        rw [hm] at hexec
        have hdue : c.due x.now = true := by
          by_contra h
          rw [maybeDiscover_idle (Bool.not_eq_true _ ▸ h)] at hm
          cases hm
        refine iff_of_false (fun h => ?_) fun h => ?_
        · obtain ⟨-, d, hd⟩ := h.raises (.scan e) (by rw [hexec])
          cases hd
        · exact (maybeDiscover_raises hdue).mp ⟨e, by rw [hm]⟩ (h.quiet (hscans.trans hdue))
      | none =>
        rw [hm] at hexec
        have hquiet : c.scans x = true → x.round.Quiet c.mount c.session c.registered := by
          intro hs
          by_contra h
          obtain ⟨e, he⟩ := (maybeDiscover_raises (hscans.symm.trans hs)).mpr h
          rw [hm] at he
          cases he
        have hscanned : c.scans x = true → ∀ dir, x.round.listing = .ok dir →
            (scanLog x.round.looks c.mount (children dir) c.session c.registered).1 = (children dir).map Prod.fst ∧
              (c.execute x).1.registered = (scanLog x.round.looks c.mount (children dir) c.session c.registered).2 := by
          intro hs dir hdir
          rw [maybeDiscover_recorded (hscans.symm.trans hs) (by rw [hm]) hdir, hexec, hm]
          exact ⟨rfl, routeAndServe_registered r⟩
        have herror := routeAndServe_error (c := c') (x := x) r
        constructor
        · intro h
          refine ⟨hquiet, fun r' hr' _ => ?_⟩
          obtain rfl := Option.some.inj (hr.symm.trans hr')
          rw [hm]
          exact herror.mp fun e he => h.raises e (by rw [hexec]; exact he)
        · intro h
          refine ⟨fun e he => ?_, hscanned⟩
          have hreturns := h.returns r hr hactive
          rw [hm] at hreturns
          rw [hexec] at he
          exact herror.mpr hreturns e he

/-! ## Too little shared memory -/

/-- A statement that matches no template. -/
def unmatched : Call Nat Unit Nat where
  normalized := none
  guards := fun _ _ => []
  bind := fun _ => none
  engineRun := fun _ _ => .error ""
  conn := true
  random := 0
  duckdb := .ok 0
  resultsEqual := fun _ _ => .ok true
  resultsDiff := fun _ _ => .ok ""
  toSynnoResult := fun table _ => .ok table

/-- Over packages with a snapshot, where no ingest fits into shared memory. -/
def readAt (now : Rat) (names : List String) : Execute Nat Nat Unit Nat where
  readOnly := true
  now := now
  round := {
    listing := .ok (names.map fun name => (name, some (snapshotPackage true)))
    looks := fun _ => calm plainSql .tooSmall }
  call := unmatched
  duckdb := none

def ownConnection : Connection Nat := { session := { tables := ownTable }, router := some { policy := {} } }

theorem routeReturns_unmatched (r : QueryRouter) : RouteReturns r unmatched := by
  unfold RouteReturns QueryRouter.prepare unmatched
  dsimp only
  split_ifs <;> exact fun h => absurd h Bool.false_ne_true

/-- The first query binds the package to its snapshot. -/
theorem execute_unharmed_first : ownConnection.Unharmed (readAt 0 ["p"]) := by
  refine (execute_unharmed_iff ownConnection (readAt 0 ["p"]) rfl).mpr ⟨fun _ => ?_, fun r _ _ => routeReturns_unmatched _⟩
  have hdot : "p".startsWith "." = false := by decide +kernel
  have hchildren : children [("p", some (snapshotPackage true))] = [("p", some (snapshotPackage true))] := by
    simp [children, hdot]
  change Quiet _ _ (children [("p", some (snapshotPackage true))]) _ _
  rw [hchildren]
  refine ⟨?_, fun _ _ _ => trivial⟩
  rintro (h | ⟨m, -, h, -⟩)
  · cases h
  · cases h

theorem children_pq : children (["p", "q"].map fun name => (name, some (snapshotPackage true))) =
    ["p", "q"].map fun name => (name, some (snapshotPackage true)) := by
  have hdots : "p".startsWith "." = false ∧ "q".startsWith "." = false := by decide +kernel
  unfold children
  simp only [List.map_cons, List.map_nil, List.filter_cons, hdots.1, hdots.2, Bool.not_false, if_true, List.filter_nil]
  exact List.mergeSort_of_pairwise (List.pairwise_pair.mpr (by decide +kernel))

/-- The query after it raises, as `_promote_to_shm` tries the ingest again, and the package after it is not looked
at. -/
theorem promotion_too_small : ∃ c, (ownConnection.execute (readAt 0 ["p"])).1 = c ∧
    (ownConnection.execute (readAt 0 ["p"])).2 = .ok none ∧ c.registered = [("p", "e")] ∧
    (c.execute (readAt 2 ["p", "q"])).2 = .error (.scan .resource) ∧
    (scanLog (readAt 2 ["p", "q"]).round.looks c.mount
      (children (["p", "q"].map fun name => (name, some (snapshotPackage true)))) c.session c.registered).1 = ["p"] ∧
    ¬c.Unharmed (readAt 2 ["p", "q"]) := by
  have hraises : ((ownConnection.execute (readAt 0 ["p"])).1.execute (readAt 2 ["p", "q"])).2 = .error (.scan .resource) := by
    refine execute_scan_raises rfl (by decide +kernel) rfl ?_
    rw [children_pq]
    decide +kernel
  refine ⟨_, rfl, by decide +kernel, by decide +kernel, hraises, ?_, fun h => ?_⟩
  · rw [children_pq]
    decide +kernel
  · obtain ⟨hduckdb, -⟩ := h.raises _ hraises
    cases hduckdb

end SynnoDB.Compat.ScanFailures
