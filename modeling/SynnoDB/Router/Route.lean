import SynnoDB.Router.Registry

/-!
# `QueryRouter.route` (`router/router.py`)

| here | there |
| --- | --- |
| `RouterPolicy`, `RouteTrace`, `RouteDecision` | `policy.py`, `observe.py`, `router.py:42` |
| `QueryRouter`      | the router's own fields and the registry it shares |
| `Call`             | what one `route` call meets outside the router: see below |
| `prepare`          | steps 1–5: policy gate, empty registry, normalize, match, guards, bind |
| `shouldCrossCheck` | `_should_cross_check` (`:135-149`) |
| `crossCheck`       | step 6 (`:341-421`), `serveReference` = `_serve_reference` |
| `route`            | `route` (`:242-427`) |

A `Call` fixes, for one call, what the parser, the guards, the binder, the engine, DuckDB, the two
comparison functions of `adapt.py`, `to_synno_result` and the random generator answer; nothing is assumed
about them. An answer `.error e` is a raised exception. Logging and the timing table are left out.
`route` returns the new router and either the decision or the exception that leaves it.
-/

namespace SynnoDB.Router

inductive RouterMode where
  | off
  | sampled
  | bespokeOnly
deriving DecidableEq, Repr

structure RouterPolicy where
  mode : RouterMode := .sampled
  enabled : Bool := true
  crossCheckRate : Rat := 1 / 10
  verifyFirstN : Int := 10
  breakerThreshold : Int := 3
deriving DecidableEq, Repr

def RouterPolicy.routingActive (p : RouterPolicy) : Bool := p.enabled && p.mode ≠ .off

inductive ServedBy where
  | engine
  | duckdb
deriving DecidableEq, Repr

structure RouteTrace where
  decision : String := "pending"
  reason : String := ""
  template : Option String := none
  guardResults : List (String × Bool × String) := []
  crossChecked : Bool := false
  resultsMatch : Option Bool := none
  servedBy : Option ServedBy := none
deriving DecidableEq, Repr

namespace RouteTrace

def fellBack (t : RouteTrace) (reason : String) : RouteTrace := { t with decision := "fallback", reason := reason }

def routed (t : RouteTrace) (template : String) : RouteTrace :=
  { t with decision := "bespoke", template := some template, reason := "template match" }

def addGuard (t : RouteTrace) (name : String) (ok : Bool) (detail : String) : RouteTrace :=
  { t with guardResults := t.guardResults ++ [(name, ok, detail)] }

end RouteTrace

structure RouteDecision (Result : Type) where
  routed : Bool
  result : Option Result
  trace : RouteTrace
deriving DecidableEq, Repr

structure Counters where
  routed : Nat := 0
  fellBack : Nat := 0
  crossChecked : Nat := 0
  crossCheckMismatch : Nat := 0
  crossCheckError : Nat := 0
deriving DecidableEq, Repr

structure QueryRouter where
  policy : RouterPolicy
  registry : TemplateRegistry := {}
  failures : Dict String Int := []
  execCounts : Dict String Int := []
  counters : Counters := {}
  fallbackReasons : Dict String Nat := []
deriving Repr

structure Call (Tbl Bound Result : Type) where
  /-- `normalize_sql(sql)`. -/
  normalized : Option String
  /-- The guard results `evaluate` collects, up to the first failure. -/
  guards : EngineBinding → TemplateRegistry → List (String × Bool × String)
  /-- `_bind_placeholders`. -/
  bind : EngineBinding → Option Bound
  /-- `binding.engine.run(query_id, placeholders)`. -/
  engineRun : String → Bound → Except String Tbl
  /-- `conn is not None`. -/
  conn : Bool
  /-- `self._rng.random()`. -/
  random : Rat
  /-- `backend.execute_arrow_timed(sql, parameters)`. -/
  duckdb : Except String Tbl
  resultsEqual : Tbl → Tbl → Except String Bool
  /-- `results_diff` and the message of the `EngineDivergedError` built from it. -/
  resultsDiff : Tbl → Tbl → Except String String
  toSynnoResult : Tbl → List ColumnSpec → Except String Result

variable {Tbl Bound Result : Type}

namespace QueryRouter

def tally (r : QueryRouter) (t : RouteTrace) : QueryRouter :=
  let c := r.counters
  let mismatch := if t.resultsMatch = some false then c.crossCheckMismatch + 1 else c.crossCheckMismatch
  if t.decision = "bespoke" then
    if t.servedBy = some .duckdb then
      { r with counters := { c with crossChecked := c.crossChecked + 1, crossCheckMismatch := mismatch } }
    else if t.crossChecked then
      { r with counters := { c with
          routed := c.routed + 1, crossChecked := c.crossChecked + 1, crossCheckMismatch := mismatch } }
    else { r with counters := { c with routed := c.routed + 1 } }
  else if t.decision = "fallback" then
    { r with
      counters := { c with fellBack := c.fellBack + 1 }
      fallbackReasons := r.fallbackReasons.set t.reason (r.fallbackReasons.getD t.reason 0 + 1) }
  else r

/-- `_finish`. -/
def finish (r : QueryRouter) (d : RouteDecision Result) : QueryRouter × Except String (RouteDecision Result) :=
  (r.tally d.trace, .ok d)

/-- `_fallback` (`:124-133`): in `bespoke_only` mode a fallback after a match raises. -/
def fallback (r : QueryRouter) (t : RouteTrace) (reason : String) (matched : Bool) :
    QueryRouter × Except String (RouteDecision Result) :=
  let t := t.fellBack reason
  if matched && r.policy.mode = .bespokeOnly then (r, .error ("bespoke_only: routing failed (" ++ reason ++ ")"))
  else r.finish ⟨false, none, t⟩

/-- `_should_cross_check`. -/
def shouldCrossCheck (r : QueryRouter) (templateId : String) (random : Rat) : Bool :=
  if r.policy.mode = .bespokeOnly then false
  else if r.policy.crossCheckRate ≤ 0 then false
  else if r.execCounts.getD templateId 0 ≤ r.policy.verifyFirstN then true
  else if 1 ≤ r.policy.crossCheckRate then true
  else random < r.policy.crossCheckRate

/-- `_record_failure` (`:206-224`): the breaker. -/
def recordFailure (r : QueryRouter) (b : EngineBinding) : QueryRouter :=
  let count := r.failures.getD b.templateId 0 + 1
  let r := { r with failures := r.failures.set b.templateId count }
  if r.policy.breakerThreshold ≤ count ∧ ¬ r.registry.isQuarantined b.templateId then
    { r with registry := r.registry.quarantine b.templateId }
  else r

def recordSuccess (r : QueryRouter) (b : EngineBinding) : QueryRouter :=
  { r with failures := r.failures.erase b.templateId }

/-- Steps 1–5: the reason to fall back (and whether a template had matched), or what to execute. -/
def prepare (r : QueryRouter) (w : Call Tbl Bound Result) :
    RouteTrace × Except (String × Bool) (EngineBinding × Bound) :=
  let t : RouteTrace := {}
  if !r.policy.routingActive then
    (t, .error (if !r.policy.enabled then "router disabled" else "mode=off", false))
  else if r.registry.len = 0 then (t, .error ("no engines registered", false))
  else match w.normalized with
    | none => (t, .error ("unparseable SQL", false))
    | some normalized => match r.registry.match? normalized with
      | none => (t, .error ("no template match", false))
      | some b =>
        let results := w.guards b r.registry
        let t := results.foldl (fun t (name, passed, detail) => t.addGuard name passed detail) t
        if !results.all fun (_, passed, _) => passed then
          (t, .error ((results.getLast?.map fun (_, _, detail) => detail).getD "guard failed", true))
        else match w.bind b with
          | none => (t, .error ("placeholder binding failed (constant/structure mismatch)", true))
          | some bound => (t, .ok (b, bound))

def serveReference (r : QueryRouter) (t : RouteTrace) (w : Call Tbl Bound Result) (reference : Tbl)
    (b : EngineBinding) : QueryRouter × Except String (RouteDecision Result) :=
  let t := { t with servedBy := some .duckdb }
  match w.toSynnoResult reference b.outputSchema with
  | .error e => (r, .error e)
  | .ok result => r.finish ⟨true, some result, t⟩

/-- The tail of `route`: the engine's table goes to the caller. -/
def serveEngine (r : QueryRouter) (t : RouteTrace) (w : Call Tbl Bound Result) (table : Tbl) (b : EngineBinding) :
    QueryRouter × Except String (RouteDecision Result) :=
  let r := r.recordSuccess b
  let t := { t with servedBy := some .engine }
  match w.toSynnoResult table b.outputSchema with
  | .error e => (r, .error e)
  | .ok result => r.finish ⟨true, some result, t⟩

def countCheckError (r : QueryRouter) : QueryRouter :=
  { r with counters := { r.counters with crossCheckError := r.counters.crossCheckError + 1 } }

/-- Step 6 for a call that was selected. -/
def crossCheck (r : QueryRouter) (t : RouteTrace) (w : Call Tbl Bound Result) (table : Tbl) (b : EngineBinding) :
    QueryRouter × Except String (RouteDecision Result) :=
  match w.duckdb with
  | .error e => r.countCheckError.fallback t ("cross-check reference error: " ++ e) true
  | .ok reference =>
    let t := { t with crossChecked := true }
    match w.resultsEqual table reference with
    | .error e =>
      let t := t.addGuard "cross_check" false ("cross-check comparison error: " ++ e)
      (r.countCheckError.recordFailure b).serveReference t w reference b
    | .ok false =>
      let t := { t with resultsMatch := some false }
      -- the report is built before the quarantine, outside any `try`
      match w.resultsDiff table reference with
      | .error e => (r, .error e)
      | .ok diverged =>
        let t := t.addGuard "cross_check" false diverged
        { r with registry := r.registry.quarantine b.templateId }.serveReference t w reference b
    | .ok true => r.serveEngine { t with resultsMatch := some true } w table b

def countExecution (r : QueryRouter) (b : EngineBinding) : QueryRouter :=
  { r with execCounts := r.execCounts.set b.templateId (r.execCounts.getD b.templateId 0 + 1) }

def route (r : QueryRouter) (w : Call Tbl Bound Result) : QueryRouter × Except String (RouteDecision Result) :=
  match r.prepare w with
  | (t, .error (reason, matched)) => r.fallback t reason matched
  | (t, .ok (b, bound)) =>
    match w.engineRun b.queryId bound with
    | .error e => (r.recordFailure b).fallback t ("engine error: " ++ e) true
    | .ok table =>
      let t := t.routed b.templateId
      let r := r.countExecution b
      if r.shouldCrossCheck b.templateId w.random && w.conn then r.crossCheck t w table b
      else r.serveEngine t w table b

end QueryRouter

end SynnoDB.Router
