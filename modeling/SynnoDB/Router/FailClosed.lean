import Mathlib
import SynnoDB.Lib.Trace
import SynnoDB.Router.Adapt
import SynnoDB.Router.Route

/-!
# The router is fail-closed, unless the report of a divergence raises

A run is any sequence of `route` calls and registry operations; its log keeps what each call executed,
whether it was selected for checking, and what left `route`. `FailClosed` reads the four guarantees off a
log. They hold in every run whose checks that do not pass can be reported (`Reportable`): `route` builds
`results_diff` before it quarantines and outside any `try` (`router.py:404-416`), so a report that raises
leaves the engine unquarantined and the caller without a reference (`infinity_unquarantined`).
-/

namespace SynnoDB.Router

variable {Tbl Bound Result : Type}

/-! ## Runs and what they are read by -/

/-- One `route` call as the log keeps it. -/
structure Event (Tbl Bound Result : Type) where
  call : Call Tbl Bound Result
  /-- The binding whose engine returned a table, and the table. -/
  executed : Option (EngineBinding × Tbl)
  selected : Bool
  outcome : Except String (RouteDecision Result)

inductive Entry (Tbl Bound Result : Type) where
  | route (e : Event Tbl Bound Result)
  | reset (templateId : Option String)

namespace Event

variable (e : Event Tbl Bound Result)

def templateId : Option String := e.executed.map fun p => p.1.templateId

/-- What `results_equal` said of the engine's table and this call's DuckDB reference. -/
def verdict : Option Bool :=
  match e.executed, e.call.duckdb with
  | some (_, table), .ok reference =>
    if e.selected then (e.call.resultsEqual table reference).toOption else none
  | _, _ => none

end Event

/-- The call executed `t`'s engine. -/
def Entry.executes (t : String) : Entry Tbl Bound Result → Bool
  | .route e => e.templateId = some t
  | .reset _ => false

/-- `t`'s engine was found to differ, and its quarantine was not reset since (newest entry first). -/
def diverged (t : String) : List (Entry Tbl Bound Result) → Bool
  | [] => false
  | .route e :: older => (e.templateId = some t && e.verdict = some false) || diverged t older
  | .reset none :: _ => false
  | .reset (some u) :: older => u ≠ t && diverged t older

/-- (a)–(d) for a log, newest entry first. -/
structure FailClosed (verifyFirstN : Int) (log : List (Entry Tbl Bound Result)) : Prop where
  engine : ∀ e older, .route e :: older <:+ log → ∀ d, e.outcome = .ok d → d.trace.servedBy = some .engine →
    (e.selected = false ∨ e.verdict = some true) ∧ ∃ b table result, e.executed = some (b, table) ∧
      e.call.toSynnoResult table b.outputSchema = .ok result ∧ d.routed = true ∧ d.result = some result
  burnIn : ∀ e older, .route e :: older <:+ log → ∀ t, e.templateId = some t →
    (older.countP (·.executes t) : Int) < verifyFirstN → e.selected = true
  quarantined : ∀ e older, .route e :: older <:+ log → ∀ t, e.templateId = some t → diverged t older = false
  reference : ∀ e older, .route e :: older <:+ log → e.selected = true → e.verdict ≠ some true →
    ∃ d, e.outcome = .ok d ∧ (d.routed = false ∧ d.result = none ∨
      ∃ b table ref result, e.executed = some (b, table) ∧ e.call.duckdb = .ok ref ∧
        e.call.toSynnoResult ref b.outputSchema = .ok result ∧ d.routed = true ∧ d.result = some result ∧
        d.trace.servedBy = some .duckdb)

structure Run (Tbl Bound Result : Type) where
  router : QueryRouter
  log : List (Entry Tbl Bound Result) := []

inductive Op (Tbl Bound Result : Type) where
  | route (w : Call Tbl Bound Result)
  | resetQuarantine (templateId : Option String)
  | register (b : EngineBinding)
  | unregister (normalizedSql : String)
  | markTablesDirty (tables : List String)
  | clearDirty (tables : Option (List String))

namespace QueryRouter

variable (r : QueryRouter) (w : Call Tbl Bound Result)

def executed : Option (EngineBinding × Tbl) :=
  match r.prepare w with
  | (_, .ok (b, bound)) => (w.engineRun b.queryId bound).toOption.map fun table => (b, table)
  | (_, .error _) => none

/-- Whether the call's execution of `b` is checked. -/
def selected (b : EngineBinding) : Bool := (r.countExecution b).shouldCrossCheck b.templateId w.random && w.conn

def event : Event Tbl Bound Result where
  call := w
  executed := r.executed w
  selected := (r.executed w).any fun p => r.selected w p.1
  outcome := (r.route w).2

end QueryRouter

namespace Run

def step (s : Run Tbl Bound Result) : Op Tbl Bound Result → Option (Run Tbl Bound Result)
  | .route w => some ⟨(s.router.route w).1, .route (s.router.event w) :: s.log⟩
  | .resetQuarantine t =>
    some ⟨{ s.router with registry := s.router.registry.resetQuarantine t }, .reset t :: s.log⟩
  | .register b => some { s with router := { s.router with registry := s.router.registry.register b } }
  | .unregister k => some { s with router := { s.router with registry := s.router.registry.unregister k } }
  | .markTablesDirty ts =>
    some { s with router := { s.router with registry := s.router.registry.markTablesDirty ts } }
  | .clearDirty ts => some { s with router := { s.router with registry := s.router.registry.clearDirty ts } }

/-- A call has a connection, and if its check does not pass, the divergence can be reported and the
reference wrapped. -/
def Reportable (s : Run Tbl Bound Result) : Op Tbl Bound Result → Prop
  | .route w => w.conn = true ∧ ∀ b table ref, s.router.executed w = some (b, table) →
      s.router.selected w b = true → w.duckdb = .ok ref → w.resultsEqual table ref ≠ .ok true →
      (∃ result, w.toSynnoResult ref b.outputSchema = .ok result) ∧
      (w.resultsEqual table ref = .ok false → ∃ report, w.resultsDiff table ref = .ok report)
  | _ => True

end Run

/-! ## What `route` keeps -/

namespace QueryRouter

/-- `r'` has `r`'s policy and execution counts and lifts none of its quarantines. -/
structure Keeps (r r' : QueryRouter) : Prop where
  policy : r'.policy = r.policy
  execCounts : r'.execCounts = r.execCounts
  quarantined : ∀ t ∈ r.registry.quarantined, t ∈ r'.registry.quarantined

variable {r r' r'' : QueryRouter} {w : Call Tbl Bound Result} {b : EngineBinding} {t : RouteTrace}

theorem Keeps.refl (r : QueryRouter) : Keeps r r := ⟨rfl, rfl, fun _ h => h⟩

theorem Keeps.trans (h : Keeps r r') (h' : Keeps r' r'') : Keeps r r'' where
  policy := h'.policy.trans h.policy
  execCounts := h'.execCounts.trans h.execCounts
  quarantined t ht := h'.quarantined t (h.quarantined t ht)

theorem keeps_tally (r : QueryRouter) (t : RouteTrace) : Keeps r (r.tally t) := by
  unfold tally
  dsimp only
  split
  · split
    · exact ⟨rfl, rfl, fun _ h => h⟩
    · split <;> exact ⟨rfl, rfl, fun _ h => h⟩
  · split <;> exact ⟨rfl, rfl, fun _ h => h⟩

theorem keeps_fallback (r : QueryRouter) (t : RouteTrace) (reason : String) (matched : Bool) :
    Keeps r (r.fallback t reason matched : QueryRouter × Except String (RouteDecision Result)).1 := by
  unfold fallback
  dsimp only
  split
  · exact .refl r
  · exact keeps_tally r (t.fellBack reason)

theorem keeps_recordFailure (r : QueryRouter) (b : EngineBinding) : Keeps r (r.recordFailure b) := by
  unfold recordFailure
  dsimp only
  split
  · exact ⟨rfl, rfl, fun _ h => by simp [h]⟩
  · exact ⟨rfl, rfl, fun _ h => h⟩

theorem keeps_serveReference (r : QueryRouter) (t : RouteTrace) (w : Call Tbl Bound Result) (ref : Tbl)
    (b : EngineBinding) : Keeps r (r.serveReference t w ref b).1 := by
  unfold serveReference
  dsimp only
  split
  · exact .refl r
  · exact keeps_tally r _

theorem keeps_serveEngine (r : QueryRouter) (t : RouteTrace) (w : Call Tbl Bound Result) (table : Tbl)
    (b : EngineBinding) : Keeps r (r.serveEngine t w table b).1 := by
  have h : Keeps r (r.recordSuccess b) := ⟨rfl, rfl, fun _ h => h⟩
  unfold serveEngine
  dsimp only
  split
  · exact h
  · exact h.trans (keeps_tally _ _)

theorem keeps_quarantine (r : QueryRouter) (u : String) :
    Keeps r { r with registry := r.registry.quarantine u } := ⟨rfl, rfl, fun _ h => by simp [h]⟩

theorem keeps_countCheckError (r : QueryRouter) : Keeps r r.countCheckError := ⟨rfl, rfl, fun _ h => h⟩

theorem keeps_crossCheck (r : QueryRouter) (t : RouteTrace) (w : Call Tbl Bound Result) (table : Tbl)
    (b : EngineBinding) : Keeps r (r.crossCheck t w table b).1 := by
  unfold crossCheck
  split
  · exact (keeps_countCheckError r).trans (keeps_fallback _ _ _ _)
  · dsimp only
    split
    · exact ((keeps_countCheckError r).trans (keeps_recordFailure _ _)).trans (keeps_serveReference _ _ _ _ _)
    · split
      · exact .refl r
      · exact (keeps_quarantine r _).trans (keeps_serveReference _ _ _ _ _)
    · exact keeps_serveEngine _ _ _ _ _

/-- A reported divergence quarantines the template. -/
theorem crossCheck_quarantines {table ref : Tbl} {report : String} (hd : w.duckdb = .ok ref)
    (he : w.resultsEqual table ref = .ok false) (hr : w.resultsDiff table ref = .ok report) :
    b.templateId ∈ (r.crossCheck t w table b).1.registry.quarantined := by
  simp only [crossCheck, hd, he, hr]
  exact (keeps_serveReference _ _ _ _ _).quarantined _ (by simp)

/-! ## What leaves `route` -/

theorem executed_eq {table : Tbl} (h : r.executed w = some (b, table)) :
    ∃ t bound, r.prepare w = (t, .ok (b, bound)) ∧ w.engineRun b.queryId bound = .ok table := by
  unfold executed at h
  split at h
  · rename_i t b' bound hp
    cases he : w.engineRun b'.queryId bound with
    | error e => simp [he, Except.toOption] at h
    | ok table' =>
      simp only [he, Except.toOption, Option.map_some, Option.some.injEq, Prod.mk.injEq] at h
      obtain ⟨rfl, rfl⟩ := h
      exact ⟨t, bound, hp, he⟩
  · cases h

theorem prepare_servedBy (r : QueryRouter) (w : Call Tbl Bound Result) : (r.prepare w).1.servedBy = none := by
  have hguards : ∀ (l : List (String × Bool × String)) (t : RouteTrace), t.servedBy = none →
      (l.foldl (fun t g => t.addGuard g.1 g.2.1 g.2.2) t).servedBy = none := by
    intro l
    induction l with
    | nil => exact fun t h => h
    | cons g l ih => exact fun t h => ih _ h
  unfold prepare
  dsimp only
  split
  · rfl
  split
  · rfl
  split
  · rfl
  split
  · rfl
  · split
    · exact hguards _ _ rfl
    · split <;> exact hguards _ _ rfl

theorem route_executed {table : Tbl} (h : r.executed w = some (b, table)) :
    ∃ t : RouteTrace, t.servedBy = none ∧ r.route w = if r.selected w b then (r.countExecution b).crossCheck t w table b
      else (r.countExecution b).serveEngine t w table b := by
  obtain ⟨t, bound, hp, he⟩ := executed_eq h
  have ht := prepare_servedBy r w
  rw [hp] at ht
  refine ⟨t.routed b.templateId, ht, ?_⟩
  simp only [route, hp, he, selected]
  rfl

/-- A call that executes no engine falls back. -/
theorem route_not_executed (h : r.executed w = none) :
    ∃ r' t reason matched, Keeps r r' ∧ t.servedBy = none ∧ r.route w = r'.fallback t reason matched := by
  have ht := prepare_servedBy r w
  unfold executed at h
  unfold route
  split at h
  · rename_i t b bound hp
    cases he : w.engineRun b.queryId bound with
    | error e =>
      simp only [hp, he] at ht ⊢
      exact ⟨_, _, _, _, keeps_recordFailure r b, ht, rfl⟩
    | ok table => simp [he, Except.toOption] at h
  · rename_i t e hp
    simp only [hp] at ht ⊢
    exact ⟨r, t, e.1, e.2, .refl r, ht, rfl⟩

/-- The matched binding was not quarantined. -/
theorem executed_not_quarantined {table : Tbl} (h : r.executed w = some (b, table)) :
    b.templateId ∉ r.registry.quarantined := by
  obtain ⟨t, bound, hp, -⟩ := executed_eq h
  unfold prepare at hp
  dsimp only at hp
  split at hp
  · cases hp
  split at hp
  · cases hp
  split at hp
  · cases hp
  split at hp
  · cases hp
  · rename_i b' hm
    split at hp
    · cases hp
    split at hp
    · cases hp
    · cases hp
      exact TemplateRegistry.match?_not_quarantined hm

theorem fallback_sampled (r : QueryRouter) (t : RouteTrace) (reason : String) (matched : Bool)
    (hp : r.policy.mode = .sampled) :
      (r.fallback t reason matched : QueryRouter × Except String (RouteDecision Result)).2 =
      .ok ⟨false, none, t.fellBack reason⟩ := by
  simp [fallback, hp, finish]

theorem serveEngine_ok {table : Tbl} {d : RouteDecision Result} (h : (r.serveEngine t w table b).2 = .ok d) :
    ∃ result, w.toSynnoResult table b.outputSchema = .ok result ∧ d.routed = true ∧ d.result = some result := by
  unfold serveEngine at h
  dsimp only at h
  split at h
  · cases h
  · rename_i result hres
    cases h
    exact ⟨result, hres, rfl, rfl⟩

theorem serveReference_ok {ref : Tbl} {result : Result} (h : w.toSynnoResult ref b.outputSchema = .ok result) :
    (r.serveReference t w ref b).2 = .ok ⟨true, some result, { t with servedBy := some .duckdb }⟩ := by
  simp [serveReference, h, finish]

theorem serveReference_servedBy {ref : Tbl} {d : RouteDecision Result} (h : (r.serveReference t w ref b).2 = .ok d) :
    d.trace.servedBy = some .duckdb := by
  unfold serveReference at h
  dsimp only at h
  split at h
  · cases h
  · cases h; rfl

theorem fallback_servedBy {reason : String} {matched : Bool} {d : RouteDecision Result}
    (h : (r.fallback t reason matched).2 = .ok d) : d.trace.servedBy = t.servedBy := by
  unfold fallback at h
  dsimp only at h
  split at h
  · cases h
  · cases h; rfl

/-- The engine's table passes a check only through an equal comparison. -/
theorem crossCheck_engine {table : Tbl} {d : RouteDecision Result} (ht : t.servedBy = none)
    (h : (r.crossCheck t w table b).2 = .ok d) (hs : d.trace.servedBy = some .engine) :
    ∃ ref result, w.duckdb = .ok ref ∧ w.resultsEqual table ref = .ok true ∧
      w.toSynnoResult table b.outputSchema = .ok result ∧ d.routed = true ∧ d.result = some result := by
  unfold crossCheck at h
  split at h
  · rw [fallback_servedBy h, ht] at hs
    cases hs
  · rename_i ref hd
    dsimp only at h
    split at h
    · rw [serveReference_servedBy h] at hs
      cases hs
    · split at h
      · cases h
      · rw [serveReference_servedBy h] at hs
        cases hs
    · rename_i he
      obtain ⟨result, hres, hrt, hdr⟩ := serveEngine_ok h
      exact ⟨ref, result, hd, he, hres, hrt, hdr⟩

/-- A check that does not pass ends in a fallback or in the reference. -/
theorem crossCheck_reference {table : Tbl} (hm : r.policy.mode = .sampled)
    (hne : ∀ ref, w.duckdb = .ok ref → w.resultsEqual table ref ≠ .ok true)
    (hrep : ∀ ref, w.duckdb = .ok ref → (∃ result, w.toSynnoResult ref b.outputSchema = .ok result) ∧
      (w.resultsEqual table ref = .ok false → ∃ report, w.resultsDiff table ref = .ok report)) :
    ∃ d, (r.crossCheck t w table b).2 = .ok d ∧ (d.routed = false ∧ d.result = none ∨
      ∃ ref result, w.duckdb = .ok ref ∧ w.toSynnoResult ref b.outputSchema = .ok result ∧ d.routed = true ∧
        d.result = some result ∧ d.trace.servedBy = some .duckdb) := by
  cases hd : w.duckdb with
  | error e =>
    simp only [crossCheck, hd]
    exact ⟨_, fallback_sampled _ _ _ _ hm, .inl ⟨rfl, rfl⟩⟩
  | ok ref =>
    obtain ⟨⟨result, hres⟩, hdiff⟩ := hrep ref hd
    cases he : w.resultsEqual table ref with
    | error e =>
      simp only [crossCheck, hd, he]
      exact ⟨_, serveReference_ok hres, .inr ⟨ref, result, rfl, hres, rfl, rfl, rfl⟩⟩
    | ok v => cases v with
      | true => exact absurd he (hne ref hd)
      | false =>
        obtain ⟨report, hrepo⟩ := hdiff he
        simp only [crossCheck, hd, he, hrepo]
        exact ⟨_, serveReference_ok hres, .inr ⟨ref, result, rfl, hres, rfl, rfl, rfl⟩⟩

/-! ## One call, as the log sees it -/

theorem event_selected {table : Tbl} (h : r.executed w = some (b, table)) :
    (r.event w).selected = r.selected w b := by
  simp [event, h]

theorem event_selected_none (h : r.executed w = none) : (r.event w).selected = false := by
  simp [event, h]

theorem event_verdict {table ref : Tbl} (h : r.executed w = some (b, table)) (hs : r.selected w b = true)
    (hd : w.duckdb = .ok ref) : (r.event w).verdict = (w.resultsEqual table ref).toOption := by
  simp only [Event.verdict, event_selected h, hs, ↓reduceIte]
  simp only [event, h, hd]

theorem event_templateId {table : Tbl} (h : r.executed w = some (b, table)) :
    (r.event w).templateId = some b.templateId := by
  simp [Event.templateId, event, h]

theorem templateId_eq {u : String} (h : (r.event w).templateId = some u) :
    ∃ b table, r.executed w = some (b, table) ∧ b.templateId = u := by
  simp only [Event.templateId, event, Option.map_eq_some_iff] at h
  obtain ⟨⟨b, table⟩, hb, hu⟩ := h
  exact ⟨b, table, hb, hu⟩

/-- (a) for one call. -/
theorem event_engine {d : RouteDecision Result} (h : (r.event w).outcome = .ok d)
    (hs : d.trace.servedBy = some .engine) :
    ((r.event w).selected = false ∨ (r.event w).verdict = some true) ∧
    ∃ b table result, (r.event w).executed = some (b, table) ∧
      w.toSynnoResult table b.outputSchema = .ok result ∧ d.routed = true ∧ d.result = some result := by
  cases hx : r.executed w with
  | none =>
    obtain ⟨r', t, reason, matched, -, ht, hr⟩ := route_not_executed hx
    rw [event, hr] at h
    rw [fallback_servedBy h, ht] at hs
    cases hs
  | some p =>
    obtain ⟨b, table⟩ := p
    obtain ⟨t, ht, hr⟩ := route_executed hx
    simp only [event, hr] at h
    by_cases hsel : r.selected w b = true
    · rw [if_pos hsel] at h
      obtain ⟨ref, result, hd, he, hres, hrt, hdr⟩ := crossCheck_engine ht h hs
      refine ⟨.inr ?_, b, table, result, hx, hres, hrt, hdr⟩
      rw [event_verdict hx hsel hd, he]
      rfl
    · rw [if_neg hsel] at h
      obtain ⟨result, hres, hrt, hdr⟩ := serveEngine_ok h
      refine ⟨.inl ?_, b, table, result, hx, hres, hrt, hdr⟩
      rw [event_selected hx]
      simpa using hsel

/-- (b) for one call: below the burn-in count every execution is selected. -/
theorem selected_of_burnIn (hm : r.policy.mode = .sampled) (hrate : 0 < r.policy.crossCheckRate)
    (hconn : w.conn = true) (hn : r.execCounts.getD b.templateId 0 < r.policy.verifyFirstN) :
    r.selected w b = true := by
  have hmode : r.policy.mode ≠ .bespokeOnly := by rw [hm]; decide
  have hburn : r.execCounts.getD b.templateId 0 + 1 ≤ r.policy.verifyFirstN := by omega
  simp only [selected, shouldCrossCheck, countExecution, if_neg hmode, if_neg (Rat.not_le.2 hrate), Dict.getD_set,
    ↓reduceIte, if_pos hburn, hconn, Bool.and_self]

/-- (d) for one call. -/
theorem event_reference (hm : r.policy.mode = .sampled) (hs : (r.event w).selected = true)
    (hv : (r.event w).verdict ≠ some true)
    (hrep : ∀ b table ref, r.executed w = some (b, table) → r.selected w b = true → w.duckdb = .ok ref →
      w.resultsEqual table ref ≠ .ok true → (∃ result, w.toSynnoResult ref b.outputSchema = .ok result) ∧
        (w.resultsEqual table ref = .ok false → ∃ report, w.resultsDiff table ref = .ok report)) :
    ∃ d, (r.event w).outcome = .ok d ∧ (d.routed = false ∧ d.result = none ∨
      ∃ b table ref result, (r.event w).executed = some (b, table) ∧ w.duckdb = .ok ref ∧
        w.toSynnoResult ref b.outputSchema = .ok result ∧ d.routed = true ∧ d.result = some result ∧
        d.trace.servedBy = some .duckdb) := by
  cases hx : r.executed w with
  | none => simp [event_selected_none hx] at hs
  | some p =>
    obtain ⟨b, table⟩ := p
    rw [event_selected hx] at hs
    obtain ⟨t, -, hr⟩ := route_executed hx
    have hne : ∀ ref, w.duckdb = .ok ref → w.resultsEqual table ref ≠ .ok true := by
      intro ref hd he
      rw [event_verdict hx hs hd, he] at hv
      exact hv rfl
    obtain ⟨d, hd, h⟩ := crossCheck_reference (t := t) (r := r.countExecution b) (b := b) hm hne
      fun ref hd => hrep b table ref hx hs hd (hne ref hd)
    refine ⟨d, ?_, ?_⟩
    · simp only [event, hr, if_pos hs, hd]
    · rcases h with h | ⟨ref, result, h1, h2, h3⟩
      · exact .inl h
      · exact .inr ⟨b, table, ref, result, hx, h1, h2, h3⟩

/-- A divergence that can be reported quarantines the template. -/
theorem route_quarantines {table ref : Tbl} {report : String} (hx : r.executed w = some (b, table))
    (hs : r.selected w b = true) (hd : w.duckdb = .ok ref) (he : w.resultsEqual table ref = .ok false)
    (hrep : w.resultsDiff table ref = .ok report) : b.templateId ∈ (r.route w).1.registry.quarantined := by
  obtain ⟨t, -, hr⟩ := route_executed hx
  rw [hr, if_pos hs]
  exact crossCheck_quarantines hd he hrep

/-- `route` counts the execution, and otherwise keeps policy, counts and quarantines. -/
theorem route_keeps (r : QueryRouter) (w : Call Tbl Bound Result) :
    Keeps (match r.executed w with | some p => r.countExecution p.1 | none => r) (r.route w).1 := by
  cases hx : r.executed w with
  | none =>
    obtain ⟨r', t, reason, matched, hk, -, hr⟩ := route_not_executed hx
    rw [hr]
    exact hk.trans (keeps_fallback _ _ _ _)
  | some p =>
    obtain ⟨b, table⟩ := p
    obtain ⟨t, -, hr⟩ := route_executed hx
    rw [hr]
    by_cases hs : r.selected w b = true
    · rw [if_pos hs]
      exact keeps_crossCheck _ _ _ _ _
    · rw [if_neg hs]
      exact keeps_serveEngine _ _ _ _ _

end QueryRouter

/-! ## Runs -/

theorem suffix_cons_entry {x y : Entry Tbl Bound Result} {older log : List (Entry Tbl Bound Result)}
    (h : y :: older <:+ x :: log) : y = x ∧ older = log ∨ y :: older <:+ log := by
  rcases List.suffix_cons_iff.1 h with h | h
  · simp only [List.cons.injEq] at h
    exact .inl h
  · exact .inr h

namespace Run

/-- What every reportable step keeps. -/
structure Inv (p : RouterPolicy) (s : Run Tbl Bound Result) : Prop where
  policy : s.router.policy = p
  counts : ∀ t, s.router.execCounts.getD t 0 = s.log.countP (·.executes t)
  quarantined : ∀ t, diverged t s.log = true → t ∈ s.router.registry.quarantined
  closed : FailClosed p.verifyFirstN s.log

theorem inv_init (p : RouterPolicy) : Inv p (⟨{ policy := p }, []⟩ : Run Tbl Bound Result) where
  policy := rfl
  counts t := by simp [Dict.getD]
  quarantined t h := by cases h
  closed := by constructor <;> · intro e older h; simp at h

variable {p : RouterPolicy} {s s' : Run Tbl Bound Result}

theorem failClosed_reset {n : Int} {log : List (Entry Tbl Bound Result)} (h : FailClosed n log) (t : Option String) :
    FailClosed n (.reset t :: log) := by
  have hsuf : ∀ {e : Event Tbl Bound Result} {older}, .route e :: older <:+ .reset t :: log →
      .route e :: older <:+ log := fun h => by
    rcases suffix_cons_entry h with ⟨h, -⟩ | h
    · cases h
    · exact h
  exact ⟨fun e older he => h.engine e older (hsuf he), fun e older he => h.burnIn e older (hsuf he),
    fun e older he => h.quarantined e older (hsuf he), fun e older he => h.reference e older (hsuf he)⟩

theorem inv_route (hm : p.mode = .sampled) (hrate : 0 < p.crossCheckRate) (h : Inv p s)
    {w : Call Tbl Bound Result} (hok : Reportable s (.route w)) :
    Inv p ⟨(s.router.route w).1, .route (s.router.event w) :: s.log⟩ := by
  have hk := QueryRouter.route_keeps s.router w
  have hpol := h.policy
  refine ⟨?_, fun t => ?_, fun t ht => ?_, ?_⟩
  · rw [hk.policy]
    split <;> exact hpol
  · rw [hk.execCounts]
    cases hx : s.router.executed w with
    | none =>
      rw [List.countP_cons_of_neg (by simp [Entry.executes, Event.templateId, QueryRouter.event, hx])]
      exact h.counts t
    | some q =>
      obtain ⟨b, table⟩ := q
      simp only [QueryRouter.countExecution, Dict.getD_set]
      by_cases hbt : b.templateId = t
      · subst hbt
        rw [List.countP_cons_of_pos (by simp [Entry.executes, QueryRouter.event_templateId hx]), if_pos rfl, h.counts]
        simp
      · rw [List.countP_cons_of_neg (by simp [Entry.executes, QueryRouter.event_templateId hx, hbt]), if_neg hbt,
          h.counts]
  · simp only [diverged, Bool.or_eq_true, Bool.and_eq_true, decide_eq_true_eq] at ht
    rcases ht with ⟨hid, hv⟩ | ht
    · obtain ⟨b, table, hx, rfl⟩ := QueryRouter.templateId_eq hid
      have hsel : s.router.selected w b = true := by
        by_contra hsel
        simp [Event.verdict, QueryRouter.event_selected hx, hsel] at hv
        split at hv <;> cases hv
      cases hd : w.duckdb with
      | error e => simp [Event.verdict, QueryRouter.event, hd] at hv
      | ok ref =>
        rw [QueryRouter.event_verdict hx hsel hd] at hv
        cases he : w.resultsEqual table ref with
        | error e => simp [he, Except.toOption] at hv
        | ok v =>
          simp only [he, Except.toOption, Option.some.injEq] at hv
          subst hv
          obtain ⟨report, hrep⟩ := (hok.2 b table ref hx hsel hd (by simp [he])).2 he
          exact QueryRouter.route_quarantines hx hsel hd he hrep
    · refine hk.quarantined t ?_
      split <;> exact h.quarantined t ht
  · refine ⟨fun e older hsuf => ?_, fun e older hsuf t ht hn => ?_, fun e older hsuf t ht => ?_,
      fun e older hsuf => ?_⟩
    · rcases suffix_cons_entry hsuf with ⟨he, rfl⟩ | hsuf
      · cases he
        exact fun d hd hs => QueryRouter.event_engine hd hs
      · exact h.closed.engine e older hsuf
    · rcases suffix_cons_entry hsuf with ⟨he, rfl⟩ | hsuf
      · cases he
        obtain ⟨b, table, hx, rfl⟩ := QueryRouter.templateId_eq ht
        rw [QueryRouter.event_selected hx]
        exact QueryRouter.selected_of_burnIn (hpol ▸ hm) (hpol ▸ hrate) hok.1 (by rw [h.counts, hpol]; exact hn)
      · exact h.closed.burnIn e older hsuf t ht hn
    · rcases suffix_cons_entry hsuf with ⟨he, rfl⟩ | hsuf
      · cases he
        obtain ⟨b, table, hx, rfl⟩ := QueryRouter.templateId_eq ht
        rw [← Bool.not_eq_true]
        exact fun hdiv => QueryRouter.executed_not_quarantined hx (h.quarantined _ hdiv)
      · exact h.closed.quarantined e older hsuf t ht
    · rcases suffix_cons_entry hsuf with ⟨he, rfl⟩ | hsuf
      · cases he
        exact fun hs hv => QueryRouter.event_reference (hpol ▸ hm) hs hv hok.2
      · exact h.closed.reference e older hsuf

theorem inv_reset (h : Inv p s) (t : Option String) :
    Inv p ⟨{ s.router with registry := s.router.registry.resetQuarantine t }, .reset t :: s.log⟩ where
  policy := h.policy
  counts u := by
    rw [List.countP_cons_of_neg (by simp [Entry.executes])]
    exact h.counts u
  quarantined u hu := by
    cases t with
    | none => cases hu
    | some t =>
      simp only [diverged, Bool.and_eq_true, decide_eq_true_eq] at hu
      exact TemplateRegistry.mem_resetQuarantine (h.quarantined u hu.2) (Ne.symm hu.1)
  closed := failClosed_reset h.closed t

theorem inv_step (hm : p.mode = .sampled) (hrate : 0 < p.crossCheckRate) (h : Inv p s) {op : Op Tbl Bound Result}
    (hok : Reportable s op) (hs : step s op = some s') : Inv p s' := by
  cases op with
  | route w => cases hs; exact inv_route hm hrate h hok
  | resetQuarantine t => cases hs; exact inv_reset h t
  | _ => cases hs; exact ⟨h.policy, h.counts, h.quarantined, h.closed⟩

/-- **Fail-closed**: in every run in SAMPLED mode with a positive rate whose failed checks can be reported,
the log has the four guarantees. -/
theorem route_fail_closed (hm : p.mode = .sampled) (hrate : 0 < p.crossCheckRate) (ops : List (Op Tbl Bound Result))
    (hok : Trace.Meets step Reportable ⟨{ policy := p }, []⟩ ops)
    (hrun : Trace.exec step ⟨{ policy := p }, []⟩ ops = some s) : FailClosed p.verifyFirstN s.log :=
  (Trace.exec_invariant (fun _ _ _ h hok hs => inv_step hm hrate h hok hs) (inv_init p) hok hrun).closed

/-! A query `q` without `ORDER BY` over one DOUBLE column, compared by `adapt.py`. -/

def doubles (fs : List PyFloat) : Table := ⟨["x"], fs.map fun f => [.float f]⟩

def doubleCall (engine duckdb : List PyFloat) (random : Rat) : Call Table Unit Table where
  normalized := some "q"
  guards := fun _ _ => []
  bind := fun _ => some ()
  engineRun := fun _ _ => .ok (doubles engine)
  conn := true
  random := random
  duckdb := .ok (doubles duckdb)
  resultsEqual := fun a b => .ok (resultsEqual (fun _ => none) (1 / 1000000) false none a b)
  resultsDiff := fun a b => do
    let _ ← resultsDiff (fun _ => none) (1 / 1000000) false none 8 a b
    return "DIVERGED from DuckDB"
  toSynnoResult := fun t _ => .ok t

def doubleBinding : EngineBinding where
  templateId := "e:1"
  normalizedSql := "q"
  queryId := "1"
  engineId := "e"
  placeholders := []
  outputSchema := [⟨"x", "DOUBLE"⟩]
  tables := ["t"]
  schemaFingerprint := ""
  engine := some 0

def burnInOnce : RouterPolicy := { verifyFirstN := 1 }

def doubleStart : Run Table Unit Table := ⟨{ policy := burnInOnce }, []⟩

/-- A finite divergence is reported and quarantined. -/
def finiteDivergence : List (Op Table Unit Table) :=
  [.register doubleBinding, .route (doubleCall [.fin 2] [.fin 1] (1 / 2)), .route (doubleCall [.fin 2] [.fin 1] (1 / 2))]

theorem route_fail_closed_finite :
    ∃ s, Trace.exec step doubleStart finiteDivergence = some s ∧ FailClosed 1 s.log := by
  refine ⟨_, rfl, route_fail_closed (p := burnInOnce) rfl (by decide +kernel) finiteDivergence ?_ rfl⟩
  have hrep : ∀ s : Run Table Unit Table, Reportable s (.route (doubleCall [.fin 2] [.fin 1] (1 / 2))) := by
    refine fun s => ⟨rfl, fun b table ref hx _ hd _ => ?_⟩
    obtain ⟨t, bound, -, he⟩ := QueryRouter.executed_eq hx
    cases hd
    cases he
    exact ⟨⟨_, rfl⟩, fun _ => ⟨"DIVERGED from DuckDB", by decide +kernel⟩⟩
  exact ⟨trivial, fun s _ => ⟨hrep s, fun s _ => ⟨hrep s, fun _ _ => trivial⟩⟩⟩

/-- The engine returns an infinity where DuckDB returns `1.0`: `route` raises `OverflowError`, and the
next call is served by the engine. -/
def infinity : List (Op Table Unit Table) :=
  [.register doubleBinding, .route (doubleCall [.inf false] [.fin 1] (1 / 2)),
    .route (doubleCall [.inf false] [.fin 1] (1 / 2))]

theorem infinity_unquarantined : ∃ s e older d, Trace.exec step doubleStart infinity = some s ∧
    s.log = .route e :: older ∧ diverged "e:1" older = true ∧ e.outcome = .ok d ∧
    d.trace.servedBy = some .engine ∧ d.result = some (doubles [.inf false]) ∧ ¬ FailClosed 1 s.log := by
  let t : RouteTrace :=
    { decision := "bespoke", reason := "template match", template := some "e:1", servedBy := some .engine }
  refine ⟨_, _, _, ⟨true, some (doubles [.inf false]), t⟩, rfl, rfl, by decide +kernel, ?_, rfl, rfl, fun h => ?_⟩
  · decide +kernel
  have hdiv := h.quarantined _ _ List.suffix_rfl "e:1" (by decide +kernel)
  revert hdiv
  decide +kernel

end Run

end SynnoDB.Router
