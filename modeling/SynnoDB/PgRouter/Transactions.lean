import Mathlib
import SynnoDB.PgRouter.Sessions

/-!
# Intercepted transactions (`intercept.py:109-156`, `:268-300`, `:354-513`, `backend.py:89-137`)

| here | there |
| --- | --- |
| `Event`       | what the handler session and the client of a local transaction see; an end is one by `on_commit` or `on_rollback` |
| `State.held`  | `local_transaction_session`; handler sessions are numbered as they are opened |
| `events`      | the branches of the two transaction handlers, for what they call |
| `Transaction` | the events of one local transaction, told as a whole |

A log is told as transactions one after the other, each delivered in order and committed only when complete and
without an error (`Atomic`). **`COMMIT` and `ROLLBACK` are commands of a simple query only**: an `Execute` of
either is a statement of the route (`executed_commit_errs`). The server's `ReadyForQuery` and errors reach a local
transaction as well, which forgets its own error by the former and does not notice the latter (`error_forgotten`).
-/

namespace SynnoDB.PgRouter.Transactions

inductive Event where
  | begun
  | opened (id : Nat) (route : TransactionRoute)
  | statement (id : Option Nat) (index : Nat) (query : String)
  | error
  /-- With the hook of the handler session, if there is one. -/
  | ended (commit : Bool) (id : Option Nat)
  deriving DecidableEq, Repr

/-- What the session keeps of a local transaction. -/
structure Local where
  active : Bool := false
  route : Option TransactionRoute := none
  index : Nat := 0
  status : TxStatus := .idle
  deriving DecidableEq, Repr

def tx (s : Session) : Local := ⟨s.localTransactionActive, s.localTransactionRoute, s.localTransactionIndex, s.status⟩

section
variable (cfg : Config)

/-- The commands that end a transaction. -/
def endings : List (Option String) := [some "COMMIT", some "END", some "ROLLBACK"]

/-- `invoke_transaction_statement_handler`, unless another statement is due. -/
def deliver (id : Option Nat) (route : TransactionRoute) (index : Nat) (query : String) : List Event :=
  if route.normalizedStructures[index]? = some (cfg.text.normalize query) then [.statement id (index + 1) query] else [.error]

/-- `_handle_transaction_statement_intercept`. -/
def statementEvents (s : Session) (held : Option Nat) (fresh : Nat) (query : String) : List Event :=
  match s.localTransactionRoute with
  | some route => deliver cfg held route s.localTransactionIndex query
  | none => match matchTransactionRoute cfg query with
    | none => []
    | some none => [.error]
    | some (some route) => .opened fresh route :: deliver cfg (some fresh) route 0 query

/-- `_send_local_transaction_end`. -/
def endEvents (s : Session) (held : Option Nat) (commit : Bool) : List Event :=
  if commit && s.localTransactionRoute.any fun r => s.localTransactionIndex < r.normalizedStructures.length then [.error]
  else [.ended commit (s.localTransactionRoute.bind fun _ => held)]

def events (s : Session) (held : Option Nat) (fresh : Nat) : Msg → List Event
  | .query sql =>
    let command := simpleTransactionCommand cfg sql
    if !s.localTransactionActive then
      if command ∈ [some "BEGIN", some "START TRANSACTION"] ∧ cfg.transactionRoutes ≠ [] then [.begun] else []
    else if command = some "ROLLBACK" then endEvents s held false
    else if command ∈ [some "COMMIT", some "END"] then if s.status = .failed then [.error] else endEvents s held true
    else if s.status = .failed then [.error]
    else statementEvents cfg s held fresh sql
  | .execute portal =>
    if s.localTransactionActive then match (s.portalBindings.get (key portal)).bind PortalBinding.sql with
      | none => []
      | some sql => if s.status = .failed then [.error] else statementEvents cfg s held fresh sql
    else []
  | _ => []

end

/-- `local_transaction_session` after an event. -/
def hold (held : Option Nat) : Event → Option Nat
  | .opened id _ => some id
  | .begun | .ended _ _ => none
  | _ => held

structure State where
  /-- `none`: a handler has raised, and the connections are closed. -/
  session : Option Session := some {}
  held : Option Nat := none
  log : List Event := []

/-- How many handler sessions were opened. -/
def opened (log : List Event) : Nat := log.countP fun e => match e with
  | .opened _ _ => true
  | _ => false

inductive Act where
  | client (m : Msg) (h : Handler)
  /-- A `ReadyForQuery` of the server is relayed. -/
  | ready (status : TxStatus)
  /-- An `ErrorResponse` of the server is relayed. -/
  | error

def step (cfg : Config) (st : State) : Act → Option State
  | .client m h => st.session.map fun s => {
      session := (handle cfg s m h).session
      held := (events cfg s st.held (opened st.log) m).foldl hold st.held
      log := st.log ++ events cfg s st.held (opened st.log) m }
  | .ready status => some { st with session := st.session.map fun s => { s with status } }
  | .error => some { st with log := st.log ++ if st.session.any Session.localTransactionActive then [.error] else [] }

/-! ## A transaction as a whole -/

structure Handling where
  id : Nat
  route : TransactionRoute
  delivered : List String

structure Transaction where
  /-- Its handler session, once a statement has matched a route. -/
  handling : Option Handling := none
  errors : Nat := 0
  /-- Whether it was committed, once it is over. -/
  finish : Option Bool := none

def Handling.events (h : Handling) : List Event :=
  .opened h.id h.route :: h.delivered.mapIdx fun i q => .statement (some h.id) (i + 1) q

def Transaction.events (t : Transaction) : List Event :=
  .begun :: (t.handling.elim [] Handling.events ++ List.replicate t.errors .error ++
    t.finish.elim [] fun commit => [.ended commit (t.handling.map Handling.id)])

/-- A prefix of the route's statements is delivered, all of it before a commit; with an error there is none. -/
structure Transaction.Atomic (cfg : Config) (t : Transaction) : Prop where
  delivered : ∀ h ∈ t.handling, h.delivered.map cfg.text.normalize <+: h.route.normalizedStructures
  commit : t.finish = some true → t.errors = 0 ∧ ∀ h ∈ t.handling, h.delivered.length = h.route.normalizedStructures.length

/-- The log is that of atomic transactions, all but the last of them over, each with a handler session of its own. -/
def Told (cfg : Config) (log : List Event) : Prop :=
  ∃ ts : List Transaction, log = ts.flatMap Transaction.events ∧ (∀ t ∈ ts, t.Atomic cfg) ∧
    (∀ t ∈ ts.dropLast, t.finish.isSome) ∧ (ts.filterMap fun t => t.handling.map Handling.id).Nodup

/-- An `Execute` of a command that ends a transaction does what the simple query does. -/
def EndsAlike (cfg : Config) (s : Session) (held : Option Nat) (fresh : Nat) (portal : String) : Prop :=
  ∀ sql, (s.portalBindings.get (key portal)).bind PortalBinding.sql = some sql → simpleTransactionCommand cfg sql ∈ endings →
    events cfg s held fresh (.execute portal) = events cfg s held fresh (.query sql) ∧
      ∀ h, (handle cfg s (.execute portal) h).session.map tx = (handle cfg s (.query sql) h).session.map tx

/-- What is asked of a step beside the log. -/
structure Orderly (cfg : Config) (st : State) (a : Act) : Prop where
  alike : ∀ s ∈ st.session, s.localTransactionActive = true → ∀ portal h, a = .client (.execute portal) h →
    EndsAlike cfg s st.held (opened st.log) portal
  /-- Nothing is retained of a transaction that is over. -/
  idle : ∀ st' commit id, step cfg st a = some st' → st'.log = st.log ++ [.ended commit id] →
    st'.held = none ∧ ∀ s ∈ st'.session, tx s = {}

/-- The statement is refused in any form. -/
def Refused (cfg : Config) (s : Session) (sql : String) : Prop :=
  simpleTransactionCommand cfg sql ≠ some "ROLLBACK" ∧ (s.status = .failed ∨ ∃ route, s.localTransactionRoute = some route ∧
    s.localTransactionIndex < route.normalizedStructures.length ∧
    route.normalizedStructures[s.localTransactionIndex]? ≠ some (cfg.text.normalize sql))

/-- **The condition on a step**: in a local transaction no command that could end it comes by `Execute`, no
`ReadyForQuery` of the server takes an error back, and the server reports none. -/
def Ordinary (cfg : Config) (st : State) (a : Act) : Prop :=
  ∀ s ∈ st.session, s.localTransactionActive = true → match a with
    | .client (.execute portal) _ => ∀ sql, (s.portalBindings.get (key portal)).bind PortalBinding.sql = some sql →
        simpleTransactionCommand cfg sql ∈ endings → Refused cfg s sql
    | .client _ _ => True
    | .ready status => s.status = .failed → status = .failed
    | .error => s.status = .failed

/-! ## What a message does -/

/-- What a message may call and report, with what the session then keeps. -/
inductive Does (cfg : Config) (l : Local) (held : Option Nat) (fresh : Nat) : List Event → Local → Prop where
  | quiet : Does cfg l held fresh [] l
  | begun (h : l.active = false) : Does cfg l held fresh [.begun] { active := true, status := .inTransaction }
  | error (h : l.active = true) : Does cfg l held fresh [.error] { l with status := .failed }
  | delivered {r : TransactionRoute} {q : String} (h : l.active = true) (hf : l.status ≠ .failed) (hr : l.route = some r)
      (hm : r.normalizedStructures[l.index]? = some (cfg.text.normalize q)) :
      Does cfg l held fresh [.statement held (l.index + 1) q] { l with index := l.index + 1 }
  | opened {r : TransactionRoute} {q : String} (h : l.active = true) (hf : l.status ≠ .failed) (hr : l.route = none)
      (hm : r.normalizedStructures[0]? = some (cfg.text.normalize q)) :
      Does cfg l held fresh [.opened fresh r, .statement (some fresh) 1 q] { l with route := some r, index := 1 }
  | ended {commit : Bool} (h : l.active = true)
      (hc : commit = true → l.status ≠ .failed ∧ ∀ r, l.route = some r → r.normalizedStructures.length ≤ l.index) :
      Does cfg l held fresh [.ended commit (l.route.bind fun _ => held)] {}

section
variable {cfg : Config} {s s' : Session} {held : Option Nat} {fresh : Nat} {h : Handler}

theorem transactionError_tx (ha : s.localTransactionActive = true) (code : String) (w : Bool) :
    (transactionError s code w).session.map tx = some { tx s with status := .failed } := by
  simp [transactionError, Outcome.session, tx, ha]

theorem matchTransactionRoute_head {r : TransactionRoute} {q : String}
    (h : matchTransactionRoute cfg q = some (some r)) :
    r.normalizedStructures[0]? = some (cfg.text.normalize q) := by
  unfold matchTransactionRoute at h
  split at h
  · cases h
  · split at h
    · cases h
    · next r' hfilter =>
      cases h
      have hmem : r ∈ cfg.transactionRoutes.filter fun r => r.normalizedStructures.head? =
        some (cfg.text.normalize q) := by
        simp [hfilter]
      simpa [List.head?_eq_getElem?] using (List.mem_filter.1 hmem).2
    · cases h

/-- A statement of a local transaction is delivered or refused. -/
theorem statement_does (held : Option Nat) (fresh : Nat) (ha : s.localTransactionActive = true)
    (hf : s.status ≠ .failed)
    (q : String) (b : Bool) :
    ∃ l', Does cfg (tx s) held fresh (statementEvents cfg s held fresh q) l' ∧
      ∀ s' ∈ (transactionStatement cfg s q b h).session, tx s' = l' := by
  have herr : ∀ s₀ : Session, tx s₀ = tx s → ∀ s' ∈ (transactionError s₀ "0A000" b).session,
      tx s' = { tx s with status := .failed } := by
    intro s₀ h₀ s' hs'
    have := transactionError_tx (s := s₀) ((congrArg Local.active h₀).trans ha) "0A000" b
    rw [hs', h₀] at this
    exact Option.some.inj this
  cases hr : s.localTransactionRoute with
  | some r =>
    simp only [transactionStatement, statementEvents, hr, deliver]
    by_cases hm : r.normalizedStructures[s.localTransactionIndex]? = some (cfg.text.normalize q)
    · rw [if_pos hm, if_pos hm]
      refine ⟨_, .delivered ha hf hr hm, fun s' hs' => ?_⟩
      cases h with
      | none => cases hs'
      | some result =>
        cases hs'
        simp [tx, hr]
    · rw [if_neg hm, if_neg hm]
      exact ⟨_, .error ha, herr _ (by simp [tx, hr])⟩
  | none =>
    cases hmatch : matchTransactionRoute cfg q with
    | none =>
      simp only [transactionStatement, statementEvents, hr, hmatch, Option.map_none]
      exact ⟨_, .quiet, fun s' hs' => by cases hs'⟩
    | some r =>
      cases r with
      | none =>
        simp only [transactionStatement, statementEvents, hr, hmatch, Option.map_some, Option.map_none]
        exact ⟨_, .error ha, herr s rfl⟩
      | some r =>
        -- the route was chosen by its first statement
        have hm := matchTransactionRoute_head hmatch
        simp only [transactionStatement, statementEvents, hr, hmatch, Option.map_some, deliver, hm, if_true]
        refine ⟨_, .opened ha hf hr hm, fun s' hs' => ?_⟩
        cases h with
        | none => cases hs'
        | some result =>
          cases hs'
          rfl

theorem end_does (ha : s.localTransactionActive = true) (commit : Bool) (hf : commit = true → s.status ≠ .failed)
    (hook : Option (Option String)) :
    ∃ l', Does cfg (tx s) held fresh (endEvents s held commit) l' ∧
      ∀ s' ∈ (transactionEnd s commit hook).session, tx s' = l' := by
  unfold endEvents transactionEnd
  split
  · refine ⟨_, .error ha, fun s' hs' => ?_⟩
    have := transactionError_tx ha "0A000" false
    rw [hs'] at this
    exact Option.some.inj this
  · next hfull =>
    refine ⟨_, .ended ha fun hc => ⟨hf hc, fun r hr => ?_⟩, fun s' hs' => ?_⟩
    · subst hc
      replace hr : s.localTransactionRoute = some r := hr
      simp only [hr, Bool.true_and, Option.any_some, decide_eq_true_eq] at hfull
      exact Nat.le_of_not_lt hfull
    · split at hs'
      · cases hs'
      · cases hs'
        rfl

/-- Messages that are neither queries nor executions leave local transactions alone. -/
theorem other_tx {m : Msg} (hq : ∀ sql, m ≠ .query sql) (he : ∀ p, m ≠ .execute p) :
    ∀ s' ∈ (handle cfg s m h).session, tx s' = tx s := by
  intro s' hs'
  cases m with
  | query sql => exact absurd rfl (hq sql)
  | execute p => exact absurd rfl (he p)
  | parse n sql =>
    simp only [handle, handleFrontend, intercept, parseIntercept] at hs'
    repeat' split at hs'
    all_goals cases hs'; rfl
  | bind p n =>
    simp only [handle, handleFrontend, intercept, bindIntercept] at hs'
    repeat' split at hs'
    all_goals cases hs'; try rfl
  | describe kind n =>
    simp only [handle, handleFrontend, intercept, describeIntercept] at hs'
    repeat' split at hs'
    all_goals cases hs'; rfl
  | close kind n =>
    replace hs' : s' ∈ (closeIntercept s kind n).session := hs'
    unfold closeIntercept at hs'
    repeat' split at hs'
    all_goals cases hs'; rfl
  | flush =>
    replace hs' : s' ∈ (if s.localSyncPending then Outcome.answered [] s else .forwarded s).session := hs'
    split at hs' <;> cases hs' <;> rfl
  | sync =>
    replace hs' : s' ∈ (syncIntercept s).session := hs'
    unfold syncIntercept at hs'
    split at hs' <;> cases hs' <;> rfl

theorem execute_tx {p : String} : ∀ s' ∈ (executeIntercept s p h).session, tx s' = tx s := by
  intro s' hs'
  unfold executeIntercept at hs'
  split at hs'
  · split at hs'
    · cases hs'
      rfl
    · cases h with
      | none => cases hs'
      | some result =>
        cases hs'
        rfl
  · cases hs'
    rfl

theorem simpleQuery_tx {sql : String} : ∀ s' ∈ (simpleQueryIntercept cfg s sql h).session, tx s' = tx s := by
  intro s' hs'
  unfold simpleQueryIntercept at hs'
  split at hs'
  · cases hs'
    rfl
  · split at hs'
    · cases hs'
      rfl
    · cases h with
      | none => cases hs'
      | some result =>
        cases hs'
        rfl

/-- Inside a local transaction a query is for the transaction alone. -/
theorem query_active (ha : s.localTransactionActive = true) (sql : String) (h : Handler) :
    handle cfg s (.query sql) h = transactionSimpleIntercept cfg s sql h := by
  have hend : ∀ commit hook s', transactionEnd s commit hook ≠ .forwarded s' := by
    intro commit hook s'
    unfold transactionEnd
    repeat' split
    all_goals simp [transactionError]
  have hlocal : ∀ s', transactionSimpleIntercept cfg s sql h ≠ .forwarded s' := by
    intro s'
    simp only [transactionSimpleIntercept, ha, Bool.not_true, Bool.false_eq_true, if_false]
    split
    · exact hend _ _ _
    · split
      · split
        · simp [transactionError]
        · exact hend _ _ _
      · split
        · simp [transactionError]
        · exact transactionStatement_local
  unfold handle handleFrontend intercept
  dsimp only
  cases ho : transactionSimpleIntercept cfg s sql h with
  | forwarded s' => exact absurd ho (hlocal s')
  | answered rs s' => rfl
  | raised => rfl

theorem query_does (sql : String) :
    ∃ l', Does cfg (tx s) held fresh (events cfg s held fresh (.query sql)) l' ∧
      ∀ s' ∈ (handle cfg s (.query sql) h).session, tx s' = l' := by
  by_cases ha : s.localTransactionActive = true
  · rw [query_active ha]
    simp only [transactionSimpleIntercept, events, ha, Bool.not_true, Bool.false_eq_true, if_false]
    have herr : ∀ s' ∈ (transactionError s "25P02" false).session, tx s' = { tx s with status := .failed } := by
      intro s' hs'
      have := transactionError_tx ha "25P02" false
      rw [hs'] at this
      exact Option.some.inj this
    split
    · exact end_does ha false (fun h => by cases h) _
    · split
      · split
        · exact ⟨_, .error ha, herr⟩
        · next hf => exact end_does ha true (fun _ => hf) _
      · split
        · exact ⟨_, .error ha, herr⟩
        · next hf => exact statement_does held fresh ha hf sql false
  · have hi : s.localTransactionActive = false := by simpa using ha
    simp only [handle, handleFrontend, intercept, transactionSimpleIntercept, events, hi, Bool.not_false, if_true]
    by_cases hb : simpleTransactionCommand cfg sql ∈ [some "BEGIN", some "START TRANSACTION"] ∧
      cfg.transactionRoutes ≠ []
    · rw [if_pos hb, if_pos hb]
      refine ⟨_, .begun hi, fun s' hs' => ?_⟩
      cases hs'
      rfl
    · rw [if_neg hb, if_neg hb]
      refine ⟨_, .quiet, fun s' hs' => ?_⟩
      simp only at hs'
      split at hs'
      · cases hs'
        rfl
      · exact simpleQuery_tx s' hs'

theorem execute_does (p : String) :
    ∃ l', Does cfg (tx s) held fresh (events cfg s held fresh (.execute p)) l' ∧
      ∀ s' ∈ (handle cfg s (.execute p) h).session, tx s' = l' := by
  by_cases ha : s.localTransactionActive = true
  · simp only [handle, handleFrontend, intercept, events, ha, if_true, transactionExecuteIntercept]
    cases hsql : (s.portalBindings.get (key p)).bind PortalBinding.sql with
    | none =>
      refine ⟨_, .quiet, fun s' hs' => ?_⟩
      cases hs'
      rfl
    | some sql =>
      by_cases hf : s.status = .failed
      · simp only [hf, if_true]
        refine ⟨_, .error ha, fun s' hs' => ?_⟩
        have := transactionError_tx ha "25P02" true
        rw [hs'] at this
        exact Option.some.inj this
      · simp only [hf, if_false]
        obtain ⟨l', hdoes, htx⟩ := statement_does (h := h) held fresh ha hf sql true
        refine ⟨l', hdoes, fun s' hs' => ?_⟩
        cases ho : transactionStatement cfg s sql true h with
        | forwarded s₀ => exact absurd ho transactionStatement_local
        | answered rs s₀ =>
          rw [ho] at hs'
          cases hs'
          exact htx s₀ (by rw [ho]; rfl)
        | raised =>
          rw [ho] at hs'
          cases hs'
  · have hi : s.localTransactionActive = false := by simpa using ha
    simp only [handle, handleFrontend, intercept, events, hi, Bool.false_eq_true, if_false]
    refine ⟨_, .quiet, fun s' hs' => ?_⟩
    split at hs'
    · cases hs'
      rfl
    · exact execute_tx s' hs'

/-- **Inversion**: every message does one of the six things. -/
theorem handle_does (cfg : Config) (s : Session) (held : Option Nat) (fresh : Nat) (m : Msg) (h : Handler) :
    ∃ l', Does cfg (tx s) held fresh (events cfg s held fresh m) l' ∧
      ∀ s' ∈ (handle cfg s m h).session, tx s' = l' := by
  cases m with
  | query sql => exact query_does sql
  | execute p => exact execute_does p
  | parse _ _ => exact ⟨_, .quiet, other_tx (by simp) (by simp)⟩
  | bind _ _ => exact ⟨_, .quiet, other_tx (by simp) (by simp)⟩
  | describe _ _ => exact ⟨_, .quiet, other_tx (by simp) (by simp)⟩
  | close _ _ => exact ⟨_, .quiet, other_tx (by simp) (by simp)⟩
  | flush => exact ⟨_, .quiet, other_tx (by simp) (by simp)⟩
  | sync => exact ⟨_, .quiet, other_tx (by simp) (by simp)⟩

end

/-! ## What the log leaves out -/

section
variable {cfg : Config} {s s' : Session} {held : Option Nat} {fresh : Nat} {h : Handler} {rs : List Reply}
  {code : String}

theorem error_notMem_response (r : HandlerResult) (d b : Bool) : Reply.error code ∉ queryResponse s r d b := by
  cases d <;> cases b <;> cases hc : r.columns <;> simp [queryResponse, description, hc]

theorem statement_reported {q : String} {b : Bool} (ho : transactionStatement cfg s q b h = .answered rs s')
    (hc : .error code ∈ rs) : statementEvents cfg s held fresh q = [.error] := by
  unfold transactionStatement at ho
  unfold statementEvents
  cases hr : s.localTransactionRoute with
  | some r =>
    simp only [hr] at ho ⊢
    by_cases hm : r.normalizedStructures[s.localTransactionIndex]? = some (cfg.text.normalize q)
    · rw [if_pos hm] at ho
      cases h with
      | none => cases ho
      | some result =>
        cases ho
        exact absurd hc (error_notMem_response _ _ _)
    · rw [deliver, if_neg hm]
  | none =>
    simp only [hr] at ho ⊢
    cases hmatch : matchTransactionRoute cfg q with
    | none =>
      rw [hmatch] at ho
      cases ho
    | some r =>
      cases r with
      | none => rfl
      | some r =>
        have hm := matchTransactionRoute_head hmatch
        simp only [hmatch, Option.map_some, hm, if_true] at ho
        cases h with
        | none => cases ho
        | some result =>
          cases ho
          exact absurd hc (error_notMem_response _ _ _)

theorem end_reported {commit : Bool} {hook : Option (Option String)}
    (ho : transactionEnd s commit hook = .answered rs s')
    (hc : .error code ∈ rs) : endEvents s held commit = [.error] := by
  unfold transactionEnd at ho
  unfold endEvents
  split at ho
  · next hinc => rw [if_pos hinc]
  · split at ho
    · cases ho
    · cases ho
      simp at hc

/-- **No error goes unlogged**: what the router itself writes to the client in a local transaction. -/
theorem error_logged {m : Msg} (ha : s.localTransactionActive = true) (ho : handle cfg s m h = .answered rs s')
    (hc : .error code ∈ rs) : events cfg s held fresh m = [.error] := by
  cases m with
  | query sql =>
    rw [query_active ha] at ho
    simp only [transactionSimpleIntercept, events, ha, Bool.not_true, Bool.false_eq_true, if_false] at ho ⊢
    split at ho
    · next hroll =>
      rw [if_pos hroll]
      exact end_reported ho hc
    · next hroll =>
      rw [if_neg hroll]
      split at ho
      · next hcommit =>
        rw [if_pos hcommit]
        split at ho
        · next hf => rw [if_pos hf]
        · next hf =>
          rw [if_neg hf]
          exact end_reported ho hc
      · next hcommit =>
        rw [if_neg hcommit]
        split at ho
        · next hf => rw [if_pos hf]
        · next hf =>
          rw [if_neg hf]
          exact statement_reported ho hc
  | execute p =>
    simp only [handle, handleFrontend, intercept, events, ha, if_true, transactionExecuteIntercept] at ho ⊢
    cases hsql : (s.portalBindings.get (key p)).bind PortalBinding.sql with
    | none =>
      rw [hsql] at ho
      cases ho
    | some sql =>
      simp only [hsql] at ho ⊢
      by_cases hf : s.status = .failed
      · rw [if_pos hf]
      · simp only [hf, if_false] at ho ⊢
        cases hst : transactionStatement cfg s sql true h with
        | forwarded s₀ => exact absurd hst transactionStatement_local
        | answered rs₀ s₀ =>
          rw [hst] at ho
          cases ho
          exact statement_reported hst hc
        | raised =>
          rw [hst] at ho
          cases ho
  | parse n sql =>
    simp only [handle, handleFrontend, intercept, parseIntercept] at ho
    repeat' split at ho
    all_goals cases ho
    simp at hc
  | bind p n =>
    simp only [handle, handleFrontend, intercept, bindIntercept] at ho
    repeat' split at ho
    all_goals cases ho
    simp at hc
  | describe kind n =>
    have hdesc : ∀ b, Reply.error code ≠ description b := fun b => by cases b <;> simp [description]
    simp only [handle, handleFrontend, intercept, describeIntercept] at ho
    repeat' split at ho
    all_goals cases ho
    all_goals simp [hdesc] at hc
  | close kind n =>
    replace ho : closeIntercept s kind n = .answered rs s' := ho
    unfold closeIntercept at ho
    repeat' split at ho
    all_goals cases ho
    all_goals simp at hc
  | flush =>
    replace ho : (if s.localSyncPending then Outcome.answered [] s else .forwarded s) = .answered rs s' := ho
    split at ho
    all_goals cases ho
    simp at hc
  | sync =>
    replace ho : syncIntercept s = .answered rs s' := ho
    unfold syncIntercept at ho
    split at ho
    all_goals cases ho
    simp at hc

end

/-! ## The log of a run -/

section
variable {cfg : Config} {ts : List Transaction} {t t' : Transaction} {log es : List Event} {l l' : Local}
  {held : Option Nat}

theorem opened_append (log es : List Event) : opened (log ++ es) = opened log + opened es := List.countP_append

def Transaction.id (t : Transaction) : Option Nat := t.handling.map Handling.id

/-- The log so far, told as transactions whose handler sessions are numbered in their order. -/
structure Whole (cfg : Config) (ts : List Transaction) (log : List Event) : Prop where
  events : log = ts.flatMap Transaction.events
  atomic : ∀ t ∈ ts, t.Atomic cfg
  ids : ts.filterMap Transaction.id = List.range (opened log)

theorem Whole.begun (h : Whole cfg ts log) : Whole cfg (ts ++ [({} : Transaction)]) (log ++ [.begun]) where
  events := by
    rw [List.flatMap_append, ← h.events]
    rfl
  atomic := by
    intro t ht
    rcases List.mem_append.1 ht with ht | ht
    · exact h.atomic t ht
    · cases List.mem_singleton.1 ht
      exact ⟨fun h hh => (by cases hh), fun h => (by cases h)⟩
  ids := by
    rw [List.filterMap_append, opened_append, h.ids]
    simp [Transaction.id, opened]

/-- The last transaction goes on. -/
theorem Whole.goes_on (h : Whole cfg (ts ++ [t]) log) (hes : t'.events = t.events ++ es) (hatomic : t'.Atomic cfg)
    (hid : t'.id.toList = t.id.toList ++ (List.range (opened es)).map (opened log + ·)) :
    Whole cfg (ts ++ [t']) (log ++ es) where
  events := by
    rw [h.events, List.flatMap_append, List.flatMap_append, List.flatMap_singleton, List.flatMap_singleton, hes,
      List.append_assoc]
  atomic := by
    intro u hu
    rcases List.mem_append.1 hu with hu | hu
    · exact h.atomic u (List.mem_append_left _ hu)
    · cases List.mem_singleton.1 hu
      exact hatomic
  ids := by
    have hlast : ∀ u : Transaction, [u].filterMap Transaction.id = u.id.toList := by
      intro u
      cases hu : u.id <;> simp [hu]
    have hids := h.ids
    rw [List.filterMap_append, hlast] at hids
    rw [List.filterMap_append, hlast, hid, ← List.append_assoc, hids, opened_append, List.range_add]

/-- The session is in the middle of the transaction. -/
structure Running (t : Transaction) (l : Local) (held : Option Nat) : Prop where
  finish : t.finish = none
  active : l.active = true
  held : held = t.id
  route : l.route = t.handling.map Handling.route
  index : l.index = t.handling.elim 0 fun h => h.delivered.length
  failed : t.errors ≠ 0 → l.status = .failed

/-- How the session stands to the log. -/
inductive Inv (cfg : Config) (log : List Event) (l : Local) (held : Option Nat) : Prop where
  | idle {ts : List Transaction} (hw : Whole cfg ts log) (hfin : ∀ t ∈ ts, t.finish.isSome) (ha : l.active = false)
      (hr : l.route = none) (hi : l.index = 0) (hh : held = none)
  | running {ts : List Transaction} {t : Transaction} (hw : Whole cfg (ts ++ [t]) log) (hfin : ∀ t ∈ ts, t.finish.isSome)
      (hrun : Running t l held)

theorem Inv.told (h : Inv cfg log l held) : Told cfg log := by
  cases h with
  | idle hw hfin =>
    refine ⟨_, hw.events, hw.atomic, fun t ht => hfin t (List.dropLast_subset _ ht), ?_⟩
    show (List.filterMap Transaction.id _).Nodup
    rw [hw.ids]
    exact List.nodup_range
  | running hw hfin =>
    refine ⟨_, hw.events, hw.atomic, fun t ht => hfin t (by simpa using ht), ?_⟩
    show (List.filterMap Transaction.id _).Nodup
    rw [hw.ids]
    exact List.nodup_range

/-- Nothing has been committed of a transaction that is not over. -/
theorem atomic_running (h : t.finish = none)
    (hd : ∀ h ∈ t.handling, h.delivered.map cfg.text.normalize <+: h.route.normalizedStructures) : t.Atomic cfg :=
  ⟨hd, fun hc => by rw [h] at hc; cases hc⟩

theorem Inv.error (hI : Inv cfg log l held) (ha : l.active = true) :
    Inv cfg (log ++ [.error]) { l with status := .failed } held := by
  cases hI with
  | idle hw hfin hi => rw [ha] at hi; cases hi
  | @running ts t hw hfin hrun =>
    have hlast : t.Atomic cfg := hw.atomic t (by simp)
    have hes : ({ t with errors := t.errors + 1 } : Transaction).events = t.events ++ [.error] := by
      simp [Transaction.events, hrun.finish, List.replicate_succ']
    refine .running (hw.goes_on hes (atomic_running hrun.finish hlast.delivered) ?_) hfin ?_
    · simp [Transaction.id, opened]
    · exact ⟨hrun.finish, ha, hrun.held, hrun.route, hrun.index, fun _ => rfl⟩

/-- Where no error was reported. -/
theorem Running.clean (h : Running t l held) (hf : l.status ≠ .failed) : t.errors = 0 := by
  by_contra he
  exact hf (h.failed he)

theorem events_delivered (h : Handling) (q : String) :
    ({ h with delivered := h.delivered ++ [q] } : Handling).events =
      h.events ++ [.statement (some h.id) (h.delivered.length + 1) q] := by
  simp [Handling.events, List.mapIdx_append]

/-- A statement that is due prolongs the prefix. -/
theorem prefix_concat {α : Type} {xs ys : List α} {y : α} (h : xs <+: ys) (hy : ys[xs.length]? = some y) :
    xs ++ [y] <+: ys := by
  obtain ⟨zs, rfl⟩ := h
  rw [List.getElem?_append_right (Nat.le_refl _), Nat.sub_self] at hy
  cases zs with
  | nil => cases hy
  | cons z zs =>
    cases hy
    exact ⟨zs, by simp⟩

/-- **Step lemma**: the log of what a message does is told as before. -/
theorem Inv.does (hI : Inv cfg log l held) (hd : Does cfg l held (opened log) es l') :
    Inv cfg (log ++ es) l' (es.foldl hold held) := by
  cases hd with
  | quiet => simpa using hI
  | begun ha =>
    cases hI with
    | idle hw hfin =>
      refine .running hw.begun hfin ⟨rfl, rfl, rfl, rfl, rfl, fun h => absurd rfl h⟩
    | running hw hfin hrun => rw [hrun.active] at ha; cases ha
  | error ha => exact hI.error ha
  | @delivered r q ha hf hr hm =>
    cases hI with
    | idle hw hfin hi => rw [ha] at hi; cases hi
    | @running ts t hw hfin hrun =>
      obtain ⟨h, hh, hhr⟩ := Option.map_eq_some_iff.1 (hrun.route.symm.trans hr)
      have hlast : t.Atomic cfg := hw.atomic t (by simp)
      have hindex : l.index = h.delivered.length := by rw [hrun.index, hh]; rfl
      have hheld : held = some h.id := by rw [hrun.held, Transaction.id, hh]; rfl
      have hclean := hrun.clean hf
      refine .running (t := { t with handling := some { h with delivered := h.delivered ++ [q] } })
        (hw.goes_on ?_ ?_ ?_) hfin ?_
      · simp [Transaction.events, hrun.finish, hh, hclean, hheld, hindex, events_delivered]
      · refine atomic_running hrun.finish fun h' hh' => ?_
        cases hh'
        rw [List.map_append, List.map_singleton]
        apply prefix_concat (hlast.delivered h hh)
        rw [List.length_map, ← hindex]
        exact hhr ▸ hm
      · simp [Transaction.id, opened, hh]
      · refine ⟨hrun.finish, ha, ?_, ?_, ?_, fun he => absurd hclean he⟩
        · simpa [hold, Transaction.id] using hheld
        · rw [← hhr] at hr
          exact hr
        · simp [hindex]
  | @opened r q ha hf hr hm =>
    cases hI with
    | idle hw hfin hi => rw [ha] at hi; cases hi
    | @running ts t hw hfin hrun =>
      have hh : t.handling = none := Option.map_eq_none_iff.1 (hrun.route.symm.trans hr)
      have hclean := hrun.clean hf
      refine .running (t := { t with handling := some ⟨opened log, r, [q]⟩ }) (hw.goes_on ?_ ?_ ?_) hfin ?_
      · simp [Transaction.events, Handling.events, hrun.finish, hh, hclean]
      · refine atomic_running hrun.finish fun h' hh' => ?_
        cases hh'
        exact prefix_concat (List.nil_prefix) (by simpa using hm)
      · simp [Transaction.id, opened, hh]
      · exact ⟨hrun.finish, ha, rfl, rfl, rfl, fun he => absurd hclean he⟩
  | @ended commit ha hc =>
    cases hI with
    | idle hw hfin hi => rw [ha] at hi; cases hi
    | @running ts t hw hfin hrun =>
      have hlast : t.Atomic cfg := hw.atomic t (by simp)
      have hheld : (l.route.bind fun _ => held) = t.handling.map Handling.id := by
        rw [hrun.route, hrun.held, Transaction.id]
        cases t.handling <;> rfl
      have hw' : Whole cfg (ts ++ [({ t with finish := some commit } : Transaction)])
          (log ++ [.ended commit (l.route.bind fun _ => held)]) := by
        refine hw.goes_on ?_ ⟨hlast.delivered, fun hcommit => ?_⟩ ?_
        · simp [Transaction.events, hrun.finish, hheld]
        · obtain ⟨hf, hfull⟩ := hc (Option.some.inj hcommit)
          refine ⟨hrun.clean hf, fun h hh => ?_⟩
          replace hh : t.handling = some h := hh
          have hle := hfull h.route (by rw [hrun.route, hh]; rfl)
          have hge := (hlast.delivered h hh).length_le
          rw [hrun.index, hh] at hle
          rw [List.length_map] at hge
          exact Nat.le_antisymm hge hle
        · simp [Transaction.id, opened]
      refine .idle hw' (fun u hu => ?_) rfl rfl rfl rfl
      rcases List.mem_append.1 hu with hu | hu
      · exact hfin u hu
      · cases List.mem_singleton.1 hu
        rfl

end

/-! ## Commands by `Execute` -/

section
variable {cfg : Config} {s : Session} {held : Option Nat} {fresh : Nat}

theorem ended_notMem_deliver {commit : Bool} {id id' : Option Nat} {r : TransactionRoute} {i : Nat} {q : String} :
    Event.ended commit id ∉ deliver cfg id' r i q := by
  unfold deliver
  split <;> simp

theorem ended_notMem_statement {commit : Bool} {id : Option Nat} {q : String} :
    Event.ended commit id ∉ statementEvents cfg s held fresh q := by
  unfold statementEvents
  split
  · exact ended_notMem_deliver
  · split
    · simp
    · simp
    · simpa using ended_notMem_deliver

/-- In a local transaction a bound `Execute` is a statement, whatever its text is. -/
theorem execute_events (ha : s.localTransactionActive = true) {p sql : String}
    (hsql : (s.portalBindings.get (key p)).bind PortalBinding.sql = some sql) :
    events cfg s held fresh (.execute p) = if s.status = .failed then [.error] else statementEvents cfg s held
      fresh sql := by
  simp only [events, ha, if_true, hsql]

theorem execute_active (ha : s.localTransactionActive = true) {p sql : String}
    (hsql : (s.portalBindings.get (key p)).bind PortalBinding.sql = some sql) (h : Handler) :
    (handle cfg s (.execute p) h).session.map tx =
      if s.status = .failed then some { tx s with status := .failed }
      else (transactionStatement cfg s sql true h).session.map tx := by
  simp only [handle, handleFrontend, intercept, ha, if_true, transactionExecuteIntercept, hsql]
  by_cases hf : s.status = .failed
  · simp only [hf, if_true]
    exact transactionError_tx ha "25P02" true
  · simp only [hf, if_false]
    cases ho : transactionStatement cfg s sql true h with
    | forwarded s₀ => exact absurd ho transactionStatement_local
    | answered rs s₀ => rfl
    | raised => rfl

/-- A refused ending gets an error and leaves the transaction failed, in both protocols. -/
theorem refused_alike (ha : s.localTransactionActive = true) {p sql : String}
    (hsql : (s.portalBindings.get (key p)).bind PortalBinding.sql = some sql)
      (hend : simpleTransactionCommand cfg sql ∈ endings)
    (hrefused : Refused cfg s sql) :
    events cfg s held fresh (.execute p) = events cfg s held fresh (.query sql) ∧
      ∀ h, (handle cfg s (.execute p) h).session.map tx = (handle cfg s (.query sql) h).session.map tx := by
  obtain ⟨hroll, hwhy⟩ := hrefused
  have hcommit : simpleTransactionCommand cfg sql ∈ [some "COMMIT", some "END"] := by
    simp only [endings, List.mem_cons, List.not_mem_nil, or_false] at hend ⊢
    exact hend.imp_right fun h => h.resolve_right hroll
  have hquery : ∀ h, handle cfg s (.query sql) h = if s.status = .failed then transactionError s "25P02" false
      else transactionEnd s true (h.map HandlerResult.commandTag) := by
    intro h
    rw [query_active ha]
    simp only [transactionSimpleIntercept, ha, Bool.not_true, Bool.false_eq_true, if_false]
    rw [if_neg hroll, if_pos hcommit]
  have hevents : events cfg s held fresh (.query sql) = if s.status =
    .failed then [.error] else endEvents s held true := by
    simp only [events, ha, Bool.not_true, Bool.false_eq_true, if_false]
    rw [if_neg hroll, if_pos hcommit]
  by_cases hf : s.status = .failed
  · refine ⟨?_, fun h => ?_⟩
    · rw [execute_events ha hsql, hevents, if_pos hf, if_pos hf]
    · rw [execute_active ha hsql h, hquery, if_pos hf, if_pos hf, transactionError_tx ha]
  · obtain ⟨r, hr, hlt, hne⟩ := hwhy.resolve_left hf
    have hincomplete : (true && s.localTransactionRoute.any fun r =>
      s.localTransactionIndex < r.normalizedStructures.length) =
        true := by simp [hr, hlt]
    refine ⟨?_, fun h => ?_⟩
    · rw [execute_events ha hsql, hevents, if_neg hf, if_neg hf, endEvents, if_pos hincomplete]
      simp only [statementEvents, hr, deliver, if_neg hne]
    · rw [execute_active ha hsql h, hquery, if_neg hf, if_neg hf, transactionEnd,
        if_pos hincomplete, transactionError_tx ha]
      simp only [transactionStatement, hr, if_neg hne]
      simp [transactionError, Outcome.session, tx, ha, hr]

/-- **When an ending comes out the same**: exactly when it is refused anyway. -/
theorem endsAlike_iff (ha : s.localTransactionActive = true) {p : String} :
    EndsAlike cfg s held fresh p ↔ ∀ sql, (s.portalBindings.get (key p)).bind PortalBinding.sql = some sql →
      simpleTransactionCommand cfg sql ∈ endings → Refused cfg s sql := by
  refine ⟨fun halike sql hsql hend => ?_, fun h sql hsql hend => refused_alike ha hsql hend (h sql hsql hend)⟩
  have hsame := (halike sql hsql hend).1
  rw [execute_events ha hsql] at hsame
  simp only [events, ha, Bool.not_true, Bool.false_eq_true, if_false] at hsame
  by_cases hroll : simpleTransactionCommand cfg sql = some "ROLLBACK"
  · -- the simple query rolls back
    rw [if_pos hroll] at hsame
    have hmem : Event.ended false (s.localTransactionRoute.bind fun _ => held) ∈ endEvents s held false := by
      simp [endEvents]
    rw [← hsame] at hmem
    split at hmem
    · simp at hmem
    · exact absurd hmem ended_notMem_statement
  · have hcommit : simpleTransactionCommand cfg sql ∈ [some "COMMIT", some "END"] := by
      simp only [endings, List.mem_cons, List.not_mem_nil, or_false] at hend ⊢
      exact hend.imp_right fun h => h.resolve_right hroll
    rw [if_neg hroll, if_pos hcommit] at hsame
    refine ⟨hroll, ?_⟩
    by_cases hf : s.status = .failed
    · exact .inl hf
    · rw [if_neg hf, if_neg hf] at hsame
      right
      by_cases hinc : (true && s.localTransactionRoute.any fun r =>
        s.localTransactionIndex < r.normalizedStructures.length) = true
      · rw [Bool.true_and, Option.any_eq_true] at hinc
        obtain ⟨r, hr, hlt⟩ := hinc
        refine ⟨r, hr, of_decide_eq_true hlt, fun hm => ?_⟩
        simp only [statementEvents, hr, deliver, hm, if_true, endEvents] at hsame
        split at hsame <;> simp at hsame
      · have hmem : Event.ended true (s.localTransactionRoute.bind fun _ => held) ∈ endEvents s held true := by
          rw [endEvents, if_neg hinc]
          exact List.mem_singleton_self _
        rw [← hsame] at hmem
        exact absurd hmem ended_notMem_statement

end

/-! ## Every run -/

section
variable {cfg : Config} {st st' : State} {a : Act}

/-- What holds of a run so far. -/
structure RunInv (cfg : Config) (st : State) : Prop where
  session : ∀ s ∈ st.session, Inv cfg st.log (tx s) st.held
  told : Told cfg st.log

theorem Inv.status {log : List Event} {l : Local} {held : Option Nat} {status : TxStatus} (hI : Inv cfg log l held)
    (hst : l.active = true → l.status = .failed → status = .failed) : Inv cfg log { l with status } held := by
  cases hI with
  | idle hw hfin ha hr hi hh => exact .idle hw hfin ha hr hi hh
  | running hw hfin hrun =>
    exact .running hw hfin ⟨hrun.finish, hrun.active, hrun.held, hrun.route, hrun.index,
      fun he => hst hrun.active (hrun.failed he)⟩

theorem RunInv.step (hR : RunInv cfg st) (hok : Ordinary cfg st a) (hs : step cfg st a = some st') :
    RunInv cfg st' := by
  cases a with
  | client m h =>
    obtain ⟨s, hsession, rfl⟩ := Option.map_eq_some_iff.1 hs
    obtain ⟨l', hdoes, htx⟩ := handle_does cfg s st.held (opened st.log) m h
    have hI := (hR.session s hsession).does hdoes
    exact ⟨fun s' hs' => (htx s' hs').symm ▸ hI, hI.told⟩
  | ready status =>
    cases hs
    refine ⟨fun s' hs' => ?_, hR.told⟩
    obtain ⟨s, hsession, rfl⟩ := Option.map_eq_some_iff.1 hs'
    exact (hR.session s hsession).status (hok s hsession)
  | error =>
    cases hs
    cases hsession : st.session with
    | none =>
      refine ⟨fun s hs => (by cases hs), ?_⟩
      simpa [hsession] using hR.told
    | some s =>
      by_cases ha : s.localTransactionActive = true
      · have hfailed : tx s = { tx s with status := .failed } := by simp [tx, hok s hsession ha]
        have hI := (hR.session s hsession).error ha
        rw [← hfailed] at hI
        refine ⟨fun s' hs' => ?_, ?_⟩
        · cases hs'
          simpa [hsession, ha] using hI
        · simpa [hsession, ha] using hI.told
      · refine ⟨fun s' hs' => ?_, ?_⟩
        · cases hs'
          simpa [hsession, ha] using hR.session s hsession
        · simpa [hsession, ha] using hR.told

theorem orderly_of_ordinary (hok : Ordinary cfg st a) : Orderly cfg st a where
  alike := by
    rintro s hsession ha portal h rfl
    exact (endsAlike_iff ha).2 (hok s hsession ha)
  idle := by
    intro st' commit id hs hlog
    cases a with
    | client m h =>
      obtain ⟨s, hsession, rfl⟩ := Option.map_eq_some_iff.1 hs
      obtain ⟨l', hdoes, htx⟩ := handle_does cfg s st.held (opened st.log) m h
      have hes : events cfg s st.held (opened st.log) m = [.ended commit id] := List.append_cancel_left hlog
      refine ⟨?_, fun s' hs' => ?_⟩
      · show (events cfg s st.held (opened st.log) m).foldl hold st.held = none
        rw [hes]
        rfl
      · rw [htx s' hs']
        rw [hes] at hdoes
        cases hdoes
        rfl
    | ready status =>
      cases hs
      simp at hlog
    | error =>
      cases hs
      have herr := List.append_cancel_left hlog
      split at herr <;> cases herr

/-- **Transactions are atomic for their handlers** in every run whose steps meet the condition. -/
theorem transactions_atomic (cfg : Config) {acts : List Act} {st : State} (hrun : Trace.exec (step cfg) {} acts = some st)
    (hok : Trace.Meets (step cfg) (Ordinary cfg) {} acts) : Told cfg st.log ∧ Trace.Meets (step cfg) (Orderly cfg) {} acts := by
  have hstart : RunInv cfg {} := by
    have hw : Whole cfg [] [] := ⟨rfl, by simp, rfl⟩
    have hI : Inv cfg [] (tx {}) none := .idle hw (by simp) rfl rfl rfl rfl
    refine ⟨fun s hs => ?_, hI.told⟩
    cases hs
    exact hI
  have hR : RunInv cfg st := Trace.exec_invariant (fun _ _ _ hR hok hs => hR.step hok hs) hstart hok hrun
  exact ⟨hR.told, hok.mono fun _ _ => orderly_of_ordinary⟩

end

/-! ## Three sessions -/

def twoStatements : TransactionRoute := ⟨["SELECT 1", "SELECT 2"]⟩

def transactionRoute : Config := { text := plainText, transactionRoutes := [twoStatements] }

/-- A transaction in both protocols, and one that is rolled back after an error. -/
def transactionActs : List Act :=
  [.client (.query "BEGIN") none, .client (.query "SELECT 1") (some {}), .client (.parse "" "SELECT 2") none,
    .client (.bind "" "") none, .client (.execute "") (some {}), .client .sync none, .client (.query "COMMIT") (some {}),
    .client (.query "BEGIN") none, .client (.query "SELECT 2") none, .error, .ready .failed, .client (.query "ROLLBACK") none]

/-- `Ordinary`, for runs whose commands are all simple queries. -/
def ordinaryCheck (cfg : Config) (st : State) (a : Act) : Bool :=
  st.session.all fun s => !s.localTransactionActive || match a with
    | .client (.execute portal) _ => ((s.portalBindings.get (key portal)).bind PortalBinding.sql).all fun sql =>
        simpleTransactionCommand cfg sql ∉ endings
    | .client _ _ => true
    | .ready status => s.status ≠ .failed || status = .failed
    | .error => s.status = .failed

theorem ordinary_of_check {cfg : Config} {st : State} {a : Act} (hcheck : ordinaryCheck cfg st a = true) :
    Ordinary cfg st a := by
  intro s hs ha
  simp only [ordinaryCheck, Option.mem_def.1 hs, Option.all_some, ha, Bool.not_true, Bool.false_or] at hcheck
  cases a with
  | client m h =>
    cases m with
    | execute portal =>
      intro sql hsql hend
      simp only [hsql, Option.all_some, decide_eq_true_eq] at hcheck
      exact absurd hend hcheck
    | _ => trivial
  | ready status => simpa [Decidable.imp_iff_not_or] using hcheck
  | error => simpa using hcheck

theorem transactions_atomic_both : ∃ st, Trace.exec (step transactionRoute) {} transactionActs = some st ∧
    st.log = [.begun, .opened 0 twoStatements, .statement (some 0) 1 "SELECT 1", .statement (some 0) 2 "SELECT 2",
      .ended true (some 0), .begun, .error, .error, .ended false none] ∧
    Told transactionRoute st.log ∧ Trace.Meets (step transactionRoute) (Orderly transactionRoute) {} transactionActs := by
  have hlog : (Trace.exec (step transactionRoute) {} transactionActs).map State.log = some [.begun, .opened 0 twoStatements,
      .statement (some 0) 1 "SELECT 1", .statement (some 0) 2 "SELECT 2", .ended true (some 0), .begun, .error, .error,
      .ended false none] := by decide +kernel
  obtain ⟨st, hrun, hst⟩ := Option.map_eq_some_iff.1 hlog
  have hcheck : Trace.meetsCheck (step transactionRoute) (ordinaryCheck transactionRoute) {} transactionActs = true := by
    decide +kernel
  have hok := (Trace.meets_of_check hcheck).mono fun _ _ => ordinary_of_check
  exact ⟨st, hrun, hst, transactions_atomic transactionRoute hrun hok⟩

/-- A complete transaction, and its `COMMIT` in the extended protocol. -/
def executedCommit : List Act :=
  [.client (.query "BEGIN") none, .client (.query "SELECT 1") (some {}), .client (.query "SELECT 2") (some {}),
    .client (.parse "" "COMMIT") none, .client (.bind "" "") none, .client (.execute "") (some {})]

/-- A complete transaction with an error at its end; the server's answer to a `Sync` takes it back. -/
def forgottenError : List Act :=
  [.client (.query "BEGIN") none, .client (.query "SELECT 1") (some {}), .client (.query "SELECT 2") (some {}),
    .client (.query "SELECT 3") none, .client (.parse "" "SELECT 4") none, .client .sync none, .ready .idle,
    .client (.query "COMMIT") (some {})]

theorem executed_commit_errs :
    (Trace.exec (step transactionRoute) {} executedCommit).map (fun st => st.log.drop 4) = some [.error] ∧
      ¬ ∀ (cfg : Config) (acts : List Act) (st : State), Trace.exec (step cfg) {} acts = some st →
        Told cfg st.log ∧ Trace.Meets (step cfg) (Orderly cfg) {} acts := by
  refine ⟨by decide +kernel, fun hall => ?_⟩
  have hrun : (Trace.exec (step transactionRoute) {} executedCommit).isSome = true := by decide +kernel
  obtain ⟨st, hst⟩ := Option.isSome_iff_exists.1 hrun
  have hbefore : (Trace.exec (step transactionRoute) {} (executedCommit.take 5)).any (fun st => st.session.any fun s =>
      s.localTransactionActive && decide ((s.portalBindings.get (key "")).bind PortalBinding.sql = some "COMMIT") &&
        decide (simpleTransactionCommand transactionRoute "COMMIT" ∈ endings) &&
        decide (events transactionRoute s st.held (opened st.log) (.execute "") ≠
          events transactionRoute s st.held (opened st.log) (.query "COMMIT"))) = true := by decide +kernel
  obtain ⟨t, ht, hbefore⟩ := Option.any_eq_true _ _ |>.1 hbefore
  obtain ⟨s, hs, hbefore⟩ := Option.any_eq_true _ _ |>.1 hbefore
  simp only [Bool.and_eq_true, decide_eq_true_eq] at hbefore
  obtain ⟨⟨⟨ha, hsql⟩, hend⟩, hne⟩ := hbefore
  have hmeets := (hall _ _ _ hst).2
  replace hmeets : Trace.Meets (step transactionRoute) (Orderly transactionRoute) {}
      (executedCommit.take 5 ++ [.client (.execute "") (some {})]) := hmeets
  exact hne (((hmeets.at ht).alike s hs ha "" _ rfl _ hsql hend).1)

/-- A handler session knows of nothing but its opening and its statements. -/
theorem mem_handling {o : Option Handling} {e : Event} (he : e ∈ o.elim [] Handling.events) :
    (∃ id r, e = .opened id r) ∨ ∃ id i q, e = .statement id i q := by
  cases o with
  | none => cases he
  | some h =>
    rcases List.mem_cons.1 he with rfl | he
    · exact .inl ⟨_, _, rfl⟩
    · obtain ⟨i, hi, rfl⟩ := List.mem_mapIdx.1 he
      exact .inr ⟨_, _, _, rfl⟩

theorem count_begun (t : Transaction) : t.events.count .begun = 1 := by
  have hhandling : (t.handling.elim [] Handling.events).count Event.begun = 0 := by
    rw [List.count_eq_zero]
    intro h
    rcases mem_handling h with ⟨_, _, h⟩ | ⟨_, _, _, h⟩ <;> cases h
  have herrors : (List.replicate t.errors Event.error).count .begun = 0 := by simp [List.count_replicate]
  have hfinish : (t.finish.elim [] fun commit => [Event.ended commit (t.handling.map Handling.id)]).count .begun
    = 0 := by
    cases t.finish <;> simp
  rw [Transaction.events, List.count_cons_self, List.count_append, List.count_append, hhandling, herrors, hfinish]

theorem finish_of_ended {t : Transaction} {commit : Bool} {id : Option Nat} (h : .ended commit id ∈ t.events) :
    t.finish = some commit := by
  simp only [Transaction.events, List.mem_cons, List.mem_append, reduceCtorEq, false_or] at h
  rcases h with (h | h) | h
  · rcases mem_handling h with ⟨_, _, h⟩ | ⟨_, _, _, h⟩ <;> cases h
  · simp at h
  · cases hf : t.finish with
    | none => simp [hf] at h
    | some c => simp_all

theorem errors_of_error {t : Transaction} (h : .error ∈ t.events) : t.errors ≠ 0 := by
  simp only [Transaction.events, List.mem_cons, List.mem_append, reduceCtorEq, false_or] at h
  rcases h with (h | h) | h
  · rcases mem_handling h with ⟨_, _, h⟩ | ⟨_, _, _, h⟩ <;> cases h
  · exact (List.mem_replicate.1 h).1
  · cases hf : t.finish <;> simp [hf] at h

/-- One transaction with an error and a commit is not atomic. -/
theorem not_told {cfg : Config} {log : List Event} {id : Option Nat} (hone : log.count .begun = 1) (herr : .error ∈ log)
    (hend : .ended true id ∈ log) : ¬ Told cfg log := by
  rintro ⟨ts, rfl, hatomic, -⟩
  have hlength : ts.length = 1 := by
    rw [List.count_flatMap] at hone
    simpa [Function.comp_def, count_begun] using hone
  obtain ⟨t, rfl⟩ := List.length_eq_one_iff.1 hlength
  rw [List.flatMap_singleton] at herr hend
  have hcommit := (hatomic t (List.mem_singleton_self t)).commit (finish_of_ended hend)
  exact errors_of_error herr hcommit.1

/-- **A server's `ReadyForQuery` hides an error**: the transaction is committed with one. -/
theorem error_forgotten : ∃ st, Trace.exec (step transactionRoute) {} forgottenError = some st ∧
    ¬ Told transactionRoute st.log := by
  have hlog : (Trace.exec (step transactionRoute) {} forgottenError).map
    (fun st => (st.log.count .begun, decide (.error ∈ st.log),
      decide (.ended true (some 0) ∈ st.log))) = some (1, true, true) := by decide +kernel
  obtain ⟨st, hrun, hst⟩ := Option.map_eq_some_iff.1 hlog
  simp only [Prod.mk.injEq, decide_eq_true_eq] at hst
  exact ⟨st, hrun, not_told hst.1 hst.2.1 hst.2.2⟩

end SynnoDB.PgRouter.Transactions
