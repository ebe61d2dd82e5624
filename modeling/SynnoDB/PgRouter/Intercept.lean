import SynnoDB.Lib.Dict

/-!
# The intercepting Postgres router (`pgrouter/protocols/postgres/intercept.py`, `frontend.py:92-230`)

| here | there |
| --- | --- |
| `Msg`              | a frontend message, without the parameters, formats and limits that only results depend on |
| `Session`          | `SessionState`, what decides who answers; the fields of capture and logging are left out |
| `Text`             | `normalize_query_structure`, `str.strip` and `str.upper` |
| `Handler`          | how the embedded handler that the message calls ends; `none`: it raises, and the session is over |
| `Outcome`          | what `maybe_handle_intercepted_message` did: `False`, or `True` with what it wrote to the client |
| `handleFrontend`   | `handle_frontend_message` |
| `intercept`        | `maybe_handle_intercepted_message` |

`next(reversed(d))` is the key that was **inserted** last; assigning to a key that is there does not move it.
-/

namespace SynnoDB.PgRouter

inductive TxStatus where
  | idle
  | inTransaction
  | failed
  deriving DecidableEq, Repr

inductive Msg where
  | query (sql : String)
  | parse (name sql : String)
  | bind (portal statement : String)
  | describe (kind : Char) (name : String)
  | execute (portal : String)
  | close (kind : Char) (name : String)
  | flush
  | sync
  deriving DecidableEq, Repr

inductive Reply where
  | parseComplete
  | bindComplete
  | closeComplete
  | parameterDescription
  | rowDescription
  | noData
  | dataRow
  | commandComplete (tag : String)
  | error (code : String)
  | readyForQuery (status : TxStatus)
  deriving DecidableEq, Repr

structure StatementRoute where
  normalizedStructure : String
  /-- The names in `result_columns`. -/
  resultColumns : List String := []
  deriving DecidableEq, Repr

structure TransactionRoute where
  normalizedStructures : List String
  deriving DecidableEq, Repr

structure PortalBinding where
  statementName : String
  sql : Option String
  deriving DecidableEq, Repr

structure PortalIntercept where
  route : StatementRoute
  describeSent : Bool := false
  deriving DecidableEq, Repr

structure Session where
  preparedSql : Dict String String := []
  portalBindings : Dict String PortalBinding := []
  preparedIntercepts : Dict String StatementRoute := []
  portalIntercepts : Dict String PortalIntercept := []
  localTransactionActive : Bool := false
  localTransactionRoute : Option TransactionRoute := none
  localTransactionIndex : Nat := 0
  localSyncPending : Bool := false
  status : TxStatus := .idle

structure Text where
  normalize : String → String
  strip : String → String
  upper : String → String

structure Config where
  text : Text
  statementRoutes : List StatementRoute := []
  transactionRoutes : List TransactionRoute := []

/-- `columns` is whether `prepare_route_result_rows` finds any. -/
structure HandlerResult where
  columns : Bool := true
  rows : Nat := 0
  commandTag : Option String := none

abbrev Handler := Option HandlerResult

inductive Outcome where
  | forwarded (s : Session)
  | answered (replies : List Reply) (s : Session)
  | raised

/-- The session goes on, unless a handler has raised. -/
def Outcome.session : Outcome → Option Session
  | .forwarded s | .answered _ s => some s
  | .raised => none

/-- `name or "<unnamed>"`. -/
def key (name : String) : String := if name = "" then "<unnamed>" else name

/-- `next(reversed(d), None)`. -/
def lastKey {ν : Type} (d : Dict String ν) : Option String := d.getLast?.map Prod.fst

/-- `handle_frontend_message`. -/
def handleFrontend (s : Session) : Msg → Session
  | .parse name sql => { s with preparedSql := s.preparedSql.set (key name) sql }
  | .bind portal statement => { s with
      portalBindings := s.portalBindings.set (key portal) ⟨key statement, s.preparedSql.get (key statement)⟩ }
  | _ => s

section
variable (cfg : Config)

def matchStatementRoute (query : Option String) : Option StatementRoute :=
  match query with
  | none => none
  | some q => if q = "" then none else cfg.statementRoutes.find? fun r => r.normalizedStructure = cfg.text.normalize q

/-- `none`: several routes match. -/
def matchTransactionRoute (query : String) : Option (Option TransactionRoute) :=
  if query = "" then some none
  else match cfg.transactionRoutes.filter fun r => r.normalizedStructures.head? = some (cfg.text.normalize query) with
    | [] => some none
    | [r] => some (some r)
    | _ => none

/-- `_simple_transaction_command`. -/
def simpleTransactionCommand (query : String) : Option String :=
  let normalized := cfg.text.upper (String.ofList (((cfg.text.strip query).toList.reverse.dropWhile (· = ';')).reverse))
  if normalized ∈ ["BEGIN", "START TRANSACTION", "COMMIT", "ROLLBACK", "END"] then some normalized else none

/-! ## What is written to the client -/

def description (columns : Bool) : Reply := if columns then .rowDescription else .noData

/-- `_send_intercepted_query_response`. -/
def queryResponse (s : Session) (result : HandlerResult) (sendDescription sendReady : Bool) : List Reply :=
  (if sendDescription then [description result.columns] else []) ++ List.replicate result.rows .dataRow ++
    [.commandComplete (result.commandTag.getD ("SELECT " ++ toString result.rows))] ++
    if sendReady then [.readyForQuery s.status] else []

/-- `_send_local_transaction_error`. -/
def transactionError (s : Session) (code : String) (withSync : Bool) : Outcome :=
  .answered (.error code :: if withSync then [] else [.readyForQuery .failed])
    { s with status := .failed, localTransactionActive := true, localSyncPending := withSync || s.localSyncPending }

def transactionBegin (s : Session) : Outcome :=
  .answered [.commandComplete "BEGIN", .readyForQuery .inTransaction]
    { s with
      status := .inTransaction
      localTransactionActive := true
      localTransactionRoute := none
      localTransactionIndex := 0 }

/-- `_send_local_transaction_end`; the hook may override the command tag with that of a transaction command only. -/
def transactionEnd (s : Session) (commit : Bool) (h : Option (Option String)) : Outcome :=
  if commit && s.localTransactionRoute.any fun r => s.localTransactionIndex < r.normalizedStructures.length then
    transactionError s "0A000" false
  else if s.localTransactionRoute.isSome && h.all fun tag => tag.any fun t => t ∉ ["COMMIT", "ROLLBACK"] then .raised
  else .answered [.commandComplete (if commit then "COMMIT" else "ROLLBACK"), .readyForQuery .idle]
    { s with
      status := .idle
      localTransactionActive := false
      localTransactionRoute := none
      localTransactionIndex := 0 }

/-- `_handle_transaction_statement_intercept`. -/
def transactionStatement (s : Session) (query : String) (extended : Bool) (h : Handler) : Outcome :=
  match (match s.localTransactionRoute with
    | some r => some (some (r, s.localTransactionIndex))
    | none => (matchTransactionRoute cfg query).map fun r => r.map fun r => (r, 0)) with
  | none => .raised
  | some none => transactionError s "0A000" extended
  | some (some (route, index)) =>
    let s := { s with localTransactionRoute := some route, localTransactionIndex := index }
    if route.normalizedStructures[index]? = some (cfg.text.normalize query) then
      match h with
      | none => .raised
      | some result =>
        let s := { s with localTransactionIndex := index + 1 }
        .answered (queryResponse s result true (!extended)) s
    else transactionError s "0A000" extended

/-! ## The handlers -/

/-- `_handle_transaction_simple_intercept`. -/
def transactionSimpleIntercept (s : Session) (sql : String) (h : Handler) : Outcome :=
  let command := simpleTransactionCommand cfg sql
  if !s.localTransactionActive then
    if command ∈ [some "BEGIN", some "START TRANSACTION"] ∧ cfg.transactionRoutes ≠ [] then transactionBegin s
    else .forwarded s
  else if command = some "ROLLBACK" then transactionEnd s false (h.map HandlerResult.commandTag)
  else if command ∈ [some "COMMIT", some "END"] then
    if s.status = .failed then transactionError s "25P02" false
    else transactionEnd s true (h.map HandlerResult.commandTag)
  else if s.status = .failed then transactionError s "25P02" false
  else transactionStatement cfg s sql false h

/-- `_skip_intercept_for_transaction`. -/
def skipIntercept (s : Session) : Bool := s.status = .inTransaction || s.status = .failed

/-- `_handle_simple_query_intercept`. -/
def simpleQueryIntercept (s : Session) (sql : String) (h : Handler) : Outcome :=
  match matchStatementRoute cfg (some sql) with
  | none => .forwarded s
  | some _ =>
    if skipIntercept s then .forwarded s
    else match h with
      | none => .raised
      | some result => .answered (queryResponse s result true true) s

/-- `_handle_parse_intercept`: the statement is looked up under the key inserted last. -/
def parseIntercept (s : Session) : Outcome :=
  match lastKey s.preparedSql with
  | none => .forwarded s
  | some k => match matchStatementRoute cfg (s.preparedSql.get k) with
    | none => .forwarded { s with preparedIntercepts := s.preparedIntercepts.erase k }
    | some route => .answered [.parseComplete]
        { s with preparedIntercepts := s.preparedIntercepts.set k route, localSyncPending := true }

/-- `_handle_bind_intercept`. -/
def bindIntercept (s : Session) : Outcome :=
  match lastKey s.portalBindings with
  | none => .forwarded s
  | some k => match s.portalBindings.get k with
    | none => .raised
    | some binding => match s.preparedIntercepts.get binding.statementName, binding.sql with
      | some route, some _ => .answered [.bindComplete]
          { s with portalIntercepts := s.portalIntercepts.set k { route }, localSyncPending := true }
      | _, _ => .forwarded { s with portalIntercepts := s.portalIntercepts.erase k }

/-- `_handle_describe_intercept`. -/
def describeIntercept (s : Session) (kind : Char) (name : String) : Outcome :=
  if kind = 'P' then match s.portalIntercepts.get (key name) with
    | none => .forwarded s
    | some portal => .answered [description (portal.route.resultColumns ≠ [])]
        { s with
          portalIntercepts := s.portalIntercepts.set (key name) { portal with describeSent := true }
          localSyncPending := true }
  else if kind = 'S' then match s.preparedIntercepts.get (key name) with
    | none => .forwarded s
    | some route => .answered [.parameterDescription, description (route.resultColumns ≠ [])] { s with localSyncPending := true }
  else .forwarded s

/-- `_handle_execute_intercept`: `send_ready` is left at its default. -/
def executeIntercept (s : Session) (portal : String) (h : Handler) : Outcome :=
  match s.portalIntercepts.get (key portal), (s.portalBindings.get (key portal)).bind PortalBinding.sql with
  | some p, some _ =>
    if skipIntercept s then .forwarded { s with portalIntercepts := s.portalIntercepts.erase (key portal) }
    else match h with
      | none => .raised
      | some result => .answered (queryResponse s result (!p.describeSent) true) { s with localSyncPending := true }
  | _, _ => .forwarded s

def Outcome.pending : Outcome → Outcome
  | .answered replies s => .answered replies { s with localSyncPending := true }
  | o => o

/-- `_handle_transaction_execute_intercept`. -/
def transactionExecuteIntercept (s : Session) (portal : String) (h : Handler) : Outcome :=
  match (s.portalBindings.get (key portal)).bind PortalBinding.sql with
  | none => .forwarded s
  | some sql =>
    if s.status = .failed then transactionError s "25P02" true
    else (transactionStatement cfg s sql true h).pending

/-- `_handle_sync_intercept`. -/
def syncIntercept (s : Session) : Outcome :=
  if s.localSyncPending then .answered [.readyForQuery s.status] { s with localSyncPending := false } else .forwarded s

/-- `_handle_close_intercept`. -/
def closeIntercept (s : Session) (kind : Char) (name : String) : Outcome :=
  if kind = 'P' ∧ (s.portalIntercepts.get (key name)).isSome then .answered [.closeComplete] { s with
    portalIntercepts := s.portalIntercepts.erase (key name)
    portalBindings := s.portalBindings.erase (key name) }
  else if kind = 'S' ∧ (s.preparedIntercepts.get (key name)).isSome then .answered [.closeComplete] { s with
    preparedIntercepts := s.preparedIntercepts.erase (key name)
    preparedSql := s.preparedSql.erase (key name) }
  else .forwarded s

/-- `maybe_handle_intercepted_message`, after `handle_frontend_message`. -/
def intercept (s : Session) (m : Msg) (h : Handler) : Outcome :=
  match m with
  | .query sql => match transactionSimpleIntercept cfg s sql h with
    | .forwarded s => if cfg.statementRoutes = [] then .forwarded s else simpleQueryIntercept cfg s sql h
    | o => o
  | .execute portal =>
    if s.localTransactionActive then transactionExecuteIntercept cfg s portal h
    else if cfg.statementRoutes = [] then .forwarded s
    else executeIntercept s portal h
  | .sync => syncIntercept s
  | .close kind name => closeIntercept s kind name
  | .flush => if s.localSyncPending then .answered [] s else .forwarded s
  | .parse _ _ => if cfg.statementRoutes = [] then .forwarded s else parseIntercept cfg s
  | .bind _ _ => if cfg.statementRoutes = [] then .forwarded s else bindIntercept s
  | .describe kind name => if cfg.statementRoutes = [] then .forwarded s else describeIntercept s kind name

/-- A message of the client. -/
def handle (s : Session) (m : Msg) (h : Handler) : Outcome := intercept cfg (handleFrontend s m) m h

end

end SynnoDB.PgRouter
