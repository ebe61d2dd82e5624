import Mathlib
import SynnoDB.PgRouter.Intercept

/-!
# Query capture (`query_capture.py`, `output.py:20-395`, `frontend.py:30-231`, `backend.py:56-137`)

| here | there |
| --- | --- |
| `SessionState` | the fields that captured records depend on, with the JSONL file and the result files; times and log texts are left out |
| `Codec`        | `decode_value` and `decode_parameter_value`, which are one function |
| `ResultWriter` | the rows that a `JsonResultWriter` or `PickleResultWriter` holds back until it is finalized |
| statement ids  | the sequence number in them, which also names the result file |
| `Progress`     | `handle_backend_message`: `lookup` is the `await` of `resolve_column_type_names`, and `writeRecord` what follows it |

**A statement is described by one set of fields**: `start_query_tracking` fills it when the client's message is
read, the server's replies add to it, and `append_query_record` writes what stands there when `CommandComplete` is
read. `reset_result_tracking` clears all of it but the text and the source.
-/

namespace SynnoDB.PgRouter.Capture

structure ColumnInfo where
  name : String
  typeOid : Int
  formatCode : Int
  deriving DecidableEq, Repr

structure ParameterInfo where
  index : Nat
  formatCode : Int
  typeOid : Option Int
  value : Option String
  length : Option Nat
  isNull : Bool := false
  deriving DecidableEq, Repr

structure PortalBinding where
  statementName : String
  sql : Option String
  parameters : List ParameterInfo
  resultFormats : List Int
  deriving DecidableEq, Repr

abbrev Row := Dict String (Option String)

structure ResultWriter where
  outputPath : Nat
  rows : List Row
  deriving DecidableEq, Repr

structure CapturedStatement where
  queryId : Nat
  query : Option String
  querySource : Option String
  statementName : Option String
  portalName : Option String
  statementExecutionIndex : Option Nat
  statementReused : Bool
  rowCount : Nat
  parameters : List ParameterInfo
  resultTypes : List ColumnInfo
  resultFile : Option Nat
  command : Option String
  error : Option (Dict Char String)
  deriving DecidableEq, Repr

structure TransactionCapture where
  transactionId : Nat
  statements : List CapturedStatement := []
  deriving DecidableEq, Repr

/-- A line of `queries.jsonl`. -/
inductive Record where
  | query (transactionId : Option Nat) (transactionStatus : Option String) (statement : CapturedStatement)
  | transaction (transactionId : Nat) (transactionStatus query : String) (rowCount : Nat) (command : Option String)
      (statements : List CapturedStatement)
  deriving DecidableEq, Repr

structure SessionState where
  captureEnabled : Bool := true
  preparedSql : Dict String String := []
  preparedParamTypes : Dict String (List Int) := []
  preparedRowDescriptions : Dict String (List ColumnInfo) := []
  portalToStatement : Dict String String := []
  portalBindings : Dict String PortalBinding := []
  preparedExecuteCounts : Dict String Nat := []
  rowDescription : Option (List ColumnInfo) := none
  currentStatementSql : Option String := none
  currentStatementId : Option Nat := none
  currentStatementSource : Option String := none
  currentStatementName : Option String := none
  currentPortalName : Option String := none
  currentStatementExecutionIndex : Option Nat := none
  currentRowCount : Nat := 0
  currentResultWriter : Option ResultWriter := none
  currentCommandTag : Option String := none
  currentError : Option (Dict Char String) := none
  currentParameters : List ParameterInfo := []
  currentResultFormatCodes : List Int := []
  currentStatementSequence : Nat := 0
  currentTransactionIdForStatement : Option Nat := none
  currentTransactionStatusForStatement : Option TxStatus := none
  queryCounter : Nat := 0
  transactionCounter : Nat := 0
  currentTransactionId : Option Nat := none
  currentTransactionStatus : TxStatus := .idle
  currentTransactionCapture : Option TransactionCapture := none
  /-- `state.jsonl_path`. -/
  jsonl : List Record := []
  /-- `state.results_dir`, by the statement's number. -/
  results : Dict Nat (List Row) := []
  deriving DecidableEq, Repr

inductive Msg where
  | query (sql : String)
  | parse (name sql : String) (typeOids : List Int)
  | bind (portal statement : String) (paramFormats : List Int) (parameters : List (Option String)) (resultFormats : List Int)
  | describe (kind : Char) (name : String)
  | execute (portal : String)
  | close (kind : Char) (name : String)
  | flush
  | sync
  deriving DecidableEq, Repr

inductive Reply where
  | parseComplete
  | bindComplete
  | closeComplete
  | rowDescription (columns : List ColumnInfo)
  | noData
  | dataRow (values : List (Option String))
  | commandComplete (tag : String)
  | emptyQueryResponse
  | portalSuspended
  | error (fields : Dict Char String)
  | readyForQuery (status : TxStatus)
  /-- A notice, a parameter's status or description, or a message of the copy protocol. -/
  | other
  deriving DecidableEq, Repr

/-- The value of `raw` in a format, for a type. -/
abbrev Codec := Int → Option Int → String → String

/-! ## Result writers and records (`output.py`) -/

section
variable (s : SessionState)

def appendResultRow (row : Row) : SessionState :=
  if !s.captureEnabled then s
  else match s.currentResultWriter with
    | some w => { s with currentResultWriter := some { w with rows := w.rows ++ [row] } }
    | none => { s with currentResultWriter := some ⟨s.currentStatementId.getD s.currentStatementSequence, [row]⟩ }

/-- The file `finalize` writes, unless there are no rows. -/
def resultFile : Option Nat := (s.currentResultWriter.filter fun w => w.rows ≠ []).map ResultWriter.outputPath

def finalizeResultWriter : SessionState := { s with
  currentResultWriter := none
  results := match s.currentResultWriter with
    | some w => if w.rows = [] then s.results else s.results.set w.outputPath w.rows
    | none => s.results }

def ensureTransactionId : SessionState :=
  if s.currentTransactionId = none then
    { s with transactionCounter := s.transactionCounter + 1, currentTransactionId := some (s.transactionCounter + 1) }
  else s

def queryBelongsToExplicitTransaction : Bool :=
  s.currentCommandTag ∈ [some "BEGIN", some "START TRANSACTION", some "COMMIT", some "ROLLBACK"] ||
    s.currentTransactionIdForStatement.isSome ||
    s.currentTransactionStatusForStatement ∈ [some TxStatus.inTransaction, some .failed] ||
    s.currentTransactionCapture.isSome

def displayTransactionStatus : Option TxStatus → Option String
  | none => none
  | some .idle => some "idle"
  | some .failed => some "failed_transaction"
  | some .inTransaction => some "open"

/-- `build_statement_record`. -/
def buildStatementRecord : CapturedStatement where
  queryId := s.currentStatementId.getD s.currentStatementSequence
  query := s.currentStatementSql
  querySource := s.currentStatementSource
  statementName := s.currentStatementName
  portalName := s.currentPortalName
  statementExecutionIndex := s.currentStatementExecutionIndex
  statementReused := s.currentStatementExecutionIndex.any (1 < ·)
  rowCount := s.currentRowCount
  parameters := s.currentParameters
  resultTypes := s.rowDescription.getD []
  resultFile := resultFile s
  command := s.currentCommandTag
  error := s.currentError

/-- `build_query_record`: an empty error is no error. -/
def buildQueryRecord : Record :=
  .query s.currentTransactionIdForStatement (displayTransactionStatus s.currentTransactionStatusForStatement)
    { buildStatementRecord s with error := s.currentError.filter (· ≠ []) }

def transactionOutcome (statements : List CapturedStatement) : String :=
  match statements.getLast? with
  | none => "unknown"
  | some last =>
    if last.command = some "COMMIT" then "committed"
    else if last.command = some "ROLLBACK" then "rolled_back"
    else "open"

/-- `build_transaction_record`. -/
def buildTransactionRecord (capture : TransactionCapture) : Record :=
  .transaction capture.transactionId (transactionOutcome capture.statements)
    ("; ".intercalate ((capture.statements.filterMap CapturedStatement.query).filter (· ≠ "")))
    (capture.statements.map CapturedStatement.rowCount).sum (capture.statements.getLast?.bind CapturedStatement.command)
    capture.statements

/-- Of the ids, an explicit transaction's statement takes its own, unless it opens the transaction or has none. -/
def identify : Nat × SessionState :=
  match s.currentTransactionIdForStatement with
  | some id =>
    if s.currentCommandTag ∈ [some "BEGIN", some "START TRANSACTION"] then
      ((ensureTransactionId s).currentTransactionId.getD id, ensureTransactionId s)
    else (id, s)
  | none => ((ensureTransactionId s).currentTransactionId.getD 0, ensureTransactionId s)

/-- `append_query_record`, after the column types are resolved. -/
def writeRecord : SessionState :=
  if queryBelongsToExplicitTransaction s then
    let (transactionId, t) := identify s
    -- `ensure_transaction_capture`
    let capture := t.currentTransactionCapture.getD { transactionId }
    let capture := { capture with statements := capture.statements ++ [buildStatementRecord t] }
    let t := finalizeResultWriter t
    -- `maybe_finalize_transaction_capture`
    if t.currentCommandTag ∈ [some "COMMIT", some "ROLLBACK"] then
      { t with currentTransactionCapture := none, jsonl := t.jsonl ++ [buildTransactionRecord capture] }
    else { t with currentTransactionCapture := some capture }
  else { finalizeResultWriter s with jsonl := s.jsonl ++ [buildQueryRecord s] }

/-! ## Tracking (`query_capture.py`) -/

def resetResultTracking : SessionState := { s with
  currentResultWriter := none
  rowDescription := none
  currentRowCount := 0
  currentCommandTag := none
  currentError := none
  currentStatementId := none
  currentStatementName := none
  currentPortalName := none
  currentStatementExecutionIndex := none
  currentParameters := []
  currentResultFormatCodes := []
  currentTransactionIdForStatement := none
  currentTransactionStatusForStatement := none }

def startQueryTracking (sql : Option String) (source : String) : SessionState := { resetResultTracking s with
  queryCounter := s.queryCounter + 1
  currentStatementSequence := s.queryCounter + 1
  currentStatementId := some (s.queryCounter + 1)
  currentStatementSql := sql
  currentStatementSource := some source
  currentTransactionIdForStatement := s.currentTransactionId
  currentTransactionStatusForStatement := some s.currentTransactionStatus }

/-- Neither `None` nor empty. -/
def truthy (sql : Option String) : Bool := sql.any (· ≠ "")

inductive Progress where
  | done (s : SessionState)
  /-- In the `await` before the record is written. -/
  | lookup (s : SessionState)

/-- The end of `finish_query_tracking`. -/
def untrack : SessionState := resetResultTracking { s with currentStatementSql := none, currentStatementSource := none }

def finishQueryTracking (commandTag : Option String) : Progress :=
  let t := { s with currentCommandTag := commandTag <|> s.currentCommandTag }
  if t.captureEnabled && truthy t.currentStatementSql then .lookup t else .done (untrack t)

/-- `finish_query_tracking`, once the column types are resolved. -/
def finishWriting : SessionState := untrack (writeRecord s)

/-! ## The messages of the client (`frontend.py`) -/

/-- `_handle_bind`, for the values. -/
def decodeParameters (decode : Codec) (typeOids paramFormats : List Int) (parameters : List (Option String)) :
    List ParameterInfo :=
  parameters.mapIdx fun i raw =>
    let typeOid := typeOids[i]?
    let formatCode := match paramFormats with
      | [] => 0
      | [f] => f
      | fs => fs.getD i 0
    match raw with
    | none => ⟨i + 1, formatCode, typeOid, none, none, true⟩
    | some raw => ⟨i + 1, formatCode, typeOid, some (decode formatCode typeOid raw), some raw.length, false⟩

def applyResultFormatCodes (columns : List ColumnInfo) (codes : List Int) : List ColumnInfo :=
  match codes with
  | [] => columns
  | [f] => columns.map fun c => { c with formatCode := f }
  | fs => columns.mapIdx fun i c => { c with formatCode := fs.getD i c.formatCode }

/-- `apply_execute_context`. -/
def applyExecuteContext (portalName : String) (statementName : Option String) (binding : Option PortalBinding) : SessionState :=
  let index := statementName.map fun n => s.preparedExecuteCounts.getD n 0 + 1
  let codes := (binding.map PortalBinding.resultFormats).getD s.currentResultFormatCodes
  { s with
    preparedExecuteCounts := match statementName with
      | some n => s.preparedExecuteCounts.set n (s.preparedExecuteCounts.getD n 0 + 1)
      | none => s.preparedExecuteCounts
    currentStatementName := statementName
    currentPortalName := some portalName
    currentStatementExecutionIndex := index
    currentParameters := (binding.map PortalBinding.parameters).getD s.currentParameters
    currentResultFormatCodes := codes
    rowDescription := match statementName.bind s.preparedRowDescriptions.get with
      | some columns => some (applyResultFormatCodes columns codes)
      | none => s.rowDescription }

/-- The text that `_handle_execute` takes for a portal. -/
def portalSql (portal : String) : Option String :=
  match s.portalBindings.get (key portal) with
  | some b => b.sql
  | none => s.preparedSql.get ((s.portalToStatement.get (key portal)).getD "")

/-- The parameters that `_handle_execute` takes for a portal. -/
def portalParameters (portal : String) : List ParameterInfo :=
  ((s.portalBindings.get (key portal)).map PortalBinding.parameters).getD []

def handleExecute (portal : String) : SessionState :=
  let binding := s.portalBindings.get (key portal)
  let stmt := match binding with
    | some b => some b.statementName
    | none => s.portalToStatement.get (key portal)
  applyExecuteContext (startQueryTracking s (portalSql s portal) "extended") (key portal) stmt binding

def handleFrontendMessage (decode : Codec) : Msg → SessionState
  | .query sql => startQueryTracking s (some sql) "simple"
  | .parse name sql typeOids => resetResultTracking { s with
      preparedSql := s.preparedSql.set (key name) sql
      preparedParamTypes := s.preparedParamTypes.set (key name) typeOids
      preparedRowDescriptions := s.preparedRowDescriptions.erase (key name) }
  | .bind portal statement paramFormats parameters resultFormats => resetResultTracking { s with
      portalToStatement := s.portalToStatement.set (key portal) (key statement)
      portalBindings := s.portalBindings.set (key portal) {
        statementName := key statement
        sql := s.preparedSql.get (key statement)
        parameters := decodeParameters decode (s.preparedParamTypes.getD (key statement) []) paramFormats parameters
        resultFormats } }
  | .execute portal => handleExecute s portal
  | _ => s

/-! ## The messages of the server (`backend.py`) -/

/-- `data_row_to_object`. -/
def dataRowToObject (decode : Codec) (columns : Option (List ColumnInfo)) (values : List (Option String)) : Row :=
  Dict.ofItems (values.mapIdx fun i raw =>
    let column := (columns.getD [])[i]?
    ((column.map ColumnInfo.name).getD ("col" ++ toString (i + 1)),
      raw.map (decode ((column.map ColumnInfo.formatCode).getD 0) (column.map ColumnInfo.typeOid))))

def handleReadyForQuery (status : TxStatus) : Progress :=
  let t := if status = .idle then { s with currentTransactionId := none } else ensureTransactionId s
  let t := { t with currentTransactionStatus := status }
  if truthy t.currentStatementSql || truthy t.currentStatementSource || 0 < t.currentRowCount then finishQueryTracking t none
  else .done (resetResultTracking t)

def handleBackendMessage (decode : Codec) : Reply → Progress
  | .rowDescription columns => .done { s with
      rowDescription := some columns
      preparedRowDescriptions := match s.currentStatementName with
        | some n => s.preparedRowDescriptions.set n columns
        | none => s.preparedRowDescriptions }
  | .dataRow values => .done (appendResultRow { s with currentRowCount := s.currentRowCount + 1 }
      (dataRowToObject decode s.rowDescription values))
  | .commandComplete tag => finishQueryTracking s (some tag)
  | .error fields => finishQueryTracking { s with currentError := some fields } (some "ERROR")
  | .readyForQuery status => handleReadyForQuery s status
  | _ => .done s

/-- The statements of a line. -/
def Record.statements : Record → List CapturedStatement
  | .query _ _ statement => [statement]
  | .transaction _ _ _ _ _ statements => statements

/-- All that was captured, in order, with the transaction that is still open. -/
def captured : List CapturedStatement :=
  s.jsonl.flatMap Record.statements ++ s.currentTransactionCapture.elim [] TransactionCapture.statements

/-! ## What is captured -/

/-- What the record of a statement takes from the session. -/
structure Describes (s : SessionState) (e : CapturedStatement) : Prop where
  query : e.query = s.currentStatementSql
  parameters : e.parameters = s.currentParameters
  rowCount : e.rowCount = s.currentRowCount
  resultFile : e.resultFile = resultFile s
  command : e.command = s.currentCommandTag

theorem ensureTransactionId_eq : ∃ n id, ensureTransactionId s =
    { s with transactionCounter := n, currentTransactionId := id } := by
  unfold ensureTransactionId
  split
  · exact ⟨_, _, rfl⟩
  · exact ⟨s.transactionCounter, s.currentTransactionId, rfl⟩

theorem identify_eq : ∃ n id, (identify s).2 = { s with transactionCounter := n, currentTransactionId := id } := by
  unfold identify
  split
  · split
    · exact ensureTransactionId_eq s
    · exact ⟨s.transactionCounter, s.currentTransactionId, rfl⟩
  · exact ensureTransactionId_eq s

/-- **A record adds one statement**, to the file or to the open transaction. -/
theorem captured_writeRecord : ∃ e, captured (writeRecord s) = captured s ++ [e] ∧ Describes s e := by
  by_cases hbelongs : queryBelongsToExplicitTransaction s = true
  · obtain ⟨n, id, ht⟩ := identify_eq s
    refine ⟨buildStatementRecord s, ?_, ⟨rfl, rfl, rfl, rfl, rfl⟩⟩
    simp only [writeRecord, if_pos hbelongs, ht]
    cases hc : s.currentTransactionCapture <;> split <;>
      simp [captured, finalizeResultWriter, hc, buildTransactionRecord, Record.statements, buildStatementRecord,
        resultFile]
  · refine ⟨{ buildStatementRecord s with error := s.currentError.filter (· ≠ []) }, ?_, ⟨rfl, rfl, rfl, rfl, rfl⟩⟩
    have hnone : s.currentTransactionCapture = none := by
      by_contra hsome
      simp [queryBelongsToExplicitTransaction, Option.isSome_iff_ne_none.2 hsome] at hbelongs
    rw [writeRecord, if_neg hbelongs]
    simp [captured, finalizeResultWriter, hnone, buildQueryRecord, Record.statements]

/-- What a record leaves as it is, and the files. -/
theorem writeRecord_frame : (writeRecord s).results = (finalizeResultWriter s).results ∧
    (writeRecord s).queryCounter = s.queryCounter ∧ (writeRecord s).currentStatementSequence =
      s.currentStatementSequence ∧
    (writeRecord s).captureEnabled = s.captureEnabled := by
  obtain ⟨n, id, ht⟩ := identify_eq s
  simp only [writeRecord, ht]
  split
  · split <;> exact ⟨rfl, rfl, rfl, rfl⟩
  · exact ⟨rfl, rfl, rfl, rfl⟩

end

end SynnoDB.PgRouter.Capture
