import SynnoDB.PgRouter.Capture
import SynnoDB.Lib.Trace
import Mathlib.Data.List.Forall2

/-!
# Captured records of a pipelined session (`server.py:48-84`, `query_capture.py`)

| here | there |
| --- | --- |
| `Server`       | the PostgreSQL server: it takes the messages in order, and after an error discards them up to the next `Sync` |
| `Job`          | a message that it has not answered yet; of a `Query` what is left of its statements |
| `Act`          | a message of either direction passes the router, or the server goes on by itself |
| `Act.resume`   | the lookup of the column types is over, which need not suspend; the other direction goes on meanwhile |
| `Outcome`      | what came of the statements, by the server's own account |

The router may fall behind the client by any number of messages, so **a reply is recorded for the statement the
client asked for last**, not for the one the reply belongs to (`pipelined_rows_mixed`).
-/

namespace SynnoDB.PgRouter.Capture

structure Config where
  decode : Codec
  /-- The server's own splitting of a text. -/
  split : String → List String

/-- A text of one statement is that statement. -/
def Config.statements (cfg : Config) (sql : String) : List String :=
  match cfg.split sql with
  | [_] => [sql]
  | texts => texts

/-- A statement to be run, with the rows that were sent of it. -/
structure Statement where
  sql : String
  parameters : List ParameterInfo := []
  rows : List (List (Option String)) := []
  deriving DecidableEq, Repr

inductive Outcome where
  | ran (x : Statement) (tag : String)
  /-- An error before there was a statement to run. -/
  | refused
  deriving DecidableEq, Repr

inductive Job where
  | simple (rest : List String)
  | parse (name sql : String) (typeOids : List Int)
  | bind (portal statement : String) (paramFormats : List Int) (parameters : List (Option String))
  | describe
  | execute (portal : String)
  | close (kind : Char) (name : String)
  | flush
  | sync
  deriving DecidableEq, Repr

/-- The prepared statements and portals of the server. -/
structure Names where
  prepared : Dict String (String × List Int) := []
  portals : Dict String Statement := []
  deriving DecidableEq, Repr

structure Server where
  queue : List Job := []
  names : Names := {}
  skipping : Bool := false
  running : Option Statement := none
  outcomes : List Outcome := []
  deriving DecidableEq, Repr

structure State where
  session : SessionState := {}
  /-- The server's direction is in the `await` of a record. -/
  writing : Bool := false
  server : Server := {}
  deriving DecidableEq, Repr

inductive Act where
  | client (m : Msg)
  /-- The server starts the next statement. -/
  | begin
  /-- The server passes over a message that it does not answer. -/
  | pass
  | reply (r : Reply)
  | resume
  deriving DecidableEq, Repr

section
variable (cfg : Config)

def job : Msg → Job
  | .query sql => .simple (cfg.statements sql)
  | .parse name sql typeOids => .parse name sql typeOids
  | .bind portal statement paramFormats parameters _ => .bind portal statement paramFormats parameters
  | .describe _ _ => .describe
  | .execute portal => .execute portal
  | .close kind name => .close kind name
  | .flush => .flush
  | .sync => .sync

/-- What a message leaves in the server's names once it succeeds. -/
def Names.after (names : Names) : Job → Names
  | .parse name sql typeOids => { names with prepared := names.prepared.set name (sql, typeOids) }
  | .bind portal statement paramFormats parameters =>
    match names.prepared.get statement with
    | some (sql, typeOids) => { names with
        portals := names.portals.set portal ⟨sql, decodeParameters cfg.decode typeOids paramFormats parameters, []⟩ }
    | none => names
  | .close kind name =>
    if kind = 'S' then { names with prepared := names.prepared.erase name }
    else { names with portals := names.portals.erase name }
  | _ => names

def Server.begin (v : Server) : Option Server :=
  if v.skipping || v.running.isSome then none
  else match v.queue with
    | .simple (sql :: rest) :: q => some { v with queue := .simple rest :: q, running := some { sql } }
    | .execute portal :: _ => match v.names.portals.get portal with
      | some x => if cfg.statements x.sql = [] then none else some { v with running := some x }
      | none => none
    | _ => none

def Server.pass (v : Server) : Option Server :=
  match v.queue with
  | j :: q => if j = .flush ∨ v.skipping = true ∧ j ≠ .sync then some { v with queue := q } else none
  | [] => none

/-- The statement of the first message is over. -/
def Server.finish (v : Server) (o : Outcome) : Server := { v with
  queue := match v.queue with
    | .execute _ :: q => q
    | q => q
  running := none
  outcomes := v.outcomes ++ [o] }

/-- An error ends a `Query`, and any other message with all up to the next `Sync`. -/
def Server.fail (v : Server) (o : Outcome) : Server :=
  let v := { v with running := none, outcomes := v.outcomes ++ [o] }
  match v.queue with
  | .simple _ :: q => { v with queue := .simple [] :: q }
  | [] | .sync :: _ => v
  | _ :: q => { v with queue := q, skipping := true }

/-- Whether a reply tells that a message has succeeded. -/
def Reply.answers : Reply → Job → Bool
  | .parseComplete, .parse _ _ _ => true
  | .bindComplete, .bind _ _ _ _ => true
  | .closeComplete, .close _ _ => true
  | .noData, .describe | .rowDescription _, .describe => true
  | _, _ => false

/-- `none`: the server does not send the reply now. -/
def Server.reply (v : Server) (r : Reply) : Option Server :=
  match v.running, r, v.queue with
  | _, .other, _ => some v
  | some x, .rowDescription _, .simple _ :: _ => some { v with running := some x }
  | some x, .dataRow values, _ => some { v with running := some { x with rows := x.rows ++ [values] } }
  | some x, .commandComplete tag, _ => some (v.finish (.ran x tag))
  | some x, .error _, _ => some (v.fail (.ran x "ERROR"))
  | some x, .portalSuspended, .execute portal :: q => some { v with
      queue := q, running := none, names := { v.names with portals := v.names.portals.set portal x } }
  | none, .error _, _ => if v.skipping then none else some (v.fail .refused)
  | none, .readyForQuery _, .sync :: q => some { v with queue := q, skipping := false }
  | none, .readyForQuery _, .simple [] :: q => if v.skipping then none else some { v with queue := q }
  | none, .emptyQueryResponse, .simple [] :: _ => if v.skipping then none else some v
  | none, .emptyQueryResponse, .execute portal :: q =>
    if v.skipping then none
    else match v.names.portals.get portal with
      | some x => if cfg.statements x.sql = [] then some { v with queue := q } else none
      | none => none
  | none, r, j :: q =>
    if v.skipping then none
    else if r.answers j then some { v with queue := q, names := v.names.after cfg j } else none
  | _, _, _ => none

def step (st : State) : Act → Option State
  | .client m => some { st with
      session := handleFrontendMessage st.session cfg.decode m
      server := { st.server with queue := st.server.queue ++ [job cfg m] } }
  | .begin => (st.server.begin cfg).map fun server => { st with server }
  | .pass => st.server.pass.map fun server => { st with server }
  | .reply r =>
    if st.writing then none
    else (st.server.reply cfg r).map fun server => match handleBackendMessage st.session cfg.decode r with
      | .done session => { session, server }
      | .lookup session => { session, server, writing := true }
  | .resume => if st.writing then some { st with session := finishWriting st.session, writing := false } else none

/-! ## Whose a record is -/

/-- The rows a record refers to. -/
def resultRows (results : Dict Nat (List Row)) (e : CapturedStatement) : List Row :=
  e.resultFile.elim [] fun k => (results.get k).getD []

/-- Rows as they are kept of what the server sent. -/
def Reads : List Row → List (List (Option String)) → Prop :=
  List.Forall₂ fun row values => ∃ columns, row = dataRowToObject cfg.decode columns values

structure RecordOf (results : Dict Nat (List Row)) (e : CapturedStatement) (x : Statement) (tag : String) : Prop where
  query : e.query = some x.sql
  parameters : e.parameters = x.parameters
  rowCount : e.rowCount = x.rows.length
  rows : Reads cfg (resultRows results e) x.rows
  command : e.command = some tag

/-- **One record for each statement that was run**, in order, and at most one for each that was refused, without
rows. -/
inductive Captured (results : Dict Nat (List Row)) : List CapturedStatement → List Outcome → Prop where
  | nil : Captured results [] []
  | ran {es : List CapturedStatement} {os : List Outcome} {e : CapturedStatement} {x : Statement} {tag : String}
      (h : Captured results es os) (he : RecordOf cfg results e x tag) : Captured results (es ++ [e]) (os ++ [.ran x tag])
  | refused {es : List CapturedStatement} {os : List Outcome} {e : CapturedStatement} (h : Captured results es os)
      (hcount : e.rowCount = 0) (hrows : resultRows results e = []) (htag : e.command = some "ERROR") :
      Captured results (es ++ [e]) (os ++ [.refused])
  | unseen {es : List CapturedStatement} {os : List Outcome} (h : Captured results es os) :
      Captured results es (os ++ [.refused])

/-- In every state but those where a record is being written. -/
def Own (st : State) : Prop :=
  st.writing = false → Captured cfg st.session.results (captured st.session) st.server.outcomes

/-- Neither a statement nor a `ReadyForQuery` comes of it. -/
def Job.quiet : Job → Bool
  | .simple _ | .execute _ | .sync => false
  | _ => true

/-- The names once all messages so far have succeeded. -/
def Server.ahead (v : Server) : Names := v.queue.foldl (Names.after cfg) v.names

/-- A text of at most one statement, and of one unless it is empty. -/
def Lone (sql : String) : Prop := cfg.statements sql = if sql = "" then [] else [sql]

/-- The text and the parameters that the router has of a portal are the server's. -/
def Agrees (st : State) (portal : String) : Prop :=
  ∀ x, (st.server.ahead cfg).portals.get portal = some x → portalSql st.session portal = some x.sql ∧
    portalParameters st.session portal = x.parameters ∧ x.rows = [] ∧ Lone cfg x.sql

/-- **The condition on a step**: no statement is asked for before the server is done with those before it and their
`Sync`, a `Query` is one statement, the router knows what a portal runs, no `Parse` or `Bind` clears parameters or
rows of the statement that is tracked, and no portal is suspended. -/
def InTurn (st : State) : Act → Prop
  | .client (.query sql) => st.writing = false ∧ Lone cfg sql ∧
      (sql = "" ∧ truthy st.session.currentStatementSql = false ∨
        st.server.skipping = false ∧ ∀ j ∈ st.server.queue, j.quiet = true)
  | .client (.execute portal) => st.writing = false ∧ st.server.skipping = false ∧
      (∀ j ∈ st.server.queue, j.quiet = true) ∧ Agrees cfg st portal
  | .client (.parse _ _ _) | .client (.bind _ _ _ _ _) => st.writing = false ∧
      (truthy st.session.currentStatementSql = false ∨
        st.session.currentParameters = [] ∧ st.session.currentRowCount = 0)
  | .reply .portalSuspended => False
  | _ => True

end

/-! ## What the server does -/
section
variable {cfg : Config} {v v' : Server}

/-- All that a reply can be. -/
inductive Replied (cfg : Config) (v : Server) : Reply → Server → Prop where
  | other : Replied cfg v .other v
  | columns {x : Statement} {columns : List ColumnInfo} (hrun : v.running = some x) : Replied cfg v (.rowDescription columns) v
  | row {x : Statement} {values : List (Option String)} (hrun : v.running = some x) :
      Replied cfg v (.dataRow values) { v with running := some { x with rows := x.rows ++ [values] } }
  | complete {x : Statement} {tag : String} (hrun : v.running = some x) :
      Replied cfg v (.commandComplete tag) (v.finish (.ran x tag))
  | error {x : Statement} {fields : Dict Char String} (hrun : v.running = some x) :
      Replied cfg v (.error fields) (v.fail (.ran x "ERROR"))
  | suspended {v' : Server} : Replied cfg v .portalSuspended v'
  | refused {fields : Dict Char String} (hrun : v.running = none) (hskip : v.skipping = false) :
      Replied cfg v (.error fields) (v.fail .refused)
  | synced {status : TxStatus} {q : List Job} (hrun : v.running = none) (hq : v.queue = .sync :: q) :
      Replied cfg v (.readyForQuery status) { v with queue := q, skipping := false }
  | queried {status : TxStatus} {q : List Job} (hrun : v.running = none) (hskip : v.skipping = false)
      (hq : v.queue = .simple [] :: q) : Replied cfg v (.readyForQuery status) { v with queue := q }
  | emptyQuery {q : List Job} (hq : v.queue = .simple [] :: q) : Replied cfg v .emptyQueryResponse v
  | emptyPortal {portal : String} {x : Statement} {q : List Job} (hrun : v.running = none) (hskip : v.skipping = false)
      (hq : v.queue = .execute portal :: q) (hportal : v.names.portals.get portal = some x) (hempty : cfg.statements x.sql = []) :
      Replied cfg v .emptyQueryResponse { v with queue := q }
  | answer {r : Reply} {j : Job} {q : List Job} (hrun : v.running = none) (hskip : v.skipping = false) (hq : v.queue = j :: q)
      (hanswers : r.answers j = true) : Replied cfg v r { v with queue := q, names := v.names.after cfg j }

theorem reply_cases {r : Reply} (h : v.reply cfg r = some v') : Replied cfg v r v' := by
  unfold Server.reply at h
  split at h
  · cases h; exact .other
  · rename_i hrun _
    cases h
    rw [← hrun]
    exact .columns hrun
  · cases h; exact .row ‹_›
  · cases h; exact .complete ‹_›
  · cases h; exact .error ‹_›
  · exact .suspended
  · split at h
    · cases h
    · cases h; exact .refused ‹_› (eq_false_of_ne_true ‹¬v.skipping = true›)
  · cases h; exact .synced ‹_› ‹_›
  · split at h
    · cases h
    · cases h; exact .queried ‹_› (eq_false_of_ne_true ‹¬v.skipping = true›) ‹_›
  · split at h
    · cases h
    · cases h; exact .emptyQuery ‹_›
  · split at h
    · cases h
    · split at h
      · split at h
        · cases h; exact .emptyPortal ‹_› (eq_false_of_ne_true ‹¬v.skipping = true›) ‹_› ‹_› ‹_›
        · cases h
      · cases h
  · split at h
    · cases h
    · split at h
      · cases h; exact .answer ‹_› (eq_false_of_ne_true ‹¬v.skipping = true›) ‹_› ‹_›
      · cases h
  · cases h

end

/-! ## Records and files -/
section
variable {cfg : Config} {s : SessionState} {results results' : Dict Nat (List Row)}

/-- Records stay those of their statements while their files do. -/
theorem Captured.frame {es : List CapturedStatement} {os : List Outcome} (h : Captured cfg results es os)
    (hkeep : ∀ e ∈ es, ∀ k, e.resultFile = some k → results'.get k = results.get k) : Captured cfg results' es os := by
  have hrows : ∀ e ∈ es, resultRows results' e = resultRows results e := by
    intro e he
    unfold resultRows
    cases hfile : e.resultFile with
    | none => rfl
    | some k => simp only [Option.elim_some, hkeep e he k hfile]
  clear hkeep
  induction h with
  | nil => exact .nil
  | ran h he ih =>
    refine .ran (ih fun e hmem => hrows e (List.mem_append_left _ hmem))
      ⟨he.query, he.parameters, he.rowCount, ?_, he.command⟩
    rw [hrows _ (List.mem_append_right _ (List.mem_singleton_self _))]
    exact he.rows
  | refused h hcount hempty htag ih =>
    refine .refused (ih fun e hmem => hrows e (List.mem_append_left _ hmem)) hcount ?_ htag
    rw [hrows _ (List.mem_append_right _ (List.mem_singleton_self _))]
    exact hempty
  | unseen h ih => exact .unseen (ih hrows)

/-- What was run has its record. -/
theorem Captured.record {es : List CapturedStatement} {os : List Outcome} {x : Statement} {tag : String}
    (h : Captured cfg results es os) (hx : .ran x tag ∈ os) : ∃ e ∈ es, RecordOf cfg results e x tag := by
  induction h with
  | nil => cases hx
  | ran h he ih =>
    rcases List.mem_append.1 hx with hx | hx
    · obtain ⟨e, hmem, he⟩ := ih hx
      exact ⟨e, List.mem_append_left _ hmem, he⟩
    · cases List.mem_singleton.1 hx
      exact ⟨_, List.mem_append_right _ (List.mem_singleton_self _), he⟩
  | refused h _ _ _ ih =>
    rcases List.mem_append.1 hx with hx | hx
    · obtain ⟨e, hmem, he⟩ := ih hx
      exact ⟨e, List.mem_append_left _ hmem, he⟩
    · cases List.mem_singleton.1 hx
  | unseen h ih =>
    rcases List.mem_append.1 hx with hx | hx
    · exact ih hx
    · cases List.mem_singleton.1 hx

/-- The rows that are held back. -/
def held (s : SessionState) : List Row := s.currentResultWriter.elim [] ResultWriter.rows

theorem resultRows_finalize {e : CapturedStatement} (he : e.resultFile = resultFile s) :
    resultRows (finalizeResultWriter s).results e = held s := by
  cases hw : s.currentResultWriter with
  | none => simp [resultRows, he, resultFile, held, hw]
  | some w =>
    by_cases hrows : w.rows = []
    · simp [resultRows, he, resultFile, held, hw, hrows, Option.filter]
    · simp [resultRows, he, resultFile, held, hw, hrows, finalizeResultWriter, Option.filter]

/-- The files of the records are numbered below `n`. -/
def Below (n : Nat) (s : SessionState) : Prop := ∀ e ∈ captured s, ∀ k, e.resultFile = some k → k < n

/-- The session numbers its statements as they start. -/
structure Numbered (s : SessionState) : Prop where
  enabled : s.captureEnabled = true
  sequence : s.currentStatementSequence = s.queryCounter
  id : ∀ k, s.currentStatementId = some k → k = s.queryCounter

theorem Numbered.name (h : Numbered s) : s.currentStatementId.getD s.currentStatementSequence = s.queryCounter := by
  cases hid : s.currentStatementId with
  | none => exact h.sequence
  | some k => exact h.id k hid

/-- What is recorded stays. -/
structure Kept (s t : SessionState) : Prop where
  records : captured t = captured s
  results : t.results = s.results
  counter : s.queryCounter ≤ t.queryCounter

theorem Kept.refl (s : SessionState) : Kept s s := ⟨rfl, rfl, Nat.le_refl _⟩

theorem Kept.trans {t u : SessionState} (h : Kept s t) (h' : Kept t u) : Kept s u :=
  ⟨h'.records.trans h.records, h'.results.trans h.results, Nat.le_trans h.counter h'.counter⟩

theorem Kept.below {t : SessionState} {n : Nat} (h : Kept s t) (hb : Below n s) : Below n t := by
  unfold Below
  rw [h.records]
  exact hb

theorem Kept.own {t : SessionState} {os : List Outcome} (h : Kept s t) (hc : Captured cfg s.results (captured s) os) :
    Captured cfg t.results (captured t) os := by
  rw [h.records, h.results]
  exact hc

theorem Below.mono {n m : Nat} (h : Below n s) (hnm : n ≤ m) : Below m s :=
  fun e he k hk => Nat.lt_of_lt_of_le (h e he k hk) hnm

/-- What the session has of a statement that is over and is being recorded. -/
inductive Ready (cfg : Config) (s : SessionState) : Outcome → Prop where
  | ran {x : Statement} {tag : String} (hsql : s.currentStatementSql = some x.sql)
      (hparameters : s.currentParameters = x.parameters) (hcount : s.currentRowCount = x.rows.length)
      (hrows : Reads cfg (held s) x.rows) (htag : s.currentCommandTag = some tag) : Ready cfg s (.ran x tag)
  | refused (hcount : s.currentRowCount = 0) (hrows : held s = []) (htag : s.currentCommandTag = some "ERROR") :
      Ready cfg s .refused

/-- The rows that are held back go to a file of their own. -/
def Filed (s : SessionState) : Prop := ∀ w ∈ s.currentResultWriter, w.outputPath = s.queryCounter

/-- **A record that is written is that of its statement**, and those before stay as they are. -/
theorem Captured.write {os : List Outcome} {o : Outcome} (h : Captured cfg s.results (captured s) os)
    (hready : Ready cfg s o)
    (hbelow : Below s.queryCounter s) (hfiled : Filed s) :
    Captured cfg (finishWriting s).results (captured (finishWriting s)) (os ++ [o]) ∧
      Below (s.queryCounter + 1) (finishWriting s) := by
  obtain ⟨e, he, hdesc⟩ := captured_writeRecord s
  have hcaptured : captured (finishWriting s) = captured s ++ [e] := he
  have hresults : (finishWriting s).results = (finalizeResultWriter s).results := (writeRecord_frame s).1
  have hfile : ∀ k, resultFile s = some k → k = s.queryCounter := by
    intro k hk
    obtain ⟨w, hw, rfl⟩ := Option.map_eq_some_iff.1 hk
    exact hfiled w (Option.mem_filter_iff.1 hw).1
  have hold : Captured cfg (finalizeResultWriter s).results (captured s) os := by
    refine h.frame fun e he k hk => ?_
    have hlt := hbelow e he k hk
    unfold finalizeResultWriter
    cases hw : s.currentResultWriter with
    | none => rfl
    | some w =>
      dsimp only
      split
      · rfl
      · rw [Dict.get_set, if_neg]
        rw [hfiled w hw]
        omega
  have hown : resultRows (finalizeResultWriter s).results e = held s := resultRows_finalize hdesc.resultFile
  refine ⟨?_, fun d hd k hk => ?_⟩
  · rw [hcaptured, hresults]
    cases hready with
    | ran hsql hparameters hcount hrows htag =>
      refine .ran hold ⟨hdesc.query.trans hsql, hdesc.parameters.trans hparameters, hdesc.rowCount.trans hcount, ?_,
        hdesc.command.trans htag⟩
      rw [hown]
      exact hrows
    | refused hcount hrows htag =>
      exact .refused hold (hdesc.rowCount.trans hcount) (hown.trans hrows) (hdesc.command.trans htag)
  · rw [hcaptured] at hd
    rcases List.mem_append.1 hd with hd | hd
    · exact Nat.lt_succ_of_lt (hbelow d hd k hk)
    · rw [List.mem_singleton.1 hd, hdesc.resultFile] at hk
      rw [hfile k hk]
      exact Nat.lt_succ_self _

end

/-! ## The tracked statement -/
section
variable {cfg : Config} {s : SessionState} {v : Server} {st st' : State}

theorem finish_lookup (henabled : s.captureEnabled = true) (hsql : truthy s.currentStatementSql = true)
    (tag : Option String) :
    finishQueryTracking s tag = .lookup { s with currentCommandTag := tag <|> s.currentCommandTag } := by
  simp only [finishQueryTracking, henabled, hsql, Bool.and_self, if_true]

theorem finish_done (hsql : truthy s.currentStatementSql = false) (tag : Option String) :
    finishQueryTracking s tag = .done (untrack s) := by
  simp only [finishQueryTracking, hsql, Bool.and_false, Bool.false_eq_true, if_false]
  rfl

theorem Kept.reset : Kept s (resetResultTracking s) := ⟨rfl, rfl, Nat.le_refl _⟩

theorem Kept.untrack : Kept s (untrack s) := ⟨rfl, rfl, Nat.le_refl _⟩

theorem Numbered.reset (h : Numbered s) : Numbered (resetResultTracking s) :=
  ⟨h.enabled, h.sequence, fun _ hk => (by cases hk)⟩

theorem Numbered.untrack (h : Numbered s) : Numbered (untrack s) := ⟨h.enabled, h.sequence, fun _ hk => (by cases hk)⟩

/-- Between statements a `ReadyForQuery` records nothing. -/
theorem ready_done (hn : Numbered s) (hsql : truthy s.currentStatementSql = false) (status : TxStatus) :
    ∃ t, handleReadyForQuery s status = .done t ∧ Kept s t ∧ Numbered t ∧ truthy t.currentStatementSql = false := by
  have hfrom : ∃ n id, (if status = .idle then { s with currentTransactionId := none } else ensureTransactionId s) =
      { s with transactionCounter := n, currentTransactionId := id } := by
    split
    · exact ⟨_, _, rfl⟩
    · exact ensureTransactionId_eq s
  have hend : ∀ t : SessionState, Kept s t → Numbered t → truthy t.currentStatementSql = false →
      ∃ u, (if truthy t.currentStatementSql || truthy t.currentStatementSource || 0 < t.currentRowCount then
        finishQueryTracking t none
        else .done (resetResultTracking t)) = .done u ∧ Kept s u ∧ Numbered u ∧
          truthy u.currentStatementSql = false := by
    intro t hkept hnumbered hnone
    split
    · exact ⟨_, finish_done hnone none, hkept.trans Kept.untrack, hnumbered.untrack, rfl⟩
    · exact ⟨_, rfl, hkept.trans Kept.reset, hnumbered.reset, hnone⟩
  obtain ⟨n, id, hens⟩ := hfrom
  unfold handleReadyForQuery
  rw [hens]
  exact hend { s with transactionCounter := n, currentTransactionId := id, currentTransactionStatus := status }
    ⟨rfl, rfl, Nat.le_refl _⟩
    ⟨hn.enabled, hn.sequence, hn.id⟩ hsql

/-- A message that asks for a statement. -/
def Job.asks : Job → Bool
  | .simple (_ :: _) | .execute _ => true
  | _ => false

/-- What the server has not discarded. -/
def Server.live (v : Server) : List Job := if v.skipping then v.queue.dropWhile (· ≠ .sync) else v.queue

/-- Nothing is asked for. -/
def Server.Still (v : Server) : Prop := v.running = none ∧ ∀ j ∈ v.live, j.asks = false

/-- What the session has of the statement a message asks for. -/
def Asked (cfg : Config) (s : SessionState) (names : Names) : Job → Prop
  | .simple rest => ∃ sql, sql ≠ "" ∧ rest = [sql] ∧ s.currentStatementSql = some sql ∧ s.currentParameters = []
  | .execute portal => ∀ x, names.portals.get portal = some x → s.currentStatementSql = some x.sql ∧ Lone cfg x.sql ∧
      (truthy s.currentStatementSql = true → s.currentParameters = x.parameters ∧ x.rows = [])
  | _ => False

/-- No statement is tracked. -/
structure Idle (cfg : Config) (st : State) : Prop where
  writing : st.writing = false
  sql : truthy st.session.currentStatementSql = false
  still : st.server.Still
  own : Captured cfg st.session.results (captured st.session) st.server.outcomes
  below : Below (st.session.queryCounter + 1) st.session

/-- The statement of the first message that asks for one is tracked; the server is before it. -/
structure Waiting (cfg : Config) (st : State) (before : List Job) (j : Job) (after : List Job) : Prop where
  writing : st.writing = false
  queue : st.server.queue = before ++ j :: after
  quiet : ∀ i ∈ before, i.quiet = true
  rest : ∀ i ∈ after, i.asks = false
  skipping : st.server.skipping = false
  running : st.server.running = none
  asked : Asked cfg st.session (before.foldl (Names.after cfg) st.server.names) j
  count : st.session.currentRowCount = 0
  writer : st.session.currentResultWriter = none
  own : Captured cfg st.session.results (captured st.session) st.server.outcomes
  below : Below st.session.queryCounter st.session

/-- The tracked statement is the one that runs. -/
structure Running (cfg : Config) (st : State) (x : Statement) : Prop where
  writing : st.writing = false
  queue : ∃ j after, st.server.queue = j :: after ∧ (j = .simple [] ∨ ∃ portal, j = .execute portal) ∧ ∀ i ∈ after, i.asks = false
  skipping : st.server.skipping = false
  running : st.server.running = some x
  sql : st.session.currentStatementSql = some x.sql
  text : x.sql ≠ ""
  parameters : st.session.currentParameters = x.parameters
  count : st.session.currentRowCount = x.rows.length
  rows : Reads cfg (held st.session) x.rows
  filed : Filed st.session
  own : Captured cfg st.session.results (captured st.session) st.server.outcomes
  below : Below st.session.queryCounter st.session

/-- The tracked statement is over and not recorded yet. -/
structure Writing (cfg : Config) (st : State) (os : List Outcome) (o : Outcome) : Prop where
  writing : st.writing = true
  still : st.server.Still
  outcomes : st.server.outcomes = os ++ [o]
  ready : Ready cfg st.session o
  filed : Filed st.session
  own : Captured cfg st.session.results (captured st.session) os
  below : Below st.session.queryCounter st.session

/-- **Where the two directions stand.** -/
inductive Phase (cfg : Config) (st : State) : Prop where
  | idle (h : Idle cfg st)
  | waiting {before after : List Job} {j : Job} (h : Waiting cfg st before j after)
  | running {x : Statement} (h : Running cfg st x)
  | writing {os : List Outcome} {o : Outcome} (h : Writing cfg st os o)

theorem Job.quiet_asks {j : Job} (h : j.quiet = true) : j.asks = false := by
  cases j <;> simp_all [Job.quiet, Job.asks]

theorem mem_live {j : Job} (h : j ∈ v.live) : j ∈ v.queue := by
  unfold Server.live at h
  split at h
  · exact (List.dropWhile_suffix _).subset h
  · exact h

/-- A message that asks for nothing is added. -/
theorem Server.Still.receive {j : Job} (h : v.Still) (hj : j.asks = false) :
    Server.Still { v with queue := v.queue ++ [j] } := by
  refine ⟨h.1, fun i hi => ?_⟩
  have hmem : i ∈ v.live ∨ i = j := by
    unfold Server.live at hi ⊢
    dsimp only at hi
    split at hi
    · rename_i hskip
      rw [List.dropWhile_append] at hi
      split at hi
      · exact .inr (List.mem_singleton.1 ((List.dropWhile_suffix _).subset hi))
      · rw [if_pos hskip]
        exact (List.mem_append.1 hi).imp_right List.mem_singleton.1
    · rename_i hskip
      rw [if_neg hskip]
      exact (List.mem_append.1 hi).imp_right List.mem_singleton.1
  rcases hmem with hmem | rfl
  · exact h.2 i hmem
  · exact hj

theorem truthy_false {sql : Option String} (h : truthy sql = false) {x : String} (hx : sql = some x) : x = "" := by
  subst hx
  simpa [truthy] using h

theorem truthy_some {sql : Option String} {x : String} (hx : sql = some x) (hne : x ≠ "") : truthy sql = true := by
  subst hx
  simpa [truthy] using hne

theorem Asked.asks {names : Names} {j : Job} (h : Asked cfg s names j) : j.asks = true := by
  cases j with
  | simple rest =>
    obtain ⟨sql, -, rfl, -⟩ := h
    rfl
  | execute portal => rfl
  | _ => exact h.elim

theorem Job.quiet_of_asks {j : Job} (h : j.asks = true) : j.quiet = false := by
  by_contra hq
  rw [Job.quiet_asks (eq_true_of_ne_false hq)] at h
  cases h

/-! ### A message of the client -/

/-- Any phase, for a message that asks for nothing. -/
theorem Phase.receive {j : Job} (h : Phase cfg st) (hj : j.asks = false) :
    Phase cfg { st with server := { st.server with queue := st.server.queue ++ [j] } } := by
  cases h with
  | idle h => exact .idle ⟨h.writing, h.sql, h.still.receive hj, h.own, h.below⟩
  | @waiting before after k h =>
    have hrest : ∀ i ∈ after ++ [j], i.asks = false := by
      intro i hi
      rcases List.mem_append.1 hi with hi | hi
      · exact h.rest i hi
      · exact List.mem_singleton.1 hi ▸ hj
    exact .waiting ⟨h.writing, by simp [h.queue], h.quiet, hrest, h.skipping, h.running, h.asked, h.count,
      h.writer, h.own, h.below⟩
  | running h =>
    obtain ⟨k, after, hq, hk, hafter⟩ := h.queue
    have hrest : ∀ i ∈ after ++ [j], i.asks = false := by
      intro i hi
      rcases List.mem_append.1 hi with hi | hi
      · exact hafter i hi
      · exact List.mem_singleton.1 hi ▸ hj
    exact .running ⟨h.writing, ⟨k, after ++ [j], by simp [hq], hk, hrest⟩, h.skipping, h.running, h.sql, h.text,
      h.parameters,
      h.count, h.rows, h.filed, h.own, h.below⟩
  | writing h => exact .writing ⟨h.writing, h.still.receive hj, h.outcomes, h.ready, h.filed, h.own, h.below⟩

/-- Clearing the tracker loses nothing of a statement without parameters and rows, which a tracked text has. -/
theorem Phase.clear {t : SessionState} (h : Phase cfg st) (hw : st.writing = false)
    (hclear : truthy st.session.currentStatementSql = false ∨
      st.session.currentParameters = [] ∧ st.session.currentRowCount = 0)
    (hkept : Kept st.session t) (hsql : t.currentStatementSql = st.session.currentStatementSql)
    (hcounter : t.queryCounter = st.session.queryCounter) (hparameters : t.currentParameters = [])
    (hcount : t.currentRowCount = 0) (hwriter : t.currentResultWriter = none) : Phase cfg { st with session := t } := by
  cases h with
  | idle h => exact .idle ⟨hw, hsql ▸ h.sql, h.still, hkept.own h.own, hcounter ▸ hkept.below h.below⟩
  | @waiting before after j h =>
    refine .waiting ⟨hw, h.queue, h.quiet, h.rest, h.skipping, h.running, ?_, hcount, hwriter, hkept.own h.own,
      hcounter ▸ hkept.below h.below⟩
    have hasked := h.asked
    cases j with
    | simple rest =>
      obtain ⟨sql, hne, hrest, hs, -⟩ := hasked
      exact ⟨sql, hne, hrest, hsql.trans hs, hparameters⟩
    | execute portal =>
      intro x hx
      obtain ⟨hs, hlone, hp⟩ := hasked x hx
      refine ⟨hsql.trans hs, hlone, fun htruthy => ?_⟩
      rw [show ({ st with session := t } : State).session = t from rfl, hsql] at htruthy
      obtain ⟨hpar, hrows⟩ := hp htruthy
      rcases hclear with hfalse | ⟨hnil, -⟩
      · rw [hfalse] at htruthy
        cases htruthy
      · exact ⟨hparameters.trans (hnil.symm.trans hpar), hrows⟩
    | _ => exact hasked.elim
  | @running x h =>
    rcases hclear with hfalse | ⟨hnil, hzero⟩
    · exact absurd (truthy_false hfalse h.sql) h.text
    · have hrows : x.rows = [] := List.length_eq_zero_iff.1 (h.count.symm.trans hzero)
      refine .running ⟨hw, h.queue, h.skipping, h.running, hsql.trans h.sql, h.text,
        hparameters.trans (hnil.symm.trans h.parameters),
        ?_, ?_, ?_, hkept.own h.own, hcounter ▸ hkept.below h.below⟩
      · rw [hrows]
        exact hcount
      · rw [hrows]
        show Reads cfg (held t) []
        rw [held, hwriter]
        exact .nil
      · intro w hw'
        rw [show ({ st with session := t } : State).session = t from rfl, hwriter] at hw'
        cases hw'
  | writing h => rw [h.writing] at hw; cases hw

/-- What a session tracks anew. -/
structure Started (s t : SessionState) (sql : Option String) (parameters : List ParameterInfo) : Prop where
  kept : Kept s t
  counter : t.queryCounter = s.queryCounter + 1
  sql : t.currentStatementSql = sql
  parameters : t.currentParameters = parameters
  count : t.currentRowCount = 0
  writer : t.currentResultWriter = none
  numbered : Numbered s → Numbered t

theorem started_query (sql : String) : Started s (startQueryTracking s (some sql) "simple") (some sql) [] :=
  ⟨⟨rfl, rfl, Nat.le_succ _⟩, rfl, rfl, rfl, rfl, rfl, fun h => ⟨h.enabled, rfl, fun _ hk => (Option.some.inj hk).symm⟩⟩

theorem started_execute (portal : String) :
    Started s (handleExecute s portal) (portalSql s portal) (portalParameters s portal) :=
  ⟨⟨rfl, rfl, Nat.le_succ _⟩, rfl, rfl, rfl, rfl, rfl, fun h => ⟨h.enabled, rfl, fun _ hk => (Option.some.inj hk).symm⟩⟩

/-- An empty query is started and tracked by no one. -/
theorem Phase.empty {t : SessionState} (h : Phase cfg st) (hw : st.writing = false)
    (hnone : truthy st.session.currentStatementSql = false) (hstart : Started st.session t (some "") []) :
    Phase cfg { st with session := t } := by
  have hfalse : truthy t.currentStatementSql = false := by rw [hstart.sql]; rfl
  cases h with
  | idle h =>
    exact .idle ⟨hw, hfalse, h.still, hstart.kept.own h.own,
      (hstart.kept.below h.below).mono (Nat.succ_le_succ hstart.kept.counter)⟩
  | @waiting before after j h =>
    refine .waiting ⟨hw, h.queue, h.quiet, h.rest, h.skipping, h.running, ?_, hstart.count, hstart.writer,
      hstart.kept.own h.own,
      (hstart.kept.below h.below).mono hstart.kept.counter⟩
    have hasked := h.asked
    cases j with
    | simple rest =>
      obtain ⟨sql, hne, -, hs, -⟩ := hasked
      exact absurd (truthy_false hnone hs) hne
    | execute portal =>
      intro x hx
      obtain ⟨hs, hlone, -⟩ := hasked x hx
      have hempty := truthy_false hnone hs
      refine ⟨hstart.sql.trans (by rw [hempty]), hlone, fun htruthy => ?_⟩
      rw [show ({ st with session := t } : State).session = t from rfl, hfalse] at htruthy
      cases htruthy
    | _ => exact hasked.elim
  | running h => exact absurd (truthy_false hnone h.sql) h.text
  | writing h => rw [h.writing] at hw; cases hw

/-- With nothing but quiet messages ahead no statement is tracked. -/
theorem Phase.quiet (h : Phase cfg st) (hw : st.writing = false)
    (hquiet : ∀ j ∈ st.server.queue, j.quiet = true) : Idle cfg st := by
  cases h with
  | idle h => exact h
  | @waiting before after j h =>
    have hj : j.quiet = true := hquiet j (by simp [h.queue])
    rw [Job.quiet_of_asks h.asked.asks] at hj
    cases hj
  | running h =>
    obtain ⟨j, after, hq, hj, -⟩ := h.queue
    have hquiet := hquiet j (by simp [hq])
    rcases hj with rfl | ⟨portal, rfl⟩ <;> cases hquiet
  | writing h => rw [h.writing] at hw; cases hw

/-- **A statement that is asked for in turn is tracked.** -/
theorem Idle.start {t : SessionState} {j : Job} {sql : Option String} {parameters : List ParameterInfo}
    (h : Idle cfg st)
    (hskip : st.server.skipping = false) (hquiet : ∀ i ∈ st.server.queue, i.quiet = true)
    (hstart : Started st.session t sql parameters) (hasked : Asked cfg t (st.server.ahead cfg) j) :
    Phase cfg { st with session := t, server := { st.server with queue := st.server.queue ++ [j] } } := by
  have hbelow : Below t.queryCounter t := by
    rw [hstart.counter]
    exact hstart.kept.below h.below
  have hwaiting : Waiting cfg { st with session := t, server := { st.server with queue := st.server.queue ++ [j] } }
      st.server.queue j [] :=
    ⟨h.writing, rfl, hquiet, fun i hi => (by cases hi), hskip, h.still.1, hasked, hstart.count, hstart.writer,
      hstart.kept.own h.own, hbelow⟩
  exact .waiting hwaiting

structure Inv (cfg : Config) (st : State) : Prop where
  numbered : Numbered st.session
  phase : Phase cfg st

theorem Inv.client {m : Msg} (hI : Inv cfg st) (hok : InTurn cfg st (.client m))
    (hs : step cfg st (.client m) = some st') :
    Inv cfg st' := by
  cases hs
  cases m with
  | query sql =>
    obtain ⟨hw, hlone, hturn⟩ := hok
    have hstart : Started st.session _ _ _ := started_query sql
    refine ⟨hstart.numbered hI.numbered, ?_⟩
    by_cases hsql : sql = ""
    · have hnone : truthy st.session.currentStatementSql = false := by
        rcases hturn with ⟨-, hnone⟩ | ⟨-, hquiet⟩
        · exact hnone
        · exact (hI.phase.quiet hw hquiet).sql
      have hjob : (job cfg (.query sql)).asks = false := by
        rw [Lone, if_pos hsql] at hlone
        rw [job, hlone]
        rfl
      subst hsql
      exact (hI.phase.empty hw hnone hstart).receive hjob
    · rcases hturn with ⟨hempty, -⟩ | ⟨hskip, hquiet⟩
      · exact absurd hempty hsql
      · rw [Lone, if_neg hsql] at hlone
        refine (hI.phase.quiet hw hquiet).start hskip hquiet hstart ?_
        rw [job, hlone]
        exact ⟨sql, hsql, rfl, rfl, rfl⟩
  | parse name sql typeOids =>
    have hjob : (job cfg (.parse name sql typeOids)).asks = false := rfl
    have hclear : Phase cfg
        { st with session := handleFrontendMessage st.session cfg.decode (.parse name sql typeOids) } :=
      hI.phase.clear hok.1 hok.2 ⟨rfl, rfl, Nat.le_refl _⟩ rfl rfl rfl rfl rfl
    exact ⟨⟨hI.numbered.enabled, hI.numbered.sequence, fun _ hk => (by cases hk)⟩, hclear.receive hjob⟩
  | bind portal statement paramFormats parameters resultFormats =>
    have hjob : (job cfg (.bind portal statement paramFormats parameters resultFormats)).asks = false := rfl
    let bound : Msg := .bind portal statement paramFormats parameters resultFormats
    have hclear : Phase cfg { st with session := handleFrontendMessage st.session cfg.decode bound } :=
      hI.phase.clear hok.1 hok.2 ⟨rfl, rfl, Nat.le_refl _⟩ rfl rfl rfl rfl rfl
    exact ⟨⟨hI.numbered.enabled, hI.numbered.sequence, fun _ hk => (by cases hk)⟩, hclear.receive hjob⟩
  | execute portal =>
    obtain ⟨hw, hskip, hquiet, hagrees⟩ := hok
    have hstart : Started st.session _ _ _ := started_execute portal
    refine ⟨hstart.numbered hI.numbered, (hI.phase.quiet hw hquiet).start hskip hquiet hstart ?_⟩
    intro x hx
    obtain ⟨hsql, hparameters, hrows, hlone⟩ := hagrees x hx
    exact ⟨hsql, hlone, fun _ => ⟨hparameters, hrows⟩⟩
  | _ => exact ⟨hI.numbered, hI.phase.receive rfl⟩

/-! ### The server by itself -/

theorem begin_cases {v' : Server} (h : v.begin cfg = some v') : v.skipping = false ∧ v.running = none ∧
    ((∃ sql rest q, v.queue = .simple (sql :: rest) :: q ∧ v' =
      { v with queue := .simple rest :: q, running := some { sql } }) ∨
      ∃ portal q x, v.queue = .execute portal :: q ∧ v.names.portals.get portal = some x ∧ cfg.statements x.sql ≠ [] ∧
        v' = { v with running := some x }) := by
  unfold Server.begin at h
  split at h
  · cases h
  · rename_i hready
    simp only [Bool.or_eq_true, not_or, Bool.not_eq_true, Option.isSome_eq_false_iff,
      Option.isNone_iff_eq_none] at hready
    refine ⟨hready.1, hready.2, ?_⟩
    split at h
    · rename_i sql rest q hq
      cases h
      exact .inl ⟨sql, rest, q, hq, rfl⟩
    · rename_i portal q hq
      split at h
      · rename_i x hx
        split at h
        · cases h
        · cases h
          exact .inr ⟨portal, q, x, hq, hx, ‹_›, rfl⟩
      · cases h
    · cases h

theorem pass_cases {v' : Server} (h : v.pass = some v') :
    ∃ j q, v.queue = j :: q ∧ (j = .flush ∨ v.skipping = true ∧ j ≠ .sync) ∧ v' = { v with queue := q } := by
  unfold Server.pass at h
  split at h
  · rename_i j q hq
    split at h
    · cases h
      exact ⟨j, q, hq, ‹_›, rfl⟩
    · cases h
  · cases h

/-- What is asked for first is not asked for while nothing is. -/
theorem Server.Still.head {j : Job} {q : List Job} (h : v.Still) (hskip : v.skipping = false) (hq : v.queue = j :: q) :
    j.asks = false := by
  refine h.2 j ?_
  rw [Server.live, hskip, hq]
  exact List.mem_cons_self

/-- A message less is asked for. -/
theorem Server.Still.pop {j : Job} {q : List Job} {names : Names} (h : v.Still) (hq : v.queue = j :: q)
    (hj : v.skipping = true → j ≠ .sync) : Server.Still { v with queue := q, names } := by
  refine ⟨h.1, fun i hi => h.2 i ?_⟩
  unfold Server.live at hi ⊢
  rw [hq]
  cases hskip : v.skipping with
  | true =>
    simp only [hskip, if_true] at hi ⊢
    rw [List.dropWhile_cons_of_pos (by simpa using hj hskip)]
    exact hi
  | false =>
    simp only [hskip, Bool.false_eq_true, if_false] at hi ⊢
    exact List.mem_cons_of_mem _ hi

theorem Phase.pass {v' : Server} (h : Phase cfg st) (hpass : st.server.pass = some v') :
    Phase cfg { st with server := v' } := by
  obtain ⟨i, q, hq, hi, rfl⟩ := pass_cases hpass
  have hsync : st.server.skipping = true → i ≠ .sync := by
    rintro - rfl
    rcases hi with hi | ⟨-, hi⟩
    · cases hi
    · exact hi rfl
  cases h with
  | idle h => exact .idle ⟨h.writing, h.sql, h.still.pop hq hsync, h.own, h.below⟩
  | @waiting before after j h =>
    have hflush : i = .flush := by
      rcases hi with hi | ⟨hskip, -⟩
      · exact hi
      · rw [h.skipping] at hskip
        cases hskip
    subst hflush
    have hqueue := h.queue
    rw [hq] at hqueue
    cases before with
    | nil =>
      have hj := h.asked.asks
      rw [← (List.cons.inj hqueue).1] at hj
      cases hj
    | cons k before =>
      obtain ⟨rfl, rfl⟩ := List.cons.inj hqueue
      exact .waiting ⟨h.writing, rfl, fun k hk => h.quiet k (List.mem_cons_of_mem _ hk), h.rest, h.skipping,
        h.running, h.asked,
        h.count, h.writer, h.own, h.below⟩
  | running h =>
    obtain ⟨j, after, hqueue, hj, -⟩ := h.queue
    obtain ⟨rfl, -⟩ := List.cons.inj (hq.symm.trans hqueue)
    rcases hi with rfl | ⟨hskip, -⟩
    · rcases hj with hj | ⟨_, hj⟩ <;> cases hj
    · rw [h.skipping] at hskip
      cases hskip
  | writing h => exact .writing ⟨h.writing, h.still.pop hq hsync, h.outcomes, h.ready, h.filed, h.own, h.below⟩

/-- A text that runs is not empty. -/
theorem Lone.ne_empty {sql : String} (h : Lone cfg sql) (hne : cfg.statements sql ≠ []) : sql ≠ "" := by
  rintro rfl
  exact hne h

theorem Phase.begin {v' : Server} (h : Phase cfg st) (hbegin : st.server.begin cfg = some v') :
    Phase cfg { st with server := v' } := by
  obtain ⟨hskip, hrun, hcases⟩ := begin_cases hbegin
  have hhead : ∃ i q, st.server.queue = i :: q ∧ i.asks = true := by
    rcases hcases with ⟨sql, rest, q, hq, -⟩ | ⟨portal, q, x, hq, -⟩
    · exact ⟨_, q, hq, rfl⟩
    · exact ⟨_, q, hq, rfl⟩
  obtain ⟨i, q, hq, hi⟩ := hhead
  cases h with
  | idle h =>
    rw [h.still.head hskip hq] at hi
    cases hi
  | @waiting before after j h =>
    have hqueue := h.queue
    cases before with
    | cons k before =>
      obtain ⟨rfl, -⟩ := List.cons.inj (hq.symm.trans hqueue)
      rw [Job.quiet_asks (h.quiet _ List.mem_cons_self)] at hi
      cases hi
    | nil =>
      have hheld : held st.session = [] := by rw [held, h.writer]; rfl
      have hfiled : Filed st.session := by
        intro w hw
        rw [h.writer] at hw
        cases hw
      have hasked := h.asked
      rcases hcases with ⟨sql, rest, q, hq, rfl⟩ | ⟨portal, q, x, hq, hx, hne, rfl⟩
      · obtain ⟨rfl, rfl⟩ := List.cons.inj (hqueue.symm.trans hq)
        obtain ⟨text, hne, hrest, hsql, hparameters⟩ := hasked
        obtain ⟨rfl, rfl⟩ := List.cons.inj hrest
        refine .running ⟨h.writing, ⟨_, _, rfl, .inl rfl, h.rest⟩, hskip, rfl, hsql, hne, hparameters, h.count,
          ?_, hfiled,
          h.own, h.below⟩
        rw [hheld]
        exact .nil
      · obtain ⟨rfl, rfl⟩ := List.cons.inj (hqueue.symm.trans hq)
        obtain ⟨hsql, hlone, htracked⟩ := hasked x hx
        have htext := hlone.ne_empty hne
        obtain ⟨hparameters, hrows⟩ := htracked (truthy_some hsql htext)
        refine .running ⟨h.writing, ⟨_, _, hq, .inr ⟨portal, rfl⟩, h.rest⟩, hskip, rfl, hsql, htext,
          hparameters, ?_, ?_, hfiled,
          h.own, h.below⟩
        · rw [hrows]
          exact h.count
        · rw [hheld, hrows]
          exact .nil
  | running h => rw [h.running] at hrun; cases hrun
  | writing h =>
    rw [h.still.head hskip hq] at hi
    cases hi

/-! ### A reply -/

/-- The tracker of `t` is that of `s`. -/
structure Alike (s t : SessionState) : Prop where
  kept : Kept s t
  counter : t.queryCounter = s.queryCounter
  sql : t.currentStatementSql = s.currentStatementSql
  parameters : t.currentParameters = s.currentParameters
  count : t.currentRowCount = s.currentRowCount
  writer : t.currentResultWriter = s.currentResultWriter
  numbered : Numbered s → Numbered t

theorem Alike.refl (s : SessionState) : Alike s s := ⟨.refl s, rfl, rfl, rfl, rfl, rfl, id⟩

theorem alike_rowDescription (decode : Codec) (columns : List ColumnInfo) :
    ∃ t, handleBackendMessage s decode (.rowDescription columns) = .done t ∧ Alike s t :=
  ⟨_, rfl, ⟨⟨rfl, rfl, Nat.le_refl _⟩, rfl, rfl, rfl, rfl, rfl, fun h => ⟨h.enabled, h.sequence, h.id⟩⟩⟩

theorem quiet_of_answers {r : Reply} {j : Job} (h : r.answers j = true) : j.quiet = true := by
  cases r <;> cases j <;> first | rfl | cases h

/-- The answer to a quiet message leaves the tracker alone. -/
theorem alike_answer {r : Reply} {j : Job} (decode : Codec) (h : r.answers j = true) :
    ∃ t, handleBackendMessage s decode r = .done t ∧ Alike s t := by
  cases r with
  | parseComplete | bindComplete | closeComplete | noData => exact ⟨s, rfl, .refl s⟩
  | rowDescription columns => exact alike_rowDescription decode columns
  | _ => cases j <;> cases h

/-- A running statement, for another tracker that is alike. -/
theorem Running.alike {t : SessionState} {x : Statement} (h : Running cfg st x) (ha : Alike st.session t) :
    Running cfg { st with session := t } x := by
  refine ⟨h.writing, h.queue, h.skipping, h.running, ha.sql.trans h.sql, h.text, ha.parameters.trans h.parameters,
    ha.count.trans h.count, ?_, ?_, ha.kept.own h.own, ha.counter ▸ ha.kept.below h.below⟩
  · show Reads cfg (held t) x.rows
    rw [held, ha.writer]
    exact h.rows
  · show Filed t
    rw [Filed, ha.writer, ha.counter]
    exact h.filed

/-- The server has answered the first message. -/
theorem Phase.answer {t : SessionState} {j : Job} {q : List Job} (h : Phase cfg st) (hw : st.writing = false)
    (hrun : st.server.running = none) (hskip : st.server.skipping = false) (hq : st.server.queue = j :: q)
      (hj : j.quiet = true)
    (ha : Alike st.session t) :
    Phase cfg { session := t, server := { st.server with queue := q, names := st.server.names.after cfg j } } := by
  cases h with
  | idle h =>
    refine .idle ⟨rfl, ha.sql ▸ h.sql, h.still.pop hq (fun hs => ?_), ha.kept.own h.own,
      ha.counter ▸ ha.kept.below h.below⟩
    rw [hskip] at hs
    cases hs
  | @waiting before after k h =>
    have hqueue := hq.symm.trans h.queue
    cases before with
    | nil =>
      obtain ⟨rfl, -⟩ := List.cons.inj hqueue
      rw [Job.quiet_of_asks h.asked.asks] at hj
      cases hj
    | cons i before =>
      obtain ⟨rfl, rfl⟩ := List.cons.inj hqueue
      refine .waiting ⟨rfl, rfl, fun i hi => h.quiet i (List.mem_cons_of_mem _ hi), h.rest, h.skipping, h.running, ?_,
        ha.count.trans h.count, ha.writer.trans h.writer, ha.kept.own h.own, ha.counter ▸ ha.kept.below h.below⟩
      have hasked := h.asked
      cases k with
      | simple rest =>
        obtain ⟨sql, hne, hrest, hsql, hparameters⟩ := hasked
        exact ⟨sql, hne, hrest, ha.sql.trans hsql, ha.parameters.trans hparameters⟩
      | execute portal =>
        intro x hx
        obtain ⟨hsql, hlone, htracked⟩ := hasked x hx
        refine ⟨ha.sql.trans hsql, hlone, fun htruthy => ?_⟩
        obtain ⟨hparameters, hrows⟩ := htracked (ha.sql ▸ htruthy)
        exact ⟨ha.parameters.trans hparameters, hrows⟩
      | _ => exact hasked.elim
  | running h => rw [h.running] at hrun; cases hrun
  | writing h => rw [h.writing] at hw; cases hw

/-- A `ReadyForQuery` comes between statements only. -/
theorem Phase.ready {j : Job} {q : List Job} (h : Phase cfg st) (hw : st.writing = false)
    (hrun : st.server.running = none)
    (hq : st.server.queue = j :: q) (hj : j = .sync ∨ j = .simple []) : Idle cfg st := by
  have hneither : j.quiet = false ∧ j.asks = false := by
    rcases hj with rfl | rfl <;> exact ⟨rfl, rfl⟩
  cases h with
  | idle h => exact h
  | @waiting before after k h =>
    have hqueue := hq.symm.trans h.queue
    cases before with
    | nil =>
      obtain ⟨rfl, -⟩ := List.cons.inj hqueue
      rw [h.asked.asks] at hneither
      cases hneither.2
    | cons i before =>
      obtain ⟨rfl, -⟩ := List.cons.inj hqueue
      rw [h.quiet _ List.mem_cons_self] at hneither
      cases hneither.1
  | running h => rw [h.running] at hrun; cases hrun
  | writing h => rw [h.writing] at hw; cases hw

/-- The statement that runs is over, whether it is its last message or not. -/
theorem Running.over {t : SessionState} {x : Statement} {tag : String} {v' : Server} (h : Running cfg st x)
    (hsession : Alike st.session t) (htag : t.currentCommandTag = some tag) (hstill : v'.Still)
    (houtcomes : v'.outcomes = st.server.outcomes ++ [.ran x tag]) :
    Phase cfg { session := t, server := v', writing := true } := by
  have hrunning := h.alike hsession
  exact .writing ⟨rfl, hstill, houtcomes, .ran hrunning.sql hrunning.parameters hrunning.count hrunning.rows
    htag, hrunning.filed,
    hrunning.own, hrunning.below⟩

theorem Running.still_finish {x : Statement} (h : Running cfg st x) (o : Outcome) : (st.server.finish o).Still := by
  obtain ⟨j, after, hq, hj, hrest⟩ := h.queue
  refine ⟨rfl, fun i hi => ?_⟩
  have hmem := mem_live hi
  rcases hj with rfl | ⟨portal, rfl⟩ <;> simp only [Server.finish, hq] at hmem
  · rcases List.mem_cons.1 hmem with rfl | hmem
    · rfl
    · exact hrest i hmem
  · exact hrest i hmem

/-- After an error nothing is asked for, if nothing is after the first message. -/
theorem still_fail {j : Job} {q : List Job} (o : Outcome) (hq : v.queue = j :: q) (hrest : ∀ i ∈ q, i.asks = false) :
    (v.fail o).Still := by
  have hmem : ∀ i ∈ (v.fail o).queue, i.asks = false := by
    intro i hi
    unfold Server.fail at hi
    rw [hq] at hi
    cases j with
    | simple rest =>
      rcases List.mem_cons.1 hi with rfl | hi
      · rfl
      · exact hrest i hi
    | sync =>
      rcases List.mem_cons.1 hi with rfl | hi
      · rfl
      · exact hrest i hi
    | _ => exact hrest i hi
  refine ⟨?_, fun i hi => hmem i (mem_live hi)⟩
  unfold Server.fail
  dsimp only
  split <;> rfl

theorem fail_outcomes (o : Outcome) : (v.fail o).outcomes = v.outcomes ++ [o] := by
  unfold Server.fail
  dsimp only
  split <;> rfl

/-- An error before anything is asked for. -/
theorem Server.Still.fail (h : v.Still) (hskip : v.skipping = false) (o : Outcome) : (v.fail o).Still := by
  have hall : ∀ i ∈ v.queue, i.asks = false := by
    intro i hi
    refine h.2 i ?_
    rw [Server.live, hskip]
    exact hi
  cases hq : v.queue with
  | nil =>
    have hfail : v.fail o = { v with running := none, outcomes := v.outcomes ++ [o] } := by
      unfold Server.fail
      rw [hq]
    rw [hfail]
    exact ⟨rfl, h.2⟩
  | cons j q =>
    rw [hq] at hall
    exact still_fail o hq fun i hi => hall i (List.mem_cons_of_mem _ hi)

/-- An error before a statement that is asked for: the server comes to the first `Sync` without it. -/
theorem Waiting.still_fail {before after : List Job} {j : Job} (h : Waiting cfg st before j after) (o : Outcome) :
    (st.server.fail o).Still := by
  cases before with
  | nil => exact Capture.still_fail o h.queue h.rest
  | cons i before =>
    have hi : i.quiet = true := h.quiet i List.mem_cons_self
    have hfail : st.server.fail o = { st.server with
        running := none, outcomes := st.server.outcomes ++ [o], queue := before ++ j :: after, skipping := true } := by
      unfold Server.fail
      rw [h.queue]
      cases i <;> first | rfl | cases hi
    rw [hfail]
    refine ⟨rfl, fun k hk => ?_⟩
    -- the `Sync` is after the statement
    have hnosync : ∀ k ∈ before ++ [j], (decide (k ≠ .sync)) = true := by
      intro k hk
      rcases List.mem_append.1 hk with hk | hk
      · have hq := h.quiet k (List.mem_cons_of_mem _ hk)
        simp only [ne_eq, decide_not, Bool.not_eq_eq_eq_not, Bool.not_true, decide_eq_false_iff_not]
        rintro rfl
        cases hq
      · have hj := h.asked.asks
        rw [← List.mem_singleton.1 hk] at hj
        simp only [ne_eq, decide_not, Bool.not_eq_eq_eq_not, Bool.not_true, decide_eq_false_iff_not]
        rintro rfl
        cases hj
    have hlive : k ∈ (before ++ j :: after).dropWhile (· ≠ .sync) := hk
    rw [show before ++ j :: after = (before ++ [j]) ++ after by simp, List.dropWhile_append_of_pos hnosync] at hlive
    exact h.rest k ((List.dropWhile_suffix _).subset hlive)

/-- An error without a statement that runs. -/
theorem Phase.refused {fields : Dict Char String} (h : Phase cfg st) (hn : Numbered st.session)
    (hw : st.writing = false)
    (hrun : st.server.running = none) (hskip : st.server.skipping = false) :
    Inv cfg (match handleBackendMessage st.session cfg.decode (.error fields) with
      | .done session => { session, server := st.server.fail .refused }
      | .lookup session => { session, server := st.server.fail .refused, writing := true }) := by
  have hunseen : ∀ t, Kept st.session t → Captured cfg st.session.results (captured st.session) st.server.outcomes →
      Captured cfg t.results (captured t) (st.server.fail .refused).outcomes := by
    intro t hkept hown
    rw [fail_outcomes]
    exact hkept.own hown.unseen
  have hnumbered : Numbered { st.session with currentError := some fields } := ⟨hn.enabled, hn.sequence, hn.id⟩
  have hkept : Kept st.session (untrack { st.session with currentError := some fields }) := ⟨rfl, rfl, Nat.le_refl _⟩
  have hidle : ∀ hsql : truthy st.session.currentStatementSql = false,
      handleBackendMessage st.session cfg.decode (.error fields) =
        .done (untrack { st.session with currentError := some fields }) :=
    fun hsql => finish_done (s := { st.session with currentError := some fields }) hsql (some "ERROR")
  cases h with
  | idle h =>
    rw [hidle h.sql]
    exact ⟨hnumbered.untrack, .idle ⟨rfl, rfl, h.still.fail hskip _, hunseen _ hkept h.own, hkept.below h.below⟩⟩
  | @waiting before after j h =>
    cases hsql : truthy st.session.currentStatementSql with
    | false =>
      rw [hidle hsql]
      exact ⟨hnumbered.untrack, .idle ⟨rfl, rfl, h.still_fail _, hunseen _ hkept h.own,
        (hkept.below h.below).mono (Nat.le_succ _)⟩⟩
    | true =>
      have hlookup : handleBackendMessage st.session cfg.decode (.error fields) =
          .lookup { st.session with currentError := some fields, currentCommandTag := some "ERROR" } :=
        finish_lookup (s := { st.session with currentError := some fields }) hn.enabled hsql (some "ERROR")
      rw [hlookup]
      refine ⟨⟨hn.enabled, hn.sequence, hn.id⟩,
        .writing ⟨rfl, h.still_fail _, fail_outcomes _, .refused h.count ?_ rfl, ?_, h.own,
        h.below⟩⟩
      · show held st.session = []
        rw [held, h.writer]
        rfl
      · intro w hwriter
        rw [show _ = st.session.currentResultWriter from rfl, h.writer] at hwriter
        cases hwriter
  | running h => rw [h.running] at hrun; cases hrun
  | writing h => rw [h.writing] at hw; cases hw

theorem held_appendResultRow (henabled : s.captureEnabled = true) (row : Row) :
    held (appendResultRow s row) = held s ++ [row] := by
  unfold appendResultRow held
  rw [henabled]
  cases s.currentResultWriter <;> rfl

/-- A row goes to the statement that runs. -/
theorem Running.row {x : Statement} {values : List (Option String)} (h : Running cfg st x) (hn : Numbered st.session) :
    ∃ t, handleBackendMessage st.session cfg.decode (.dataRow values) = .done t ∧ Numbered t ∧
      Running cfg { session := t, server := { st.server with running := some { x with rows := x.rows ++ [values] } } }
        { x with rows := x.rows ++ [values] } := by
  obtain ⟨s, hs⟩ : ∃ s : SessionState,
    s = { st.session with currentRowCount := st.session.currentRowCount + 1 } := ⟨_, rfl⟩
  have hn' : Numbered s := by rw [hs]; exact ⟨hn.enabled, hn.sequence, hn.id⟩
  have hreads : Reads cfg (held (appendResultRow s (dataRowToObject cfg.decode st.session.rowDescription values)))
      (x.rows ++ [values]) := by
    rw [held_appendResultRow hn'.enabled]
    have hold : Reads cfg (held s) x.rows := by rw [hs]; exact h.rows
    exact List.rel_append hold (.cons ⟨_, rfl⟩ .nil)
  refine ⟨appendResultRow s (dataRowToObject cfg.decode st.session.rowDescription values), by rw [hs]; rfl, ?_⟩
  have hwriter : appendResultRow s (dataRowToObject cfg.decode st.session.rowDescription values) = { s with
      currentResultWriter := (appendResultRow s
        (dataRowToObject cfg.decode st.session.rowDescription values)).currentResultWriter } := by
    unfold appendResultRow
    split
    · rfl
    · split <;> rfl
  have hfiled : ∀ w ∈ (appendResultRow s
    (dataRowToObject cfg.decode st.session.rowDescription values)).currentResultWriter,
      w.outputPath = s.queryCounter := by
    intro w hw
    unfold appendResultRow at hw
    rw [hn'.enabled] at hw
    cases hold : s.currentResultWriter with
    | none =>
      simp only [hold] at hw
      cases hw
      exact hn'.name
    | some w' =>
      simp only [hold] at hw
      cases hw
      have hmem : w' ∈ st.session.currentResultWriter := by rw [hs] at hold; exact hold
      rw [hs]
      exact h.filed w' hmem
  have hcount : s.currentRowCount = (x.rows ++ [values]).length := by
    rw [hs, List.length_append]
    exact congrArg (· + 1) h.count
  have hkept : Kept st.session s := by rw [hs]; exact ⟨rfl, rfl, Nat.le_refl _⟩
  have hsame : s.currentStatementSql = st.session.currentStatementSql ∧
    s.currentParameters = st.session.currentParameters ∧
      s.queryCounter = st.session.queryCounter := by rw [hs]; exact ⟨rfl, rfl, rfl⟩
  rw [hwriter] at hreads ⊢
  exact ⟨⟨hn'.enabled, hn'.sequence, hn'.id⟩,
    ⟨rfl, h.queue, h.skipping, rfl, hsame.1.trans h.sql, h.text, hsame.2.1.trans h.parameters,
    hcount, hreads, hfiled, hkept.own h.own, (hkept.below h.below).mono hkept.counter⟩⟩

/-- What runs at the server is what is tracked. -/
theorem Phase.running_of {x : Statement} (h : Phase cfg st) (hrun : st.server.running = some x) : Running cfg st x := by
  cases h with
  | idle h => rw [h.still.1] at hrun; cases hrun
  | waiting h => rw [h.running] at hrun; cases hrun
  | running h =>
    rw [h.running] at hrun
    cases hrun
    exact h
  | writing h => rw [h.still.1] at hrun; cases hrun

/-- The last reply to a statement leaves its record to be written. -/
theorem Running.recorded {x : Statement} {s : SessionState} {tag : String} {v' : Server} (h : Running cfg st x)
    (hn : Numbered st.session) (hs : Alike st.session s) (hstill : v'.Still)
    (houtcomes : v'.outcomes = st.server.outcomes ++ [.ran x tag]) :
    Inv cfg (match finishQueryTracking s (some tag) with
      | .done session => { session, server := v' }
      | .lookup session => { session, server := v', writing := true }) := by
  have hnumbered := hs.numbered hn
  have htruthy : truthy s.currentStatementSql = true := truthy_some (hs.sql.trans h.sql) h.text
  rw [finish_lookup hnumbered.enabled htruthy]
  refine ⟨⟨hnumbered.enabled, hnumbered.sequence, hnumbered.id⟩, ?_⟩
  have halike : Alike st.session { s with currentCommandTag := some tag <|> s.currentCommandTag } :=
    ⟨⟨hs.kept.records, hs.kept.results, hs.kept.counter⟩, hs.counter, hs.sql, hs.parameters, hs.count, hs.writer,
      fun hn => ⟨(hs.numbered hn).enabled, (hs.numbered hn).sequence, (hs.numbered hn).id⟩⟩
  exact h.over halike rfl hstill houtcomes

theorem Running.still_fail {x : Statement} (h : Running cfg st x) (o : Outcome) : (st.server.fail o).Still := by
  obtain ⟨j, after, hq, -, hrest⟩ := h.queue
  exact Capture.still_fail o hq hrest

/-- A `ReadyForQuery` between statements. -/
theorem Idle.ready {status : TxStatus} {v' : Server} (h : Idle cfg st) (hn : Numbered st.session) (hstill : v'.Still)
    (houtcomes : v'.outcomes = st.server.outcomes) :
    Inv cfg (match handleBackendMessage st.session cfg.decode (.readyForQuery status) with
      | .done session => { session, server := v' }
      | .lookup session => { session, server := v', writing := true }) := by
  obtain ⟨t, ht, hkept, hnumbered, hsql⟩ := ready_done hn h.sql status
  have hhandle : handleBackendMessage st.session cfg.decode (.readyForQuery status) = .done t := ht
  rw [hhandle]
  refine ⟨hnumbered, .idle ⟨rfl, hsql, hstill, ?_, (hkept.below h.below).mono (Nat.succ_le_succ hkept.counter)⟩⟩
  rw [houtcomes]
  exact hkept.own h.own

theorem Inv.reply {r : Reply} (hI : Inv cfg st) (hok : InTurn cfg st (.reply r))
    (hs : step cfg st (.reply r) = some st') :
    Inv cfg st' := by
  have hwriting : st.writing = false := by
    by_contra hw
    simp only [step, eq_true_of_ne_false hw, if_true] at hs
    cases hs
  simp only [step, hwriting, Bool.false_eq_true, if_false] at hs
  obtain ⟨v', hv, rfl⟩ := Option.map_eq_some_iff.1 hs
  have hsame : Inv cfg { session := st.session, server := st.server } := by
    obtain ⟨session, writing, server⟩ := st
    cases hwriting
    exact hI
  cases reply_cases hv with
  | other => exact hsame
  | @columns x columns hrun =>
    obtain ⟨t, ht, halike⟩ := alike_rowDescription (s := st.session) cfg.decode columns
    rw [ht]
    refine ⟨halike.numbered hI.numbered, ?_⟩
    have hrunning := (hI.phase.running_of hrun).alike halike
    rw [hwriting] at hrunning
    exact .running hrunning
  | row hrun =>
    obtain ⟨t, ht, hnumbered, hrunning⟩ := (hI.phase.running_of hrun).row hI.numbered
    rw [ht]
    exact ⟨hnumbered, .running hrunning⟩
  | complete hrun =>
    have hrunning := hI.phase.running_of hrun
    exact hrunning.recorded hI.numbered (.refl _) (hrunning.still_finish _) rfl
  | error hrun =>
    have hrunning := hI.phase.running_of hrun
    have halike : ∀ fields, Alike st.session { st.session with currentError := some fields } := fun _ =>
      ⟨⟨rfl, rfl, Nat.le_refl _⟩, rfl, rfl, rfl, rfl, rfl, fun hn => ⟨hn.enabled, hn.sequence, hn.id⟩⟩
    exact hrunning.recorded hI.numbered (halike _) (hrunning.still_fail _) (fail_outcomes _)
  | suspended => exact hok.elim
  | refused hrun hskip => exact hI.phase.refused hI.numbered hwriting hrun hskip
  | synced hrun hq =>
    have hidle := hI.phase.ready hwriting hrun hq (.inl rfl)
    refine hidle.ready hI.numbered ?_ rfl
    -- a `Sync` is never discarded
    refine ⟨hrun, fun i hi => hidle.still.2 i ?_⟩
    unfold Server.live
    rw [hq]
    split
    · exact List.mem_cons_of_mem _ hi
    · exact List.mem_cons_of_mem _ hi
  | queried hrun hskip hq =>
    have hidle := hI.phase.ready hwriting hrun hq (.inr rfl)
    exact hidle.ready hI.numbered (hidle.still.pop hq fun h => absurd (hskip.symm.trans h) Bool.false_ne_true) rfl
  | emptyQuery hq => exact hsame
  | @emptyPortal portal x q hrun hskip hq hportal hempty =>
    refine ⟨hI.numbered, ?_⟩
    cases hI.phase with
    | idle h =>
      have hasks := h.still.head hskip hq
      cases hasks
    | @waiting before after j h =>
      have hqueue := hq.symm.trans h.queue
      cases before with
      | nil =>
        obtain ⟨rfl, rfl⟩ := List.cons.inj hqueue
        obtain ⟨hsql, hlone, -⟩ := h.asked x hportal
        have hnone : truthy st.session.currentStatementSql = false := by
          rw [hsql]
          by_contra hne
          rw [Lone, if_neg (fun h => hne (by rw [h]; rfl)), hempty] at hlone
          cases hlone
        refine .idle ⟨rfl, hnone, ⟨hrun, fun i hi => h.rest i (mem_live hi)⟩, h.own, h.below.mono (Nat.le_succ _)⟩
      | cons i before =>
        obtain ⟨rfl, -⟩ := List.cons.inj hqueue
        have hquiet := h.quiet _ List.mem_cons_self
        cases hquiet
    | running h => rw [h.running] at hrun; cases hrun
    | writing h => rw [h.writing] at hwriting; cases hwriting
  | @answer r j q hrun hskip hq hanswers =>
    obtain ⟨t, ht, halike⟩ := alike_answer (s := st.session) cfg.decode hanswers
    rw [ht]
    exact ⟨halike.numbered hI.numbered, hI.phase.answer hwriting hrun hskip hq (quiet_of_answers hanswers) halike⟩

theorem Inv.resume (hI : Inv cfg st) (hs : step cfg st .resume = some st') : Inv cfg st' := by
  simp only [step] at hs
  split at hs
  · rename_i hw
    cases hs
    refine ⟨?_, ?_⟩
    · obtain ⟨-, hcounter, hsequence, henabled⟩ := writeRecord_frame st.session
      exact ⟨henabled.trans hI.numbered.enabled, hsequence.trans (hI.numbered.sequence.trans hcounter.symm),
        fun _ hk => (by cases hk)⟩
    · cases hI.phase with
      | idle h => rw [h.writing] at hw; cases hw
      | waiting h => rw [h.writing] at hw; cases hw
      | running h => rw [h.writing] at hw; cases hw
      | writing h =>
        obtain ⟨hown, hbelow⟩ := h.own.write h.ready h.below h.filed
        have hcounter : (finishWriting st.session).queryCounter = st.session.queryCounter :=
          (writeRecord_frame st.session).2.1
        refine .idle ⟨rfl, rfl, h.still, ?_, ?_⟩
        · show Captured cfg _ _ st.server.outcomes
          rw [h.outcomes]
          exact hown
        · show Below ((finishWriting st.session).queryCounter + 1) _
          rw [hcounter]
          exact hbelow
  · cases hs

theorem Inv.step {a : Act} (hI : Inv cfg st) (hok : InTurn cfg st a) (hs : step cfg st a = some st') : Inv cfg st' := by
  cases a with
  | client m => exact hI.client hok hs
  | begin =>
    obtain ⟨v', hv, rfl⟩ := Option.map_eq_some_iff.1 hs
    exact ⟨hI.numbered, hI.phase.begin hv⟩
  | pass =>
    obtain ⟨v', hv, rfl⟩ := Option.map_eq_some_iff.1 hs
    exact ⟨hI.numbered, hI.phase.pass hv⟩
  | reply r => exact hI.reply hok hs
  | resume => exact hI.resume hs

theorem Inv.own (hI : Inv cfg st) : Own cfg st := by
  intro hw
  cases hI.phase with
  | idle h => exact h.own
  | waiting h => exact h.own
  | running h => exact h.own
  | writing h => rw [h.writing] at hw; cases hw

end

def plain : Config := ⟨fun _ _ raw => raw, fun sql => if sql = "" then [] else [sql]⟩

instance (cfg : Config) (sql : String) : Decidable (Lone cfg sql) := inferInstanceAs (Decidable (_ = _))

/-- `InTurn`, computed. -/
def inTurnCheck (cfg : Config) (st : State) : Act → Bool
  | .client (.query sql) => !st.writing && decide (Lone cfg sql) &&
      (decide (sql = "") && !truthy st.session.currentStatementSql || !st.server.skipping && st.server.queue.all Job.quiet)
  | .client (.execute portal) => !st.writing && !st.server.skipping && st.server.queue.all Job.quiet &&
      ((st.server.ahead cfg).portals.get portal).all fun x => decide (portalSql st.session portal = some x.sql) &&
        decide (portalParameters st.session portal = x.parameters) && decide (x.rows = []) && decide (Lone cfg x.sql)
  | .client (.parse _ _ _) | .client (.bind _ _ _ _ _) => !st.writing && (!truthy st.session.currentStatementSql ||
      decide (st.session.currentParameters = []) && decide (st.session.currentRowCount = 0))
  | .reply .portalSuspended => false
  | _ => true

theorem inTurn_of_check {cfg : Config} {st : State} {a : Act} (h : inTurnCheck cfg st a = true) : InTurn cfg st a := by
  cases a with
  | client m =>
    cases m with
    | query sql => simpa [inTurnCheck, InTurn, and_assoc] using h
    | execute portal =>
      simp only [inTurnCheck, Bool.and_eq_true, Bool.not_eq_true', List.all_eq_true, Option.all_eq_true,
        decide_eq_true_eq] at h
      obtain ⟨⟨⟨hw, hskip⟩, hquiet⟩, hagrees⟩ := h
      refine ⟨hw, hskip, hquiet, fun x hx => ?_⟩
      obtain ⟨⟨⟨hsql, hparameters⟩, hrows⟩, hlone⟩ := hagrees x hx
      exact ⟨hsql, hparameters, hrows, hlone⟩
    | parse name sql typeOids => simpa [inTurnCheck, InTurn] using h
    | bind portal statement paramFormats parameters resultFormats => simpa [inTurnCheck, InTurn] using h
    | _ => trivial
  | reply r =>
    cases r with
    | portalSuspended => cases h
    | _ => trivial
  | _ => trivial

/-- A prepared statement in a transaction, all messages at once, and a statement that the server refuses. -/
def inTurn : List Act :=
  [.client (.query "BEGIN"), .begin, .reply (.commandComplete "BEGIN"), .resume, .reply (.readyForQuery .inTransaction),
    .client (.parse "" "SELECT $1" [23]), .client (.bind "" "" [] [some "7"] []), .client (.describe 'P' ""),
    .client (.execute ""), .client .sync,
    .reply .parseComplete, .reply .bindComplete, .reply (.rowDescription [⟨"a", 23, 0⟩]), .begin, .reply (.dataRow [some "7"]),
    .reply (.commandComplete "SELECT 1"), .resume, .reply (.readyForQuery .inTransaction),
    .client (.parse "" "SELEC" []), .client (.bind "" "" [] [] []), .client (.execute ""), .client .sync,
    .reply (.error [('C', "42601")]), .resume, .pass, .pass, .reply (.readyForQuery .failed)]

/-- The second query is sent before the first is answered. -/
def pipelined : List Act :=
  [.client (.query "SELECT 1"), .client (.query "SELECT 2"),
    .begin, .reply (.rowDescription [⟨"a", 23, 0⟩]), .reply (.dataRow [some "1"]), .reply (.commandComplete "SELECT 1"), .resume,
    .reply (.readyForQuery .idle),
    .begin, .reply (.rowDescription [⟨"a", 23, 0⟩]), .reply (.dataRow [some "2"]), .reply (.commandComplete "SELECT 1"),
    .reply (.readyForQuery .idle)]

end SynnoDB.PgRouter.Capture
