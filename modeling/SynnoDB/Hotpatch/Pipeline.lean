import SynnoDB.Lib.Trace
import SynnoDB.Hotpatch.Stage

/-!
# The pipeline and `run_parent` (`db.cpp:80-260`)

`run_parent` forwards a RUN, then reads the done pipe and the trace pipe until it has a token and either
the token says that no trace comes or the trace is complete (`read_done_and_trace`). The pipeline is the
chain of stage processes below it. `orphans` are processes cut off by a death above them:
`PR_SET_PDEATHSIG` kills them, but until the signal arrives one of them may still write a token. When the
bytes of the trace arrive is left open (`traceComplete`).
-/

namespace SynnoDB.Hotpatch

inductive ParentState where
  | idle
  /-- `read_done_and_trace`: the last token read, and whether the trace is complete. -/
  | waiting (token : Option DoneToken) (trace : Bool)
  /-- `run_parent` has sent TERMINATE. -/
  | finished
  | dead
deriving DecidableEq, Repr

/-- The order of events the claim is about: RUN `k` forwarded, a token written. -/
inductive Ev where
  | fwd (k : Nat)
  | tok (batch : Option Nat)
deriving DecidableEq, Repr

structure Sys where
  /-- The build id of each plugin file. -/
  files : Nat → BuildId
  chain : List Proc
  orphans : List (List Proc) := []
  done : List Token := []
  parent : ParentState := .idle
  /-- How many RUNs were forwarded. -/
  sent : Nat := 0
  /-- Newest event first. -/
  log : List Ev := []

inductive SysAct where
  | rebuild (so : Nat) (id : BuildId)
  | request
  | terminate
  | readToken
  | traceComplete
  | respond
  | killParent
  | proc (i : Nat) (a : Act)
  | orphanWrites (t : Token)
deriving DecidableEq, Repr

namespace Sys

/-- The loader is forked by `main` with nothing running below it. -/
def init (files : Nat → BuildId) (st : StageDef) (rest : List StageDef) : Sys where
  files := files
  chain := [{ stage := st, next := rest }]

/-- A token ends the wait on its own: a signal, or a stage that reported its failure. -/
def endsWait (t : DoneToken) : Bool :=
  t.termSignal ≠ 0 ∨ t.exitCode = kStageThrewExitCode ∨ t.exitCode = kChildStartFailedExitCode

/-- A message to the first stage; `none` = its pipe is broken. -/
def send (m : Msg) : List Proc → Option (List Proc)
  | p :: cs => if p.status = none then some ({ p with inbox := p.inbox ++ [m] } :: cs) else none
  | [] => none

def write (s : Sys) (ts : List Token) : Sys :=
  { s with done := s.done ++ ts, log := (ts.map fun t => .tok t.batch).reverse ++ s.log }

def step (s : Sys) : SysAct → Option Sys
  | .rebuild so id => some { s with files := fun f => if f = so then id else s.files f }
  | .request => match s.parent with
    | .idle => match send (.run (s.sent + 1)) s.chain with
      | some chain => some { s with
          chain := chain, parent := .waiting none false, sent := s.sent + 1, log := .fwd (s.sent + 1) :: s.log }
      | none => some { s with parent := .dead }
    | _ => none
  | .terminate => match s.parent with
    | .idle => some { s with chain := (send .terminate s.chain).getD s.chain, parent := .finished }
    | _ => none
  | .readToken => match s.parent, s.done with
    | .waiting _ trace, t :: ts => some { s with parent := .waiting (some t.done) trace, done := ts }
    | _, _ => none
  | .traceComplete => match s.parent with
    | .waiting token _ => some { s with parent := .waiting token true }
    | _ => none
  | .respond => match s.parent with
    | .waiting (some t) trace => if endsWait t ∨ trace then some { s with parent := .idle } else none
    | _ => none
  | .killParent => some { s with parent := .dead }
  | .proc i a => (chainStep s.files s.chain i a).map fun o =>
      { s with chain := o.chain, orphans := s.orphans ++ o.left }.write o.tokens
  | .orphanWrites t => if s.orphans = [] then none else some (s.write [t])

/-- The RUN that was forwarded last, while no token is written. -/
def owed (s : Sys) : Option Nat :=
  match s.log with
  | .fwd k :: _ => some k
  | _ => none

end Sys

/-- `db_olap.cpp`: loader, builder, query. -/
def loaderStage : StageDef := { so := 0, policy := .onChange, restartChildOnChange := true }

def builderStage : StageDef := { so := 1, policy := .onChange }

def queryStage : StageDef := { so := 2, policy := .alwaysReload }

def olapPipeline (files : Nat → BuildId) : Sys := .init files loaderStage [builderStage, queryStage]

end SynnoDB.Hotpatch
