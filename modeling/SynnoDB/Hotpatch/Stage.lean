import Mathlib.Data.List.Basic

/-!
# One stage process: `stage_loop_impl` (`hotpatch/pipeline.hpp:755-1040`)

| here | there |
| --- | --- |
| `StageDef`                      | `StageDef` without its lambdas; `so` names the plugin file |
| `Proc`                          | the locals of `stage_loop_impl` in one process, its control pipe and exit status |
| `Pc`                            | where the process stands between two steps other processes can see |
| `reapDeadChild`                 | `reap_dead_child` (`:612-622`) |
| `stopChild`, `resume`           | `stop_child` / `bounded_stop_child` and what follows the wait |
| `Proc.decide`                   | `needs_reload`, `should_run` and the branches of `do_run` (`:806-918`) |
| `Proc.startChild`, `Proc.finish` | `next_start`, `write_done` and `notify_child_run` (`:626-640`) |
| `Proc.go`, `chainStep`          | one step of one process, in the chain of processes |

A chain lists a process, its child, the child's child: `child.valid()` of a process is that another one
follows it. A process that dies stays at the end of its chain until its parent waits for it; what was
below it leaves the chain (`Outcome.left`). The batch in a `Token` and the fields after `ghost` are
bookkeeping for the proofs: the code's `DoneToken` carries no batch.
-/

namespace SynnoDB.Hotpatch

/-- A build id; `0` = the empty string (an unreadable file). -/
abbrev BuildId := Nat

inductive RunPolicy where
  | onChange
  | always
  | alwaysReload
deriving DecidableEq, Repr

structure StageDef where
  so : Nat
  policy : RunPolicy
  restartChildOnChange : Bool := false
deriving DecidableEq, Repr

structure DoneToken where
  exitCode : Int
  termSignal : Int
deriving DecidableEq, Repr

def kStageThrewExitCode : Int := 70

def kChildStartFailedExitCode : Int := 71

/-- A token on the done pipe and the batch it was written for (`none`: for no batch). -/
structure Token where
  done : DoneToken
  batch : Option Nat
deriving DecidableEq, Repr

inductive Msg where
  | run (batch : Nat)
  | terminate
deriving DecidableEq, Repr

/-- What a process does once the child it stopped has exited. -/
inductive AfterStop where
  | decide (batch : Nat)
  | reload (batch : Nat)
  | threw (batch : Nat)
  | exit
deriving DecidableEq, Repr

inductive Pc where
  | boot
  | poll
  | preReap (batch : Nat)
  | start (batch : Nat)
  | decide (batch : Nat)
  | reload (batch : Nat)
  | compute (batch : Nat)
  | threw (batch : Nat)
  | startChild (batch : Nat)
  | finish (batch : Nat)
  | postReap
  | stop (after : AfterStop)
deriving DecidableEq, Repr

structure Proc where
  stage : StageDef
  /-- The stages below this one. -/
  next : List StageDef
  /-- The exit status, once the process has died. -/
  status : Option DoneToken := none
  /-- The control pipe. -/
  inbox : List Msg := []
  pc : Pc := .boot
  /-- The build id of the loaded plugin. -/
  loaded : BuildId := 0
  hasRun : Bool := false
  result : Int := 0
  childActive : Bool := false
  lastChildBuildId : BuildId := 0
  /-- ghost: how often the plugin was loaded. -/
  loads : Nat := 1
  /-- ghost: the load whose compute produced `result`. -/
  resultAt : Option Nat := none
  /-- ghost: the load whose result the child was started with. -/
  childInput : Option Nat := none
  /-- ghost: the last batch handed to the child. -/
  handed : Option Nat := none
  /-- ghost: the last batch this process has finished handling. -/
  finished : Option Nat := none
deriving DecidableEq, Repr

structure Outcome where
  chain : List Proc
  left : List (List Proc) := []
  tokens : List Token := []
deriving DecidableEq, Repr

/-- What compute or fork answers. -/
inductive Answer where
  | ok (result : Int)
  | fail
deriving DecidableEq, Repr

inductive Act where
  | go (answer : Answer)
  | reapIdle
  | die (status : DoneToken)
deriving DecidableEq, Repr

def leave (cs : List Proc) : List (List Proc) := if cs = [] then [] else [cs]

/-- `if (child_active && reap_dead_child(child, done_fd)) child_active = false;` -/
def reapDeadChild (p : Proc) (cs : List Proc) : Outcome :=
  match p.childActive, cs with
  | true, c :: ds => match c.status with
    | some st => ⟨[{ p with childActive := false }], leave ds, [⟨st, p.handed⟩]⟩
    | none => ⟨p :: cs, [], []⟩
  | _, _ => ⟨p :: cs, [], []⟩

/-- The rest after the child is gone. -/
def resume (p : Proc) (cs : List Proc) : AfterStop → Outcome
  | .decide b => ⟨{ p with pc := .decide b } :: cs, [], []⟩
  | .reload b => ⟨{ p with pc := .reload b } :: cs, [], []⟩
  | .threw b => ⟨{ p with pc := .threw b } :: cs, [], []⟩
  | .exit => ⟨[{ p with status := some ⟨0, 0⟩ }], leave cs, []⟩

/-- `if (child_active) { stop_child(child); child_active = false; }` up to the wait: a dead child takes no
message, an invalid handle has nothing to wait for. -/
def stopChild (p : Proc) (cs : List Proc) (after : AfterStop) : Outcome :=
  match p.childActive, cs with
  | true, c :: ds =>
    let c := if c.status = none then { c with inbox := c.inbox ++ [.terminate] } else c
    ⟨{ p with pc := .stop after } :: c :: ds, [], []⟩
  | true, [] => resume { p with childActive := false } [] after
  | false, cs => resume p cs after

namespace Proc

variable (files : Nat → BuildId) (p : Proc) (cs : List Proc)

def terminal : Bool := p.next = []

def nextBuildId : BuildId :=
  match p.next with
  | st :: _ => files st.so
  | [] => 0

/-- `Plugin::needs_reload` (`plugin.hpp:219-226`). -/
def needsReload : Bool := files p.stage.so ≠ 0 ∧ p.loaded ≠ 0 ∧ files p.stage.so ≠ p.loaded

/-- The restart-on-source-change check at the start of `do_run`. -/
def start (b : Nat) : Outcome :=
  if p.terminal = false ∧ p.stage.restartChildOnChange ∧ p.childActive ∧ p.nextBuildId files ≠ 0 ∧
      p.nextBuildId files ≠ p.lastChildBuildId then stopChild p cs (.decide b)
  else ⟨{ p with pc := .decide b } :: cs, [], []⟩

def decide (b : Nat) : Outcome :=
  let reload := p.needsReload files || p.stage.policy = .alwaysReload
  let shouldRun := reload || p.stage.policy = .always || !p.hasRun
  if reload then stopChild p cs (.reload b)
  else if shouldRun then ⟨{ p with pc := .compute b } :: cs, [], []⟩
  else if p.terminal = false ∧ p.hasRun ∧ p.childActive = false then ⟨{ p with pc := .startChild b } :: cs, [], []⟩
  else ⟨{ p with pc := .finish b } :: cs, [], []⟩

/-- The teardown and `plugin.reload()`. -/
def reload (b : Nat) : Proc :=
  { p with loaded := files p.stage.so, loads := p.loads + 1, pc := .compute b }

def compute (b : Nat) : Answer → Outcome
  | .ok r =>
    let pc := if p.terminal then .finish b else .startChild b
    ⟨{ p with hasRun := true, result := r, resultAt := some p.loads, pc := pc } :: cs, [], []⟩
  | .fail => stopChild p cs (.threw b)

/-- The process is through with batch `b`. -/
def done (b : Nat) : Proc := { p with pc := .postReap, finished := some b }

/-- `child = next_start(result, read_fd)`; a handle that was still valid is overwritten. -/
def startChild (b : Nat) (answer : Answer) : Outcome :=
  let lastId := if p.stage.restartChildOnChange then p.nextBuildId files else p.lastChildBuildId
  match answer, p.next with
  | .ok _, st :: rest =>
    let p := { p with
      lastChildBuildId := lastId, childActive := true, childInput := p.resultAt, handed := none, pc := .finish b }
    ⟨[p, { stage := st, next := rest }], leave cs, []⟩
  | _, _ => ⟨[{ p with lastChildBuildId := lastId }.done b], leave cs, [⟨⟨kChildStartFailedExitCode, 0⟩, some b⟩]⟩

/-- `write_done` of the last stage, `notify_child_run` of the others. -/
def finish (b : Nat) : Outcome :=
  if p.terminal then ⟨p.done b :: cs, [], [⟨⟨p.result, 0⟩, some b⟩]⟩
  else if p.childActive then
    match cs with
    | [] => ⟨[p.done b], [], []⟩
    | c :: ds => match c.status with
      | none => ⟨{ p with handed := some b }.done b :: { c with inbox := c.inbox ++ [.run b] } :: ds, [], []⟩
      | some st => ⟨[p.done b], leave ds, [⟨st, some b⟩]⟩
  else ⟨p.done b :: cs, [], []⟩

/-- Replace the program counter of the first process. -/
def goto (o : Outcome) (pc : Pc) : Outcome :=
  { o with chain := match o.chain with
    | p :: cs => { p with pc := pc } :: cs
    | [] => [] }

/-- One step of a live process with the chain `cs` below it. -/
def go (answer : Answer) : Option Outcome :=
  match p.pc with
  | .boot => some ⟨{ p with loaded := files p.stage.so, pc := .poll } :: cs, [], []⟩
  | .poll => match p.inbox with
    | [] => none
    | .run b :: rest => some ⟨{ p with inbox := rest, pc := .preReap b } :: cs, [], []⟩
    | .terminate :: rest => some (stopChild { p with inbox := rest } cs .exit)
  | .preReap b => some (goto (reapDeadChild p cs) (.start b))
  | .start b => some (p.start files cs b)
  | .decide b => some (p.decide files cs b)
  | .reload b => some ⟨p.reload files b :: cs, [], []⟩
  | .compute b => some (p.compute cs b answer)
  | .threw b => some ⟨p.done b :: cs, [], [⟨⟨kStageThrewExitCode, 0⟩, some b⟩]⟩
  | .startChild b => some (p.startChild files cs b answer)
  | .finish b => some (p.finish cs b)
  | .postReap => some (goto (reapDeadChild p cs) .poll)
  | .stop after => match cs with
    | c :: ds =>
      if c.status = none then none
      else
        let o := resume { p with childActive := false } [] after
        some { o with left := o.left ++ leave ds }
    | [] => some (resume { p with childActive := false } [] after)

/-- A live process steps, reaps a dead child from its poll loop, or dies. -/
def step : Act → Option Outcome
  | .go answer => p.go files cs answer
  | .reapIdle =>
    if p.pc = .poll ∧ p.childActive ∧ (cs.head?.any fun c => c.status ≠ none) then some (reapDeadChild p cs) else none
  | .die st => some ⟨[{ p with status := some st }], leave cs, []⟩

end Proc

/-- One step of the process at place `i` of a chain. -/
def chainStep (files : Nat → BuildId) : List Proc → Nat → Act → Option Outcome
  | [], _, _ => none
  | p :: cs, 0, a => if p.status = none then p.step files cs a else none
  | p :: cs, i + 1, a => (chainStep files cs i a).map fun o => { o with chain := p :: o.chain }

end SynnoDB.Hotpatch
