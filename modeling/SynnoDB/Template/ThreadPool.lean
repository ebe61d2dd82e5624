import SynnoDB.Lib.Trace
import Mathlib.Data.List.Count

/-!
# The thread pool of a generated engine (`thread_pool.hpp:78-203`)

| here | there |
| --- | --- |
| `Caller`          | the program counter of the one thread that constructs, calls and destroys the pool |
| `Pc`              | the program counter of a worker; `wait(lk, pred)` is `test`, `commit`, `blocked`, `woken` |
| `State.task`      | `task_fn` / `task_ctx`: the number of the call whose `f` is in the slot |
| `State.notifyAll` | `idle_cv.notify_all()`: every worker that is blocked now |
| `State.begun`, `State.ended` | what `f` was invoked on, and how it ended; the code keeps no such record |

Every step is one atomic access or one operation of the condition variable, and steps interleave in any order.
`pause` and `yield` change nothing and are left out. The caller bumps `generation` and notifies **without
`idle_mutex`**.
-/

namespace SynnoDB.ThreadPool

/-- `std::atomic<int>`: `fetch_add` wraps. -/
abbrev Gen := BitVec 32

theorem gen_succ_ne (g : Gen) : g + 1 ≠ g := by
  intro h
  simp at h

/-- What `f` threw, `Exn`, is left open. -/
inductive Pc (Exn : Type) where
  /-- The load of `generation` in the loop condition. -/
  | spin
  | lock
  | test
  /-- The predicate was false; the thread is not on the condition variable yet. -/
  | commit
  | blocked
  | woken
  | unlock
  | reload
  | check
  | call
  | running (c : Nat)
  | record (e : Exn)
  | count
  | exited

inductive Caller (Exn : Type) where
  | idle
  /-- `num_threads <= 1`: inside `f(0, 1)`. -/
  | solo
  | slot
  | cleared
  | zeroed
  | bumped
  | notified
  | running
  | recording (e : Exn)
  | waiting
  | collecting
  | closing
  | flagged
  | announced
  | joining (i : Nat)
  | destroyed

structure Worker (Exn : Type) where
  pc : Pc Exn := .spin
  myGen : Gen := 0
  spins : Nat := 0

/-- An invocation `f(tid, num_threads)` of the call number `call`. -/
structure Run where
  call : Nat
  tid : Nat
  deriving DecidableEq

structure Ending (Exn : Type) where
  run : Run
  exn : Option Exn

structure State (Exn : Type) where
  /-- Thread `tid` of the pool is `workers[tid - 1]`. -/
  workers : List (Worker Exn)
  caller : Caller Exn := .idle
  generation : Gen := 0
  doneCount : Nat := 0
  shutdown : Bool := false
  idleMutex : Option Nat := none
  firstException : Option Exn := none
  task : Nat := 0
  begun : List Run := []
  ended : List (Ending Exn) := []
  /-- What each finished `parallel_for` rethrew. -/
  results : List (Option Exn) := []

/-- `exn` is how `f` ends when the step is the end of an invocation. -/
inductive Act (Exn : Type) where
  | parallelFor
  | destroy
  | caller (exn : Option Exn)
  | worker (i : Nat) (exn : Option Exn)
  /-- A condition variable may wake a thread without a notification. -/
  | spurious (i : Nat)

variable {Exn : Type}

/-- `ThreadPool(n)`, or `init(n)`. -/
def init (n : Int) : State Exn := { workers := List.replicate (n.toNat - 1) {} }

namespace State

variable (s : State Exn)

def numThreads : Nat := s.workers.length + 1

/-- The number of the `parallel_for` under way, or of the next one. -/
def current : Nat := s.results.length

def setWorker (i : Nat) (w : Worker Exn) : State Exn := { s with workers := s.workers.set i w }

/-- `record_exception`. -/
def recordException (e : Exn) : State Exn := { s with firstException := s.firstException.or (some e) }

end State

def Worker.wake (w : Worker Exn) : Worker Exn :=
  match w.pc with
  | .blocked => { w with pc := .woken }
  | _ => w

def State.notifyAll (s : State Exn) : State Exn := { s with workers := s.workers.map Worker.wake }

/-- One step of worker `i`. -/
def workerStep (idleSpinLimit : Int) (s : State Exn) (i : Nat) (w : Worker Exn) (exn : Option Exn) : Option (State Exn) :=
  match w.pc with
  | .spin =>
    if s.generation = w.myGen then
      if 0 < idleSpinLimit then
        if idleSpinLimit ≤ (w.spins : Int) + 1 then some (s.setWorker i { w with pc := .lock, spins := w.spins + 1 })
        else some (s.setWorker i { w with spins := w.spins + 1 })
      else some s
    else some (s.setWorker i { w with pc := .reload })
  | .lock | .woken => match s.idleMutex with
    | none => some { s.setWorker i { w with pc := .test } with idleMutex := some i }
    | some _ => none
  | .test =>
    if s.generation = w.myGen then some (s.setWorker i { w with pc := .commit })
    else some (s.setWorker i { w with pc := .unlock })
  | .commit => some { s.setWorker i { w with pc := .blocked } with idleMutex := none }
  | .blocked => none
  | .unlock => some { s.setWorker i { w with pc := .reload } with idleMutex := none }
  | .reload => some (s.setWorker i { w with pc := .check, myGen := s.generation })
  | .check => some (s.setWorker i { w with pc := if s.shutdown then .exited else .call })
  | .call => some { s.setWorker i { w with pc := .running s.task } with begun := ⟨s.task, i + 1⟩ :: s.begun }
  | .running c => some { s.setWorker i { w with pc := match exn with
      | none => .count
      | some e => .record e } with ended := ⟨⟨c, i + 1⟩, exn⟩ :: s.ended }
  | .record e => some ((s.setWorker i { w with pc := .count }).recordException e)
  | .count => some { s.setWorker i { w with pc := .spin, spins := 0 } with doneCount := s.doneCount + 1 }
  | .exited => none

/-- The next step of the caller inside `parallel_for` or the destructor. -/
def callerStep (s : State Exn) (exn : Option Exn) : Option (State Exn) :=
  match s.caller with
  | .idle | .destroyed => none
  | .solo => some { s with
      caller := .idle, ended := ⟨⟨s.current, 0⟩, exn⟩ :: s.ended, results := s.results ++ [exn] }
  | .slot => some { s with caller := .cleared, firstException := none }
  | .cleared => some { s with caller := .zeroed, doneCount := 0 }
  | .zeroed => some { s with caller := .bumped, generation := s.generation + 1 }
  | .bumped => some { s.notifyAll with caller := .notified }
  | .notified => some { s with caller := .running, begun := ⟨s.current, 0⟩ :: s.begun }
  | .running => some { s with
      caller := match exn with
        | none => .waiting
        | some e => .recording e
      ended := ⟨⟨s.current, 0⟩, exn⟩ :: s.ended }
  | .recording e => some { s.recordException e with caller := .waiting }
  | .waiting => if s.doneCount < s.numThreads - 1 then some s else some { s with caller := .collecting }
  | .collecting => some { s with caller := .idle, results := s.results ++ [s.firstException] }
  | .closing => some { s with caller := .flagged, shutdown := true }
  | .flagged => some { s with caller := .announced, generation := s.generation + 1 }
  | .announced => some { s.notifyAll with caller := .joining 0 }
  | .joining i => match s.workers[i]? with
    | none => some { s with caller := .destroyed }
    | some w => match w.pc with
      | .exited => some { s with caller := .joining (i + 1) }
      | _ => none

def step (idleSpinLimit : Int) (s : State Exn) : Act Exn → Option (State Exn)
  | .parallelFor => match s.caller with
    | .idle =>
      if s.numThreads ≤ 1 then some { s with caller := .solo, begun := ⟨s.current, 0⟩ :: s.begun }
      else some { s with caller := .slot, task := s.current }
    | _ => none
  | .destroy => match s.caller with
    | .idle => some { s with caller := .closing }
    | _ => none
  | .caller exn => callerStep s exn
  | .worker i exn => match s.workers[i]? with
    | some w => workerStep idleSpinLimit s i w exn
    | none => none
  | .spurious i => match s.workers[i]? with
    | some w => match w.pc with
      | .blocked => some (s.setWorker i { w with pc := .woken })
      | _ => none
    | none => none

/-! ## Where the parties stand -/

/-- What the caller's position says of the workers: nothing to do, a call under way, the pool going down. -/
inductive Phase where
  | quiet
  | task
  | down
  deriving DecidableEq

def Caller.phase : Caller Exn → Phase
  | .bumped | .notified | .running | .recording _ | .waiting | .collecting => .task
  | .announced | .joining _ | .destroyed => .down
  | _ => .quiet

/-- Between the return from a task and the moment the next one is noticed. -/
def Pc.resting : Pc Exn → Bool
  | .spin | .lock | .test | .commit | .blocked | .woken => true
  | _ => false

/-- Where a worker that has read the current generation may be. -/
def Pc.fits (current : Nat) : Phase → Pc Exn → Bool
  | .quiet, pc => pc.resting
  | .task, .unlock | .task, .reload | .task, .exited => false
  | .task, .running c => c == current
  | .task, _ => true
  | .down, .check | .down, .exited => true
  | .down, _ => false

/-- Where a worker that has not read it yet may be. -/
def Pc.behind : Pc Exn → Bool
  | .unlock | .reload => true
  | pc => pc.resting

def State.WorkerOk (s : State Exn) (w : Worker Exn) : Prop :=
  w.myGen = s.generation ∧ w.pc.fits s.current s.caller.phase = true ∨
    s.caller.phase ≠ .quiet ∧ w.myGen + 1 = s.generation ∧ w.pc.behind = true

/-- The caller is past the store to the task slot. -/
def Caller.calling : Caller Exn → Bool
  | .slot | .cleared | .zeroed => true
  | k => k.phase = .task

/-- The caller is past the store to `shutdown`. -/
def Caller.shut : Caller Exn → Bool
  | .flagged => true
  | k => k.phase = .down

structure Control (s : State Exn) : Prop where
  worker : ∀ w ∈ s.workers, s.WorkerOk w
  shutdown : s.shutdown = s.caller.shut
  task : s.caller.calling = true → s.task = s.current
  finished : s.caller.phase = .task →
    s.doneCount = s.workers.countP fun w => decide (w.myGen = s.generation) && w.pc.resting
  zeroed : s.caller = .zeroed → s.doneCount = 0
  collecting : s.caller = .collecting → s.doneCount = s.workers.length
  solo : s.caller = .solo → s.workers = []

theorem Control.init (n : Int) : Control (init n : State Exn) where
  worker w hw := by
    obtain rfl := List.eq_of_mem_replicate hw
    exact .inl ⟨rfl, rfl⟩
  shutdown := rfl
  task h := by simp [ThreadPool.init, Caller.calling, Caller.phase] at h
  finished h := by simp [ThreadPool.init, Caller.phase] at h
  zeroed h := by simp [ThreadPool.init] at h
  collecting h := by simp [ThreadPool.init] at h
  solo h := by simp [ThreadPool.init] at h

/-- What no step of a worker changes. -/
structure Frame (s s' : State Exn) : Prop where
  caller : s'.caller = s.caller
  generation : s'.generation = s.generation
  shutdown : s'.shutdown = s.shutdown
  task : s'.task = s.task
  results : s'.results = s.results

variable {s s' : State Exn} {i : Nat} {w w' : Worker Exn}

/-- In the task under way: noticed, served, and at rest again. -/
def State.finished (s : State Exn) (w : Worker Exn) : Bool := decide (w.myGen = s.generation) && w.pc.resting

theorem WorkerOk.frame (f : Frame s s') (h : s.WorkerOk w) : s'.WorkerOk w := by
  simpa only [State.WorkerOk, State.current, f.caller, f.generation, f.results] using h

theorem countP_moved {α : Type*} (p : α → Bool) {l : List α} {i : Nat} {a : α} (b : α) (h : l[i]? = some a) :
    (l.set i b).countP p + (if p a then 1 else 0) = l.countP p + if p b then 1 else 0 := by
  induction l generalizing i with
  | nil => simp at h
  | cons x l ih => cases i with
    | zero =>
      obtain rfl : x = a := by simpa using h
      simp only [List.set_cons_zero, List.countP_cons]
      omega
    | succ i =>
      have := ih (by simpa using h)
      simp only [List.set_cons_succ, List.countP_cons]
      omega

theorem Control.at_rest (hs : Control s) (hw : w ∈ s.workers) (hq : s.caller.phase = .quiet) : s.finished w = true := by
  rcases hs.worker w hw with ⟨h1, h2⟩ | ⟨h, -⟩
  · rw [hq] at h2
    simpa [State.finished, h1, Pc.fits] using h2
  · exact absurd hq h

/-- A step of a worker: its new state fits, and `done_count` follows when it finishes. -/
theorem Control.moved (hs : Control s) (hw : s.workers[i]? = some w) (f : Frame s s')
    (hset : s'.workers = s.workers.set i w') (hok : s.WorkerOk w')
    (hkeep : s.finished w = true → s.finished w' = true ∧ s'.doneCount = s.doneCount)
    (hdone : s.finished w = false → s'.doneCount = s.doneCount + if s.finished w' then 1 else 0) : Control s' := by
  have hmem : w ∈ s.workers := List.mem_of_getElem? hw
  have hcount := countP_moved s.finished w' hw
  have hsame : s'.finished = s.finished := by
    funext v
    simp only [State.finished, f.generation]
  constructor
  case worker =>
    intro v hv
    rw [hset] at hv
    rcases List.mem_or_eq_of_mem_set hv with hv | rfl
    · exact WorkerOk.frame f (hs.worker v hv)
    · exact WorkerOk.frame f hok
  case shutdown => rw [f.shutdown, f.caller, hs.shutdown]
  case task =>
    intro h
    rw [f.caller] at h
    rw [f.task, State.current, f.results]
    exact hs.task h
  case finished =>
    intro h
    rw [f.caller] at h
    show s'.doneCount = s'.workers.countP s'.finished
    have : s.doneCount = s.workers.countP s.finished := hs.finished h
    rw [hsame, hset]
    by_cases hf : s.finished w = true
    · have := hkeep hf
      rw [if_pos hf, if_pos this.1] at hcount
      omega
    · have := hdone (by simpa using hf)
      rw [if_neg hf] at hcount
      omega
  case zeroed =>
    intro h
    rw [f.caller] at h
    rw [(hkeep (hs.at_rest hmem (by rw [h]; rfl))).2]
    exact hs.zeroed h
  case collecting =>
    intro h
    rw [f.caller] at h
    have hall : s.workers.countP s.finished = s.workers.length := by
      rw [← hs.collecting h]
      exact (hs.finished (by rw [h]; rfl)).symm
    rw [(hkeep (List.countP_eq_length.1 hall w hmem)).2, hset, List.length_set]
    exact hs.collecting h
  case solo =>
    intro h
    rw [f.caller] at h
    rw [hset, hs.solo h]
    rfl

theorem Control.task_eq (hs : Control s) (h : s.caller.phase = .task) : s.task = s.current := by
  apply hs.task
  cases hk : s.caller <;> simp_all [Caller.phase, Caller.calling]

theorem Control.shutdown_task (hs : Control s) (h : s.caller.phase = .task) : s.shutdown = false := by
  rw [hs.shutdown]
  cases hk : s.caller <;> simp_all [Caller.phase, Caller.shut]

theorem Control.shutdown_down (hs : Control s) (h : s.caller.phase = .down) : s.shutdown = true := by
  rw [hs.shutdown]
  cases hk : s.caller <;> simp_all [Caller.phase, Caller.shut]

theorem Control.worker_step {limit : Int} {exn : Option Exn} (hs : Control s) (hw : s.workers[i]? = some w)
    (h : workerStep limit s i w exn = some s') : Control s' := by
  have hok := hs.worker w (List.mem_of_getElem? hw)
  have hshut := hs.shutdown_task
  have hdown := hs.shutdown_down
  have htask := hs.task_eq
  have hne := gen_succ_ne w.myGen
  cases hpc : w.pc <;> simp only [workerStep, hpc] at h <;> (repeat' split at h) <;>
    first
      | (cases h; done)
      | (cases h; exact hs)
      | (cases h
         refine hs.moved hw ⟨rfl, rfl, rfl, rfl, rfl⟩ rfl ?_ ?_ ?_ <;>
         cases hph : s.caller.phase <;> simp [State.WorkerOk, State.finished, State.setWorker, State.recordException,
           hpc, hph, Pc.fits, Pc.resting, Pc.behind] at hok hshut hdown htask ⊢ <;> try grind -ext)

@[simp] theorem State.notifyAll_workers : s.notifyAll.workers = s.workers.map Worker.wake := rfl

@[simp] theorem State.notifyAll_generation : s.notifyAll.generation = s.generation := rfl

@[simp] theorem State.notifyAll_results : s.notifyAll.results = s.results := rfl

@[simp] theorem Worker.wake_myGen : w.wake.myGen = w.myGen := by
  unfold Worker.wake
  split <;> rfl

@[simp] theorem Worker.wake_fits (n : Nat) (k : Phase) : w.wake.pc.fits n k = w.pc.fits n k := by
  unfold Worker.wake
  split
  · rename_i h
    cases k <;> simp [h, Pc.fits, Pc.resting]
  · rfl

@[simp] theorem Worker.wake_behind : w.wake.pc.behind = w.pc.behind := by
  unfold Worker.wake
  split
  · rename_i h
    simp [h, Pc.behind, Pc.resting]
  · rfl

@[simp] theorem Worker.wake_resting : w.wake.pc.resting = w.pc.resting := Worker.wake_fits 0 .quiet

/-- Before the bump every worker has read the generation; after it none has. -/
theorem Control.behind (hs : Control s) (hq : s.caller.phase = .quiet) (hw : w ∈ s.workers) :
    w.myGen = s.generation ∧ w.pc.behind = true := by
  have h := hs.at_rest hw hq
  simp only [State.finished, Bool.and_eq_true, decide_eq_true_eq] at h
  refine ⟨h.1, ?_⟩
  cases hpc : w.pc <;> simp_all [Pc.behind, Pc.resting]

/-- `notify_all` moves workers along; what is said of them stays. -/
theorem Control.notified {k : Caller Exn} (hs : Control s) (hk : k.phase = s.caller.phase)
    (ht : k.calling = s.caller.calling)
    (hd : k.shut = s.caller.shut) (hz : k ≠ .zeroed) (hcol : k ≠ .collecting) (hsolo : k ≠ .solo) :
    Control { s.notifyAll with caller := k } := by
  constructor
  case worker =>
    intro v hv
    obtain ⟨w, hw, rfl⟩ := List.mem_map.1 hv
    have := hs.worker w hw
    simpa [State.WorkerOk, State.current, hk] using this
  case shutdown => exact hs.shutdown.trans hd.symm
  case task => exact fun h => hs.task (ht ▸ h)
  case finished =>
    intro h
    refine (hs.finished (hk ▸ h)).trans ?_
    rw [State.notifyAll_workers, List.countP_map]
    congr 1
    funext w
    simp
  case zeroed => exact fun h => absurd h hz
  case collecting => exact fun h => absurd h hcol
  case solo => exact fun h => absurd h hsolo

/-- The bump: every worker is behind, none has finished. -/
theorem Control.bump {k : Caller Exn} (hs : Control s) (hq : s.caller.phase = .quiet) (hk : k.phase ≠ .quiet)
    (ht : k.phase = .task → s.caller = .zeroed ∧ s.task = s.current) (hd : k.shut = s.shutdown)
      (hcol : k ≠ .collecting) :
    Control { s with caller := k, generation := s.generation + 1 } := by
  constructor
  case worker => exact fun w hw => .inr ⟨hk, by rw [(hs.behind hq hw).1], (hs.behind hq hw).2⟩
  case shutdown => exact hd.symm
  case task =>
    intro h
    refine (ht ?_).2
    cases k <;> simp_all [Caller.phase, Caller.calling]
  case finished =>
    intro h
    rw [show s.doneCount = 0 from hs.zeroed (ht h).1]
    symm
    refine List.countP_eq_zero.2 fun w hw => ?_
    have := gen_succ_ne s.generation
    simp only [(hs.behind hq hw).1, Bool.and_eq_true, decide_eq_true_eq, not_and]
    exact fun h => absurd h.symm this
  case zeroed => rintro rfl; exact absurd rfl hk
  case collecting => exact fun h => absurd h hcol
  case solo => rintro rfl; exact absurd rfl hk

/-- A step of the caller that leaves workers, generation, slot and results alone, inside one phase. -/
theorem Control.inside (hs : Control s) (hw : s'.workers = s.workers) (hg : s'.generation = s.generation)
    (ht : s'.task = s.task) (hr : s'.results = s.results) (hp : s'.caller.phase = s.caller.phase)
    (hc : s'.caller.calling = s.caller.calling) (hd : s'.shutdown = s'.caller.shut)
    (hdone : s.caller.phase = .task → s'.doneCount = s.doneCount) (hz : s'.caller = .zeroed → s'.doneCount = 0)
    (hcol : s'.caller = .collecting → s'.doneCount = s'.workers.length) (hsolo : s'.caller = .solo → s'.workers = []) :
    Control s' := by
  refine ⟨fun w h => ?_, hd, fun h => ?_, fun h => ?_, hz, hcol, hsolo⟩
  · have := hs.worker w (hw ▸ h)
    simpa only [State.WorkerOk, State.current, hg, hr, hp] using this
  · rw [ht, State.current, hr]
    exact hs.task (hc ▸ h)
  · rw [hp] at h
    rw [hdone h, hs.finished h, hw, hg]

theorem Control.caller_step {exn : Option Exn} (hs : Control s) (h : callerStep s exn = some s') : Control s' := by
  have hshut := hs.shutdown
  cases hk : s.caller with
  | idle | destroyed => simp [callerStep, hk] at h
  | zeroed =>
    simp only [callerStep, hk, Option.some.injEq] at h
    subst h
    have ht : s.task = s.current := hs.task (by rw [hk]; rfl)
    exact hs.bump (by rw [hk]; rfl) (by simp [Caller.phase]) (fun _ => ⟨hk, ht⟩) (by rw [hshut, hk]; rfl) (by simp)
  | flagged =>
    simp only [callerStep, hk, Option.some.injEq] at h
    subst h
    exact hs.bump (by rw [hk]; rfl) (by simp [Caller.phase]) (by simp [Caller.phase]) (by rw [hshut, hk]; rfl) (by simp)
  | bumped | announced =>
    simp only [callerStep, hk, Option.some.injEq] at h
    subst h
    apply hs.notified <;> simp [hk, Caller.phase, Caller.calling, Caller.shut]
  | waiting =>
    simp only [callerStep, hk] at h
    by_cases hlt : s.doneCount < s.numThreads - 1
    · rw [if_pos hlt, Option.some.injEq] at h
      exact h ▸ hs
    · rw [if_neg hlt, Option.some.injEq] at h
      subst h
      have hfin := hs.finished (by rw [hk]; rfl)
      have hle : (s.workers.countP fun w => decide (w.myGen = s.generation) && w.pc.resting) ≤ s.workers.length :=
        List.countP_le_length
      simp only [State.numThreads, Nat.add_sub_cancel] at hlt
      apply hs.inside <;> simp [hk, hshut, Caller.phase, Caller.calling, Caller.shut]
      omega
  | collecting =>
    simp only [callerStep, hk, Option.some.injEq] at h
    subst h
    have hall : s.workers.countP s.finished = s.workers.length := by
      rw [← hs.collecting hk]
      exact (hs.finished (by rw [hk]; rfl)).symm
    refine ⟨fun w hw => .inl ?_, by simp [hshut, hk, Caller.shut, Caller.phase], ?_, ?_, ?_, ?_, ?_⟩ <;>
      simp [Caller.phase, Caller.calling]
    simpa [State.finished, Pc.fits] using List.countP_eq_length.1 hall w hw
  | solo =>
    simp only [callerStep, hk, Option.some.injEq] at h
    subst h
    have := hs.solo hk
    constructor <;> simp [this, hshut, hk, Caller.phase, Caller.calling, Caller.shut]
  | joining i =>
    simp only [callerStep, hk] at h
    (repeat' split at h) <;> simp at h <;> subst h <;>
    apply hs.inside <;> simp [hk, hshut, Caller.phase, Caller.calling, Caller.shut]
  | _ =>
    simp only [callerStep, hk, Option.some.injEq] at h
    subst h
    cases exn <;> apply hs.inside <;>
      simp [hk, hshut, State.recordException, Caller.phase, Caller.calling, Caller.shut]

theorem Control.spurious (hs : Control s) (hw : s.workers[i]? = some w) (hb : w.pc = .blocked) :
    Control (s.setWorker i { w with pc := .woken }) := by
  have hok := hs.worker w (List.mem_of_getElem? hw)
  refine hs.moved hw ⟨rfl, rfl, rfl, rfl, rfl⟩ rfl ?_ ?_ ?_
  · cases hph : s.caller.phase <;> simpa [State.WorkerOk, hb, hph, Pc.fits, Pc.behind, Pc.resting] using hok
  · simp [State.finished, State.setWorker, hb, Pc.resting]
  · simp only [State.finished, hb, Pc.resting, Bool.and_true, decide_eq_false_iff_not]
    intro hne
    rw [if_neg (by simpa using hne)]
    rfl

theorem Control.step {limit : Int} {a : Act Exn} (hs : Control s) (h : step limit s a = some s') : Control s' := by
  cases a with
  | parallelFor =>
    simp only [ThreadPool.step] at h
    split at h
    · rename_i hk
      have hshut := hs.shutdown
      by_cases hn : s.numThreads ≤ 1
      · rw [if_pos hn, Option.some.injEq] at h
        subst h
        have : s.workers = [] := List.eq_nil_of_length_eq_zero (by simpa [State.numThreads] using hn)
        apply hs.inside <;> simp [hk, hshut, this, Caller.phase, Caller.calling, Caller.shut]
      · rw [if_neg hn, Option.some.injEq] at h
        subst h
        refine ⟨fun w hw => ?_, ?_, fun _ => rfl, ?_, ?_, ?_, ?_⟩ <;>
          try simp [hk, hshut, Caller.phase, Caller.shut]
        simpa [State.WorkerOk, hk, Caller.phase, Pc.fits] using hs.worker w hw
    · cases h
  | destroy =>
    simp only [ThreadPool.step] at h
    split at h
    · rename_i hk
      have hshut := hs.shutdown
      rw [Option.some.injEq] at h
      subst h
      apply hs.inside <;> simp [hk, hshut, Caller.phase, Caller.calling, Caller.shut]
    · cases h
  | caller exn => exact hs.caller_step h
  | worker i exn =>
    simp only [ThreadPool.step] at h
    split at h
    · rename_i w hw
      exact hs.worker_step hw h
    · cases h
  | spurious i =>
    simp only [ThreadPool.step] at h
    split at h
    · rename_i w hw
      split at h
      · rename_i hb
        rw [Option.some.injEq] at h
        exact h ▸ hs.spurious hw hb
      · cases h
    · cases h

end SynnoDB.ThreadPool
