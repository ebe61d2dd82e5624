import SynnoDB.Template.ThreadPool

/-!
# What the calls of the thread pool do (`thread_pool.hpp:78-203`)

Every call runs `f` once a thread and rethrows what was thrown, in every interleaving. The count of an invocation
in the log is read off the positions of the threads (`State.share`): `Counted` is the invariant, `Thrown` adds the
exceptions.
-/

namespace SynnoDB.ThreadPool

variable {Exn : Type} {s s' : State Exn} {i : Nat} {w w' : Worker Exn}

/-! ## Every slot once -/

def Pc.begun : Pc Exn → Nat
  | .check | .call => 0
  | _ => 1

def Pc.ended : Pc Exn → Nat
  | .check | .call | .running _ => 0
  | _ => 1

def Caller.begun : Caller Exn → Nat
  | .solo | .running | .recording _ | .waiting | .collecting => 1
  | _ => 0

def Caller.ended : Caller Exn → Nat
  | .recording _ | .waiting | .collecting => 1
  | _ => 0

namespace State

/-- What a worker has done of the task under way. -/
def part (s : State Exn) (f : Pc Exn → Nat) (w : Worker Exn) : Nat :=
  if s.caller.phase = .task ∧ w.myGen = s.generation then f w.pc else 0

def share (s : State Exn) (f : Pc Exn → Nat) (g : Caller Exn → Nat) : Nat → Nat
  | 0 => g s.caller
  | i + 1 => match s.workers[i]? with
    | some w => s.part f w
    | none => 0

def tally (s : State Exn) (f : Pc Exn → Nat) (g : Caller Exn → Nat) (r : Run) : Nat :=
  if r.call < s.current then if r.tid < s.numThreads then 1 else 0
  else if r.call = s.current then s.share f g r.tid
  else 0

end State

/-- `log` holds each invocation as often as the positions of the threads say. -/
def Counted (s : State Exn) (f : Pc Exn → Nat) (g : Caller Exn → Nat) (log : List Run) : Prop :=
  ∀ r, log.count r = s.tally f g r

section
variable {f : Pc Exn → Nat} {g : Caller Exn → Nat} {log log' : List Run}

/-- Thread `t` adds `k` to its part of the call under way, and to the log. -/
theorem Counted.add {t k : Nat} (h : Counted s f g log) (hr : s'.results = s.results)
    (hn : s'.workers.length = s.workers.length)
    (hshare : ∀ tid, s'.share f g tid = s.share f g tid + if tid = t then k else 0)
    (hlog : ∀ r, log'.count r = log.count r + if r = ⟨s.current, t⟩ then k else 0) : Counted s' f g log' := by
  intro r
  obtain ⟨c, tid⟩ := r
  have hthreads : s'.numThreads = s.numThreads := by rw [State.numThreads, State.numThreads, hn]
  rw [hlog, h]
  simp only [State.tally, State.current, hthreads, hr, hshare, Run.mk.injEq]
  by_cases h1 : c < s.results.length
  · simp [h1, Nat.ne_of_lt h1]
  · by_cases h2 : c = s.results.length
    · simp [h2]
    · simp [h1, h2]

/-- The call under way is over: each thread has done its part, the last one with this step. -/
theorem Counted.finish {t k : Nat} {out : Option Exn} (h : Counted s f g log) (hr : s'.results = s.results ++ [out])
    (hn : s'.workers.length = s.workers.length)
    (hall : ∀ tid, s.share f g tid + (if tid = t then k else 0) = if tid < s.numThreads then 1 else 0)
    (hnone : ∀ tid, s'.share f g tid = 0)
    (hlog : ∀ r, log'.count r = log.count r + if r = ⟨s.current, t⟩ then k else 0) : Counted s' f g log' := by
  intro r
  obtain ⟨c, tid⟩ := r
  have hthreads : s'.numThreads = s.numThreads := by rw [State.numThreads, State.numThreads, hn]
  rw [hlog, h]
  have := hall tid
  simp only [State.tally, State.current, hthreads, hr, hnone, Run.mk.injEq, List.length_append,
    List.length_singleton] at this ⊢
  by_cases h1 : c < s.results.length
  · simp [h1, Nat.ne_of_lt h1, Nat.lt_succ_of_lt h1]
  · by_cases h2 : c = s.results.length
    · simp only [h2, Nat.lt_irrefl, if_false, if_true, true_and, Nat.lt_succ_self]
      exact this
    · have : ¬ c < s.results.length + 1 := by omega
      simp [h1, h2, this]

theorem share_moved (hw : s.workers[i]? = some w) (hf : Frame s s') (hset : s'.workers = s.workers.set i w') {k : Nat}
    (hk : s.part f w' = s.part f w + k) (tid : Nat) :
    s'.share f g tid = s.share f g tid + if tid = i + 1 then k else 0 := by
  cases tid with
  | zero => simp [State.share, hf.caller]
  | succ j =>
    have hpart : ∀ v, s'.part f v = s.part f v := fun v => by simp only [State.part, hf.caller, hf.generation]
    simp only [State.share, hset, List.getElem?_set, hpart, Nat.add_right_cancel_iff]
    by_cases hij : i = j
    · subst hij
      obtain ⟨hi, rfl⟩ := List.getElem?_eq_some_iff.1 hw
      simp [hi, hk]
    · simp [hij, Ne.symm hij]

/-- A step of a worker. -/
theorem Counted.moved (h : Counted s f g log) (hw : s.workers[i]? = some w) (hf : Frame s s')
    (hset : s'.workers = s.workers.set i w') {k : Nat} (hk : s.part f w' = s.part f w + k)
    (hlog : ∀ r, log'.count r = log.count r + if r = ⟨s.current, i + 1⟩ then k else 0) : Counted s' f g log' := by
  refine h.add hf.results ?_ (share_moved hw hf hset hk) hlog
  rw [hset, List.length_set]

/-- A step of the caller inside one phase. -/
theorem Counted.inside (h : Counted s f g log) (hw : s'.workers = s.workers) (hr : s'.results = s.results)
    (hg : s'.generation = s.generation) (hp : s'.caller.phase = s.caller.phase) {k : Nat}
      (hk : g s'.caller = g s.caller + k)
    (hlog : ∀ r, log'.count r = log.count r + if r = ⟨s.current, 0⟩ then k else 0) : Counted s' f g log' := by
  refine h.add hr (by rw [hw]) (fun tid => ?_) hlog
  cases tid with
  | zero => simpa [State.share] using hk
  | succ j => simp only [State.share, State.part, hw, hp, hg]; rfl

end

/-! ## The log of a run -/

theorem count_run_cons (r x : Run) (log : List Run) : (x :: log).count r = log.count r + if r = x then 1 else 0 := by
  rw [List.count_cons]
  by_cases h : x = r
  · simp [h]
  · simp [h, Ne.symm h]

structure Logged (s : State Exn) : Prop extends Control s where
  begun : Counted s Pc.begun Caller.begun s.begun
  ended : Counted s Pc.ended Caller.ended (s.ended.map Ending.run)

/-- A worker takes part in the task under way, or in none. -/
theorem Control.task_of_call (hs : Control s) (hw : w ∈ s.workers) (hpc : w.pc = .call ∨ (∃ c, w.pc = .running c)) :
    s.caller.phase = .task ∧ w.myGen = s.generation ∧ s.task = s.current ∧ ∀ c, w.pc = .running c → c = s.current := by
  have hok := hs.worker w hw
  rcases hpc with hpc | ⟨c, hpc⟩ <;> cases hph : s.caller.phase <;>
    simp [State.WorkerOk, hpc, hph, Pc.fits, Pc.resting, Pc.behind] at hok
  · exact ⟨rfl, hok, hs.task_eq hph, fun c h => by rw [hpc] at h; cases h⟩
  · refine ⟨rfl, hok.1, hs.task_eq hph, fun c' h => ?_⟩
    rw [hpc] at h
    cases h
    exact hok.2

/-- A step of a worker that neither begins nor ends an invocation. -/
theorem Logged.silent (hs : Logged s) (hc : Control s') (hw : s.workers[i]? = some w) (hf : Frame s s')
    (hset : s'.workers = s.workers.set i w') (hb : s'.begun = s.begun) (he : s'.ended = s.ended)
    (hpart : s.caller.phase = .task →
      (w'.myGen = s.generation ∧ w.myGen = s.generation ∧ w'.pc.begun = w.pc.begun ∧ w'.pc.ended = w.pc.ended) ∨
      (w.myGen ≠ s.generation ∧ (w'.myGen = s.generation → w'.pc.begun = 0 ∧ w'.pc.ended = 0))) : Logged s' := by
  refine ⟨hc, hs.begun.moved (k := 0) hw hf hset ?_ (by simp [hb]),
    hs.ended.moved (k := 0) hw hf hset ?_ (by simp [he])⟩ <;>
  · by_cases hp : s.caller.phase = .task
    · rcases hpart hp with ⟨h1, h2, h3, h4⟩ | ⟨h1, h2⟩
      · simp [State.part, h1, h2, h3, h4]
      · by_cases h3 : w'.myGen = s.generation
        · simp [State.part, h1, h3, h2 h3]
        · simp [State.part, h1, h3]
    · simp [State.part, hp]

theorem Logged.worker_step {limit : Int} {exn : Option Exn} (hs : Logged s) (hw : s.workers[i]? = some w)
    (h : workerStep limit s i w exn = some s') : Logged s' := by
  have hc := hs.toControl.worker_step hw h
  have hmem := List.mem_of_getElem? hw
  have hok := hs.worker w hmem
  have htask := hs.toControl.task_of_call hmem
  have hne := gen_succ_ne w.myGen
  have hf : Frame s s' := by
    cases hpc : w.pc <;> simp only [workerStep, hpc] at h <;> (repeat' split at h) <;>
      first
        | (cases h; done)
        | (cases h; exact ⟨rfl, rfl, rfl, rfl, rfl⟩)
  cases hpc : w.pc with
  | reload =>
    simp only [workerStep, hpc, Option.some.injEq] at h
    subst h
    refine hs.silent hc hw hf rfl rfl rfl fun hp => .inr ⟨?_, by simp [Pc.begun, Pc.ended]⟩
    simp only [State.WorkerOk, hpc, hp, Pc.fits] at hok
    grind -ext
  | call =>
    obtain ⟨h1, h2, h3, -⟩ := htask (.inl hpc)
    simp only [workerStep, hpc, Option.some.injEq] at h
    subst h
    refine ⟨hc, hs.begun.moved (k := 1) hw hf rfl ?_ fun r => ?_, hs.ended.moved (k := 0) hw hf rfl ?_ ?_⟩
    · simp [State.part, h1, h2, hpc, Pc.begun]
    · simp only [count_run_cons, h3]
    · simp [State.part, hpc, Pc.ended]
    · simp [State.setWorker]
  | running c =>
    obtain ⟨h1, h2, h3, h4⟩ := htask (.inr ⟨c, hpc⟩)
    obtain rfl := h4 c hpc
    simp only [workerStep, hpc, Option.some.injEq] at h
    subst h
    refine ⟨hc, hs.begun.moved (k := 0) hw hf rfl ?_ ?_, hs.ended.moved (k := 1) hw hf rfl ?_ fun r => ?_⟩
    · cases exn <;> simp [State.part, hpc, Pc.begun]
    · simp [State.setWorker]
    · cases exn <;> simp [State.part, h1, h2, hpc, Pc.ended]
    · simp only [List.map_cons, count_run_cons]
  | check =>
    simp only [workerStep, hpc, Option.some.injEq] at h
    subst h
    refine hs.silent hc hw hf rfl rfl rfl fun hp => ?_
    simp only [State.WorkerOk, hpc, hp, Pc.fits, Pc.behind, Pc.resting] at hok
    simp_all [hs.toControl.shutdown_task hp, Pc.begun, Pc.ended]
  | _ =>
    simp only [workerStep, hpc] at h
    (repeat' split at h) <;>
    first
      | (cases h; done)
      | (cases h; exact hs)
      | (cases h
         refine hs.silent hc hw hf rfl rfl rfl fun hp => ?_
         simp only [hpc, Pc.begun, Pc.ended]
         by_cases hg : w.myGen = s.generation <;> simp [hg])

theorem share_idle {f : Pc Exn → Nat} {g : Caller Exn → Nat} (h : s.caller.phase ≠ .task) (tid : Nat) :
    s.share f g tid = if tid = 0 then g s.caller else 0 := by
  cases tid with
  | zero => rfl
  | succ j =>
    simp only [State.share, State.part, h]
    cases s.workers[j]? <;> simp

/-- Neither the bump nor `notify_all` is part of a task. -/
theorem Logged.between (hs : Logged s) (hc : Control s') (hr : s'.results = s.results)
    (hn : s'.workers.length = s.workers.length) (hb : s'.begun = s.begun) (he : s'.ended = s.ended)
    (h : ∀ f : Pc Exn → Nat, f .blocked = f .woken → ∀ j, s'.share f (fun _ => 0) (j + 1) =
      s.share f (fun _ => 0) (j + 1))
    (h0 : s'.caller.begun = s.caller.begun ∧ s'.caller.ended = s.caller.ended) : Logged s' := by
  refine ⟨hc, hs.begun.add (t := 0) (k := 0) hr hn (fun tid => ?_) (by simp [hb]),
    hs.ended.add (t := 0) (k := 0) hr hn (fun tid => ?_) (by simp [he])⟩
  · cases tid with
    | zero => simpa [State.share] using h0.1
    | succ j => simpa [State.share] using h Pc.begun rfl j
  · cases tid with
    | zero => simpa [State.share] using h0.2
    | succ j => simpa [State.share] using h Pc.ended rfl j

theorem Logged.bump {k : Caller Exn} (hs : Logged s) (hq : s.caller.phase = .quiet)
    (hc : Control { s with caller := k, generation := s.generation + 1 })
    (h0 : k.begun = s.caller.begun ∧ k.ended = s.caller.ended) :
    Logged { s with caller := k, generation := s.generation + 1 } := by
  refine hs.between hc rfl rfl rfl rfl (fun f _ j => ?_) h0
  rw [share_idle (s := s) (by rw [hq]; simp)]
  simp only [State.share, State.part]
  cases hj : s.workers[j]? with
  | none => rfl
  | some w =>
    have := (hs.toControl.behind hq (List.mem_of_getElem? hj)).1
    have hne := gen_succ_ne s.generation
    exact if_neg fun h => hne (h.2.symm.trans this)

theorem Logged.notified {k : Caller Exn} (hs : Logged s) (hp : k.phase = s.caller.phase)
    (hc : Control { s.notifyAll with caller := k }) (h0 : k.begun = s.caller.begun ∧ k.ended = s.caller.ended) :
    Logged { s.notifyAll with caller := k } := by
  refine hs.between hc rfl (List.length_map _) rfl rfl (fun f hf j => ?_) h0
  have hwake : ∀ w : Worker Exn, f w.wake.pc = f w.pc := fun w => by
    unfold Worker.wake
    split
    · rename_i h
      rw [h, hf]
    · rfl
  simp only [State.share, State.part, State.notifyAll_workers, List.getElem?_map, hp]
  cases s.workers[j]? with
  | none => rfl
  | some w => simp [hwake]

/-- The return of `parallel_for`: every thread has run `f` once. -/
theorem Control.collected (hs : Control s) (hk : s.caller = .collecting) (hw : w ∈ s.workers) :
    s.finished w = true := by
  have h : s.workers.countP s.finished = s.workers.length := by
    rw [← hs.collecting hk]
    exact (hs.finished (by rw [hk]; rfl)).symm
  exact List.countP_eq_length.1 h w hw

theorem Logged.caller_step {exn : Option Exn} (hs : Logged s) (h : callerStep s exn = some s') : Logged s' := by
  have hc := hs.toControl.caller_step h
  cases hk : s.caller with
  | idle | destroyed => simp [callerStep, hk] at h
  | solo =>
    simp only [callerStep, hk, Option.some.injEq] at h
    subst h
    have hnil := hs.solo hk
    refine ⟨hc, hs.begun.finish (t := 0) (k := 0) rfl rfl (fun tid => ?_) (fun tid => ?_) (by simp),
      hs.ended.finish (t := 0) (k := 1) rfl rfl (fun tid => ?_) (fun tid => ?_) fun r => ?_⟩
    · cases tid <;> simp [State.share, State.numThreads, hk, hnil, Caller.begun]
    · cases tid <;> simp [State.share, hnil, Caller.begun]
    · cases tid <;> simp [State.share, State.numThreads, hk, hnil, Caller.ended]
    · cases tid <;> simp [State.share, hnil, Caller.ended]
    · simp only [List.map_cons, count_run_cons]
  | zeroed | flagged =>
    simp only [callerStep, hk, Option.some.injEq] at h
    subst h
    exact hs.bump (by rw [hk]; rfl) hc (by rw [hk]; exact ⟨rfl, rfl⟩)
  | bumped | announced =>
    simp only [callerStep, hk, Option.some.injEq] at h
    subst h
    exact hs.notified (by rw [hk]; rfl) hc (by rw [hk]; exact ⟨rfl, rfl⟩)
  | collecting =>
    simp only [callerStep, hk, Option.some.injEq] at h
    subst h
    have hpart : ∀ f : Pc Exn → Nat, (∀ pc : Pc Exn, pc.resting = true → f pc = 1) → ∀ g :
      Caller Exn → Nat, g .collecting = 1 →
        ∀ tid, s.share f g tid + (if tid = 0 then 0 else 0) = if tid < s.numThreads then 1 else 0 := by
      intro f hf g hg tid
      cases tid with
      | zero => simp [State.share, State.numThreads, hk, hg]
      | succ j =>
        simp only [State.share, State.numThreads, Nat.add_lt_add_iff_right]
        cases hj : s.workers[j]? with
        | none => simpa using List.getElem?_eq_none_iff.1 hj
        | some w =>
          have h1 := hs.toControl.collected hk (List.mem_of_getElem? hj)
          simp only [State.finished, Bool.and_eq_true, decide_eq_true_eq] at h1
          simp [State.part, hk, Caller.phase, h1.1, hf w.pc h1.2, (List.getElem?_eq_some_iff.1 hj).1]
    refine ⟨hc, hs.begun.finish (t := 0) (k := 0) rfl rfl (hpart _ ?_ _ rfl) (fun tid => ?_) (by simp),
      hs.ended.finish (t := 0) (k := 0) rfl rfl (hpart _ ?_ _ rfl) (fun tid => ?_) (by simp)⟩
    · intro pc hpc
      cases pc <;> simp_all [Pc.resting, Pc.begun]
    · rw [share_idle (by simp [Caller.phase])]
      simp [Caller.begun]
    · intro pc hpc
      cases pc <;> simp_all [Pc.resting, Pc.ended]
    · rw [share_idle (by simp [Caller.phase])]
      simp [Caller.ended]
  | notified =>
    simp only [callerStep, hk, Option.some.injEq] at h
    subst h
    refine ⟨hc, hs.begun.inside (k := 1) rfl rfl rfl (by rw [hk]; rfl) (by rw [hk]; rfl) (count_run_cons · _ _),
      hs.ended.inside (k := 0) rfl rfl rfl (by rw [hk]; rfl) (by rw [hk]; rfl) (by simp)⟩
  | running =>
    simp only [callerStep, hk, Option.some.injEq] at h
    subst h
    refine ⟨hc, hs.begun.inside (k := 0) rfl rfl rfl ?_ ?_ (by simp),
      hs.ended.inside (k := 1) rfl rfl rfl ?_ ?_ (count_run_cons · _ _)⟩ <;> cases exn <;> simp [hk] <;> rfl
  | _ =>
    simp only [callerStep, hk] at h
    (repeat' split at h) <;> simp at h <;> subst h <;>
    first
      | exact hs
      | exact ⟨hc, hs.begun.inside (k := 0) rfl rfl rfl (by rw [hk]; rfl) (by rw [hk]; rfl)
          (by simp [State.recordException]),
          hs.ended.inside (k := 0) rfl rfl rfl (by rw [hk]; rfl) (by rw [hk]; rfl) (by simp [State.recordException])⟩

theorem Logged.spurious (hs : Logged s) (hw : s.workers[i]? = some w) (hb : w.pc = .blocked) :
    Logged (s.setWorker i { w with pc := .woken }) := by
  refine hs.silent (hs.toControl.spurious hw hb) hw ⟨rfl, rfl, rfl, rfl, rfl⟩ rfl rfl rfl fun _ => ?_
  by_cases hg : w.myGen = s.generation <;> simp [hg, hb, Pc.begun, Pc.ended]

/-! ## What is rethrown -/

namespace State

/-- Worker `i` is about to record `e`. -/
def Records (s : State Exn) (i : Nat) (e : Exn) : Prop := ∃ w, s.workers[i]? = some w ∧ w.pc = .record e

/-- Thread `tid` is about to record an exception. -/
def Recording (s : State Exn) : Nat → Prop
  | 0 => ∃ e, s.caller = .recording e
  | i + 1 => ∃ e, s.Records i e

def Threw (s : State Exn) (c tid : Nat) (e : Exn) : Prop := ⟨⟨c, tid⟩, some e⟩ ∈ s.ended

/-- `out` is what call `c` had to rethrow. -/
def Rethrown (s : State Exn) (c : Nat) : Option Exn → Prop
  | some e => ∃ tid, s.Threw c tid e
  | none => ∀ tid e, ¬ s.Threw c tid e

end State

structure Thrown (s : State Exn) : Prop extends Logged s where
  fresh : s.caller = .cleared ∨ s.caller = .zeroed → s.firstException = none
  worker_throws : ∀ i e, s.Records i e → s.Threw s.current (i + 1) e
  caller_throws : ∀ e, s.caller = .recording e → s.Threw s.current 0 e
  recorded : s.caller.phase = .task → ∀ e, s.firstException = some e → ∃ tid, s.Threw s.current tid e
  unrecorded : s.caller.phase = .task → s.firstException = none → ∀ tid e, s.Threw s.current tid e → s.Recording tid
  rethrown : ∀ c out, s.results[c]? = some out → s.Rethrown c out

theorem Logged.not_threw (hs : Logged s) {tid : Nat} (h : s.share Pc.ended Caller.ended tid = 0) (e : Exn) :
    ¬ s.Threw s.current tid e := by
  intro ht
  have hmem : (⟨s.current, tid⟩ : Run) ∈ s.ended.map Ending.run := List.mem_map.2 ⟨_, ht, rfl⟩
  have hpos := List.count_pos_iff.2 hmem
  rw [hs.ended] at hpos
  simp [State.tally, h] at hpos

/-- A worker records an exception inside a task only. -/
theorem Control.task_of_records (hs : Control s) {e : Exn} (h : s.Records i e) : s.caller.phase = .task := by
  obtain ⟨w, hw, hpc⟩ := h
  have hok := hs.worker w (List.mem_of_getElem? hw)
  cases hph : s.caller.phase <;> simp [State.WorkerOk, hpc, hph, Pc.fits, Pc.resting, Pc.behind] at hok
  rfl

theorem records_set (hw : s.workers[i]? = some w) (hset : s'.workers = s.workers.set i w') (j : Nat) (e : Exn) :
    s'.Records j e ↔ if j = i then w'.pc = .record e else s.Records j e := by
  have hi := (List.getElem?_eq_some_iff.1 hw).1
  simp only [State.Records, hset, List.getElem?_set]
  by_cases hij : j = i
  · simp [hij, hi]
  · simp [hij, Ne.symm hij]

theorem records_silent (hw : s.workers[i]? = some w) (hset : s'.workers = s.workers.set i w')
    (h : ∀ e, w.pc ≠ .record e) (h' : ∀ e, w'.pc ≠ .record e) (j : Nat) (e : Exn) : s'.Records j e ↔ s.Records j e := by
  rw [records_set hw hset]
  by_cases hj : j = i
  · have : ¬ s.Records j e := by
      rintro ⟨v, hv, hpc⟩
      rw [hj, hw] at hv
      cases hv
      exact h e hpc
    simp [hj, h' e] at this ⊢
    exact this
  · rw [if_neg hj]

/-- A step that ends no invocation and records nothing. -/
theorem Thrown.kept (hs : Thrown s) (hl : Logged s') (he : s'.ended = s.ended) (hr : s'.results = s.results)
    (hf : s'.firstException = s.firstException) (hfresh : s'.caller = .cleared ∨ s'.caller = .zeroed →
      s.firstException = none)
    (hw : ∀ j e, s'.Records j e ↔ s.Records j e) (hk : ∀ e, s'.caller = .recording e ↔ s.caller = .recording e)
    (hp : s'.caller.phase = .task → s.caller.phase = .task) : Thrown s' := by
  have hthrew : ∀ c tid e, s'.Threw c tid e ↔ s.Threw c tid e := fun c tid e => by simp only [State.Threw, he]
  have hcur : s'.current = s.current := congrArg List.length hr
  constructor
  case toLogged => exact hl
  case fresh =>
    intro h
    rw [hf]
    exact hfresh h
  case worker_throws =>
    intro j e h
    rw [hcur, hthrew]
    exact hs.worker_throws j e ((hw j e).1 h)
  case caller_throws =>
    intro e h
    rw [hcur, hthrew]
    exact hs.caller_throws e ((hk e).1 h)
  case recorded =>
    intro h e hfe
    simp only [hcur, hthrew]
    exact hs.recorded (hp h) e (hf ▸ hfe)
  case unrecorded =>
    intro h hfn tid e ht
    rw [hcur, hthrew] at ht
    have := hs.unrecorded (hp h) (hf ▸ hfn) tid e ht
    cases tid with
    | zero => simpa only [State.Recording, hk] using this
    | succ j => simpa only [State.Recording, hw] using this
  case rethrown =>
    intro c out h
    rw [hr] at h
    have := hs.rethrown c out h
    cases out <;> simpa only [State.Rethrown, hthrew] using this

theorem Rethrown.mono (hsub : ∀ c tid e, s.Threw c tid e → s'.Threw c tid e) {c : Nat} {out : Option Exn}
    (hnew : ∀ tid e, s'.Threw c tid e → s.Threw c tid e) (h : s.Rethrown c out) : s'.Rethrown c out := by
  cases out with
  | some e =>
    obtain ⟨tid, h⟩ := h
    exact ⟨tid, hsub c tid e h⟩
  | none => exact fun tid e ht => h tid e (hnew tid e ht)

/-- Thread `t` ends its invocation. -/
theorem Thrown.ends {t : Nat} {exn : Option Exn} (hs : Thrown s) (hl : Logged s') (hr : s'.results = s.results)
    (h0 : s.share Pc.ended Caller.ended t = 0) (he : s'.ended = ⟨⟨s.current, t⟩, exn⟩ :: s.ended)
    (hf : s'.firstException = s.firstException)
    (hp : s.caller.phase = .task) (hp' : s'.caller.phase = .task)
    (hw : ∀ j e, s'.Records j e ↔ if j + 1 = t then exn = some e else s.Records j e)
    (hk : ∀ e, s'.caller = .recording e ↔ if 0 = t then exn = some e else s.caller = .recording e) : Thrown s' := by
  have hthrew : ∀ c tid e, s'.Threw c tid e ↔ c = s.current ∧ tid = t ∧ exn = some e ∨ s.Threw c tid e := by
    intro c tid e
    simp only [State.Threw, he, List.mem_cons, Ending.mk.injEq, Run.mk.injEq, and_assoc, eq_comm]
  have hcur : s'.current = s.current := congrArg List.length hr
  constructor
  case toLogged => exact hl
  case fresh => rintro (h | h) <;> simp [h, Caller.phase] at hp'
  case worker_throws =>
    intro j e h
    rw [hcur, hthrew]
    rw [hw] at h
    by_cases hj : j + 1 = t
    · rw [if_pos hj] at h
      exact .inl ⟨rfl, hj, h⟩
    · rw [if_neg hj] at h
      exact .inr (hs.worker_throws j e h)
  case caller_throws =>
    intro e h
    rw [hcur, hthrew]
    rw [hk] at h
    by_cases h0 : 0 = t
    · rw [if_pos h0] at h
      exact .inl ⟨rfl, h0, h⟩
    · rw [if_neg h0] at h
      exact .inr (hs.caller_throws e h)
  case recorded =>
    intro _ e h
    obtain ⟨tid, ht⟩ := hs.recorded hp e (hf ▸ h)
    refine ⟨tid, ?_⟩
    rw [hcur, hthrew]
    exact .inr ht
  case unrecorded =>
    intro _ hfn tid e ht
    rw [hcur, hthrew] at ht
    by_cases htid : tid = t
    · have hexn : exn = some e := by
        rcases ht with h | h
        · exact h.2.2
        · exact absurd (htid ▸ h) (hs.not_threw h0 e)
      cases tid with
      | zero => exact ⟨e, (hk e).2 (by rwa [if_pos htid])⟩
      | succ j => exact ⟨e, (hw j e).2 (by rwa [if_pos htid])⟩
    · have hold := hs.unrecorded hp (hf ▸ hfn) tid e (ht.resolve_left fun h => htid h.2.1)
      cases tid with
      | zero =>
        obtain ⟨e', h⟩ := hold
        exact ⟨e', (hk e').2 (by rwa [if_neg htid])⟩
      | succ j =>
        obtain ⟨e', h⟩ := hold
        exact ⟨e', (hw j e').2 (by rwa [if_neg htid])⟩
  case rethrown =>
    intro c out h
    rw [hr] at h
    have hlt : c < s.current := (List.getElem?_eq_some_iff.1 h).1
    refine Rethrown.mono (fun c tid e h => (hthrew c tid e).2 (.inr h)) (fun tid e h => ?_) (hs.rethrown c out h)
    exact ((hthrew c tid e).1 h).resolve_left fun h => absurd h.1 (Nat.ne_of_lt hlt)

/-- Thread `t` records `e`, which it threw. -/
theorem Thrown.records {t : Nat} {e : Exn} (hs : Thrown s) (hl : Logged s') (hr : s'.results = s.results)
    (he : s'.ended = s.ended) (hf : s'.firstException = s.firstException.or (some e))
    (hp : s.caller.phase = .task) (hp' : s'.caller.phase = .task) (ht : s.Threw s.current t e)
    (hw : ∀ j e, s'.Records j e → s.Records j e) (hk : ∀ e, s'.caller = .recording e → s.caller = .recording e) :
    Thrown s' := by
  have hthrew : ∀ c tid e, s'.Threw c tid e ↔ s.Threw c tid e := fun c tid e => by simp only [State.Threw, he]
  have hcur : s'.current = s.current := congrArg List.length hr
  constructor
  case toLogged => exact hl
  case fresh => rintro (h | h) <;> simp [h, Caller.phase] at hp'
  case worker_throws =>
    intro j e h
    rw [hcur, hthrew]
    exact hs.worker_throws j e (hw j e h)
  case caller_throws =>
    intro e h
    rw [hcur, hthrew]
    exact hs.caller_throws e (hk e h)
  case recorded =>
    intro _ e' h
    simp only [hcur, hthrew]
    cases hfirst : s.firstException with
    | some e'' =>
      rw [hf, hfirst] at h
      exact hs.recorded hp e' (hfirst ▸ h)
    | none =>
      rw [hf, hfirst] at h
      obtain rfl : e = e' := by simpa using h
      exact ⟨t, ht⟩
  case unrecorded =>
    intro _ h
    rw [hf] at h
    cases hfirst : s.firstException <;> simp [hfirst] at h
  case rethrown =>
    intro c out h
    rw [hr] at h
    have := hs.rethrown c out h
    cases out <;> simpa only [State.Rethrown, hthrew] using this

theorem Thrown.worker_step {limit : Int} {exn : Option Exn} (hs : Thrown s) (hw : s.workers[i]? = some w)
    (h : workerStep limit s i w exn = some s') : Thrown s' := by
  have hl := hs.toLogged.worker_step hw h
  have hrun := hs.toControl.task_of_call (List.mem_of_getElem? hw)
  cases hpc : w.pc with
  | running c =>
    obtain ⟨hp, hgen, -, hcur⟩ := hrun (.inr ⟨c, hpc⟩)
    obtain rfl := hcur c hpc
    simp only [workerStep, hpc, Option.some.injEq] at h
    subst h
    refine hs.ends (t := i + 1) hl rfl ?_ rfl rfl hp hp (fun j e => ?_) (fun e => ?_)
    · simp [State.share, State.part, hw, hpc, Pc.ended]
    · refine Iff.trans (records_set hw rfl j e) ?_
      cases exn <;> simp
    · simp [State.setWorker]
  | record e =>
    have hrec : s.Records i e := ⟨w, hw, hpc⟩
    simp only [workerStep, hpc, Option.some.injEq] at h
    subst h
    have hp := hs.toControl.task_of_records hrec
    refine hs.records hl rfl rfl rfl hp hp (hs.worker_throws i e hrec) (fun j e' h => ?_) (fun _ h => h)
    replace h := Iff.mp (records_set hw rfl j e') h
    by_cases hij : j = i
    · simp [hij] at h
    · rwa [if_neg hij] at h
  | _ =>
    simp only [workerStep, hpc] at h
    (repeat' split at h) <;>
    first
      | (cases h; done)
      | (cases h; exact hs)
      | (cases h
         refine hs.kept hl rfl rfl rfl hs.fresh (records_silent hw rfl ?_ ?_) (fun _ => .rfl) (fun h => h) <;>
           simp [hpc])

theorem records_notifyAll (j : Nat) (e : Exn) : s.notifyAll.Records j e ↔ s.Records j e := by
  simp only [State.Records, State.notifyAll_workers, List.getElem?_map, Option.map_eq_some_iff]
  have hwake : ∀ w : Worker Exn, w.wake.pc = .record e ↔ w.pc = .record e := fun w => by
    unfold Worker.wake
    split
    · rename_i h
      simp [h]
    · exact .rfl
  constructor
  · rintro ⟨-, ⟨w, hw, rfl⟩, hpc⟩
    exact ⟨w, hw, (hwake w).1 hpc⟩
  · rintro ⟨w, hw, hpc⟩
    exact ⟨_, ⟨w, hw, rfl⟩, (hwake w).2 hpc⟩

/-- A step outside the tasks, or to the start of one. -/
theorem Thrown.opens (hs : Thrown s) (hl : Logged s') (hq : s.caller.phase = .quiet) (he : s'.ended = s.ended)
    (hr : s'.results = s.results) (hw : s'.workers = s.workers) (h0 : s.caller.ended = 0)
    (hk : ∀ e, s'.caller ≠ .recording e)
    (hf : s'.caller = .cleared ∨ s'.caller = .zeroed ∨ s'.caller.phase = .task → s'.firstException = none) :
      Thrown s' := by
  have hthrew : ∀ c tid e, s'.Threw c tid e ↔ s.Threw c tid e := fun c tid e => by simp only [State.Threw, he]
  have hcur : s'.current = s.current := congrArg List.length hr
  have hnot : ∀ tid e, ¬ s.Threw s.current tid e := fun tid =>
    hs.not_threw (by rw [share_idle (by rw [hq]; simp), h0, ite_self])
  constructor
  case toLogged => exact hl
  case fresh => exact fun h => hf (h.imp_right .inl)
  case worker_throws =>
    intro j e h
    have := hs.toControl.task_of_records (i := j) (e := e) (by simpa only [State.Records, hw] using h)
    simp [hq] at this
  case caller_throws => exact fun e h => absurd h (hk e)
  case recorded => exact fun h e hfe => by simp [hf (.inr (.inr h))] at hfe
  case unrecorded =>
    intro _ _ tid e h
    rw [hcur, hthrew] at h
    exact absurd h (hnot tid e)
  case rethrown =>
    intro c out h
    rw [hr] at h
    have := hs.rethrown c out h
    cases out <;> simpa only [State.Rethrown, hthrew] using this

/-- A call returns `out`. -/
theorem Thrown.returns {out : Option Exn} (hs : Thrown s) (hl : Logged s') (hr : s'.results = s.results ++ [out])
    (hq : s'.caller = .idle) (hold : ∀ c tid e, c < s.current → (s'.Threw c tid e ↔ s.Threw c tid e))
    (hout : s'.Rethrown s.current out) : Thrown s' := by
  constructor
  case toLogged => exact hl
  case fresh => simp [hq]
  case worker_throws =>
    intro j e h
    have := hl.toControl.task_of_records h
    simp [hq, Caller.phase] at this
  case caller_throws => simp [hq]
  case recorded => simp [hq, Caller.phase]
  case unrecorded => simp [hq, Caller.phase]
  case rethrown =>
    intro c o h
    rw [hr] at h
    by_cases hc : c < s.results.length
    · rw [List.getElem?_append_left hc] at h
      have := hs.rethrown c o h
      cases o <;> simpa only [State.Rethrown, hold c _ _ hc] using this
    · obtain rfl : c = s.results.length := by
        have := (List.getElem?_eq_some_iff.1 h).1
        simp only [List.length_append, List.length_singleton] at this
        omega
      obtain rfl : out = o := by simpa using h
      exact hout

theorem Thrown.caller_step {exn : Option Exn} (hs : Thrown s) (h : callerStep s exn = some s') : Thrown s' := by
  have hl := hs.toLogged.caller_step h
  cases hk : s.caller with
  | idle | destroyed => simp [callerStep, hk] at h
  | slot | cleared | zeroed | closing =>
    have hfresh := hs.fresh
    simp only [callerStep, hk, Option.some.injEq] at h
    subst h
    apply hs.opens hl <;> simp_all [Caller.phase, Caller.ended]
  | running =>
    simp only [callerStep, hk, Option.some.injEq] at h
    subst h
    refine hs.ends (t := 0) hl rfl ?_ rfl rfl ?_ ?_ (fun j e => ?_) (fun e => ?_)
    · simp [State.share, hk, Caller.ended]
    · rw [hk]; rfl
    · cases exn <;> rfl
    · simp [State.Records]
    · cases exn <;> simp
  | recording e =>
    simp only [callerStep, hk, Option.some.injEq] at h
    subst h
    refine hs.records hl rfl rfl rfl ?_ rfl (hs.caller_throws e hk) (fun j e h => h) (fun e h => by cases h)
    rw [hk]; rfl
  | bumped | announced =>
    simp only [callerStep, hk, Option.some.injEq] at h
    subst h
    exact hs.kept hl rfl rfl rfl (by simp) records_notifyAll (by simp [hk]) (by simp [hk, Caller.phase])
  | collecting =>
    simp only [callerStep, hk, Option.some.injEq] at h
    subst h
    refine hs.returns hl rfl rfl (fun _ _ _ _ => .rfl) ?_
    have hp : s.caller.phase = .task := by rw [hk]; rfl
    cases hf : s.firstException with
    | some e => exact hs.recorded hp e hf
    | none =>
      intro tid e ht
      have hrec := hs.unrecorded hp hf tid e ht
      cases tid with
      | zero => simp [State.Recording, hk] at hrec
      | succ j =>
        obtain ⟨e', w, hw, hpc⟩ := hrec
        have := hs.toControl.collected hk (List.mem_of_getElem? hw)
        simp [State.finished, hpc, Pc.resting] at this
  | solo =>
    simp only [callerStep, hk, Option.some.injEq] at h
    subst h
    have hnot : ∀ tid e, ¬ s.Threw s.current tid e := fun tid =>
      hs.not_threw (by rw [share_idle (by rw [hk]; simp [Caller.phase]), hk]; simp [Caller.ended])
    refine hs.returns hl rfl rfl (fun c tid e hc => ?_) ?_
    · simp [State.Threw, Nat.ne_of_lt hc]
    · cases exn with
      | some e => exact ⟨0, by simp [State.Threw]⟩
      | none =>
        intro tid e ht
        exact hnot tid e (by simpa [State.Threw] using ht)
  | _ =>
    simp only [callerStep, hk] at h
    (repeat' split at h) <;> simp at h <;> subst h <;>
    first
      | exact hs
      | exact hs.kept hl rfl rfl rfl (by simp) (fun _ _ => .rfl) (by simp [hk]) (by simp [hk, Caller.phase])

theorem Thrown.init (n : Int) : Thrown (init n : State Exn) := by
  have hcount : ∀ (f : Pc Exn → Nat) (g : Caller Exn → Nat), g .idle = 0 → Counted (ThreadPool.init n) f g [] := by
    intro f g hg r
    have : (ThreadPool.init n : State Exn).caller.phase ≠ .task := by simp [ThreadPool.init, Caller.phase]
    rw [State.tally, share_idle this]
    simp [State.current, ThreadPool.init, hg]
  refine ⟨⟨Control.init n, hcount _ _ rfl, hcount _ _ rfl⟩, ?_, ?_, ?_, ?_, ?_, ?_⟩
  · simp [ThreadPool.init]
  · rintro i e ⟨w, hw, hpc⟩
    obtain rfl := List.eq_of_mem_replicate (List.mem_of_getElem? hw)
    cases hpc
  · simp [ThreadPool.init]
  · simp [ThreadPool.init, Caller.phase]
  · simp [ThreadPool.init, Caller.phase]
  · simp [ThreadPool.init]

theorem Thrown.step {limit : Int} {a : Act Exn} (hs : Thrown s) (h : step limit s a = some s') : Thrown s' := by
  have hc := hs.toControl.step h
  cases a with
  | parallelFor =>
    simp only [ThreadPool.step] at h
    split at h
    · rename_i hk
      have hq : s.caller.phase = .quiet := by rw [hk]; rfl
      by_cases hn : s.numThreads ≤ 1
      · rw [if_pos hn, Option.some.injEq] at h
        subst h
        have hl : Logged _ := ⟨hc,
          hs.begun.inside (k := 1) rfl rfl rfl (by rw [hk]; rfl) (by rw [hk]; rfl) (count_run_cons · _ _),
          hs.ended.inside (k := 0) rfl rfl rfl (by rw [hk]; rfl) (by rw [hk]; rfl) (by simp)⟩
        exact hs.opens hl hq rfl rfl rfl (by rw [hk]; rfl) (by simp) (by simp [Caller.phase])
      · rw [if_neg hn, Option.some.injEq] at h
        subst h
        have hl : Logged _ := ⟨hc, hs.begun.inside (k := 0) rfl rfl rfl (by rw [hk]; rfl) (by rw [hk]; rfl) (by simp),
          hs.ended.inside (k := 0) rfl rfl rfl (by rw [hk]; rfl) (by rw [hk]; rfl) (by simp)⟩
        exact hs.opens hl hq rfl rfl rfl (by rw [hk]; rfl) (by simp) (by simp [Caller.phase])
    · cases h
  | destroy =>
    simp only [ThreadPool.step] at h
    split at h
    · rename_i hk
      rw [Option.some.injEq] at h
      subst h
      have hl : Logged _ := ⟨hc, hs.begun.inside (k := 0) rfl rfl rfl (by rw [hk]; rfl) (by rw [hk]; rfl) (by simp),
        hs.ended.inside (k := 0) rfl rfl rfl (by rw [hk]; rfl) (by rw [hk]; rfl) (by simp)⟩
      exact hs.opens hl (by rw [hk]; rfl) rfl rfl rfl (by rw [hk]; rfl) (by simp) (by simp [Caller.phase])
    · cases h
  | caller exn => exact hs.caller_step h
  | worker i exn =>
    simp only [ThreadPool.step] at h
    split at h
    · rename_i w hw
      exact hs.worker_step hw h
    · cases h
  | spurious i =>
    simp only [ThreadPool.step] at h
    split at h
    · rename_i w hw
      split at h
      · rename_i hb
        rw [Option.some.injEq] at h
        subst h
        exact hs.kept (hs.toLogged.spurious hw hb) rfl rfl rfl hs.fresh (records_silent hw rfl (by simp [hb]) (by simp))
          (fun _ => .rfl) (fun h => h)
      · cases h
    · cases h

end SynnoDB.ThreadPool
