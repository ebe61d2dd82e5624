import SynnoDB.Template.ParallelReduce

/-!
# Whether a reduction returns (`thread_pool.hpp:250-286`)

**A reduction can always go on to its result** if no bound overflows and no worker sleeps: the next step of some
thread lowers the rank of the state, first of the caller's position, then of what the threads have left to do. A
worker that sleeps through the call is never counted, and the caller waits for it (`Stuck`).
-/

namespace SynnoDB.ParallelReduce

open ThreadPool (Act Caller Pc Worker)
open Trace

variable {T E : Type} {R : Reduce T} {unit : Int → T} {s s' : State T E} {limit : Int}

/-! ## Steps of the pool -/

section
variable {p p' : ThreadPool.State E} {i : Nat} {exn : Option E}

/-- What a worker leaves alone. -/
theorem worker_frame (h : ThreadPool.step limit p (.worker i exn) = some p') :
    p'.caller = p.caller ∧ p'.generation = p.generation ∧ p'.results = p.results ∧ p'.numThreads = p.numThreads ∧
      ∀ j ≠ i, p'.workers[j]? = p.workers[j]? := by
  simp only [ThreadPool.step] at h
  split at h
  · rename_i w hw
    cases hpc : w.pc <;> simp only [ThreadPool.workerStep, hpc] at h <;> (repeat' split at h) <;>
      first
        | (cases h; done)
        | (cases h; exact ⟨rfl, rfl, rfl, rfl, fun _ _ => rfl⟩)
        | (cases h
           exact ⟨rfl, rfl, rfl, by simp [ThreadPool.State.numThreads, ThreadPool.State.setWorker,
             ThreadPool.State.recordException],
             fun j hj => List.getElem?_set_ne (Ne.symm hj)⟩)
  · cases h

/-- Outside a call no thread is inside `f`. -/
theorem not_serving (hp : ThreadPool.Control p) (hidle : p.caller = .idle) (tid : Nat) : serving p tid = false := by
  cases tid with
  | zero => rw [serving, hidle]
  | succ i =>
    rw [serving]
    cases hw : p.workers[i]? with
    | none => rfl
    | some w =>
      have hok := hp.worker w (List.mem_of_getElem? hw)
      have hphase : p.caller.phase = .quiet := by rw [hidle]; rfl
      dsimp only
      split
      · rename_i hpc
        simp [ThreadPool.State.WorkerOk, hphase, hpc, Pc.fits, Pc.resting] at hok
      · rfl

end

/-! ## Nothing to reduce -/

structure Empty (R : Reduce T) (s : State T E) : Prop where
  control : ThreadPool.Control s.pool
  idle : s.pool.caller = .idle
  folded : s.folded = []
  defined : s.overflowed = false
  result : s.result = some R.identity

theorem empty_step {a : Step E} (h : Empty R s) (hs : step R limit s a = some s') : Empty R s' := by
  unfold ParallelReduce.step at hs
  rw [if_neg (by simp [h.defined])] at hs
  cases a with
  | merge =>
    rw [h.result] at hs
    cases hs
  | body tid =>
    dsimp only at hs
    rw [not_serving h.control h.idle] at hs
    cases hs
  | pool a =>
    simp only [Option.ite_none_right_eq_some] at hs
    obtain ⟨hmay, hs⟩ := hs
    cases hp : ThreadPool.step limit s.pool a with
    | none => rw [hp] at hs; cases hs
    | some p =>
      rw [hp] at hs
      cases hs
      have hcontrol := h.control.step hp
      have hcaller : p.caller = .idle := by
        cases a with
        | destroy => cases hmay
        | parallelFor => rw [mayStep, h.result] at hmay; cases hmay
        | caller exn =>
          unfold ThreadPool.step ThreadPool.callerStep at hp
          rw [h.idle] at hp
          cases hp
        | worker i exn => exact (worker_frame hp).1.trans h.idle
        | spurious i =>
          simp only [ThreadPool.step] at hp
          (repeat' split at hp) <;> cases hp
          exact h.idle
      exact ⟨hcontrol, hcaller, h.folded, h.defined, h.result⟩

theorem Empty.right (hn : R.n ≤ 0) (h : Empty R s) : Right R unit s := by
  refine ⟨h.defined, fun v hv => ?_⟩
  rw [h.result] at hv
  cases hv
  refine ⟨?_, fun i => ?_⟩
  · rw [combined, range_of_le hn]
    rfl
  · rw [h.folded, if_neg (by omega)]
    rfl

/-! ## Ranks -/

/-- How far the caller is from the result. -/
def callerRank (s : State T E) : Nat :=
  match s.pool.caller with
  | .idle => if s.call < s.pool.current then 1 else 12
  | .solo => 11
  | .slot => 10
  | .cleared => 9
  | .zeroed => 8
  | .bumped => 7
  | .notified => 6
  | .running => 5
  | .recording _ => 4
  | .waiting => 3
  | .collecting => 2
  | _ => 0

/-- How far a worker that does not sleep is from having served the call. -/
def workerRank (g : ThreadPool.Gen) (w : Worker E) : Nat :=
  if w.myGen = g then
    match w.pc with
    | .check => 5
    | .call => 4
    | .running _ => 3
    | .record _ => 2
    | .count => 1
    | _ => 0
  else
    match w.pc with
    | .reload => 6
    | .unlock => 7
    | _ => 8

def frameRank (R : Reduce T) : Frame T → Nat
  | .entered => R.n.toNat + 2
  | .looping i hi _ => (hi - i).toNat + 1
  | .returned => 0

def threadRank (R : Reduce T) (s : State T E) : Nat :=
  (s.pool.workers.map (workerRank s.pool.generation)).sum + ((List.range s.pool.numThreads).map fun tid => frameRank R (s.frames tid)).sum

theorem sum_map_set {α : Type} (f : α → Nat) (b : α) : ∀ {l : List α} {i : Nat} {a : α}, l[i]? = some a →
    ((l.set i b).map f).sum + f a = (l.map f).sum + f b
  | x :: l, 0, a, h => by
    cases h
    simp only [List.set_cons_zero, List.map_cons, List.sum_cons]
    omega
  | x :: l, i + 1, a, h => by
    have ih := sum_map_set f b (l := l) (i := i) h
    simp only [List.set_cons_succ, List.map_cons, List.sum_cons]
    omega

theorem sum_map_update {α : Type} (f : α → Nat) (g : Nat → α) (b : α) {tid : Nat} : ∀ {m : Nat}, tid < m →
    ((List.range m).map fun k => f (Function.update g tid b k)).sum + f (g tid) =
      ((List.range m).map fun k => f (g k)).sum + f b
  | m + 1, h => by
    rw [List.range_succ, List.map_append, List.map_append, List.sum_append, List.sum_append, List.map_singleton,
      List.map_singleton,
      List.sum_singleton, List.sum_singleton]
    by_cases htid : tid = m
    · subst htid
      have hbelow : ((List.range tid).map fun k => f (Function.update g tid b k)) =
        (List.range tid).map fun k => f (g k) := by
        refine List.map_congr_left fun k hk => ?_
        rw [Function.update_of_ne (by have := List.mem_range.1 hk; omega)]
      rw [hbelow, Function.update_self]
      omega
    · have ih := sum_map_update f g b (m := m) (show tid < m by omega)
      rw [Function.update_of_ne (Ne.symm htid)]
      omega

/-! ## Progress -/

/-- The caller is between the entry and the return of the call, and no worker sleeps. -/
structure Live (R : Reduce T) (unit : Int → T) (s : State T E) : Prop extends Ok R unit s where
  called : s.call ≤ s.pool.current
  inside : s.pool.caller.shut = false ∧ s.pool.caller ≠ .closing
  awake : ∀ w ∈ s.pool.workers, w.pc.spinning = true

theorem live_step (hR : Lawful R unit) (hn : 0 < R.n) (hfit : R.n + s.pool.numThreads < 2 ^ 63)
    (hspin : s.pool.numThreads ≤ 1 ∨ limit ≤ 0) {a : Step E} (h : Live R unit s) (hs : step R limit s a = some s') :
    Live R unit s' ∧ s'.pool.numThreads = s.pool.numThreads ∧ s'.call = s.call := by
  cases a with
  | merge =>
    obtain ⟨hok, hpool, hcall⟩ := h.toOk.merge_step hs
    exact ⟨⟨hok, hcall ▸ hpool ▸ h.called, hpool ▸ h.inside, hpool ▸ h.awake⟩, congrArg _ hpool, hcall⟩
  | body tid =>
    obtain ⟨hok, hpool, hcall⟩ := h.toOk.body_step hR hn hfit hs
    exact ⟨⟨hok, hcall ▸ hpool ▸ h.called, hpool ▸ h.inside, hpool ▸ h.awake⟩, congrArg _ hpool, hcall⟩
  | pool a =>
    have hok := h.toOk.pool_step hs
    rw [ParallelReduce.step, if_neg (by simp [h.defined])] at hs
    simp only [Option.ite_none_right_eq_some] at hs
    obtain ⟨hmay, hs⟩ := hs
    cases hp : ThreadPool.step limit s.pool a with
    | none => rw [hp] at hs; cases hs
    | some p =>
      rw [hp] at hs
      cases hs
      have hlen := ThreadPool.step_length hp
      refine ⟨⟨hok, h.called.trans (results_step hp).length_le, ?_, ?_⟩, congrArg (· + 1) hlen, rfl⟩
      · have hinside := h.inside
        show p.caller.shut = false ∧ p.caller ≠ .closing
        cases a with
        | destroy => cases hmay
        | worker i exn =>
          rw [(worker_frame hp).1]
          exact hinside
        | spurious i =>
          simp only [ThreadPool.step] at hp
          (repeat' split at hp) <;> cases hp
          exact hinside
        | parallelFor =>
          simp only [ThreadPool.step] at hp
          (repeat' split at hp) <;> cases hp <;> simp [Caller.shut, Caller.phase]
        | caller exn =>
          simp only [ThreadPool.step] at hp
          cases hk : s.pool.caller <;> simp only [ThreadPool.callerStep, hk] at hp <;> (repeat' split at hp) <;>
            simp at hp <;> subst hp <;> simp_all [Caller.shut, Caller.phase, ThreadPool.State.recordException]
      · rcases hspin with hspin | hlimit
        · have hnil : p.workers = [] := by
            rw [← List.length_eq_zero_iff, hlen]
            have : s.pool.workers.length + 1 ≤ 1 := hspin
            omega
          intro w hw
          have hw : w ∈ p.workers := hw
          rw [hnil] at hw
          cases hw
        · exact ThreadPool.spinning_step hlimit h.awake hp

/-- The ranks in their order. -/
def Lower (R : Reduce T) (s' s : State T E) : Prop :=
  callerRank s' < callerRank s ∨ callerRank s' = callerRank s ∧ threadRank R s' < threadRank R s

/-- Some thread can take a step that lowers the rank, or leads to the result. -/
def Progress (R : Reduce T) (limit : Int) (s : State T E) : Prop :=
  ∃ a s', a.spurious = false ∧ step R limit s a = some s' ∧ (s'.result.isSome = true ∨ Lower R s' s)

/-- An invocation that has not returned can go on. -/
theorem Ok.body_progress (limit : Int) (hn : 0 < R.n) (hfit : R.n + s.pool.numThreads < 2 ^ 63) (h : Ok R unit s)
    {tid : Nat} (hserving : serving s.pool tid = true) (hf : s.frames tid ≠ .returned) :
    ∃ s', step R limit s (.body tid) = some s' ∧ frameRank R (s'.frames tid) < frameRank R (s.frames tid) ∧
      Lower R s' s := by
  have htid := serving_lt hserving
  -- whatever the step is, it replaces the frame by a lower one
  have hlower : ∀ (f : Frame T) (s' : State T E), bodyStep R s tid = some s' → s'.pool = s.pool → s'.call = s.call →
      s'.frames = Function.update s.frames tid f → frameRank R f < frameRank R (s.frames tid) →
      ∃ s', step R limit s (.body tid) = some s' ∧ frameRank R (s'.frames tid) < frameRank R (s.frames tid) ∧
        Lower R s' s := by
    intro f s' hs hpool hcall hframes hrank
    refine ⟨s', ?_, ?_, ?_⟩
    · rw [ParallelReduce.step, if_neg (by simp [h.defined]), if_pos hserving, hs]
    · rw [hframes, Function.update_self]
      exact hrank
    · have hsum := sum_map_update (frameRank R) s.frames f htid
      refine .inr ⟨by rw [callerRank, callerRank, hpool, hcall], ?_⟩
      rw [threadRank, threadRank, hpool, hframes]
      omega
  obtain ⟨f, hcase⟩ : ∃ f, s.frames tid = f := ⟨_, rfl⟩
  cases f with
  | returned => exact absurd hcase hf
  | entered =>
    have hslice := slice_spec hn htid hfit
    have hlo := bound_nonneg s.pool.numThreads tid hn
    have hhi : bound R s.pool.numThreads (tid + 1) ≤ R.n := min_le_right _ _
    split at hslice
    · have hstep : bodyStep R s tid = some { s with frames := Function.update s.frames tid .returned } := by
        rw [bodyStep, hcase]
        dsimp only
        rw [hslice]
      refine hlower .returned _ hstep rfl rfl rfl ?_
      rw [hcase, frameRank, frameRank]
      omega
    · generalize bound R s.pool.numThreads tid = lo, bound R s.pool.numThreads (tid + 1) = hi at hslice hlo hhi
      have hstep : bodyStep R s tid =
        some { s with frames := Function.update s.frames tid (.looping lo hi R.identity) } := by
        rw [bodyStep, hcase]
        dsimp only
        rw [hslice]
      refine hlower _ _ hstep rfl rfl rfl ?_
      rw [hcase, frameRank, frameRank]
      omega
  | looping i hi acc =>
    by_cases hlt : i < hi
    · have hstep : bodyStep R s tid = some { s with
          frames := Function.update s.frames tid (.looping (i + 1) hi (R.fold acc i)), folded :=
            (tid, i) :: s.folded } := by
        rw [bodyStep, hcase]
        dsimp only
        rw [if_pos hlt]
      refine hlower _ _ hstep rfl rfl rfl ?_
      rw [hcase, frameRank, frameRank]
      omega
    · have hstep : bodyStep R s tid = some { s with
          frames := Function.update s.frames tid .returned, partials := s.partials.set tid acc } := by
        rw [bodyStep, hcase]
        dsimp only
        rw [if_neg hlt]
      refine hlower .returned _ hstep rfl rfl rfl ?_
      rw [hcase, frameRank, frameRank]
      omega

theorem step_pool {a : Act E} {p : ThreadPool.State E} (hdefined : s.overflowed = false) (hmay : mayStep s a = true)
    (hp : ThreadPool.step limit s.pool a = some p) : step R limit s (.pool a) = some { s with pool := p } := by
  rw [ParallelReduce.step, if_neg (by simp [hdefined]), if_pos hmay, hp]
  rfl

theorem Ok.pool_progress {a : Act E} {p : ThreadPool.State E} (h : Ok R unit s) (hmay : mayStep s a = true)
    (hp : ThreadPool.step limit s.pool a = some p) (ha : (Step.pool a).spurious = false)
      (hlower : Lower R { s with pool := p } s) :
    Progress R limit s := by
  exact ⟨.pool a, { s with pool := p }, ha, step_pool h.defined hmay hp, .inr hlower⟩

theorem mayStep_caller (h : serving s.pool 0 = true → s.frames 0 = .returned) : mayStep s (.caller none) = true := by
  by_cases hs : serving s.pool 0 = true
  · simp [mayStep, leaves, hs, h hs, Frame.isReturned]
  · simp [mayStep, leaves, hs]

theorem mayStep_worker {i : Nat} (h : serving s.pool (i + 1) = true → s.frames (i + 1) = .returned) :
    mayStep s (.worker i none) = true := by
  by_cases hs : serving s.pool (i + 1) = true
  · simp [mayStep, leaves, hs, h hs, Frame.isReturned]
  · simp [mayStep, leaves, hs]

/-- A worker moves on by a step of its own. -/
theorem Ok.worker_moves {i : Nat} {w w' : Worker E} {p : ThreadPool.State E} (h : Ok R unit s)
    (hmay : mayStep s (.worker i none) = true) (hw : s.pool.workers[i]? = some w)
    (hp : ThreadPool.step limit s.pool (.worker i none) = some p) (hset : p.workers = s.pool.workers.set i w')
    (hrank : workerRank s.pool.generation w' < workerRank s.pool.generation w) : Progress R limit s := by
  obtain ⟨hcaller, hgen, hresults, hnum, -⟩ := worker_frame hp
  refine h.pool_progress hmay hp rfl (.inr ⟨?_, ?_⟩)
  · simp only [callerRank, ThreadPool.State.current, hcaller, hresults]
    rfl
  · have hsum := sum_map_set (workerRank s.pool.generation) w' hw
    show (p.workers.map (workerRank p.generation)).sum + ((List.range p.numThreads).map fun tid =>
      frameRank R (s.frames tid)).sum < _
    rw [hset, hgen, hnum, threadRank]
    omega

/-- **A worker that has not served the call can move on**, in its own part of the pool or in its invocation. -/
theorem Live.worker_progress (hn : 0 < R.n) (hfit : R.n + s.pool.numThreads < 2 ^ 63) (h : Live R unit s)
    (hphase : s.pool.caller.phase = .task) {i : Nat} {w : Worker E} (hw : s.pool.workers[i]? = some w)
    (hrest : s.pool.finished w = false) : Progress R limit s := by
  by_cases hbody : serving s.pool (i + 1) = true ∧ s.frames (i + 1) ≠ .returned
  · obtain ⟨s', hs', -, hlower⟩ := h.toOk.body_progress limit hn hfit hbody.1 hbody.2
    exact ⟨.body (i + 1), s', rfl, hs', .inr hlower⟩
  have hmay : mayStep s (.worker i none) = true := mayStep_worker fun hs => by
    by_contra hne
    exact hbody ⟨hs, hne⟩
  have hmem := List.mem_of_getElem? hw
  have hspin := h.awake w hmem
  have hshut : s.pool.shutdown = false := h.pool.shutdown_task hphase
  have hstep : ThreadPool.step limit s.pool (.worker i none) = ThreadPool.workerStep limit s.pool i w none := by
    simp only [ThreadPool.step, hw]
  rcases h.pool.worker w hmem with ⟨hgen, hfits⟩ | ⟨-, hgen, hbehind⟩
  · -- the worker knows of the call
    have hresting : w.pc.resting = false := by
      rw [ThreadPool.State.finished, hgen] at hrest
      simpa using hrest
    rw [hphase] at hfits
    cases hpc : w.pc <;> simp [hpc, Pc.resting, Pc.fits] at hresting hfits
    all_goals
      refine h.toOk.worker_moves hmay hw (hstep.trans (by rw [ThreadPool.workerStep, hpc])) rfl ?_
      simp [workerRank, hgen, hpc, hshut]
  · -- the worker is about to notice the call
    have hne : w.myGen ≠ s.pool.generation := by
      rw [← hgen]
      exact (ThreadPool.gen_succ_ne _).symm
    cases hpc : w.pc with
    | spin =>
      refine h.toOk.worker_moves hmay hw
        (hstep.trans (by rw [ThreadPool.workerStep, hpc]; exact if_neg (Ne.symm hne))) rfl ?_
      simp [workerRank, hne, hpc]
    | unlock | reload =>
      refine h.toOk.worker_moves hmay hw (hstep.trans (by rw [ThreadPool.workerStep, hpc])) rfl ?_
      simp [workerRank, hne, hpc]
    | lock | test | commit | blocked | woken =>
      rw [hpc] at hspin
      cases hspin
    | check | call | running | record | count | exited =>
      rw [hpc] at hbehind
      cases hbehind

/-- **Until the result is there, some thread can go on.** -/
theorem Live.progress (limit : Int) (hn : 0 < R.n) (hfit : R.n + s.pool.numThreads < 2 ^ 63) (h : Live R unit s)
    (hresult : s.result = none) :
    Progress R limit s := by
  by_cases hbody : serving s.pool 0 = true ∧ s.frames 0 ≠ .returned
  · obtain ⟨s', hs', -, hlower⟩ := h.toOk.body_progress limit hn hfit hbody.1 hbody.2
    exact ⟨.body 0, s', rfl, hs', .inr hlower⟩
  have hmay : mayStep s (.caller none) = true := mayStep_caller fun hs => by
    by_contra hne
    exact hbody ⟨hs, hne⟩
  have hcaller : ∀ p, ThreadPool.callerStep s.pool none = some p → callerRank { s with pool := p } < callerRank s →
      Progress R limit s := fun p hp hlt => h.toOk.pool_progress hmay hp rfl (.inl hlt)
  cases hk : s.pool.caller with
  | idle =>
    by_cases hcall : s.call < s.pool.current
    · -- the call has returned, and no thread has thrown
      obtain ⟨out, hout⟩ : ∃ out, s.pool.results[s.call]? = some out := ⟨_, List.getElem?_eq_getElem hcall⟩
      have hnone : out = none := by
        cases out with
        | none => rfl
        | some e =>
          obtain ⟨tid, hthrew⟩ := h.pool.rethrown s.call _ hout
          cases (h.left _ hthrew rfl).2
      refine ⟨.merge, { s with result := some (R.merge s.partials) }, rfl, ?_, .inl rfl⟩
      rw [ParallelReduce.step, if_neg (by simp [h.defined]), hresult, hout, hnone]
    · have hmay' : mayStep s .parallelFor = true := by
        have := h.called
        simp only [mayStep, hresult, Option.isNone_none, Bool.true_and, beq_iff_eq]
        omega
      by_cases hsolo : s.pool.numThreads ≤ 1
      · refine h.toOk.pool_progress hmay' (by simp only [ThreadPool.step, hk, if_pos hsolo]; rfl) rfl (.inl ?_)
        simp [callerRank, hk, hcall]
      · refine h.toOk.pool_progress hmay' (by simp only [ThreadPool.step, hk, if_neg hsolo]; rfl) rfl (.inl ?_)
        simp [callerRank, hk, hcall]
  | waiting =>
    by_cases hdone : s.pool.doneCount < s.pool.numThreads - 1
    · have hphase : s.pool.caller.phase = .task := by rw [hk]; rfl
      have hcount : s.pool.workers.countP s.pool.finished < s.pool.workers.length := by
        have := h.pool.finished hphase
        exact lt_of_eq_of_lt this.symm hdone
      obtain ⟨w, hw, hrest⟩ : ∃ w ∈ s.pool.workers, s.pool.finished w = false := by
        by_contra hcon
        push Not at hcon
        have hall : s.pool.workers.countP s.pool.finished = s.pool.workers.length :=
          List.countP_eq_length.2 fun w hw => by simpa using hcon w hw
        omega
      obtain ⟨i, hi⟩ := List.getElem?_of_mem hw
      exact h.worker_progress hn hfit hphase hi hrest
    · exact hcaller _ (by simp only [ThreadPool.callerStep, hk, if_neg hdone]; rfl) (by simp [callerRank, hk])
  | collecting | solo =>
    refine hcaller _ (by simp only [ThreadPool.callerStep, hk]; rfl) ?_
    have := h.called
    simp only [ThreadPool.State.current] at this
    simp [callerRank, hk, ThreadPool.State.current]
    split <;> omega
  | running =>
    refine hcaller _ (by simp only [ThreadPool.callerStep, hk]; rfl) ?_
    simp [callerRank, hk]
  | slot | cleared | zeroed | bumped | notified | recording =>
    refine hcaller _ (by simp only [ThreadPool.callerStep, hk]; rfl) ?_
    simp [callerRank, hk]
  | closing => exact absurd hk h.inside.2
  | flagged | announced | joining | destroyed =>
    have := h.inside.1
    rw [hk] at this
    cases this

theorem CanReturn.cons {a : Step E} (ha : a.spurious = false) (hs : step R limit s a = some s')
    (h : CanReturn R limit s') :
    CanReturn R limit s := by
  obtain ⟨as, t, hall, hexec, ht⟩ := h
  refine ⟨a :: as, t, fun b hb => ?_, exec_cons.2 ⟨s', hs, hexec⟩, ht⟩
  rcases List.mem_cons.1 hb with rfl | hb
  · exact ha
  · exact hall b hb

/-- **The call returns**: steps that lower the rank lead to the result. -/
theorem Live.canReturn (hR : Lawful R unit) (hn : 0 < R.n) (s : State T E) (hspin : s.pool.numThreads ≤ 1 ∨ limit ≤ 0)
    (hfit : R.n + s.pool.numThreads < 2 ^ 63) (h : Live R unit s) : CanReturn R limit s := by
  cases hresult : s.result with
  | some v => exact ⟨[], s, fun a ha => (by cases ha), rfl, by rw [hresult]; rfl⟩
  | none =>
    obtain ⟨a, s', ha, hs, hnext⟩ := h.progress limit hn hfit hresult
    rcases hnext with hdone | hlower
    · exact .cons ha hs ⟨[], s', fun a ha => (by cases ha), rfl, hdone⟩
    · obtain ⟨h', hnum, -⟩ := live_step hR hn hfit hspin h hs
      exact .cons ha hs (h'.canReturn hR hn s' (by rw [hnum]; exact hspin) (by rw [hnum]; exact hfit))
termination_by (callerRank s, threadRank R s)
decreasing_by exact Prod.lex_def.2 hlower

/-- Every state of a reduction that neither overflows nor meets a sleeping worker. -/
theorem live_exec (hR : Lawful R unit) (hn : 0 < R.n) : ∀ {as : List (Step E)} {s : State T E},
    (s.pool.numThreads ≤ 1 ∨ limit ≤ 0) → R.n + s.pool.numThreads < 2 ^ 63 → Live R unit s →
    exec (step R limit) s as = some s' → Live R unit s' ∧ s'.pool.numThreads = s.pool.numThreads
  | [], _, _, _, h, hexec => by
    cases hexec
    exact ⟨h, rfl⟩
  | a :: as, _, hspin, hfit, h, hexec => by
    obtain ⟨t, ht, hexec⟩ := exec_cons.1 hexec
    obtain ⟨h', hnum, -⟩ := live_step hR hn hfit hspin h ht
    obtain ⟨h'', hnum'⟩ := live_exec hR hn (by rw [hnum]; exact hspin) (by rw [hnum]; exact hfit) h' hexec
    exact ⟨h'', hnum'.trans hnum⟩

/-! ## A sleeping worker -/

/-- The caller waits for a worker that sleeps. -/
structure Stuck (s : State T E) : Prop where
  control : ThreadPool.Control s.pool
  waiting : s.pool.caller = .waiting
  current : s.pool.current ≤ s.call
  result : s.result = none
  asleep : ∃ (i : Nat) (w : Worker E), s.pool.workers[i]? = some w ∧ w.pc = .blocked ∧ w.myGen ≠ s.pool.generation

theorem stuck_step {a : Step E} (h : Stuck s) (ha : a.spurious = false) (hs : step R limit s a = some s') :
    Stuck s' := by
  obtain ⟨i, w, hw, hblocked, hgen⟩ := h.asleep
  unfold ParallelReduce.step at hs
  rw [Option.ite_none_left_eq_some] at hs
  obtain ⟨-, hs⟩ := hs
  cases a with
  | body tid =>
    simp only [Option.ite_none_right_eq_some] at hs
    obtain ⟨hpool, hcall, hresult⟩ := bodyStep_frame hs.2
    exact ⟨hpool ▸ h.control, hpool ▸ h.waiting, hpool ▸ hcall ▸ h.current, hresult.trans h.result, hpool ▸ h.asleep⟩
  | merge =>
    rw [h.result, List.getElem?_eq_none h.current] at hs
    cases hs
  | pool a =>
    simp only [Option.ite_none_right_eq_some] at hs
    cases hp : ThreadPool.step limit s.pool a with
    | none => rw [hp] at hs; cases hs.2
    | some p =>
      rw [hp] at hs
      cases hs.2
      have hcontrol := h.control.step hp
      cases a with
      | spurious j => cases ha
      | parallelFor | destroy =>
        simp only [ThreadPool.step, h.waiting] at hp
        cases hp
      | caller exn =>
        -- the sleeper has not been counted
        have hcount : s.pool.doneCount < s.pool.numThreads - 1 := by
          have hphase : s.pool.caller.phase = .task := by rw [h.waiting]; rfl
          have hfinished := h.control.finished hphase
          have hlt : s.pool.workers.countP s.pool.finished < s.pool.workers.length := by
            refine lt_of_le_of_ne List.countP_le_length fun heq => ?_
            have := List.countP_eq_length.1 heq w (List.mem_of_getElem? hw)
            simp [ThreadPool.State.finished, hgen] at this
          exact lt_of_eq_of_lt hfinished hlt
        simp only [ThreadPool.step, ThreadPool.callerStep, h.waiting, if_pos hcount] at hp
        cases hp
        exact ⟨h.control, h.waiting, h.current, h.result, h.asleep⟩
      | worker j exn =>
        obtain ⟨hcaller, hgen', hresults, -, hothers⟩ := worker_frame hp
        have hne : i ≠ j := by
          rintro rfl
          simp only [ThreadPool.step, hw, ThreadPool.workerStep, hblocked] at hp
          cases hp
        refine ⟨hcontrol, hcaller.trans h.waiting, ?_, h.result, i, w, (hothers i hne).trans hw, hblocked, ?_⟩
        · exact (congrArg List.length hresults).trans_le h.current
        · exact fun heq => hgen (heq.trans hgen')

theorem Stuck.not_canReturn (h : Stuck s) : ¬CanReturn R limit s := by
  rintro ⟨as, s', hall, hexec, hresult⟩
  have hend : ∀ (as : List (Step E)) {s : State T E}, Stuck s → (∀ a ∈ as, a.spurious = false) →
      exec (ParallelReduce.step R limit) s as = some s' → Stuck s' := by
    intro as
    induction as with
    | nil =>
      intro s h _ hexec
      cases hexec
      exact h
    | cons a as ih =>
      intro s h hall hexec
      obtain ⟨t, ht, hexec⟩ := exec_cons.1 hexec
      exact ih (stuck_step h (hall a List.mem_cons_self) ht) (fun b hb => hall b (List.mem_cons_of_mem _ hb)) hexec
  rw [(hend as h hall hexec).result] at hresult
  cases hresult

/-! ## Runs that go wrong -/

theorem ok_exec (hR : Lawful R unit) (hn : 0 < R.n) : ∀ {as : List (Step E)} {s : State T E},
    R.n + s.pool.numThreads < 2 ^ 63 → Ok R unit s → exec (step R limit) s as = some s' → Ok R unit s'
  | [], _, _, h, hexec => by
    cases hexec
    exact h
  | a :: as, s, hfit, h, hexec => by
    obtain ⟨t, ht, hexec⟩ := exec_cons.1 hexec
    have hnum := numThreads_step ht
    exact ok_exec hR hn (by rw [hnum]; exact hfit) (ok_step hR hn hfit h ht) hexec

/-- The invocation of a thread runs to its end. -/
theorem run_body (limit : Int) (hR : Lawful R unit) (hn : 0 < R.n) (s : State T E)
    (hfit : R.n + s.pool.numThreads < 2 ^ 63) (h : Ok R unit s)
    {tid : Nat} (hserving : serving s.pool tid = true) :
    ∃ as s', exec (step R limit) s as = some s' ∧ s'.pool = s.pool ∧ s'.call = s.call ∧ s'.result = s.result ∧
      s'.frames tid = .returned ∧ Ok R unit s' := by
  by_cases hf : s.frames tid = .returned
  · exact ⟨[], s, rfl, rfl, rfl, rfl, hf, h⟩
  · obtain ⟨t, ht, hlower, -⟩ := h.body_progress limit hn hfit hserving hf
    obtain ⟨hok, hpool, hcall⟩ := h.body_step hR hn hfit ht
    have hresult : t.result = s.result := by
      rw [ParallelReduce.step, if_neg (by simp [h.defined]), if_pos hserving] at ht
      exact (bodyStep_frame ht).2.2
    obtain ⟨as, s', hexec, hpool', hcall', hresult', hf', hok'⟩ :=
      run_body limit hR hn t (by rw [hpool]; exact hfit) hok (by rw [hpool]; exact hserving)
    exact ⟨.body tid :: as, s', exec_cons.2 ⟨t, ht, hexec⟩, hpool'.trans hpool, hcall'.trans hcall,
      hresult'.trans hresult,
      hf', hok'⟩
termination_by frameRank R (s.frames tid)
decreasing_by exact hlower

/-- Workers may take their steps before the call. -/
theorem lift_workers : ∀ {as : List (Act E)} {p p' : ThreadPool.State E} {s : State T E},
    (∀ a ∈ as, ∃ i exn, a = .worker i exn) → ThreadPool.Control p → p.caller = .idle →
    exec (ThreadPool.step limit) p as = some p' → s.overflowed = false →
    exec (step R limit) { s with pool := p } (as.map .pool) = some { s with pool := p' }
  | [], _, _, _, _, _, _, hexec, _ => by
    cases hexec
    rfl
  | a :: as, p, p', s, hall, hp, hidle, hexec, hdefined => by
    obtain ⟨i, exn, rfl⟩ := hall a List.mem_cons_self
    obtain ⟨q, hq, hexec⟩ := exec_cons.1 hexec
    refine exec_cons.2 ⟨{ s with pool := q }, ?_, ?_⟩
    · refine step_pool (s := { s with pool := p }) hdefined ?_ hq
      have hleaves : leaves p (.worker i exn) = none := by rw [leaves, not_serving hp hidle]; rfl
      simp only [mayStep, hleaves]
    · exact lift_workers (fun b hb => hall b (List.mem_cons_of_mem _ hb)) (hp.step hq)
        ((worker_frame hq).1.trans hidle) hexec hdefined

theorem caller_moves {p p' : ThreadPool.State E} (hdefined : s.overflowed = false) (hserving : serving p 0 = false)
    (hp : ThreadPool.callerStep p none = some p') :
    step R limit { s with pool := p } (.pool (.caller none)) = some { s with pool := p' } :=
  step_pool (s := { s with pool := p }) hdefined (mayStep_caller fun h =>
    absurd (hserving.symm.trans h) Bool.false_ne_true) hp

/-- The caller gets inside `f`. -/
theorem opens (R : Reduce T) (limit : Int) (hdefined : s.overflowed = false) (hresult : s.result = none)
    (hcall : s.pool.current = s.call)
    (hidle : s.pool.caller = .idle) :
    ∃ as p, exec (step R limit) s as = some { s with pool := p } ∧ serving p 0 = true ∧
      p.numThreads = s.pool.numThreads := by
  have hmay : mayStep s .parallelFor = true := by simp [mayStep, hresult, hcall]
  by_cases hsolo : s.pool.numThreads ≤ 1
  · have hp : ThreadPool.step limit s.pool .parallelFor =
        some { s.pool with caller := .solo, begun := ⟨s.pool.current, 0⟩ :: s.pool.begun } := by
      simp only [ThreadPool.step, hidle, if_pos hsolo]
    exact ⟨[.pool .parallelFor], _, exec_cons.2 ⟨_, step_pool hdefined hmay hp, rfl⟩, rfl, rfl⟩
  · have hp : ThreadPool.step limit s.pool .parallelFor = some
      { s.pool with caller := .slot, task := s.pool.current } := by
      simp only [ThreadPool.step, hidle, if_neg hsolo]
    refine ⟨.pool .parallelFor :: List.replicate 5 (.pool (.caller none)), _,
      exec_cons.2 ⟨_, step_pool hdefined hmay hp,
      exec_cons.2 ⟨_, caller_moves hdefined rfl rfl, exec_cons.2 ⟨_, caller_moves hdefined rfl rfl,
      exec_cons.2 ⟨_, caller_moves hdefined rfl rfl, exec_cons.2 ⟨_, caller_moves hdefined rfl rfl,
      exec_cons.2 ⟨_, caller_moves hdefined rfl rfl, rfl⟩⟩⟩⟩⟩⟩, rfl, ?_⟩
    simp [ThreadPool.State.numThreads]

/-- The sum at the start of a slice overflows in the first thread. -/
theorem overflows (R : Reduce T) (limit : Int) (hdefined : s.overflowed = false) (hresult : s.result = none)
    (hcall : s.pool.current = s.call)
    (hidle : s.pool.caller = .idle) (hentered : s.frames 0 = .entered) (hfit : 2 ^ 63 ≤ R.n + s.pool.numThreads) :
    ∃ as s', exec (step R limit) s as = some s' ∧ s'.overflowed = true := by
  obtain ⟨as, p, hexec, hserving, hnum⟩ := opens R limit hdefined hresult hcall hidle
  refine ⟨as ++ [.body 0], { s with pool := p, overflowed := true },
    exec_append.2 ⟨_, hexec, exec_cons.2 ⟨_, ?_, rfl⟩⟩, rfl⟩
  have hslice : R.slice (0 : Nat) p.numThreads = none := slice_overflow (by rw [hnum]; exact hfit)
  rw [ParallelReduce.step, if_neg (by simp [hdefined]), if_pos hserving, bodyStep, hentered]
  dsimp only
  rw [hslice]

/-- The worker evaluates the predicate before the call and goes to sleep after it. -/
theorem commit_to_sleep (R : Reduce T) (limit : Int) {s : State T E} (rest : List (Worker E)) (k : Nat)
    (hdefined : s.overflowed = false)
    (hresult : s.result = none) (hcall : s.call = 0) :
    ∃ as p, exec (step R limit) { s with pool := { workers := ⟨.commit, 0, k⟩ :: rest, idleMutex := some 0 } } as =
        some { s with pool := p } ∧
      p.caller = .running ∧ p.current = 0 ∧ p.numThreads = rest.length + 2 ∧
      p.workers[0]? = some ⟨.blocked, 0, k⟩ ∧ p.generation = 1 := by
  have hmay : mayStep { s with pool :=
    ({ workers := ⟨.commit, 0, k⟩ :: rest, idleMutex := some 0 } : ThreadPool.State E) }
      .parallelFor = true := by
    simp [mayStep, hresult, hcall, ThreadPool.State.current]
  have hp : ThreadPool.step limit ({ workers := ⟨.commit, 0, k⟩ :: rest, idleMutex := some 0 } :
    ThreadPool.State E) .parallelFor =
      some { workers := ⟨.commit, 0, k⟩ :: rest, idleMutex := some 0, caller := .slot } := by
    simp only [ThreadPool.step, ThreadPool.State.numThreads, List.length_cons]
    rfl
  refine ⟨[.pool .parallelFor, .pool (.caller none), .pool (.caller none), .pool (.caller none), .pool (.caller none),
    .pool (.worker 0 none), .pool (.caller none)], _, exec_cons.2
      ⟨_, step_pool (s := { s with pool := _ }) hdefined hmay hp,
    exec_cons.2 ⟨_, caller_moves hdefined rfl rfl, exec_cons.2 ⟨_, caller_moves hdefined rfl rfl,
    exec_cons.2 ⟨_, caller_moves hdefined rfl rfl, exec_cons.2 ⟨_, caller_moves hdefined rfl rfl,
    exec_cons.2 ⟨_, step_pool (s := { s with pool := _ }) hdefined rfl rfl,
    exec_cons.2 ⟨_, caller_moves hdefined rfl rfl, rfl⟩⟩⟩⟩⟩⟩⟩, rfl, rfl, ?_, rfl, rfl⟩
  simp [ThreadPool.State.numThreads, ThreadPool.State.setWorker]

theorem init_numThreads (E : Type) (k : Int) : (ThreadPool.init k : ThreadPool.State E).numThreads = max 1 k.toNat := by
  simp only [ThreadPool.State.numThreads, ThreadPool.init, List.length_replicate]
  omega

/-- **A worker sleeps through the call**, in every pool that has a worker and lets it sleep. -/
theorem stuck_reachable (hR : Lawful R unit) (hn : 0 < R.n) {k : Int} (hk : 1 < k) (hlimit : 0 < limit)
    (hfit : R.n + max 1 k < 2 ^ 63) :
    ∃ as s', exec (step R limit) (enter R (ThreadPool.init k) : State T E) as = some s' ∧ Stuck s' := by
  obtain ⟨r, hr⟩ : ∃ r, k.toNat - 1 = r + 1 := ⟨k.toNat - 2, by omega⟩
  obtain ⟨m, hm⟩ : ∃ m : Nat, limit = m + 1 + (0 : Nat) := ⟨limit.toNat - 1, by omega⟩
  have hinit : (ThreadPool.init k : ThreadPool.State E) = { workers := ⟨.spin, 0, 0⟩ :: List.replicate r {} } := by
    rw [ThreadPool.init, hr]
    rfl
  have hresult : (enter R (ThreadPool.init k) : State T E).result = none := if_neg (by omega)
  have hok : Ok R unit (enter R (ThreadPool.init k) : State T E) := .enter (ThreadPool.Thrown.init k) rfl hn
  have hnum : R.n + (enter R (ThreadPool.init k) : State T E).pool.numThreads < 2 ^ 63 := by
    have := init_numThreads E k
    show R.n + (ThreadPool.init k : ThreadPool.State E).numThreads < 2 ^ 63
    omega
  -- the first worker gets to the predicate and evaluates it
  have hspin : exec (ThreadPool.step limit) ({ workers := ⟨.spin, 0, 0⟩ :: List.replicate r {} } : ThreadPool.State E)
      (List.replicate (m + 1) (.worker 0 none) ++ [.worker 0 none, .worker 0 none]) =
        some { workers := ⟨.commit, 0, m + 1 + 0⟩ :: List.replicate r {}, idleMutex := some 0 } :=
          ThreadPool.spin_to_commit hm
  have hworkers : ∀ a ∈ List.replicate (m + 1) (Act.worker 0 none : Act E) ++ [.worker 0 none, .worker 0 none],
      ∃ i exn, a = .worker i exn := by
    intro a ha
    refine ⟨0, none, ?_⟩
    simp only [List.mem_append, List.mem_replicate, List.mem_cons, List.not_mem_nil, or_false] at ha
    rcases ha with ha | ha | ha
    · exact ha.2
    · exact ha
    · exact ha
  rw [← hinit] at hspin
  have hlift := lift_workers (R := R) (s := enter R (ThreadPool.init k)) hworkers (ThreadPool.Control.init k)
    rfl hspin rfl
  -- the call is made, and the worker goes to sleep
  obtain ⟨as, p, hsleep, hcaller, hcurrent, hlen, hworker, hgen⟩ :=
    commit_to_sleep R limit (s := enter R (ThreadPool.init k)) (List.replicate r {}) (m + 1 + 0) rfl hresult rfl
  have hexec := exec_append.2 ⟨_, hlift, hsleep⟩
  have hok' := ok_exec hR hn hnum hok hexec
  have hnum' : R.n + p.numThreads < 2 ^ 63 := by
    rw [hlen, List.length_replicate]
    omega
  have hserving : serving p 0 = true := by rw [serving, hcaller]
  -- the caller's own invocation returns
  obtain ⟨bs, t, hbody, hpool, hcall, hresult', hreturned, hokt⟩ := run_body limit hR hn _ hnum' hok' hserving
  have hwait : ThreadPool.step limit t.pool (.caller none) = some { p with
      caller := .waiting, ended := ⟨⟨p.current, 0⟩, none⟩ :: p.ended } := by
    rw [hpool]
    simp only [ThreadPool.step, ThreadPool.callerStep, hcaller]
  have hlast := step_pool (R := R) hokt.defined (mayStep_caller fun _ => hreturned) hwait
  refine ⟨_ ++ (bs ++ [.pool (.caller none)]), _,
    exec_append.2 ⟨_, hexec, exec_append.2 ⟨_, hbody, exec_cons.2 ⟨_, hlast, rfl⟩⟩⟩, ?_⟩
  refine ⟨hokt.pool.toControl.step hwait, rfl, ?_, hresult'.trans hresult, 0, _, hworker, rfl, ?_⟩
  · show p.current ≤ t.call
    rw [hcurrent]
    exact Nat.zero_le _
  · show (0 : ThreadPool.Gen) ≠ p.generation
    rw [hgen]
    decide

/-! ## Main result -/

/-- The sum of the indices. -/
def sumOf (n : Int) : Reduce Int := { n, identity := 0, fold := fun acc i => acc + i, combine := fun acc part => acc + part }

theorem sumOf_lawful (n : Int) : Lawful (sumOf n) (fun i => i) where
  fold_eq _ _ := rfl
  assoc := Int.add_assoc
  identity_combine := Int.zero_add
  combine_identity := Int.add_zero

end SynnoDB.ParallelReduce
