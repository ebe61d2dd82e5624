import SynnoDB.Template.ThreadPoolRuns

/-!
# Wake-ups of the thread pool (`thread_pool.hpp:84-203`)

The bump of `generation` and `notify_all` happen **without `idle_mutex`**, so both may fall between a worker's test
of the predicate and its going to sleep; the caller then waits for a worker that nobody wakes. `Caught` is the
condition on a step under which this does not happen, `not_lost_iff` says for which pools it cannot.
-/

namespace SynnoDB.ThreadPool

open Trace

variable {Exn : Type} {s s' : State Exn} {i : Nat} {w w' : Worker Exn}

/-- The caller waits for a worker that sleeps and is not told. -/
def State.Lost (s : State Exn) : Prop :=
  (s.caller = .waiting ∨ ∃ i, s.caller = .joining i) ∧ ∃ w ∈ s.workers, w.pc = .blocked ∧ w.myGen ≠ s.generation

/-- `notify_all` is not called while a worker stands between the test of a stale generation and its going to sleep. -/
def Caught (s : State Exn) : Act Exn → Prop
  | .caller _ => s.caller = .bumped ∨ s.caller = .announced → ∀ w ∈ s.workers, w.pc = .commit → w.myGen = s.generation
  | _ => True

/-- The caller is past `notify_all`. -/
def Caller.told : Caller Exn → Bool
  | .bumped | .announced => false
  | k => k.phase != .quiet

/-- Once told, no worker that is behind sleeps or is about to. -/
structure Woken (s : State Exn) : Prop extends Control s where
  awake : s.caller.told = true → ∀ w ∈ s.workers, w.myGen ≠ s.generation → w.pc ≠ .commit ∧ w.pc ≠ .blocked

theorem Woken.not_lost (hs : Woken s) : ¬ s.Lost := by
  rintro ⟨hk, w, hw, hb, hne⟩
  refine (hs.awake ?_ w hw hne).2 hb
  rcases hk with hk | ⟨i, hk⟩ <;> rw [hk] <;> rfl

theorem Woken.worker_step {limit : Int} {exn : Option Exn} (hs : Woken s) (hw : s.workers[i]? = some w)
    (h : workerStep limit s i w exn = some s') : Woken s' := by
  refine ⟨hs.toControl.worker_step hw h, ?_⟩
  have hmem := List.mem_of_getElem? hw
  have hawake := hs.awake
  cases hpc : w.pc <;> simp only [workerStep, hpc] at h <;> (repeat' split at h) <;>
    first
      | (cases h; done)
      | (cases h; exact hawake)
      | (cases h
         intro hk v hv hne
         rcases List.mem_or_eq_of_mem_set hv with hv | rfl
         · exact hawake hk v hv hne
         · simp_all [State.setWorker])

theorem Woken.caller_step {exn : Option Exn} (hs : Woken s) (hok : Caught s (.caller exn))
    (h : callerStep s exn = some s') :
    Woken s' := by
  refine ⟨hs.toControl.caller_step h, ?_⟩
  have hawake := hs.awake
  cases hk : s.caller with
  | idle | destroyed => simp [callerStep, hk] at h
  | bumped | announced =>
    simp only [callerStep, hk, Option.some.injEq] at h
    subst h
    rintro - v hv hne
    obtain ⟨w, hw, rfl⟩ := List.mem_map.1 hv
    have hcommit := hok (by simp [hk]) w hw
    simp only [Worker.wake_myGen, State.notifyAll_generation] at hne
    unfold Worker.wake
    split
    · simp
    · rename_i hb
      exact ⟨fun h => hne (hcommit h), hb⟩
  | _ =>
    simp only [callerStep, hk] at h
    (repeat' split at h) <;> simp at h <;> subst h <;>
      simp_all [Caller.told, Caller.phase, State.recordException]

theorem Woken.step {limit : Int} {a : Act Exn} (hs : Woken s) (hok : Caught s a) (h : step limit s a = some s') :
    Woken s' := by
  have hc := hs.toControl.step h
  cases a with
  | caller exn => exact hs.caller_step hok h
  | worker i exn =>
    simp only [ThreadPool.step] at h
    split at h
    · rename_i w hw
      exact hs.worker_step hw h
    · cases h
  | spurious i =>
    simp only [ThreadPool.step] at h
    split at h
    · split at h
      · cases h
        refine ⟨hc, fun hk v hv hne => ?_⟩
        rcases List.mem_or_eq_of_mem_set hv with hv | rfl
        · exact hs.awake hk v hv hne
        · simp
      · cases h
    · cases h
  | parallelFor | destroy =>
    simp only [ThreadPool.step] at h
    (repeat' split at h) <;> simp at h <;> subst h <;> exact ⟨hc, by simp [Caller.told, Caller.phase]⟩

/-- A worker of a pool that only spins. -/
def Pc.spinning : Pc Exn → Bool
  | .lock | .test | .commit | .blocked | .woken => false
  | _ => true

theorem wake_spinning (h : w.pc.spinning = true) : w.wake.pc.spinning = true := by
  unfold Worker.wake
  split
  · rename_i hb
    simp [hb, Pc.spinning] at h
  · exact h

theorem spinning_step {limit : Int} {a : Act Exn} (hlimit : limit ≤ 0) (hs : ∀ w ∈ s.workers, w.pc.spinning = true)
    (h : step limit s a = some s') : ∀ w ∈ s'.workers, w.pc.spinning = true := by
  have hset : ∀ (i : Nat) (w : Worker Exn), w.pc.spinning = true → ∀ v ∈ s.workers.set i w, v.pc.spinning = true := by
    intro i w hw v hv
    rcases List.mem_or_eq_of_mem_set hv with hv | rfl
    · exact hs v hv
    · exact hw
  cases a with
  | worker i exn =>
    simp only [ThreadPool.step] at h
    split at h
    · rename_i w hw
      have hspin := hs w (List.mem_of_getElem? hw)
      cases hpc : w.pc <;> simp only [workerStep, hpc] at h <;> (repeat' split at h) <;>
        first
          | (cases h; done)
          | (simp [hpc, Pc.spinning] at hspin; done)
          | omega
          | (cases h; exact hs)
          | (cases h; exact hset i _ rfl)
    · cases h
  | caller exn =>
    simp only [ThreadPool.step] at h
    cases hk : s.caller <;> simp only [callerStep, hk] at h <;> (repeat' split at h) <;> simp at h <;> subst h <;>
      first
        | exact hs
        | (intro v hv
           obtain ⟨w, hw, rfl⟩ := List.mem_map.1 hv
           exact wake_spinning (hs w hw))
  | spurious i =>
    simp only [ThreadPool.step] at h
    split at h
    · rename_i w hw
      split at h
      · rename_i hb
        have := hs w (List.mem_of_getElem? hw)
        simp [hb, Pc.spinning] at this
      · cases h
    · cases h
  | parallelFor | destroy =>
    simp only [ThreadPool.step] at h
    (repeat' split at h) <;> simp at h <;> subst h <;> exact hs

/-! ## A wake-up that is lost -/

/-- The first worker spins, up to the limit. -/
theorem spin_step {limit : Int} {rest : List (Worker Exn)} {k : Nat} (h : 0 < limit) :
    step limit ({ workers := ⟨.spin, 0, k⟩ :: rest } : State Exn) (.worker 0 none) =
      some { workers := ⟨if limit ≤ (k : Int) + 1 then .lock else .spin, 0, k + 1⟩ :: rest } := by
  change workerStep limit ({ workers := ⟨.spin, 0, k⟩ :: rest } : State Exn) 0 ⟨.spin, 0, k⟩ none = _
  simp only [workerStep, if_true, if_pos h]
  split <;> rfl

theorem spin_to_commit {limit : Int} {rest : List (Worker Exn)} :
    ∀ {m k : Nat}, limit = m + 1 + k →
      exec (step limit) ({ workers := ⟨.spin, 0, k⟩ :: rest } : State Exn)
        (List.replicate (m + 1) (.worker 0 none) ++ [.worker 0 none, .worker 0 none]) =
      some { workers := ⟨.commit, 0, m + 1 + k⟩ :: rest, idleMutex := some 0 }
  | 0, k, h => by
    have h1 : 0 < limit := by omega
    have h2 : limit ≤ (k : Int) + 1 := by omega
    rw [List.replicate_succ, List.cons_append, exec, spin_step h1, if_pos h2, Nat.add_comm 0 1, Nat.add_comm 1 k]
    rfl
  | m + 1, k, h => by
    have h1 : 0 < limit := by omega
    have h2 : ¬ limit ≤ (k : Int) + 1 := by omega
    rw [List.replicate_succ, List.cons_append, exec, spin_step h1, if_neg h2,
      show m + 1 + 1 + k = m + 1 + (k + 1) by omega]
    exact spin_to_commit (by omega)

/-- The call is made and announced before the worker is asleep. -/
theorem commit_to_lost {limit : Int} {rest : List (Worker Exn)} {k : Nat} :
    ∃ as s, exec (step limit) ({ workers := ⟨.commit, 0, k⟩ :: rest, idleMutex := some 0 } : State Exn) as = some s ∧
      s.Lost := by
  refine ⟨[.parallelFor, .caller none, .caller none, .caller none, .caller none, .worker 0 none, .caller none,
    .caller none],
    { workers := ⟨.blocked, 0, k⟩ :: rest.map Worker.wake, caller := .waiting, generation := 1,
      begun := [⟨0, 0⟩], ended := [⟨⟨0, 0⟩, none⟩] }, ?_, ?_⟩
  · simp only [exec, step, State.numThreads, List.length_cons, callerStep]
    rfl
  · exact ⟨.inl rfl, _, List.mem_cons_self, rfl, (by decide : (0 : Gen) ≠ 1)⟩

/-- **Where a wake-up can be lost**: in every pool that has a worker and lets it sleep. -/
theorem lost_reachable {n limit : Int} (hn : 1 < n) (hl : 0 < limit) :
    ∃ as s, exec (step limit) (init n : State Exn) as = some s ∧ s.Lost := by
  obtain ⟨r, hr⟩ : ∃ r, n.toNat - 1 = r + 1 := ⟨n.toNat - 2, by omega⟩
  obtain ⟨m, hm⟩ : ∃ m : Nat, limit = m + 1 + (0 : Nat) := ⟨limit.toNat - 1, by omega⟩
  have h0 : (init n : State Exn) = { workers := ⟨.spin, 0, 0⟩ :: List.replicate r {} } := by
    rw [init, hr]
    rfl
  obtain ⟨as, s, has, hlost⟩ : ∃ as s, exec (step limit)
    ({ workers := (⟨.commit, 0, m + 1 + 0⟩ : Worker Exn) :: List.replicate r {}, idleMutex := some 0 } :
      State Exn) as = some s ∧
      s.Lost := commit_to_lost
  exact ⟨_, s, exec_append.2 ⟨_, h0 ▸ spin_to_commit hm, has⟩, hlost⟩

/-! ## The runs of a pool -/

theorem step_length {limit : Int} {a : Act Exn} (h : step limit s a = some s') :
    s'.workers.length = s.workers.length := by
  cases a with
  | worker i exn =>
    simp only [step] at h
    split at h
    · rename_i w hw
      cases hpc : w.pc <;> simp only [workerStep, hpc] at h <;> (repeat' split at h) <;>
        first
          | (cases h; done)
          | (cases h; simp [State.setWorker, State.recordException])
    · cases h
  | caller exn =>
    simp only [step] at h
    cases hk : s.caller <;> simp only [callerStep, hk] at h <;> (repeat' split at h) <;> simp at h <;> subst h <;>
      simp [State.recordException]
  | _ =>
    simp only [step] at h
    (repeat' split at h) <;> simp at h <;> subst h <;> simp [State.setWorker]

/-- `num_threads` of every state of a run. -/
theorem run_numThreads {n limit : Int} {as : List (Act Exn)} (h : exec (step limit) (init n) as = some s) :
    s.numThreads = max 1 n.toNat := by
  have hlen : s.workers.length = n.toNat - 1 :=
    reach_invariant (I := fun s : State Exn => s.workers.length = n.toNat - 1)
      (fun s a s' hi hs => (step_length hs).trans hi) (by simp [init]) ⟨as, h⟩
  simp only [State.numThreads, hlen]
  omega

/-- Of every call that has returned: each of the `n` threads ran its `f` once, and it rethrew one of the exceptions
thrown if there were any. Where the next call bumps the generation, none is recorded. -/
def State.Served (s : State Exn) (n : Nat) : Prop :=
  (∀ c < s.results.length, ∀ tid, s.begun.count ⟨c, tid⟩ = (if tid < n then 1 else 0) ∧
    (s.ended.map Ending.run).count ⟨c, tid⟩ = if tid < n then 1 else 0) ∧
  (∀ c out, s.results[c]? = some out → s.Rethrown c out) ∧
  (s.caller = .zeroed → s.firstException = none)

theorem Thrown.served (hs : Thrown s) : s.Served s.numThreads := by
  refine ⟨fun c hc tid => ⟨?_, ?_⟩, hs.rethrown, fun h => hs.fresh (.inr h)⟩
  · exact (hs.begun _).trans (if_pos hc)
  · exact (hs.ended _).trans (if_pos hc)

theorem not_lost_iff (n limit : Int) :
    (∀ as s, exec (step limit) (init n : State Exn) as = some s → ¬ s.Lost) ↔ n ≤ 1 ∨ limit ≤ 0 := by
  constructor
  · intro h
    by_contra hcon
    have hn : 1 < n := by omega
    have hl : 0 < limit := by omega
    obtain ⟨as, s, has, hlost⟩ := lost_reachable hn hl
    exact h as s has hlost
  · rintro h as s has ⟨-, w, hw, hb, -⟩
    rcases h with h | h
    · have := run_numThreads has
      have := List.length_pos_of_mem hw
      simp only [State.numThreads] at *
      omega
    · have hspin : ∀ w ∈ s.workers, w.pc.spinning = true := by
        refine reach_invariant (I := fun s : State Exn => ∀ w ∈ s.workers, w.pc.spinning = true)
          (fun s a s' hi hs => spinning_step h hi hs) ?_ ⟨as, has⟩
        intro w hw
        obtain rfl := List.eq_of_mem_replicate hw
        rfl
      simpa [hb, Pc.spinning] using hspin w hw

/-- **The pool in every interleaving**: each call is served, and no wake-up is lost in a run that meets `Caught`;
the pools in which none can be lost are those without a worker and those that only spin. -/
theorem run_verdict (n limit : Int) :
    (∀ as s, exec (step limit) (init n : State Exn) as = some s →
      s.Served (max 1 n.toNat) ∧ (Meets (step limit) Caught (init n) as → ¬ s.Lost)) ∧
    ((∀ as s, exec (step limit) (init n : State Exn) as = some s → ¬ s.Lost) ↔ n ≤ 1 ∨ limit ≤ 0) := by
  refine ⟨fun as s has => ⟨?_, fun hok => ?_⟩, not_lost_iff n limit⟩
  · rw [← run_numThreads has]
    exact (reach_invariant (fun s a s' hi hs => Thrown.step hi hs) (Thrown.init n) ⟨as, has⟩).served
  · refine (exec_invariant (I := Woken) (fun s a s' hi hok hs => hi.step hok hs) ⟨Control.init n, ?_⟩ hok has).not_lost
    simp [init, Caller.told, Caller.phase]

/-- Two threads and the default limit. -/
theorem sleeps_through : ∃ as s, exec (step 100000) (init 2 : State Unit) as = some s ∧ s.Lost :=
  lost_reachable (by decide) (by decide)

end SynnoDB.ThreadPool
