import Mathlib
import SynnoDB.Template.ThreadPoolWakeups

/-!
# Parallel reduction (`thread_pool.hpp:250-286`)

| here | there |
| --- | --- |
| `Reduce`           | the arguments of `parallel_reduce`; `fold` and `combine` return the new value of their first argument |
| `Frame`            | an invocation of the lambda: at its entry, before a round of its loop, returned |
| `State.pool`       | the pool, whose call number `call` is the `parallel_for` of this reduction |
| `State.folded`     | which thread folded which index, last first; the code keeps no such record |
| `State.overflowed` | a signed overflow has happened: the behaviour is undefined from there |

The pool and the invocations interleave: an invocation takes its steps while its thread is inside `f`, and the
thread leaves `f` when it has returned. `fold` and `combine` do not throw.
-/

namespace SynnoDB.ParallelReduce

open ThreadPool (Act)
open Trace

variable {T E : Type}

structure Reduce (T : Type) where
  n : Int
  identity : T
  fold : T → Int → T
  combine : T → T → T

/-- A result of `int64_t` arithmetic; out of range is undefined. -/
def int64 (x : Int) : Option Int := if -2 ^ 63 ≤ x ∧ x < 2 ^ 63 then some x else none

inductive Frame (T : Type) where
  | entered
  | looping (i hi : Int) (acc : T)
  | returned

namespace Reduce

variable (R : Reduce T)

/-- The slice of a thread; the inner `none`: it is empty. -/
def slice (tid nThreads : Int) : Option (Option (Int × Int)) := do
  let sum ← int64 (R.n + nThreads)
  let sum ← int64 (sum - 1)
  let chunk := sum.tdiv nThreads
  let lo ← int64 (tid * chunk)
  if R.n ≤ lo then pure none
  else do
    let stop ← int64 (lo + chunk)
    pure (some (lo, min stop R.n))

/-- The last loop, over `partials`. -/
def merge (partials : List T) : T := partials.foldl R.combine R.identity

end Reduce

structure State (T E : Type) where
  pool : ThreadPool.State E
  call : Nat
  frames : Nat → Frame T := fun _ => .entered
  partials : List T
  folded : List (Nat × Int) := []
  overflowed : Bool := false
  result : Option T := none

/-- The thread is inside `f`. -/
def serving (s : ThreadPool.State E) : Nat → Bool
  | 0 => match s.caller with
    | .solo | .running => true
    | _ => false
  | i + 1 => match s.workers[i]? with
    | some w => match w.pc with
      | .running _ => true
      | _ => false
    | none => false

/-- The thread that leaves `f` in this step, and what it throws. -/
def leaves (s : ThreadPool.State E) : Act E → Option (Nat × Option E)
  | .caller exn => if serving s 0 then some (0, exn) else none
  | .worker i exn => if serving s (i + 1) then some (i + 1, exn) else none
  | _ => none

def Frame.isReturned : Frame T → Bool
  | .returned => true
  | _ => false

inductive Step (E : Type) where
  | pool (a : Act E)
  | body (tid : Nat)
  | merge

section
variable (R : Reduce T) (limit : Int)

/-- `parallel_reduce` is entered, with the pool as it is; `partials` are copies of `identity`. -/
def enter (p : ThreadPool.State E) : State T E where
  pool := p
  call := p.current
  partials := List.replicate p.numThreads R.identity
  result := if R.n ≤ 0 then some R.identity else none

/-- The next step of an invocation. -/
def bodyStep (s : State T E) (tid : Nat) : Option (State T E) :=
  match s.frames tid with
  | .entered => match R.slice tid s.pool.numThreads with
    | none => some { s with overflowed := true }
    | some none => some { s with frames := Function.update s.frames tid .returned }
    | some (some (lo, hi)) => some { s with frames := Function.update s.frames tid (.looping lo hi R.identity) }
  | .looping i hi acc =>
    if i < hi then
      some { s with
        frames := Function.update s.frames tid (.looping (i + 1) hi (R.fold acc i))
        folded := (tid, i) :: s.folded }
    else some { s with frames := Function.update s.frames tid .returned, partials := s.partials.set tid acc }
  | .returned => none

/-- Whether the pool may take the step: the call is made once, and a thread leaves `f` when its invocation has
returned. -/
def mayStep (s : State T E) (a : Act E) : Bool :=
  match a with
  | .destroy => false
  | .parallelFor => s.result.isNone && s.pool.current == s.call
  | a => match leaves s.pool a with
    | some (tid, exn) => (s.frames tid).isReturned && exn.isNone
    | none => true

def step (s : State T E) (a : Step E) : Option (State T E) :=
  if s.overflowed then none
  else match a with
    | .pool a => if mayStep s a then (ThreadPool.step limit s.pool a).map fun p => { s with pool := p } else none
    | .body tid => if serving s.pool tid then bodyStep R s tid else none
    | .merge => match s.result, s.pool.results[s.call]? with
      | none, some none => some { s with result := some (R.merge s.partials) }
      | _, _ => none

end

/-! ## What is asked of a reduction -/

/-- `combine` is associative with `identity` as its unit, and `fold` combines with the unit of an index. -/
structure Lawful (R : Reduce T) (unit : Int → T) : Prop where
  fold_eq : ∀ acc i, R.fold acc i = R.combine acc (unit i)
  assoc : ∀ a b c, R.combine (R.combine a b) c = R.combine a (R.combine b c)
  identity_combine : ∀ a, R.combine R.identity a = a
  combine_identity : ∀ a, R.combine a R.identity = a

/-- `combine` over the units of a range, in order. -/
def combined (R : Reduce T) (unit : Int → T) (lo hi : Int) : T :=
  (Int.range lo hi).foldl (fun acc i => R.combine acc (unit i)) R.identity

/-- Nothing has overflowed, and a result is that of the sequential fold, every index folded once. -/
def Right (R : Reduce T) (unit : Int → T) (s : State T E) : Prop :=
  s.overflowed = false ∧ ∀ v, s.result = some v → v = combined R unit 0 R.n ∧
    ∀ i, (s.folded.map Prod.snd).count i = if 0 ≤ i ∧ i < R.n then 1 else 0

/-- A thread is woken without a notification. -/
def Step.spurious : Step E → Bool
  | .pool (.spurious _) => true
  | _ => false

/-- The threads can go on until the result is there, if the condition variable wakes nobody by itself. -/
def CanReturn (R : Reduce T) (limit : Int) (s : State T E) : Prop :=
  ∃ as s', (∀ a ∈ as, a.spurious = false) ∧ exec (step R limit) s as = some s' ∧ s'.result.isSome = true

/-! ## Slices -/
section
variable {R : Reduce T} {unit : Int → T}

theorem range_succ {lo i : Int} (h : lo ≤ i) : Int.range lo (i + 1) = Int.range lo i ++ [i] := by
  have hlen : (i + 1 - lo).toNat = (i - lo).toNat + 1 := by omega
  rw [Int.range, Int.range, hlen, List.range_succ, List.map_append, List.map_singleton]
  congr 2
  omega

theorem range_self (lo : Int) : Int.range lo lo = [] := by simp [Int.range]

theorem range_of_le {lo hi : Int} (h : hi ≤ lo) : Int.range lo hi = [] := by
  rw [Int.range, Int.toNat_of_nonpos (by omega)]
  rfl

theorem count_range (lo hi i : Int) : (Int.range lo hi).count i = if lo ≤ i ∧ i < hi then 1 else 0 := by
  have hnodup : (Int.range lo hi).Nodup := by
    refine List.nodup_range.map fun a b hab => ?_
    have hab : lo + (a : Int) = lo + b := hab
    omega
  rw [hnodup.count]
  exact if_congr Int.mem_range_iff rfl rfl

theorem combined_self (lo : Int) : combined R unit lo lo = R.identity := by rw [combined, range_self, List.foldl_nil]

theorem Lawful.combined_succ (hR : Lawful R unit) {lo i : Int} (h : lo ≤ i) :
    combined R unit lo (i + 1) = R.fold (combined R unit lo i) i := by
  rw [combined, range_succ h, List.foldl_append, List.foldl_cons, List.foldl_nil, hR.fold_eq]
  rfl

/-- **Slices are merged** into the slice of both. -/
theorem Lawful.combine_combined (hR : Lawful R unit) {lo mid : Int} (hmid : lo ≤ mid) (k : Nat) :
    R.combine (combined R unit lo mid) (combined R unit mid (mid + k)) = combined R unit lo (mid + k) := by
  induction k with
  | zero => rw [Int.natCast_zero, Int.add_zero, combined_self, hR.combine_identity]
  | succ k ih =>
    rw [Int.natCast_succ, ← Int.add_assoc, hR.combined_succ (by omega), hR.combined_succ (by omega), hR.fold_eq,
      hR.fold_eq,
      ← hR.assoc, ih]

/-- `chunk`. -/
def chunk (R : Reduce T) (nt : Nat) : Int := (R.n + nt - 1) / nt

/-- Where the slice of a thread begins, and that of the one before it ends. -/
def bound (R : Reduce T) (nt tid : Nat) : Int := min (tid * chunk R nt) R.n


theorem chunk_spec (R : Reduce T) {nt : Nat} (hnt : 0 < nt) :
    R.n ≤ nt * chunk R nt ∧ nt * chunk R nt ≤ R.n + nt - 1 := by
  have hdiv := Int.mul_ediv_add_emod (R.n + nt - 1) nt
  have hnonneg := Int.emod_nonneg (R.n + nt - 1) (show (nt : Int) ≠ 0 by omega)
  have hlt := Int.emod_lt_of_pos (R.n + nt - 1) (show (0 : Int) < nt by omega)
  rw [chunk]
  omega

theorem chunk_nonneg (nt : Nat) (hn : 0 < R.n) : 0 ≤ chunk R nt := by
  rw [chunk]
  exact Int.ediv_nonneg (by omega) (by omega)

theorem succ_mul_chunk {nt : Nat} (tid : Nat) : ((tid + 1 : Nat) : Int) * chunk R nt =
    tid * chunk R nt + chunk R nt := by
  rw [Int.natCast_succ, Int.add_mul, Int.one_mul]

theorem bound_zero {nt : Nat} (hn : 0 < R.n) : bound R nt 0 = 0 := by
  rw [bound, Int.natCast_zero, Int.zero_mul]
  omega

theorem bound_last {nt : Nat} (hnt : 0 < nt) : bound R nt nt = R.n := by
  have := (chunk_spec R hnt).1
  rw [bound]
  omega

theorem bound_le_succ (nt : Nat) (hn : 0 < R.n) (tid : Nat) : bound R nt tid ≤ bound R nt (tid + 1) := by
  have := chunk_nonneg nt hn
  rw [bound, bound, succ_mul_chunk]
  omega

theorem bound_nonneg (nt tid : Nat) (hn : 0 < R.n) : 0 ≤ bound R nt tid := by
  have := Int.mul_nonneg (show (0 : Int) ≤ tid by omega) (chunk_nonneg nt hn)
  rw [bound]
  omega

/-- **No bound overflows** where the sum at the start does not. -/
theorem slice_spec {nt tid : Nat} (hn : 0 < R.n) (htid : tid < nt) (hfit : R.n + nt < 2 ^ 63) :
    R.slice tid nt = some (if R.n ≤ tid * chunk R nt then none else some (bound R nt tid, bound R nt (tid + 1))) := by
  have hspec := chunk_spec R (show 0 < nt by omega)
  have hnonneg := chunk_nonneg nt hn
  have hlo := Int.mul_nonneg (show (0 : Int) ≤ tid by omega) hnonneg
  have hle : ((tid + 1 : Nat) : Int) * chunk R nt ≤ nt * chunk R nt := Int.mul_le_mul_of_nonneg_right (by omega) hnonneg
  rw [succ_mul_chunk] at hle
  have hdiv : (R.n + nt - 1).tdiv nt = chunk R nt := Int.tdiv_eq_ediv_of_nonneg (by omega)
  have hsum : int64 (R.n + nt) = some (R.n + nt) := if_pos (by omega)
  have hsum' : int64 (R.n + nt - 1) = some (R.n + nt - 1) := if_pos (by omega)
  have hstart : int64 (tid * chunk R nt) = some (tid * chunk R nt) := if_pos (by omega)
  have hstop : int64 (tid * chunk R nt + chunk R nt) = some (tid * chunk R nt + chunk R nt) := if_pos (by omega)
  simp only [Reduce.slice, hsum, hsum', Option.bind_eq_bind, Option.bind_some, hdiv, hstart, hstop]
  split
  · rfl
  · rename_i hlt
    rw [bound, bound, succ_mul_chunk, min_eq_left (Int.le_of_lt (Int.not_le.1 hlt))]
    rfl

theorem slice_overflow {nt tid : Nat} (hfit : 2 ^ 63 ≤ R.n + nt) : R.slice tid nt = none := by
  have hsum : int64 (R.n + nt) = none := if_neg (by omega)
  simp only [Reduce.slice, hsum, Option.bind_eq_bind, Option.bind_none]

/-- The slices of the first threads, merged in order. -/
theorem Lawful.merge_slices {nt : Nat} (hR : Lawful R unit) (hn : 0 < R.n) : ∀ m : Nat,
    R.merge ((List.range m).map fun tid => combined R unit (bound R nt tid) (bound R nt (tid + 1))) =
      combined R unit 0 (bound R nt m)
  | 0 => by rw [bound_zero hn, combined_self]; rfl
  | m + 1 => by
    obtain ⟨k, hk⟩ := Int.le.dest (bound_le_succ nt hn m)
    rw [List.range_succ, List.map_append, Reduce.merge, List.foldl_append]
    show R.combine (R.merge _) (combined R unit (bound R nt m) (bound R nt (m + 1))) = _
    rw [hR.merge_slices hn m, ← hk]
    exact hR.combine_combined (bound_nonneg nt m hn) k

end

/-! ## The pool -/
section
variable {s s' : ThreadPool.State E} {limit : Int} {a : Act E}

/-- Only a thread that leaves `f` is logged. -/
theorem ended_step (h : ThreadPool.step limit s a = some s') :
    ∀ e ∈ s'.ended, e ∈ s.ended ∨ leaves s a = some (e.run.tid, e.exn) := by
  cases a with
  | worker i exn =>
    simp only [ThreadPool.step] at h
    split at h
    · rename_i w hw
      cases hpc : w.pc <;> simp only [ThreadPool.workerStep, hpc] at h <;> (repeat' split at h) <;>
        first
          | (cases h; done)
          | (cases h; exact fun e he => .inl he)
          | (cases h
             intro e he
             rcases List.mem_cons.1 he with rfl | he
             · exact .inr (by simp [leaves, serving, hw, hpc])
             · exact .inl he)
    · cases h
  | caller exn =>
    simp only [ThreadPool.step] at h
    cases hk : s.caller <;> simp only [ThreadPool.callerStep, hk] at h <;> (repeat' split at h) <;> simp at h
      <;> subst h <;>
      first
        | exact fun e he => .inl he
        | (intro e he
           rcases List.mem_cons.1 he with rfl | he
           · exact .inr (by simp [leaves, serving, hk])
           · exact .inl he)
  | _ =>
    simp only [ThreadPool.step] at h
    (repeat' split at h) <;> simp at h <;> subst h <;> exact fun e he => .inl he

theorem results_step (h : ThreadPool.step limit s a = some s') : s.results <+: s'.results := by
  cases a with
  | worker i exn =>
    simp only [ThreadPool.step] at h
    split at h
    · rename_i w hw
      cases hpc : w.pc <;> simp only [ThreadPool.workerStep, hpc] at h <;> (repeat' split at h) <;>
        first
          | (cases h; done)
          | (cases h; exact List.prefix_refl _)
    · cases h
  | caller exn =>
    simp only [ThreadPool.step] at h
    cases hk : s.caller <;> simp only [ThreadPool.callerStep, hk] at h <;> (repeat' split at h) <;> simp at h
      <;> subst h <;>
      first
        | exact List.prefix_refl _
        | exact List.prefix_append _ _
  | _ =>
    simp only [ThreadPool.step] at h
    (repeat' split at h) <;> simp at h <;> subst h <;> exact List.prefix_refl _

theorem serving_lt {tid : Nat} (h : serving s tid = true) : tid < s.numThreads := by
  cases tid with
  | zero => exact Nat.succ_pos _
  | succ i =>
    rw [serving] at h
    cases hw : s.workers[i]? with
    | none => rw [hw] at h; cases h
    | some w => exact Nat.succ_lt_succ (List.getElem?_eq_some_iff.1 hw).1

end

/-! ## The invariant -/

/-- The indices a thread has folded, last first. -/
def State.foldedBy (s : State T E) (tid : Nat) : List Int := (s.folded.filter fun f => f.1 = tid).map Prod.snd

/-- A thread has folded its slice up to where it is, and stored the fold when it has returned. -/
def FrameOk (R : Reduce T) (unit : Int → T) (s : State T E) (tid : Nat) : Prop :=
  let lo := bound R s.pool.numThreads tid
  let stop := bound R s.pool.numThreads (tid + 1)
  match s.frames tid with
  | .entered => s.partials[tid]? = some R.identity ∧ s.foldedBy tid = []
  | .looping i hi acc => s.partials[tid]? = some R.identity ∧ hi = stop ∧ lo ≤ i ∧ i ≤ hi ∧ acc = combined R unit lo i ∧
      s.foldedBy tid = (Int.range lo i).reverse
  | .returned => s.partials[tid]? = some (combined R unit lo stop) ∧ s.foldedBy tid = (Int.range lo stop).reverse

/-- Between the entry and the result. -/
structure Ok (R : Reduce T) (unit : Int → T) (s : State T E) : Prop where
  pool : ThreadPool.Thrown s.pool
  left : ∀ e ∈ s.pool.ended, e.run.call = s.call → s.frames e.run.tid = .returned ∧ e.exn = none
  length : s.partials.length = s.pool.numThreads
  frame : ∀ tid < s.pool.numThreads, FrameOk R unit s tid
  folded : ∀ f ∈ s.folded, f.1 < s.pool.numThreads
  defined : s.overflowed = false
  result : ∀ v, s.result = some v → v = R.merge s.partials ∧ s.call < s.pool.current

section
variable {R : Reduce T} {unit : Int → T} {s s' : State T E} {limit : Int} {tid : Nat}

/-- When the call has returned, every thread has. -/
theorem Ok.all_returned (h : Ok R unit s) (hcall : s.call < s.pool.current) (htid : tid < s.pool.numThreads) :
    s.frames tid = .returned := by
  have hcount := (h.pool.served.1 s.call hcall tid).2
  rw [if_pos htid] at hcount
  have hmem : (⟨s.call, tid⟩ : ThreadPool.Run) ∈ s.pool.ended.map ThreadPool.Ending.run :=
    List.count_pos_iff.1 (by omega)
  obtain ⟨e, he, hrun⟩ := List.mem_map.1 hmem
  have := (h.left e he (by rw [hrun])).1
  rw [hrun] at this
  exact this

/-- The partials of the returned threads are the folds of their slices. -/
theorem Ok.partials_eq (h : Ok R unit s) (hcall : s.call < s.pool.current) :
    s.partials = (List.range s.pool.numThreads).map fun tid =>
      combined R unit (bound R s.pool.numThreads tid) (bound R s.pool.numThreads (tid + 1)) := by
  refine List.ext_getElem? fun tid => ?_
  by_cases htid : tid < s.pool.numThreads
  · have hframe := h.frame tid htid
    rw [FrameOk, h.all_returned hcall htid] at hframe
    rw [hframe.1, List.getElem?_map, List.getElem?_range htid]
    rfl
  · rw [List.getElem?_eq_none (by rw [h.length]; omega), List.getElem?_eq_none (by simp; omega)]

theorem frameOk_congr (hf : s'.frames tid = s.frames tid) (hp : s'.partials[tid]? = s.partials[tid]?)
    (hd : s'.foldedBy tid = s.foldedBy tid) (hn : s'.pool.numThreads = s.pool.numThreads) (h : FrameOk R unit s tid) :
    FrameOk R unit s' tid := by
  rw [FrameOk, hf, hp, hd, hn]
  exact h

theorem Ok.pool_step {a : Act E} (h : Ok R unit s) (hs : step R limit s (.pool a) = some s') : Ok R unit s' := by
  rw [step, if_neg (by simp [h.defined])] at hs
  simp only [Option.ite_none_right_eq_some] at hs
  obtain ⟨hmay, hs⟩ := hs
  cases hp : ThreadPool.step limit s.pool a with
  | none => rw [hp] at hs; cases hs
  | some p =>
    rw [hp] at hs
    cases hs
    have hn : p.numThreads = s.pool.numThreads := congrArg (· + 1) (ThreadPool.step_length hp)
    refine ⟨h.pool.step hp, fun e he hcall => ?_, h.length.trans hn.symm, fun tid htid => ?_, fun f hf => ?_, h.defined,
      fun v hv => ⟨(h.result v hv).1, lt_of_lt_of_le (h.result v hv).2 (results_step hp).length_le⟩⟩
    · rcases ended_step hp e he with hold | hleaves
      · exact h.left e hold hcall
      · have hboth : (s.frames e.run.tid).isReturned = true ∧ e.exn = none := by
          unfold mayStep at hmay
          split at hmay
          · cases hmay
          · cases hleaves
          · rw [hleaves] at hmay
            simpa using hmay
        refine ⟨?_, hboth.2⟩
        cases hf : s.frames e.run.tid with
        | returned => rfl
        | _ => rw [hf] at hboth; cases hboth.1
    · exact frameOk_congr (s := s) rfl rfl rfl hn (h.frame tid (hn ▸ htid))
    · exact (h.folded f hf).trans_eq hn.symm

theorem foldedBy_cons (s : State T E) (tid tid' : Nat) (i : Int) :
    State.foldedBy { s with folded := (tid, i) :: s.folded } tid' = if tid =
      tid' then i :: s.foldedBy tid' else s.foldedBy tid' := by
  simp only [State.foldedBy, List.filter_cons]
  split <;> simp_all

theorem bodyStep_frame (h : bodyStep R s tid = some s') : s'.pool = s.pool ∧ s'.call = s.call ∧
    s'.result = s.result := by
  unfold bodyStep at h
  (repeat' split at h) <;> cases h <;> exact ⟨rfl, rfl, rfl⟩

/-- A thread moves its own frame, partial and log only. -/
theorem Ok.body_step (hR : Lawful R unit) (hn : 0 < R.n) (hfit : R.n + s.pool.numThreads < 2 ^ 63) (h : Ok R unit s)
    (hs : step R limit s (.body tid) = some s') : Ok R unit s' ∧ s'.pool = s.pool ∧ s'.call = s.call := by
  rw [step, if_neg (by simp [h.defined])] at hs
  simp only [Option.ite_none_right_eq_some] at hs
  obtain ⟨hserving, hs⟩ := hs
  have htid := serving_lt hserving
  have hframe := h.frame tid htid
  -- a thread that moves has not returned, so the call has not
  have hcurrent : s.frames tid ≠ .returned → ¬s.call < s.pool.current := fun hne hlt => hne (h.all_returned hlt htid)
  have hnone : s.frames tid ≠ .returned → s.result = none := by
    intro hne
    cases hr : s.result with
    | none => rfl
    | some v => exact absurd (h.result v hr).2 (hcurrent hne)
  have hleft : s.frames tid ≠ .returned → ∀ (f : Frame T), ∀ e ∈ s.pool.ended, e.run.call = s.call →
      Function.update s.frames tid f e.run.tid = .returned ∧ e.exn = none := by
    intro hne f e he hcall
    have hold := h.left e he hcall
    rw [Function.update_of_ne]
    · exact hold
    · rintro rfl
      exact hne hold.1
  unfold bodyStep at hs
  cases hf : s.frames tid with
  | returned => rw [hf] at hs; cases hs
  | entered =>
    have hne : s.frames tid ≠ .returned := by rw [hf]; simp
    rw [FrameOk, hf] at hframe
    rw [hf] at hs
    dsimp only at hs
    rw [slice_spec hn htid hfit] at hs
    split at hs
    · cases ‹some _ = none›
    · rename_i hslice
      have hempty : R.n ≤ tid * chunk R s.pool.numThreads := by
        by_contra hcon
        rw [if_neg hcon] at hslice
        cases hslice
      have hbound : bound R s.pool.numThreads (tid + 1) = bound R s.pool.numThreads tid := by
        have := chunk_nonneg s.pool.numThreads hn
        rw [bound, bound, succ_mul_chunk]
        omega
      cases hs
      refine ⟨⟨h.pool, hleft hne _, h.length, fun k hk => ?_, h.folded, h.defined, fun v hv => ?_⟩, rfl, rfl⟩
      · by_cases hk' : k = tid
        · subst hk'
          simp only [FrameOk, Function.update_self, hbound, combined_self, range_self, List.reverse_nil]
          exact hframe
        · exact frameOk_congr (s := s) (Function.update_of_ne hk' ..) rfl rfl rfl (h.frame k hk)
      · rw [hnone hne] at hv
        cases hv
    · rename_i hslice
      split at hslice
      · cases hslice
      cases hslice
      cases hs
      refine ⟨⟨h.pool, hleft hne _, h.length, fun k hk => ?_, h.folded, h.defined, fun v hv => ?_⟩, rfl, rfl⟩
      · by_cases hk' : k = tid
        · subst hk'
          simp only [FrameOk, Function.update_self, combined_self, range_self, List.reverse_nil]
          exact ⟨hframe.1, trivial, le_rfl, bound_le_succ _ hn k, trivial, hframe.2⟩
        · exact frameOk_congr (s := s) (Function.update_of_ne hk' ..) rfl rfl rfl (h.frame k hk)
      · rw [hnone hne] at hv
        cases hv
  | looping i hi acc =>
    have hne : s.frames tid ≠ .returned := by rw [hf]; simp
    rw [FrameOk, hf] at hframe
    obtain ⟨hstored, rfl, hlo, hle, rfl, hby⟩ := hframe
    rw [hf] at hs
    dsimp only at hs
    split at hs
    · rename_i hlt
      cases hs
      refine ⟨⟨h.pool, hleft hne _, h.length, fun k hk => ?_, ?_, h.defined, fun v hv => ?_⟩, rfl, rfl⟩
      · by_cases hk' : k = tid
        · subst hk'
          simp only [FrameOk, Function.update_self]
          refine ⟨hstored, trivial, by omega, by omega, (hR.combined_succ hlo).symm, ?_⟩
          rw [range_succ hlo, List.reverse_append, ← hby]
          exact (foldedBy_cons _ k k i).trans (if_pos rfl)
        · refine frameOk_congr (s := s) (Function.update_of_ne hk' ..) rfl ?_ rfl (h.frame k hk)
          exact (foldedBy_cons _ tid k i).trans (if_neg (Ne.symm hk'))
      · rintro f hf
        rcases List.mem_cons.1 hf with rfl | hf
        · exact htid
        · exact h.folded f hf
      · rw [hnone hne] at hv
        cases hv
    · rename_i hge
      have hend : i = bound R s.pool.numThreads (tid + 1) := by omega
      subst hend
      cases hs
      refine ⟨⟨h.pool, hleft hne _, ?_, fun k hk => ?_, h.folded, h.defined, fun v hv => ?_⟩, rfl, rfl⟩
      · rw [List.length_set]
        exact h.length
      · by_cases hk' : k = tid
        · subst hk'
          simp only [FrameOk, Function.update_self]
          exact ⟨List.getElem?_set_self (by rw [h.length]; exact htid), hby⟩
        · exact frameOk_congr (s := s) (Function.update_of_ne hk' ..) (List.getElem?_set_ne (Ne.symm hk')) rfl
            rfl (h.frame k hk)
      · rw [hnone hne] at hv
        cases hv

theorem Ok.merge_step (h : Ok R unit s) (hs : step R limit s .merge = some s') :
    Ok R unit s' ∧ s'.pool = s.pool ∧ s'.call = s.call := by
  rw [step, if_neg (by simp [h.defined])] at hs
  split at hs
  · rename_i hresult hreturned
    cases hs
    refine ⟨⟨h.pool, h.left, h.length, h.frame, h.folded, h.defined, fun v hv => ?_⟩, rfl, rfl⟩
    cases hv
    exact ⟨rfl, (List.getElem?_eq_some_iff.1 hreturned).1⟩
  · cases hs

theorem sum_ite_eq (k c : Nat) : ∀ m, ((List.range m).map fun tid => if tid = k then c else 0).sum =
    if k < m then c else 0
  | 0 => rfl
  | m + 1 => by
    rw [List.range_succ, List.map_append, List.sum_append, sum_ite_eq k c m, List.map_singleton, List.sum_singleton]
    split <;> split <;> split <;> omega

/-- A log is the logs of its threads. -/
theorem count_foldedBy (i : Int) : ∀ {l : List (Nat × Int)} {m : Nat}, (∀ f ∈ l, f.1 < m) →
    (l.map Prod.snd).count i = ((List.range m).map fun tid => ((l.filter fun f => f.1 = tid).map Prod.snd).count i).sum
  | [], m, _ => by simp
  | f :: l, m, h => by
    have ih := count_foldedBy i fun g hg => h g (List.mem_cons_of_mem f hg)
    have hadd : ∀ tid, (((f :: l).filter fun g => g.1 = tid).map Prod.snd).count i =
        (if tid = f.1 then if f.2 = i then 1 else 0 else 0) + ((l.filter fun g => g.1 = tid).map Prod.snd).count i := by
      intro tid
      rw [List.filter_cons]
      by_cases htid : f.1 = tid
      · simp [htid, List.count_cons, Nat.add_comm]
      · simp [htid, Ne.symm htid]
    simp only [List.map_cons, List.count_cons, hadd, List.sum_map_add, sum_ite_eq, ih, beq_iff_eq]
    rw [if_pos (h f List.mem_cons_self), Nat.add_comm]

/-- The slices cover every index once. -/
theorem count_slices {nt : Nat} (hn : 0 < R.n) (i : Int) : ∀ m : Nat,
    ((List.range m).map fun tid => (Int.range (bound R nt tid) (bound R nt (tid + 1))).reverse.count i).sum =
      if 0 ≤ i ∧ i < bound R nt m then 1 else 0
  | 0 => by
    rw [bound_zero hn, if_neg (by omega)]
    rfl
  | m + 1 => by
    have hle := bound_le_succ nt hn m
    have hnonneg := bound_nonneg nt m hn
    have hcount : (Int.range (bound R nt m) (bound R nt (m + 1))).reverse.count i =
        if bound R nt m ≤ i ∧ i < bound R nt (m + 1) then 1 else 0 := by
      rw [List.count_reverse, count_range]
    rw [List.range_succ, List.map_append, List.sum_append, count_slices hn i m, List.map_singleton,
      List.sum_singleton, hcount]
    split <;> split <;> split <;> omega

theorem numThreads_step {a : Step E} (hs : step R limit s a = some s') : s'.pool.numThreads = s.pool.numThreads := by
  cases a with
  | pool a =>
    simp only [step, Option.ite_none_left_eq_some, Option.ite_none_right_eq_some, Option.map_eq_some_iff] at hs
    obtain ⟨-, -, p, hp, rfl⟩ := hs
    exact congrArg (· + 1) (ThreadPool.step_length hp)
  | body tid =>
    simp only [step, Option.ite_none_left_eq_some, Option.ite_none_right_eq_some] at hs
    rw [(bodyStep_frame hs.2.2).1]
  | merge =>
    rw [step, Option.ite_none_left_eq_some] at hs
    obtain ⟨-, hs⟩ := hs
    split at hs <;> cases hs
    rfl

theorem ok_step (hR : Lawful R unit) (hn : 0 < R.n) (hfit : R.n + s.pool.numThreads < 2 ^ 63) (h : Ok R unit s)
    {a : Step E}
    (hs : step R limit s a = some s') : Ok R unit s' := by
  cases a with
  | pool a => exact h.pool_step hs
  | body tid => exact (h.body_step hR hn hfit hs).1
  | merge => exact (h.merge_step hs).1

/-- **The result is that of the sequential fold**, and every index has been folded once. -/
theorem Ok.right (hR : Lawful R unit) (hn : 0 < R.n) (h : Ok R unit s) : Right R unit s := by
  refine ⟨h.defined, fun v hv => ?_⟩
  obtain ⟨rfl, hcall⟩ := h.result v hv
  have hnt : 0 < s.pool.numThreads := Nat.succ_pos _
  refine ⟨?_, fun i => ?_⟩
  · rw [h.partials_eq hcall, hR.merge_slices hn, bound_last hnt]
  · have hby : ∀ tid ∈ List.range s.pool.numThreads, (s.foldedBy tid).count i =
        (Int.range (bound R s.pool.numThreads tid) (bound R s.pool.numThreads (tid + 1))).reverse.count i := by
      intro tid htid
      have hframe := h.frame tid (List.mem_range.1 htid)
      rw [FrameOk, h.all_returned hcall (List.mem_range.1 htid)] at hframe
      rw [hframe.2]
    rw [count_foldedBy i h.folded]
    show ((List.range s.pool.numThreads).map fun tid => (s.foldedBy tid).count i).sum = _
    rw [List.map_congr_left hby, count_slices hn, bound_last hnt]

/-- The call that is about to be made has no log yet. -/
theorem Ok.enter {p : ThreadPool.State E} (hp : ThreadPool.Thrown p) (hidle : p.caller = .idle) (hn : 0 < R.n) :
    Ok R unit (ParallelReduce.enter R p : State T E) where
  pool := hp
  left e he hcall := by
    have hmem : e.run ∈ p.ended.map ThreadPool.Ending.run := List.mem_map.2 ⟨e, he, rfl⟩
    have hpos := List.count_pos_iff.2 hmem
    rw [hp.ended] at hpos
    have hshare : p.share ThreadPool.Pc.ended ThreadPool.Caller.ended e.run.tid = 0 := by
      have hzero := ThreadPool.share_idle (f := ThreadPool.Pc.ended) (g := ThreadPool.Caller.ended)
        (show p.caller.phase ≠ .task by rw [hidle]; simp [ThreadPool.Caller.phase]) e.run.tid
      rw [hzero, hidle]
      split <;> rfl
    have hcall : e.run.call = p.current := hcall
    simp [ThreadPool.State.tally, hcall, hshare] at hpos
  length := List.length_replicate
  frame tid htid := ⟨List.getElem?_replicate_of_lt htid, rfl⟩
  folded f hf := by cases hf
  defined := rfl
  result v hv := by
    rw [ParallelReduce.enter, if_neg (by omega)] at hv
    cases hv

end

end SynnoDB.ParallelReduce
