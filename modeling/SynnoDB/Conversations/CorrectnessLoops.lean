import Mathlib.Data.List.Basic

/-!
# The two retry loops (`conversation_engine.py:867-908`, `:970-1022`)

| here | there |
| --- | --- |
| `Benchmark`           | how `_run_tool_benchmark` ends: an exception, or a message and the metrics, if any |
| `checkCorrectness`    | `_check_correctness` (`:1009-1022`) |
| `modeLoop`, `checkAndFeedback` | `check_and_feedback_correctness` (`:970-1007`) |
| `runPostStageValidate` | `_run_post_stage_validate` (`:867-908`) |
| `World`               | the n-th benchmark, the n-th callback, and whether the n-th prompt returns |

A fix prompt may change anything, so **every prompt leaves a new version of the workspace**, and what
was checked is remembered with the version it was checked on. Both loops prompt once more before they
give up, and a mode is not checked again when a later mode needs a fix
(`judges_iff`).
-/

namespace SynnoDB.Conversations.CorrectnessLoops

variable {M κ : Type}

/-! ## Versions and what was checked on them -/

inductive Benchmark (M : Type) where
  | raised
  | done (msg : Option String) (metrics : Option M)

inductive Callback where
  | raised
  | feedback (text : String)
  | passed
deriving DecidableEq

structure World (M : Type) where
  benchmark : Nat → Benchmark M
  callback : Nat → Callback
  fixReturns : Nat → Bool

/-- The prompts so far, and the checks so far with the version each ran on. -/
structure State (κ : Type) where
  prompts : List String := []
  checked : List (Nat × κ) := []

namespace State

/-- The workspace as it is: every prompt makes the next version. -/
def version (s : State κ) : Nat := s.prompts.length

def check (s : State κ) (c : κ) : State κ := { s with checked := s.checked ++ [(s.version, c)] }

/-- `_exec`. -/
def exec (s : State κ) (prompt : String) : State κ := { s with prompts := s.prompts ++ [prompt] }

@[simp] theorem version_check (s : State κ) (c : κ) : (s.check c).version = s.version := rfl

@[simp] theorem version_exec (s : State κ) (p : String) : (s.exec p).version = s.version + 1 := by
  simp [version, exec]

@[simp] theorem checked_check (s : State κ) (c : κ) : (s.check c).checked = s.checked ++ [(s.version, c)] := rfl

@[simp] theorem checked_exec (s : State κ) (p : String) : (s.exec p).checked = s.checked := rfl

/-- Nothing was checked on a version that is yet to come. -/
def Past (s : State κ) : Prop := ∀ e ∈ s.checked, e.1 ≤ s.version

theorem Past.check {s : State κ} (h : s.Past) (c : κ) : (s.check c).Past := by
  intro e he
  rcases List.mem_append.1 he with he | he
  · exact h e he
  · rw [List.mem_singleton.1 he]
    exact Nat.le_refl _

theorem Past.exec {s : State κ} (h : s.Past) (p : String) : (s.exec p).Past := by
  intro e he
  have := h e he
  rw [version_exec]
  omega

/-- After a prompt nothing is known of the version it made. -/
theorem Past.exec_unchecked {s : State κ} (h : s.Past) (p : String) (c : κ) :
    ((s.exec p).version, c) ∉ (s.exec p).checked := by
  intro hm
  have := h _ hm
  rw [version_exec] at this
  omega

end State

/-! ## `check_and_feedback_correctness` -/

section
variable (W : World M) (correct : M → Bool)

/-- `(success, metrics, msg)`; `none` is an exception of the tool. -/
def checkCorrectness : Benchmark M → Option (Bool × Option M × Option String)
  | .raised => none
  | .done msg metrics =>
    match metrics with
    | none => some (false, none, msg)
    | some m => if correct m then some (true, some m, none) else some (false, some m, msg)

/-- How a loop ends. -/
inductive End (M : Type) where
  | passed (metrics : Option M)
  | stillFails
  | raised

/-- The `while` loop of one mode, with `3 - attempts` tries left; `gen` is `gen_incorrect_output_prompt_fn`
on the ids of the queries. -/
def modeLoop (gen : Bool → String → String) (mode : Bool) : Nat → State (Bool × Benchmark M) → End M × State (Bool × Benchmark M)
  | 0, s => (.stillFails, s)
  | left + 1, s =>
    let b := W.benchmark s.checked.length
    let s := s.check (mode, b)
    match checkCorrectness correct b with
    | none => (.raised, s)
    | some (true, metrics, _) => (.passed metrics, s)
    | some (false, _, none) => (.raised, s)
    | some (false, _, some msg) =>
      let returned := W.fixReturns s.version
      let s := s.exec (gen mode msg)
      if returned then modeLoop gen mode left s else (.raised, s)

/-- The `for` loop; `metrics` is what the mode before returned. -/
def modesLoop (gen : Bool → String → String) :
    List Bool → Option M → State (Bool × Benchmark M) → End M × State (Bool × Benchmark M)
  | [], metrics, s => (if metrics.isSome then .passed metrics else .raised, s)
  | mode :: rest, _, s =>
    match modeLoop W correct gen mode 3 s with
    | (.passed metrics, s) => modesLoop gen rest metrics s
    | (e, s) => (e, s)

def checkAndFeedback (gen : Bool → String → String) (traceModes : List Bool) : End M × State (Bool × Benchmark M) :=
  modesLoop W correct gen traceModes none {}

/-! ## What a run has to show -/

/-- The benchmark says that the results are correct. -/
def Passes (b : Benchmark M) (m : M) : Prop := ∃ msg, b = .done msg (some m) ∧ correct m = true

/-- The benchmark says that they are not. -/
def Fails (b : Benchmark M) : Prop :=
  ∃ msg metrics, b = .done (some msg) metrics ∧ ∀ m ∈ metrics, correct m = false

/-- The last version passed in every mode and the metrics are of such a check; or the loop gave up on a version that
was checked and failed. -/
def Judges (traceModes : List Bool) : End M × State (Bool × Benchmark M) → Prop
  | (.passed metrics, s) =>
    (∀ mode ∈ traceModes, ∃ b m, (s.version, mode, b) ∈ s.checked ∧ Passes correct b m) ∧
      ∃ m, metrics = some m ∧ ∃ mode ∈ traceModes, ∃ b, (s.version, mode, b) ∈ s.checked ∧ Passes correct b m
  | (.stillFails, s) => ∃ mode ∈ traceModes, ∃ b, (s.version, mode, b) ∈ s.checked ∧ Fails correct b
  | (.raised, _) => True

/-- From the `k`-th benchmark on, `n` checks fail one after another and each is followed by a prompt that returns. -/
def Failing (k p n : Nat) : Prop := ∀ i < n, Fails correct (W.benchmark (k + i)) ∧ W.fixReturns (p + i) = true

/-- No mode fails three times, and in the end every mode was passed since the last fix: `passed` are those, when the
next benchmark is the `k`-th and the next prompt the `p`-th. -/
def Kept (traceModes : List Bool) : List Bool → List Bool → Nat → Nat → Prop
  | [], passed, _, _ => traceModes ⊆ passed
  | mode :: rest, passed, k, p =>
    ¬ Failing W correct k p 3 ∧
      ∀ n < 3, Failing W correct k p n → (∃ m, Passes correct (W.benchmark (k + n)) m) →
        Kept traceModes rest (if n = 0 then mode :: passed else [mode]) (k + n + 1) (p + n)

end

/-! ## One mode -/

section
variable {W : World M} {correct : M → Bool} {gen : Bool → String → String} {mode : Bool}

variable (correct) in
/-- What `_check_correctness` makes of a benchmark. -/
theorem checkCorrectness_cases (b : Benchmark M) :
    (checkCorrectness correct b = none ∧ ¬ Fails correct b ∧ ∀ m, ¬ Passes correct b m) ∨
    (∃ m, checkCorrectness correct b = some (true, some m, none) ∧ Passes correct b m) ∨
    (∃ metrics msg, checkCorrectness correct b = some (false, metrics, msg) ∧ (∀ m, ¬ Passes correct b m) ∧
      (Fails correct b ↔ msg.isSome)) := by
  cases b with
  | raised => exact .inl ⟨rfl, (fun ⟨_, _, h, _⟩ => by cases h), (fun _ ⟨_, h, _⟩ => by cases h)⟩
  | done msg metrics =>
    have hfails : (∀ m ∈ metrics, correct m = false) → (Fails correct (.done msg metrics) ↔ msg.isSome) := by
      intro hwrong
      constructor
      · rintro ⟨t, _, h, _⟩
        cases h
        rfl
      · intro h
        obtain ⟨t, rfl⟩ := Option.isSome_iff_exists.1 h
        exact ⟨t, metrics, rfl, hwrong⟩
    cases metrics with
    | none => exact .inr (.inr ⟨none, msg, rfl, (fun _ ⟨_, h, _⟩ => by cases h), hfails (fun _ h => by cases h)⟩)
    | some m =>
      cases hm : correct m with
      | true => exact .inr (.inl ⟨m, by simp [checkCorrectness, hm], msg, rfl, hm⟩)
      | false =>
        refine .inr (.inr ⟨some m, msg, by simp [checkCorrectness, hm], ?_, hfails fun _ h => Option.some.inj h ▸ hm⟩)
        rintro m' ⟨_, h, hm'⟩
        cases h
        rw [hm] at hm'
        cases hm'

theorem failing_succ {k p n : Nat} : Failing W correct k p (n + 1) ↔
    (Fails correct (W.benchmark k) ∧ W.fixReturns p = true) ∧ Failing W correct (k + 1) (p + 1) n := by
  constructor
  · intro h
    refine ⟨h 0 (Nat.succ_pos n), fun i hi => ?_⟩
    have := h (i + 1) (Nat.succ_lt_succ hi)
    rwa [← Nat.add_assoc, ← Nat.add_assoc, Nat.add_right_comm, Nat.add_right_comm p] at this
  · rintro ⟨h0, h⟩ i hi
    cases i with
    | zero => exact h0
    | succ i =>
      have := h i (Nat.lt_of_succ_lt_succ hi)
      rwa [Nat.add_right_comm, Nat.add_right_comm p, Nat.add_assoc, Nat.add_assoc] at this

theorem failing_zero (k p : Nat) : Failing W correct k p 0 := fun _ h => by cases h

/-- How the loop of a mode ends, by its benchmarks and prompts: after `n` fixes only the check it ended with has seen
the last version, unless there was no fix. -/
def ModeEnds (W : World M) (correct : M → Bool) (mode : Bool) (left : Nat) (s : State (Bool × Benchmark M)) :
    End M × State (Bool × Benchmark M) → Prop
  | (.passed metrics, s') => ∃ n < left, ∃ m, metrics = some m ∧ Failing W correct s.checked.length s.version n ∧
      Passes correct (W.benchmark (s.checked.length + n)) m ∧ s'.version = s.version + n ∧
      s'.checked.length = s.checked.length + n + 1 ∧ s'.Past ∧
      ∀ c, (s'.version, c) ∈ s'.checked ↔
        c = (mode, W.benchmark (s.checked.length + n)) ∨ n = 0 ∧ (s.version, c) ∈ s.checked
  | (.stillFails, s') => Failing W correct s.checked.length s.version left ∧ s'.version = s.version + left ∧
      ∀ c, (s'.version, c) ∈ s'.checked → left = 0 ∧ (s.version, c) ∈ s.checked
  | (.raised, s') => s'.version ≤ s.version + left ∧ ¬ Failing W correct s.checked.length s.version left ∧
      ∀ n < left, Failing W correct s.checked.length s.version n →
        ∀ m, ¬ Passes correct (W.benchmark (s.checked.length + n)) m

/-- A first benchmark that is neither passed nor answered by a prompt that returns ends the run. -/
theorem modeEnds_raised {left : Nat} {s s' : State (Bool × Benchmark M)} (hversion : s'.version ≤ s.version + 1)
    (hfix : ¬ (Fails correct (W.benchmark s.checked.length) ∧ W.fixReturns s.version = true))
    (hpass : ∀ m, ¬ Passes correct (W.benchmark s.checked.length) m) :
    ModeEnds W correct mode (left + 1) s (.raised, s') := by
  refine ⟨by omega, fun h => hfix (failing_succ.1 h).1, fun n _ hn m hm => ?_⟩
  cases n with
  | zero => exact hpass m hm
  | succ n => exact hfix (failing_succ.1 hn).1

theorem modeLoop_spec (left : Nat) (s : State (Bool × Benchmark M)) (hs : s.Past) :
    ModeEnds W correct mode left s (modeLoop W correct gen mode left s) := by
  induction left generalizing s with
  | zero => exact ⟨failing_zero _ _, rfl, fun c hc => ⟨rfl, hc⟩⟩
  | succ left ih =>
    rw [modeLoop]
    obtain ⟨hcheck, hfails, hpass⟩ | ⟨m, hcheck, hpass⟩ | ⟨metrics, msg, hcheck, hpass, hfails⟩ :=
      checkCorrectness_cases correct (W.benchmark s.checked.length)
    · simp only [hcheck]
      exact modeEnds_raised (Nat.le_succ _) (fun h => hfails h.1) hpass
    · simp only [hcheck]
      refine ⟨0, Nat.succ_pos _, m, rfl, failing_zero _ _, hpass, rfl, by simp, hs.check _, fun c => ?_⟩
      rw [State.checked_check, List.mem_append, List.mem_singleton, or_comm, Nat.add_zero]
      simp
    · simp only [hcheck]
      cases msg with
      | none => exact modeEnds_raised (Nat.le_succ _) (fun h => absurd (hfails.1 h.1) (by decide)) hpass
      | some msg =>
        have hfail := hfails.2 rfl
        by_cases hreturns : W.fixReturns (s.check (mode, W.benchmark s.checked.length)).version = true
        swap
        · dsimp only
          rw [if_neg hreturns]
          exact modeEnds_raised (by simp) (fun h => hreturns h.2) hpass
        · dsimp only
          rw [if_pos hreturns]
          have hpast := (hs.check (mode, W.benchmark s.checked.length)).exec (gen mode msg)
          have hnew := (hs.check (mode, W.benchmark s.checked.length)).exec_unchecked (gen mode msg)
          have ih := ih _ hpast
          have hfirst : Fails correct (W.benchmark s.checked.length) ∧ W.fixReturns s.version = true :=
            ⟨hfail, hreturns⟩
          revert ih hnew
          generalize ht : (s.check (mode, W.benchmark s.checked.length)).exec (gen mode msg) = t
          have htk : t.checked.length = s.checked.length + 1 := by
            rw [← ht]
            simp
          have htp : t.version = s.version + 1 := by
            rw [← ht]
            simp
          intro hnew ih
          unfold ModeEnds at ih ⊢
          rw [htk, htp] at ih
          match modeLoop W correct gen mode left t, ih with
          | (.passed metrics, s'), ⟨n, hn, m, hm, hfailing, hpasses, hv, hk, hpast', honly⟩ =>
            refine ⟨n + 1, by omega, m, hm, failing_succ.2 ⟨hfirst, hfailing⟩, ?_, by omega, by omega, hpast',
              fun c => ?_⟩
            · rwa [Nat.add_right_comm, Nat.add_assoc] at hpasses
            · rw [honly c, Nat.add_right_comm, Nat.add_assoc, ← htp]
              simp [hnew c]
          | (.stillFails, s'), ⟨hfailing, hv, honly⟩ =>
            refine ⟨failing_succ.2 ⟨hfirst, hfailing⟩, by omega, fun c hc => absurd (honly c hc).2 ?_⟩
            rw [← htp]
            exact hnew c
          | (.raised, s'), ⟨hv, hnot, hnone⟩ =>
            refine ⟨by omega, fun h => hnot (failing_succ.1 h).2, fun n hn hfailing m hm => ?_⟩
            cases n with
            | zero => exact hpass m hm
            | succ n =>
              refine hnone n (by omega) (failing_succ.1 hfailing).2 m ?_
              rwa [Nat.add_right_comm, Nat.add_assoc]

end

/-! ## All modes -/

section
variable {W : World M} {correct : M → Bool} {gen : Bool → String → String}

/-- What holds between two modes: `passed` are the modes that the version at hand has passed. -/
structure Between (correct : M → Bool) (traceModes passed : List Bool) (metrics : Option M) (s : State (Bool × Benchmark M)) :
    Prop where
  past : s.Past
  passed : ∀ mode, mode ∈ passed ↔ ∃ b m, (s.version, mode, b) ∈ s.checked ∧ Passes correct b m
  metrics : ∀ m ∈ metrics, ∃ mode ∈ traceModes, ∃ b, (s.version, mode, b) ∈ s.checked ∧ Passes correct b m

theorem not_fails_of_passes {b : Benchmark M} {m : M} (h : Passes correct b m) : ¬ Fails correct b := by
  obtain ⟨_, rfl, hm⟩ := h
  rintro ⟨_, _, h, hwrong⟩
  cases h
  rw [hwrong m rfl] at hm
  cases hm

/-- The number of fixes a mode ends after is read off the benchmarks. -/
theorem fixes_unique {k p n n' : Nat} {m m' : M} (h : Failing W correct k p n)
    (hm : Passes correct (W.benchmark (k + n)) m)
    (h' : Failing W correct k p n') (hm' : Passes correct (W.benchmark (k + n')) m') : n = n' := by
  rcases Nat.lt_trichotomy n n' with hlt | heq | hgt
  · exact absurd (h' n hlt).1 (not_fails_of_passes hm)
  · exact heq
  · exact absurd (h n' hgt).1 (not_fails_of_passes hm')

/-- **The modes still to come**: what the run has to show at its end is what the benchmarks say from here on. -/
theorem modesLoop_judges (traceModes : List Bool) : ∀ (rest passed : List Bool) (metrics : Option M)
    (s : State (Bool × Benchmark M)), rest ⊆ traceModes → (rest = [] → metrics = none → traceModes = []) →
    Between correct traceModes passed metrics s →
    (Judges correct traceModes (modesLoop W correct gen rest metrics s) ↔
      Kept W correct traceModes rest passed s.checked.length s.version)
  | [], passed, metrics, s, _, hempty, hs => by
    rw [modesLoop, Kept]
    cases metrics with
    | none =>
      rw [hempty rfl rfl]
      exact iff_of_true trivial (List.nil_subset _)
    | some m =>
      have hmetrics := hs.metrics m rfl
      constructor
      · rintro ⟨hall, -⟩ mode hmode
        exact (hs.passed mode).2 (hall mode hmode)
      · intro hsub
        exact ⟨fun mode hmode => (hs.passed mode).1 (hsub hmode), m, rfl, hmetrics⟩
  | mode :: rest, passed, metrics, s, hrest, _, hs => by
    have hspec : ModeEnds W correct mode 3 s (modeLoop W correct gen mode 3 s) := modeLoop_spec 3 s hs.past
    rw [modesLoop, Kept]
    unfold ModeEnds at hspec
    match modeLoop W correct gen mode 3 s, hspec with
    | (.passed metrics', s'), ⟨n, hn, m, hm, hfailing, hpasses, hv, hk, hpast, honly⟩ =>
      have hbetween : Between correct traceModes (if n = 0 then mode :: passed else [mode]) metrics' s' := by
        have hlast : (s'.version, mode, W.benchmark (s.checked.length + n)) ∈ s'.checked := (honly _).2 (.inl rfl)
        refine ⟨hpast, fun mode' => ?_, fun m' hm' => ?_⟩
        · constructor
          · intro hmem
            by_cases h0 : n = 0
            · rw [if_pos h0] at hmem
              rcases List.mem_cons.1 hmem with rfl | hmem
              · exact ⟨_, m, hlast, hpasses⟩
              · obtain ⟨b, m', hb, hpass⟩ := (hs.passed mode').1 hmem
                exact ⟨b, m', (honly _).2 (.inr ⟨h0, hb⟩), hpass⟩
            · rw [if_neg h0, List.mem_singleton] at hmem
              subst hmem
              exact ⟨_, m, hlast, hpasses⟩
          · rintro ⟨b, m', hb, hpass⟩
            rcases (honly _).1 hb with heq | ⟨h0, hold⟩
            · cases heq
              split
              · exact List.mem_cons_self ..
              · exact List.mem_singleton_self _
            · rw [if_pos h0]
              exact List.mem_cons_of_mem _ ((hs.passed mode').2 ⟨b, m', hold, hpass⟩)
        · rw [hm] at hm'
          cases hm'
          exact ⟨mode, hrest (List.mem_cons_self ..), _, hlast, hpasses⟩
      have ih := modesLoop_judges traceModes rest _ metrics' s' (fun a ha => hrest (List.mem_cons_of_mem _ ha))
        (fun _ h => by rw [hm] at h; cases h) hbetween
      rw [hk, hv] at ih
      refine ih.trans ⟨fun hkept => ⟨fun h3 => ?_, fun n' _ hfailing' ⟨m', hm'⟩ => ?_⟩, fun h =>
        h.2 n hn hfailing ⟨m, hpasses⟩⟩
      · exact not_fails_of_passes hpasses (h3 n hn).1
      · obtain rfl := fixes_unique hfailing hpasses hfailing' hm'
        exact hkept
    | (.stillFails, s'), ⟨hfailing, hv, honly⟩ =>
      constructor
      · rintro ⟨mode', -, b, hb, -⟩
        exact absurd (honly _ hb).1 (by decide)
      · intro h
        exact absurd hfailing h.1
    | (.raised, s'), ⟨hv, hnot, hnone⟩ =>
      exact iff_of_true trivial ⟨hnot, fun n hn hfailing ⟨m, hm⟩ => absurd hm (hnone n hn hfailing m)⟩

theorem modesLoop_version : ∀ (rest : List Bool) (metrics : Option M) (s : State (Bool × Benchmark M)), s.Past →
    (modesLoop W correct gen rest metrics s).2.version ≤ s.version + 3 * rest.length
  | [], _, s, _ => Nat.le_refl _
  | mode :: rest, metrics, s, hs => by
    have hspec : ModeEnds W correct mode 3 s (modeLoop W correct gen mode 3 s) := modeLoop_spec 3 s hs
    rw [modesLoop, List.length_cons]
    unfold ModeEnds at hspec
    match modeLoop W correct gen mode 3 s, hspec with
    | (.passed metrics', s'), ⟨n, hn, m, hm, hfailing, hpasses, hv, hk, hpast, honly⟩ =>
      have ih := modesLoop_version rest metrics' s' hpast
      simp only
      omega
    | (.stillFails, s'), ⟨_, hv, _⟩ =>
      simp only
      omega
    | (.raised, s'), ⟨hv, _⟩ =>
      simp only
      omega

theorem between_start (traceModes : List Bool) : Between correct traceModes [] none
    ({} : State (Bool × Benchmark M)) where
  past _ he := by cases he
  passed _ := ⟨fun h => (by cases h), fun ⟨_, _, h, _⟩ => (by cases h)⟩
  metrics _ h := by cases h

end

/-! ## `_run_post_stage_validate` -/

section
variable (W : World M)

/-- The hint that is added from the third failed callback on. -/
def hint : String :=
  "\nIMPORTANT: You have failed this check multiple times. " ++
  "Have you checked whether the issue is related to running with or without tracing enabled (trace_mode=True/False)? " ++
  "Make sure to test with trace_mode=True and False (and optimize=True) in your run tool calls to reproduce the issue. "

/-- The `while` loop; `attempts` as it stands before the turn. -/
def validateLoop : Nat → State Callback → End M × State Callback
  | 0, s => (.stillFails, s)
  | attempts + 1, s =>
    let c := W.callback s.checked.length
    let s := s.check c
    match c with
    | .raised => (.raised, s)
    | .passed => (.passed none, s)
    | .feedback text =>
      let returned := W.fixReturns s.version
      let s := s.exec (if attempts ≤ 10 - 3 then text ++ hint else text)
      if returned then validateLoop attempts s else (.raised, s)

def runPostStageValidate : End M × State Callback := validateLoop W 10 {}

/-- The loop gave up on a version whose callback returned feedback. -/
def JudgesCallback : End M × State Callback → Prop
  | (.stillFails, s) => ∃ text, (s.version, .feedback text) ∈ s.checked
  | _ => True

/-- The `n` callbacks from the `k`-th on return feedback, and the prompts that follow return. -/
def FeedbackFor (k p n : Nat) : Prop := ∀ i < n, (∃ text, W.callback (k + i) = .feedback text) ∧ W.fixReturns (p + i) = true

variable {W}

theorem feedbackFor_succ {k p n : Nat} : FeedbackFor W k p (n + 1) ↔
    ((∃ text, W.callback k = .feedback text) ∧ W.fixReturns p = true) ∧ FeedbackFor W (k + 1) (p + 1) n := by
  constructor
  · intro h
    refine ⟨h 0 (Nat.succ_pos n), fun i hi => ?_⟩
    have := h (i + 1) (Nat.succ_lt_succ hi)
    rwa [← Nat.add_assoc, ← Nat.add_assoc, Nat.add_right_comm, Nat.add_right_comm p] at this
  · rintro ⟨h0, h⟩ i hi
    cases i with
    | zero => exact h0
    | succ i =>
      have := h i (Nat.lt_of_succ_lt_succ hi)
      rwa [Nat.add_right_comm, Nat.add_right_comm p, Nat.add_assoc, Nat.add_assoc] at this

/-- The loop prompts at most once for each turn, and where it gives up it has not looked at the last version. -/
theorem validateLoop_spec : ∀ (attempts : Nat) (s : State Callback), s.Past →
    (validateLoop W attempts s).2.version ≤ s.version + attempts ∧
      (0 < attempts → (JudgesCallback (validateLoop W attempts s) ↔
        ¬ FeedbackFor W s.checked.length s.version attempts))
  | 0, s, _ => ⟨Nat.le_refl _, fun h => absurd h (by decide)⟩
  | attempts + 1, s, hs => by
    rw [validateLoop]
    cases hc : W.callback s.checked.length with
    | raised =>
      refine ⟨Nat.le_add_right _ _, fun _ => iff_of_true trivial fun h => ?_⟩
      obtain ⟨⟨⟨text, ht⟩, -⟩, -⟩ := feedbackFor_succ.1 h
      rw [hc] at ht
      cases ht
    | passed =>
      refine ⟨Nat.le_add_right _ _, fun _ => iff_of_true trivial fun h => ?_⟩
      obtain ⟨⟨⟨text, ht⟩, -⟩, -⟩ := feedbackFor_succ.1 h
      rw [hc] at ht
      cases ht
    | feedback text =>
      have hpast := (hs.check (.feedback text)).exec (if attempts ≤ 10 - 3 then text ++ hint else text)
      have hnew := (hs.check (.feedback text)).exec_unchecked (if attempts ≤ 10 - 3 then text ++ hint else text)
      have ih := validateLoop_spec attempts _ hpast
      have hk : ((s.check (.feedback text)).exec (if attempts ≤ 10 - 3 then text ++ hint else text)).checked.length =
          s.checked.length + 1 := by simp
      have hp : ((s.check (.feedback text)).exec (if attempts ≤ 10 - 3 then text ++ hint else text)).version =
          s.version + 1 := by simp
      rw [hk, hp] at ih
      by_cases hreturns : W.fixReturns (s.check (.feedback text)).version = true
      · dsimp only
        rw [if_pos hreturns]
        refine ⟨by omega, fun _ => ?_⟩
        have hfirst : (∃ text, W.callback s.checked.length = .feedback text) ∧ W.fixReturns s.version = true :=
          ⟨⟨text, hc⟩, hreturns⟩
        rw [feedbackFor_succ, and_iff_right hfirst]
        cases attempts with
        | zero =>
          -- the last prompt has returned and the loop is left without another callback
          refine iff_of_false ?_ fun h => h fun i hi => absurd hi (Nat.not_lt_zero i)
          rintro ⟨text', hin⟩
          exact hnew _ hin
        | succ attempts => exact ih.2 (Nat.succ_pos _)
      · dsimp only
        rw [if_neg hreturns]
        refine ⟨by simp, fun _ => iff_of_true trivial fun h => hreturns (feedbackFor_succ.1 h).1.2⟩

end

/-! ## Results -/

/-- **Which runs judge the version they end with.** `check_and_feedback_correctness` does iff no mode fails three times
and every mode was passed since the last fix; `_run_post_stage_validate` iff one of its ten callbacks or prompts ends
it. The prompts are bounded in every run. -/
theorem judges_iff (W : World M) (correct : M → Bool) (gen : Bool → String → String) (traceModes : List Bool) :
    ((Judges correct traceModes (checkAndFeedback W correct gen traceModes) ∧
        (checkAndFeedback W correct gen traceModes).2.prompts.length ≤ 3 * traceModes.length) ↔
      Kept W correct traceModes traceModes [] 0 0) ∧
    ((JudgesCallback (runPostStageValidate W) ∧ (runPostStageValidate W).2.prompts.length ≤ 10) ↔
      ¬ FeedbackFor W 0 0 10) := by
  have hstart : Between correct traceModes [] none {} := between_start traceModes
  have hjudges : Judges correct traceModes (checkAndFeedback W correct gen traceModes) ↔
      Kept W correct traceModes traceModes [] 0 0 :=
    modesLoop_judges traceModes traceModes [] none {} (fun _ h => h) (fun h _ => h) hstart
  have hbound : (checkAndFeedback W correct gen traceModes).2.version ≤ 0 + 3 * traceModes.length :=
    modesLoop_version traceModes none {} hstart.past
  have hvalidate := validateLoop_spec (W := W) 10 {} (fun _ he => by cases he)
  constructor
  · rw [← hjudges]
    refine and_iff_left ?_
    simpa [State.version] using hbound
  · rw [← show _ ↔ ¬ FeedbackFor W 0 0 10 from hvalidate.2 (by decide)]
    refine and_iff_left ?_
    have : (runPostStageValidate W).2.version ≤ 0 + 10 := hvalidate.1
    simpa [State.version] using this

/-- The correct flag of a benchmark as its metrics. -/
def flags (outcomes : List Bool) (callback : Callback) : World Bool where
  benchmark n := .done (some "") outcomes[n]?
  callback _ := callback
  fixReturns _ := true

/-- Both modes are asked for. Without tracing the first version passes; with tracing it fails, the fix passes, and the
fixed version is returned without a check without tracing. And ten times feedback end with a tenth fix that nobody
looks at. -/
theorem fix_not_judged :
    (checkAndFeedback (flags [true, false, true] .passed) id (fun _ _ => "") [false, true]).1 = .passed (some true) ∧
    ¬ Judges id [false, true] (checkAndFeedback (flags [true, false, true] .passed) id (fun _ _ => "") [false, true]) ∧
    (runPostStageValidate (flags [] (.feedback ""))).1 = .stillFails ∧
    ¬ JudgesCallback (runPostStageValidate (flags [] (.feedback ""))) := by
  refine ⟨rfl, ?_, rfl, ?_⟩
  · rintro ⟨hall, -⟩
    obtain ⟨b, m, hb, hpass⟩ := hall false (by decide)
    have hchecked : ((1 : Nat), false, b) ∈ [(0, false, .done (some "") (some true)),
        (0, true, .done (some "") (some false)), (1, true, .done (some "") (some true))] := hb
    simp at hchecked
  · rintro ⟨text, hin⟩
    have hpast : ∀ e ∈ (runPostStageValidate (flags [] (.feedback ""))).2.checked, e.1 ≤ 9 := by
      intro e he
      have : ((runPostStageValidate (flags [] (.feedback ""))).2.checked.map Prod.fst) = List.range 10 := rfl
      have he' := List.mem_map_of_mem (f := Prod.fst) he
      rw [this, List.mem_range] at he'
      omega
    have hlast : 10 ≤ 9 := hpast (10, .feedback text) hin
    omega

end SynnoDB.Conversations.CorrectnessLoops
