import Mathlib

/-!
# Stages that revert (`conversation_engine.py:96-114`, `:502-523`, `:651-865`, `:970-1024`, `:1161-1188`)

| here | there |
| --- | --- |
| `Outcome`      | how a benchmark of the query ends: an exception, no metrics, `validation/correct` false, or true with its runtime, if any |
| `Outcome.time` | `extract_speedup_of_last_snapshot`; `⊤` is `float("inf")` |
| `World`        | what the n-th prompt leaves in the workspace and whether it returns; the n-th benchmark; whether tracing and `restore` return |
| `Conversation` | the version in the workspace, `query_rt_log` of the query, and **all benchmarks so far with the version they ran** |
| `Option`       | `none`: `_run_stage_with_revert_monitoring` ends in an exception |

Left out: the texts, the supervision, the debug log, the speedups and `post_stage_validate`. A failed benchmark
counts as an infinite runtime, and anything is better than no runtime at all: without a runtime before the stage
**a failed version is kept** (`failed_version_kept`). The rollback ends with a benchmark that may be wrong, then
with another version of the model's that is benchmarked but not judged.
-/

namespace SynnoDB.Conversations

variable {V ρ : Type}

inductive Outcome (ρ : Type) where
  | raised
  | noMetrics
  | wrong
  | correct (runtime : Option ρ)
  deriving DecidableEq

/-- The runtime that was measured. -/
def Outcome.runtime : Outcome ρ → Option ρ
  | .correct runtime => runtime
  | _ => none

def Outcome.time : Outcome ρ → WithTop ρ
  | .correct (some t) => t
  | _ => ⊤

structure PromptStage where
  withTracing : Bool := false
  measurePerformanceAfterStage : Bool := true
  autoRevertOnRegression : Bool := true
  feedbackOnIncorrect : Bool := false

structure World (V ρ : Type) where
  edit : Nat → V × Bool
  outcome : Nat → Outcome ρ
  traces : Bool := true
  restores : Bool := true

structure Conversation (V ρ : Type) where
  version : V
  rtLog : Option (WithTop ρ) := none
  prompts : Nat := 0
  measured : List (V × Outcome ρ) := []

/-- How the measurement after a stage ends; `stillFails` is `ValidationStillFailsException`. -/
inductive Measurement (ρ : Type) where
  | time (rt : WithTop ρ)
  | failed
  | stillFails

structure StageResult (ρ : Type) where
  rtBefore : Option (WithTop ρ)
  rtAfter : WithTop ρ

section
variable (W : World V ρ)

/-- The outcome of the next benchmark. -/
def next (s : Conversation V ρ) : Outcome ρ := W.outcome s.measured.length

/-- `_run_tool_benchmark`. -/
def runTool (s : Conversation V ρ) : Conversation V ρ := { s with measured := s.measured ++ [(s.version, next W s)] }

/-- `_exec`, and whether it returns. -/
def exec (s : Conversation V ρ) : Conversation V ρ × Bool :=
  ({ s with version := (W.edit s.prompts).1, prompts := s.prompts + 1 }, (W.edit s.prompts).2)

/-- `_measure_query_rt_s`, in a loop; outside of one nothing is measured before a stage. -/
def measureBefore (measureRtBefore : Bool) (s : Conversation V ρ) : Option (Option (WithTop ρ) × Conversation V ρ) :=
  if measureRtBefore then
    match next W s with
    | .raised | .noMetrics => none
    | o => some (some o.time, { runTool W s with rtLog := some o.time })
  else some (none, s)

/-- `check_and_feedback_correctness`, with `attempts` left. -/
def checkAndFeedback : Nat → Conversation V ρ → Measurement ρ × Conversation V ρ
  | 0, s => (.stillFails, s)
  | attempts + 1, s => match next W s with
    | .correct runtime => (.time (Outcome.correct runtime).time, runTool W s)
    | .raised => (.failed, runTool W s)
    | .noMetrics | .wrong =>
      let (s, returned) := exec W (runTool W s)
      if returned then checkAndFeedback attempts s else (.failed, s)

/-- The `try` block after the prompt. -/
def measureAfter (stage : PromptStage) (s : Conversation V ρ) : Measurement ρ × Conversation V ρ :=
  match next W s with
  | .correct runtime => (.time (Outcome.correct runtime).time, runTool W s)
  | .wrong => if stage.feedbackOnIncorrect then checkAndFeedback W 3 (runTool W s) else (.failed, runTool W s)
  | .raised | .noMetrics => (.failed, runTool W s)

/-- `_revert_stage`. -/
def revertStage (snapshot : V) (s : Conversation V ρ) : Option (Conversation V ρ) :=
  if !W.restores then none
  else
    let s := { s with version := snapshot }
    match next W s with
    | .raised | .noMetrics => none
    | .correct runtime => some { runTool W s with rtLog := some (Outcome.correct runtime).time }
    | .wrong =>
      let (s, returned) := exec W (runTool W s)
      if !returned then none
      else match next W s with
        | .raised | .noMetrics => none
        | o => some { runTool W s with rtLog := some o.time }

end

section
variable [LinearOrder ρ]

/-- `StageResult.improved`. -/
def StageResult.improved (r : StageResult ρ) : Bool :=
  match r.rtBefore with
  | none => true
  | some b => r.rtAfter < b

/-- `_run_stage_with_revert_monitoring`. -/
def runStage (W : World V ρ) (stage : PromptStage) (measureRtBefore : Bool) (snapshot : V) (s : Conversation V ρ) :
    Option (Option (StageResult ρ) × Conversation V ρ) :=
  match measureBefore W measureRtBefore s with
  | none => none
  | some (rtBefore, s) =>
    if stage.withTracing && !W.traces then none
    else
      let (s, returned) := exec W s
      if !returned then none
      else if !stage.measurePerformanceAfterStage then some (none, s)
      else match measureAfter W stage s with
        | (.stillFails, _) => none
        | (.time rt, s) => finish ⟨rtBefore, rt⟩ { s with rtLog := some rt }
        | (.failed, s) => finish ⟨rtBefore, ⊤⟩ s
where
  /-- From the comparison on. -/
  finish (result : StageResult ρ) (s : Conversation V ρ) : Option (Option (StageResult ρ) × Conversation V ρ) :=
    if !result.improved && stage.autoRevertOnRegression then (revertStage W snapshot s).map fun s => (some result, s)
    else some (some result, s)

/-! ## What a stage must leave -/

/-- The runtime last measured for the version. -/
def lastRuntime [DecidableEq V] (measured : List (V × Outcome ρ)) (v : V) : Option ρ :=
  (measured.filterMap fun m => if m.1 = v then m.2.runtime else none).getLast?

/-- The version was measured correct, and faster than what was measured before. -/
def Better (rtBefore : Option (WithTop ρ)) (measured : List (V × Outcome ρ)) (v : V) : Prop :=
  ∃ runtime, (v, .correct runtime) ∈ measured ∧ ∀ b : ρ, rtBefore = some b → ∃ t, runtime = some t ∧ t < b

/-- Of what came after `start` benchmarks. -/
structure NeverWorse [DecidableEq V] (start : Nat) (snapshot : V) (r : StageResult ρ) (s : Conversation V ρ) : Prop where
  version : s.version = snapshot ∨ Better r.rtBefore (s.measured.drop start) s.version
  log : s.rtLog = (lastRuntime s.measured s.version).map (↑)

/-- The benchmark of the snapshot has a runtime; or it is wrong, and the repair is the snapshot or faster than
before. -/
def RollsBack (W : World V ρ) (rtBefore : Option (WithTop ρ)) (snapshot : V) (s : Conversation V ρ) : Prop :=
  match W.outcome s.measured.length with
  | .raised | .noMetrics => True
  | .correct runtime => runtime ≠ none
  | .wrong => (W.edit s.prompts).2 = true → match W.outcome (s.measured.length + 1) with
    | .raised | .noMetrics => True
    | .wrong => False
    | .correct runtime => ∃ t, runtime = some t ∧
        ((W.edit s.prompts).1 = snapshot ∨ ∀ b : ρ, rtBefore = some b → t < b)

/-- The condition, from the prompt on: `s₁` is what the prompt finds. -/
def SoundAfter [DecidableEq V] (W : World V ρ) (stage : PromptStage) (rtBefore : Option (WithTop ρ)) (snapshot : V)
    (s₁ : Conversation V ρ) : Prop :=
  match measureAfter W stage (exec W s₁).1 with
  | (.stillFails, _) => True
  | (.time rt, s₂) => if (StageResult.mk rtBefore rt).improved then rt ≠ ⊤ else RollsBack W rtBefore snapshot s₂
  | (.failed, s₂) =>
    if rtBefore = none then s₂.version = snapshot ∧ s₁.rtLog = (lastRuntime s₁.measured snapshot).map (↑)
    else RollsBack W rtBefore snapshot s₂

/-- **The condition on a stage**: a version that is kept was measured with a runtime, or it is the snapshot with
its runtime in the log; and a rollback goes well. -/
def Sound [DecidableEq V] (W : World V ρ) (stage : PromptStage) (measureRtBefore : Bool) (snapshot : V)
    (s : Conversation V ρ) : Prop :=
  ∀ rtBefore s₁, measureBefore W measureRtBefore s = some (rtBefore, s₁) → SoundAfter W stage rtBefore snapshot s₁

end

/-! ## What is measured when -/

section
variable {W : World V ρ} {s s' : Conversation V ρ}

theorem measureBefore_spec {b : Bool} {rtBefore : Option (WithTop ρ)} (h : measureBefore W b s = some (rtBefore, s')) :
    s'.measured.length = s.measured.length + b.toNat := by
  unfold measureBefore at h
  cases b with
  | false =>
    cases h
    rfl
  | true =>
    rw [if_pos rfl] at h
    split at h
    · cases h
    · cases h
    · cases h
      simp [runTool]

/-- The benchmarks of a measurement: none of them is correct but the last one of a measurement that ends with a
runtime. -/
structure Tried (s s' : Conversation V ρ) (tried final : List (V × Outcome ρ)) : Prop where
  measured : s'.measured = s.measured ++ tried ++ final
  incorrect : ∀ m ∈ tried, ∀ runtime, m.2 ≠ .correct runtime
  rtLog : s'.rtLog = s.rtLog

/-- What the last benchmark was. -/
def Measurement.Ends (m : Measurement ρ) (s' : Conversation V ρ) (final : List (V × Outcome ρ)) : Prop :=
  match m with
  | .time rt => ∃ runtime, final = [(s'.version, .correct runtime)] ∧ rt = (Outcome.correct runtime).time
  | .failed | .stillFails => final = []

/-- One more benchmark that is not correct. -/
theorem Tried.cons {s₁ : Conversation V ρ} {o : Outcome ρ} {tried final : List (V × Outcome ρ)} (ho : next W s = o)
    (h : Tried s₁ s' tried final) (hm : s₁.measured = (runTool W s).measured) (hl : s₁.rtLog = s.rtLog)
    (hne : ∀ runtime, o ≠ .correct runtime) : Tried s s' ((s.version, o) :: tried) final := by
  refine ⟨by rw [h.measured, hm, runTool, ho]; simp, fun m hmem => ?_, h.rtLog.trans hl⟩
  rcases List.mem_cons.1 hmem with rfl | hmem
  · exact hne
  · exact h.incorrect m hmem

theorem Tried.refl (s : Conversation V ρ) : Tried s s [] [] := ⟨by simp, by simp, rfl⟩

theorem tried_correct (s : Conversation V ρ) {runtime : Option ρ} (ho : next W s = .correct runtime) :
    Tried s (runTool W s) [] [(s.version, .correct runtime)] :=
  ⟨by simp [runTool, ho], by simp, rfl⟩

theorem checkAndFeedback_spec : ∀ {attempts : Nat} {s s' : Conversation V ρ} {m : Measurement ρ},
    checkAndFeedback W attempts s = (m, s') → ∃ tried final, Tried s s' tried final ∧ m.Ends s' final
  | 0, s, s', m, h => by
    cases h
    exact ⟨[], [], .refl s, rfl⟩
  | attempts + 1, s, s', m, h => by
    -- an incorrect benchmark, the next prompt, and the attempts that are left
    have hloop : ∀ o : Outcome ρ, next W s = o → (∀ runtime, o ≠ .correct runtime) →
        (if (exec W (runTool W s)).2 then checkAndFeedback W attempts (exec W (runTool W s)).1
          else (.failed, (exec W (runTool W s)).1)) = (m, s') → ∃ tried final, Tried s s' tried final ∧
            m.Ends s' final := by
      intro o ho hne h
      split at h
      · obtain ⟨tried, final, ht, he⟩ := checkAndFeedback_spec h
        exact ⟨_, final, ht.cons ho rfl rfl hne, he⟩
      · cases h
        exact ⟨_, [], (Tried.refl _).cons ho rfl rfl hne, rfl⟩
    unfold checkAndFeedback at h
    split at h
    · next runtime ho =>
      cases h
      exact ⟨[], _, tried_correct s ho, runtime, rfl, rfl⟩
    · next ho =>
      cases h
      exact ⟨_, [], (Tried.refl _).cons ho rfl rfl (by simp), rfl⟩
    · next ho => exact hloop _ ho (by simp) h
    · next ho => exact hloop _ ho (by simp) h

theorem measureAfter_spec {stage : PromptStage} {m : Measurement ρ} (h : measureAfter W stage s = (m, s')) :
    ∃ tried final, Tried s s' tried final ∧ m.Ends s' final := by
  unfold measureAfter at h
  split at h
  · next runtime ho =>
    cases h
    exact ⟨[], _, tried_correct s ho, runtime, rfl, rfl⟩
  · next ho =>
    split at h
    · obtain ⟨tried, final, ht, he⟩ := checkAndFeedback_spec h
      exact ⟨_, final, ht.cons ho rfl rfl (by simp), he⟩
    · cases h
      exact ⟨_, [], (Tried.refl _).cons ho rfl rfl (by simp), rfl⟩
  · next ho =>
    cases h
    exact ⟨_, [], (Tried.refl _).cons ho rfl rfl (by simp), rfl⟩
  · next ho =>
    cases h
    exact ⟨_, [], (Tried.refl _).cons ho rfl rfl (by simp), rfl⟩

end

/-! ## The log -/

section
variable [DecidableEq V] {measured tried : List (V × Outcome ρ)} {v w : V} {o : Outcome ρ}

theorem lastRuntime_concat (measured : List (V × Outcome ρ)) (v : V) (o : Outcome ρ) :
    lastRuntime (measured ++ [(v, o)]) v = o.runtime.or (lastRuntime measured v) := by
  cases ho : o.runtime with
  | none => simp [lastRuntime, ho]
  | some t => simp [lastRuntime, ho]

theorem lastRuntime_incorrect (ht : ∀ m ∈ tried, ∀ runtime, m.2 ≠ .correct runtime) :
    lastRuntime (measured ++ tried) v = lastRuntime measured v := by
  have hnone : tried.filterMap (fun m => if m.1 = v then m.2.runtime else none) = [] := by
    rw [List.filterMap_eq_nil_iff]
    intro m hm
    split
    · cases ho : m.2 with
      | correct runtime => exact absurd ho (ht m hm runtime)
      | _ => rfl
    · rfl
  rw [lastRuntime, List.filterMap_append, hnone, List.append_nil, lastRuntime]

/-- The log is right after a benchmark exactly if it had a runtime. -/
theorem log_iff (measured : List (V × Outcome ρ)) (v : V) (o : Outcome ρ) :
    some o.time = (lastRuntime (measured ++ [(v, o)]) v).map ((↑) : ρ → WithTop ρ) ↔ o.runtime ≠ none := by
  rw [lastRuntime_concat]
  cases o with
  | correct runtime =>
    cases runtime with
    | none => simp [Outcome.time, Outcome.runtime]
    | some t => simp [Outcome.time, Outcome.runtime]
  | _ => simp [Outcome.time, Outcome.runtime]

end

/-! ## The stage -/

section
variable [LinearOrder ρ] [DecidableEq V] {W : World V ρ} {s s' : Conversation V ρ} {snapshot : V} {start : Nat}

/-- What was measured after the stage is not faster than what was measured before. -/
def NotFaster (rtBefore : Option (WithTop ρ)) (measured : List (V × Outcome ρ)) : Prop :=
  ∀ b : ρ, rtBefore = some b → ∀ m ∈ measured, ∀ t, m.2 = .correct (some t) → ¬ t < b

/-- The repair after a rollback, of which only the last benchmark counts. -/
theorem repair_iff {r : StageResult ρ} {s₂ : Conversation V ρ} {before : List (V × Outcome ρ)} {o : Outcome ρ}
    (hslow : NotFaster r.rtBefore (before.drop start)) (hstart : start ≤ before.length)
    (hmeasured : s₂.measured = before ++ [(snapshot, .wrong)] ++ [(s₂.version, o)]) (hlog : s₂.rtLog = some o.time) :
    NeverWorse start snapshot r s₂ ↔ ∃ t, o = .correct (some t) ∧
      (s₂.version = snapshot ∨ ∀ b : ρ, r.rtBefore = some b → t < b) := by
  have hlogs := log_iff (before ++ [(snapshot, .wrong)]) s₂.version o
  rw [← hmeasured, ← hlog] at hlogs
  have hdrop : s₂.measured.drop start = before.drop start ++ [(snapshot, .wrong), (s₂.version, o)] := by
    rw [hmeasured, List.append_assoc, List.drop_append_of_le_length hstart]
    rfl
  constructor
  · rintro ⟨hversion, hl⟩
    obtain ⟨runtime, rfl⟩ : ∃ runtime, o = .correct runtime := by
      cases o with
      | correct runtime => exact ⟨runtime, rfl⟩
      | _ => exact absurd rfl (hlogs.1 hl)
    obtain ⟨t, ht⟩ := Option.ne_none_iff_exists'.1 (hlogs.1 hl)
    replace ht : runtime = some t := ht
    subst ht
    refine ⟨t, rfl, hversion.imp_right ?_⟩
    rintro ⟨runtime, hmem, hbetter⟩ b hb
    obtain ⟨t', rfl, hlt⟩ := hbetter b hb
    rw [hdrop] at hmem
    rcases List.mem_append.1 hmem with hmem | hmem
    · exact absurd hlt (hslow b hb _ hmem t' rfl)
    · simp only [List.mem_cons, Prod.mk.injEq, reduceCtorEq, and_false, Outcome.correct.injEq,
        Option.some.injEq, true_and,
        List.not_mem_nil, or_false, false_or] at hmem
      exact hmem ▸ hlt
  · rintro ⟨t, rfl, hversion⟩
    refine ⟨hversion.imp_right fun hfast => ⟨some t, ?_, fun b hb => ⟨t, rfl, hfast b hb⟩⟩,
      hlogs.2 (by simp [Outcome.runtime])⟩
    rw [hdrop]
    simp

/-- **The rollback**: when it ends well. -/
theorem revert_iff {r : StageResult ρ} (hstart : start ≤ s.measured.length)
    (hslow : NotFaster r.rtBefore (s.measured.drop start)) (h : revertStage W snapshot s = some s') :
    NeverWorse start snapshot r s' ↔ RollsBack W r.rtBefore snapshot s := by
  unfold revertStage at h
  unfold RollsBack
  split at h
  · cases h
  · simp only [next] at h
    cases ho : W.outcome s.measured.length with
    | raised => simp [ho] at h
    | noMetrics => simp [ho] at h
    | correct runtime =>
      simp only [ho] at h
      cases h
      have hlog := log_iff s.measured snapshot (.correct runtime)
      refine ⟨fun hn => hlog.1 ?_, fun hr => ⟨.inl rfl, ?_⟩⟩
      · simpa [runTool, next, ho] using hn.log
      · simpa [runTool, next, ho] using hlog.2 hr
    | wrong =>
      simp only [ho] at h
      split at h
      · cases h
      · next hreturned =>
        replace hreturned : (W.edit s.prompts).2 = true := by simpa [exec, runTool] using hreturned
        have hlen : (exec W (runTool W { s with version := snapshot })).1.measured.length = s.measured.length + 1 := by
          simp [exec, runTool]
        rw [hlen] at h
        have hrepair : ∀ o : Outcome ρ, W.outcome (s.measured.length + 1) = o →
            some { runTool W (exec W (runTool W { s with version := snapshot })).1 with rtLog := some o.time } =
              some s' →
            (NeverWorse start snapshot r s' ↔ ∃ t, o = .correct (some t) ∧
              ((W.edit s.prompts).1 = snapshot ∨ ∀ b : ρ, r.rtBefore = some b → t < b)) := by
          rintro o ho' h
          cases h
          exact repair_iff hslow hstart (by simp [exec, runTool, next, ho, ho']) rfl
        simp only [hreturned, true_imp_iff]
        cases ho' : W.outcome (s.measured.length + 1) with
        | raised => simp [ho'] at h
        | noMetrics => simp [ho'] at h
        | wrong =>
          simp only [ho'] at h
          simpa using hrepair _ ho' h
        | correct runtime =>
          simp only [ho'] at h
          simpa using hrepair _ ho' h

/-- A stage that is kept after a benchmark that was correct. -/
theorem kept_iff {rtBefore : Option (WithTop ρ)} {s₁ s₂ : Conversation V ρ} {rt : WithTop ρ} {runtime : Option ρ}
    {tried : List (V × Outcome ρ)} (hstart : start = s₁.measured.length)
    (ht : Tried s₁ s₂ tried [(s₂.version, .correct runtime)]) (hrt : rt = (Outcome.correct runtime).time)
    (himp : (StageResult.mk rtBefore rt).improved = true) :
    NeverWorse start snapshot ⟨rtBefore, rt⟩ { s₂ with rtLog := some rt } ↔ rt ≠ ⊤ := by
  have hlog := log_iff (s₁.measured ++ tried) s₂.version (.correct runtime)
  rw [← ht.measured, ← hrt] at hlog
  have htop : rt ≠ ⊤ ↔ (Outcome.correct runtime).runtime ≠ none := by
    rw [hrt]
    cases runtime <;> simp [Outcome.time, Outcome.runtime]
  refine ⟨fun hn => htop.2 (hlog.1 hn.log), fun hne => ⟨.inr ⟨runtime, ?_, fun b hb => ?_⟩, hlog.2 (htop.1 hne)⟩⟩
  · rw [ht.measured, hstart]
    simp
  · -- an improvement on a finite runtime is finite
    replace hb : rtBefore = some (b : WithTop ρ) := hb
    simp only [StageResult.improved, hb, decide_eq_true_eq] at himp
    cases runtime with
    | none => exact absurd himp (by simp [hrt, Outcome.time])
    | some t => exact ⟨t, rfl, by simpa [hrt, Outcome.time] using himp⟩

/-- A stage that is kept although its version could not be measured. -/
theorem failed_iff {s₁ s₂ : Conversation V ρ} {tried : List (V × Outcome ρ)} (hstart : start = s₁.measured.length)
    (ht : Tried s₁ s₂ tried []) :
    NeverWorse start snapshot ⟨none, ⊤⟩ s₂ ↔
      s₂.version = snapshot ∧ s₁.rtLog = (lastRuntime s₁.measured snapshot).map (↑) := by
  have hmeasured : s₂.measured = s₁.measured ++ tried := by simpa using ht.measured
  have hlast : ∀ v, lastRuntime s₂.measured v = lastRuntime s₁.measured v := by
    intro v
    rw [hmeasured]
    exact lastRuntime_incorrect ht.incorrect
  have hbad : ∀ v, ¬ Better (none : Option (WithTop ρ)) (s₂.measured.drop start) v := by
    rintro v ⟨runtime, hmem, -⟩
    rw [hmeasured, hstart, List.drop_left] at hmem
    exact ht.incorrect _ hmem runtime rfl
  constructor
  · rintro ⟨hversion, hl⟩
    have hv := hversion.resolve_right (hbad _)
    exact ⟨hv, by rw [← ht.rtLog, hl, hlast, hv]⟩
  · rintro ⟨hv, hl⟩
    exact ⟨.inl hv, by rw [ht.rtLog, hl, hlast, hv]⟩

theorem after_iff {stage : PromptStage} (hr : stage.autoRevertOnRegression = true) {rtBefore : Option (WithTop ρ)}
    {s₁ : Conversation V ρ} {r : StageResult ρ} (hstart : start = s₁.measured.length)
    (h : (match measureAfter W stage (exec W s₁).1 with
      | (.stillFails, _) => none
      | (.time rt, s) => runStage.finish W stage snapshot ⟨rtBefore, rt⟩ { s with rtLog := some rt }
      | (.failed, s) => runStage.finish W stage snapshot ⟨rtBefore, ⊤⟩ s) = some (some r, s')) :
    NeverWorse start snapshot r s' ↔ SoundAfter W stage rtBefore snapshot s₁ := by
  cases hmeasure : measureAfter W stage (exec W s₁).1 with
  | mk m s₂ =>
    obtain ⟨tried, final, ht, hends⟩ := measureAfter_spec hmeasure
    replace ht : Tried s₁ s₂ tried final := ⟨ht.measured, ht.incorrect, ht.rtLog⟩
    have hle : start ≤ s₂.measured.length := by simp [ht.measured, hstart]
    have hdrop : s₂.measured.drop start = tried ++ final := by simp [ht.measured, hstart]
    simp only [SoundAfter, hmeasure] at h ⊢
    cases m with
    | stillFails => simp at h
    | time rt =>
      obtain ⟨runtime, rfl, hrt⟩ := hends
      simp only [runStage.finish, hr, Bool.and_true, Bool.not_eq_true'] at h ⊢
      by_cases himp : (StageResult.mk rtBefore rt).improved = true
      · simp only [himp, Bool.true_eq_false, if_false, if_true, Option.some.injEq, Prod.mk.injEq] at h ⊢
        obtain ⟨rfl, rfl⟩ := h
        exact kept_iff hstart ht hrt himp
      · simp only [himp, if_true, Bool.false_eq_true, if_false] at h ⊢
        obtain ⟨s₃, hrevert, heq⟩ := Option.map_eq_some_iff.1 h
        cases heq
        refine revert_iff (s := { s₂ with rtLog := some rt }) hle (fun b hb m hmem t hm hlt => himp ?_) hrevert
        -- the one correct benchmark is the one that was compared
        replace hmem : m ∈ s₂.measured.drop start := hmem
        rw [hdrop] at hmem
        rcases List.mem_append.1 hmem with hmem | hmem
        · exact absurd hm (ht.incorrect m hmem _)
        · cases List.mem_singleton.1 hmem
          replace hb : rtBefore = some (b : WithTop ρ) := hb
          replace hm : runtime = some t := by simpa using hm
          simpa [StageResult.improved, hb, hrt, hm, Outcome.time] using hlt
    | failed =>
      obtain rfl : final = [] := hends
      rw [List.append_nil] at hdrop
      simp only [runStage.finish, hr, Bool.and_true, Bool.not_eq_true'] at h ⊢
      cases hb : rtBefore with
      | none =>
        subst hb
        simp only [StageResult.improved, Bool.true_eq_false, if_false, if_true, Option.some.injEq, Prod.mk.injEq] at h ⊢
        obtain ⟨rfl, rfl⟩ := h
        exact failed_iff hstart ht
      | some b =>
        subst hb
        simp only [StageResult.improved, not_top_lt, decide_false, if_true, reduceCtorEq, if_false] at h ⊢
        obtain ⟨s₃, hrevert, heq⟩ := Option.map_eq_some_iff.1 h
        cases heq
        refine revert_iff hle (fun b hb m hmem t hm _ => ?_) hrevert
        rw [hdrop] at hmem
        exact ht.incorrect m hmem _ hm

/-- **A reverting stage never leaves a worse version**, exactly under the condition. -/
theorem never_worse_iff (W : World V ρ) (stage : PromptStage) (hm : stage.measurePerformanceAfterStage = true)
    (hr : stage.autoRevertOnRegression = true) (measureRtBefore : Bool) (snapshot : V) {s s' : Conversation V ρ}
    {r : StageResult ρ} (h : runStage W stage measureRtBefore snapshot s = some (some r, s')) :
    NeverWorse (s.measured.length + measureRtBefore.toNat) snapshot r s' ↔ Sound W stage measureRtBefore snapshot s := by
  unfold runStage at h
  split at h
  · cases h
  · next rtBefore s₁ hbefore =>
    have hlen := measureBefore_spec hbefore
    have hsound : Sound W stage measureRtBefore snapshot s ↔ SoundAfter W stage rtBefore snapshot s₁ := by
      refine ⟨fun hs => hs _ _ hbefore, fun hs b s₂ hb => ?_⟩
      cases hbefore.symm.trans hb
      exact hs
    rw [hsound]
    by_cases htrace : (stage.withTracing && !W.traces) = true
    · simp [htrace] at h
    · rw [if_neg htrace] at h
      cases hret : (exec W s₁).2 with
      | false => simp [hret] at h
      | true =>
        simp only [hret, hm, Bool.not_true, Bool.false_eq_true, if_false] at h
        exact after_iff hr hlen.symm h

end

/-! ## Three stages -/

/-- The snapshot is version 0, each prompt leaves the next version, and the benchmarks end as listed. -/
def scripted (outcomes : List (Outcome Nat)) : World Nat Nat :=
  { edit := fun n => (n + 1, true), outcome := fun n => outcomes.getD n .raised }

/-- Slower than before, and rolled back. -/
def slower : World Nat Nat := scripted [.correct (some 5), .correct (some 7), .correct (some 6)]

theorem never_worse_slower : ∃ r s', runStage slower {} true 0 { version := 0 } = some (some r, s') ∧ s'.version = 0 ∧
    s'.rtLog = some ((6 : Nat) : WithTop Nat) ∧
    NeverWorse (({ version := 0 } : Conversation Nat Nat).measured.length + 1) 0 r s' := by
  obtain ⟨r, s', hrun, hversion, hlog⟩ : ∃ r s', runStage slower {} true 0 { version := 0 } = some (some r, s') ∧
      s'.version = 0 ∧ s'.rtLog = some ((6 : Nat) : WithTop Nat) := ⟨_, _, rfl, rfl, rfl⟩
  refine ⟨r, s', hrun, hversion, hlog, (never_worse_iff slower {} rfl rfl true 0 hrun).2 ?_⟩
  intro rtBefore s₁ hbefore
  cases hbefore
  show if (StageResult.mk (some ((5 : Nat) : WithTop Nat)) ((7 : Nat) : WithTop Nat)).improved then ((7 : Nat) : WithTop Nat) ≠ ⊤
    else RollsBack slower (some ((5 : Nat) : WithTop Nat)) 0
      (runTool slower (exec slower { runTool slower { version := 0 } with rtLog := some ((5 : Nat) : WithTop Nat) }).1)
  rw [if_neg (by decide)]
  exact Option.some_ne_none _

/-- Outside a loop nothing is measured before, and a wrong version is kept. -/
theorem failed_version_kept :
    runStage (scripted [.wrong]) {} false 0 { version := 0 } =
      some (some ⟨none, ⊤⟩, { version := 1, prompts := 1, measured := [(1, .wrong)] }) ∧
    ¬ ∀ (W : World Nat Nat) (stage : PromptStage) (measureRtBefore : Bool) (snapshot : Nat) (s s' : Conversation Nat Nat)
      (r : StageResult Nat), stage.measurePerformanceAfterStage = true → stage.autoRevertOnRegression = true →
      runStage W stage measureRtBefore snapshot s = some (some r, s') →
        NeverWorse (s.measured.length + measureRtBefore.toNat) snapshot r s' := by
  have hrun : runStage (scripted [.wrong]) {} false 0 { version := 0 } =
      some (some ⟨none, ⊤⟩, { version := 1, prompts := 1, measured := [(1, .wrong)] }) := rfl
  refine ⟨hrun, fun hall => ?_⟩
  rcases (hall _ _ _ _ _ _ _ rfl rfl hrun).version with h | ⟨runtime, hmem, -⟩
  · cases h
  · simp at hmem

/-- The stage fails in a loop, and the snapshot is then measured wrong as well. -/
def alwaysWrong : World Nat Nat := scripted [.correct (some 5), .wrong, .wrong, .wrong]

/-- What the model makes of a snapshot that is measured wrong is kept whatever it is. -/
theorem repair_not_judged :
    (runStage alwaysWrong {} true 0 { version := 0 }).map (fun x => (x.2.version, x.2.measured)) =
        some (2, [(0, .correct (some 5)), (1, .wrong), (0, .wrong), (2, .wrong)]) ∧
      ¬ Sound alwaysWrong {} true 0 { version := 0 } := by
  refine ⟨rfl, fun hs => ?_⟩
  have hrepair := hs _ _ rfl
  exact hrepair rfl

end SynnoDB.Conversations
