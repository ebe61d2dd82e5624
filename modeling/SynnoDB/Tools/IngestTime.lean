import Mathlib.Data.List.Basic
import Mathlib.Logic.Function.Basic
import SynnoDB.Tools.DiffRepair

/-!
# The ingest time of a batch

`tools/run.py:856-953`, `tools/validate/query_validator_class.py:150-430`,
`conversations/examples/base_impl.py:363-451`.

| here | there |
| --- | --- |
| `Clock`        | `float(text)` and the sentinel `-1` |
| `RunOutput`    | a `HotpatchProcRunResult`; `ingested` is the time of the ingest that the run completed, which the code cannot see |
| `Execution`    | one call of `call_hotpatch_proc`: the first run, and the one after an `std::bad_alloc` |
| `Report`       | the `ingest_time_ms` of a verdict; `latest` is the time of the latest ingest of the build it was made for |
| `Runner.cache` | the pickled verdicts |
| `runWorker`    | `run_worker`; a batch that is not accepted does not compile, or asks for an unknown query |
| `nextPrompt`   | `OptimizeBuildStage.next_prompt` |

**A time is reported for the right build iff the output tells it, or nothing and the last time that the runner has
read is the build's** (`told_iff`). The code never reports that there is none: it has `-1` for that, and its reader
asks for `None` (`failed_loader`).
-/

namespace SynnoDB.Tools.IngestTime

open DiffRepair (splitlines)

abbrev Text := List Char

variable {Key Build Time : Type}

structure Clock (Time : Type) where
  float : Text → Option Time
  minusOne : Time

structure RunOutput (Time : Type) where
  stdout : Text
  stderr : Text
  queryResults : Nat
  ingested : Option Time

structure Execution (Build Time : Type) where
  build : Build
  first : RunOutput Time
  again : RunOutput Time

/-- `part in text`. -/
def contains (part text : Text) : Bool := text.tails.any fun t => part.isPrefixOf t

def badAlloc (r : RunOutput Time) : Bool :=
  r.queryResults == 0 && (contains "std::bad_alloc".toList r.stdout || contains "std::bad_alloc".toList r.stderr)

/-- The run whose output is read. -/
def Execution.used (e : Execution Build Time) : RunOutput Time := if badAlloc e.first then e.again else e.first

/-- The latest ingest that was completed. -/
def Execution.completed (e : Execution Build Time) : Option Time :=
  if badAlloc e.first then e.again.ingested.or e.first.ingested else e.first.ingested

def ingestKey : Text := "Ingest ms:".toList

def ingestLines (r : RunOutput Time) : List Text :=
  (splitlines (r.stdout ++ r.stderr)).filter fun line => ingestKey.isPrefixOf line

def isColon (c : Char) : Bool := c = ':'

/-- `line.strip()[len("Ingest ms:"):].strip().strip(":").strip()`. -/
def timeText (line : Text) : Text :=
  let text := DiffRepair.strip ((DiffRepair.strip line).drop ingestKey.length)
  DiffRepair.strip ((text.dropWhile isColon).reverse.dropWhile isColon).reverse

/-- `lower` of ASCII letters; no other letter has one of the markers' letters for its lower case. -/
def pipelineRan (r : RunOutput Time) : Bool :=
  let combined := (r.stdout ++ '\n' :: r.stderr).map Char.toLower
  contains "builder start".toList combined || contains "writer start".toList combined ||
    contains "loader start".toList combined || contains "stage threw".toList combined

inductive Raised where
  | notFound
  | multiple
  | notFloat
  | stillFails
  deriving DecidableEq, Repr

structure Report (Time : Type) where
  ingestTimeMs : Option Time
  latest : Option Time

structure Runner (Key Build Time : Type) where
  lastIngestTimeMs : Time
  cache : Key → Option (Report Time) := fun _ => none
  ingested : Build → Option Time := fun _ => none

structure Batch (Key Build Time : Type) where
  accepted : Bool
  key : Option Key
  forceLive : Bool
  execution : Execution Build Time

section
variable [DecidableEq Key] [DecidableEq Build] [DecidableEq Time] (clock : Clock Time)

/-- The time, and the one that the runner has read last. -/
def callHotpatchProc (last : Time) (e : Execution Build Time) : Except Raised Time × Time :=
  match ingestLines e.used with
  | [] =>
    if last = clock.minusOne then
      if pipelineRan e.used then (.ok clock.minusOne, last) else (.error .notFound, last)
    else (.ok last, last)
  | [line] =>
    match clock.float (timeText line) with
    | none => (.error .notFloat, last)
    | some t => (.ok t, t)
  | _ => (.error .multiple, last)

/-- The latest ingest of each build after an execution. -/
def ingestedAfter (ingested : Build → Option Time) (e : Execution Build Time) : Build → Option Time :=
  match e.completed with
  | none => ingested
  | some t => Function.update ingested e.build (some t)

def executeAndValidate (r : Runner Key Build Time) (key : Option Key) (e : Execution Build Time) :
    Except Raised (Report Time) × Runner Key Build Time :=
  let ingested := ingestedAfter r.ingested e
  match callHotpatchProc clock r.lastIngestTimeMs e with
  | (.error raised, last) => (.error raised, { r with lastIngestTimeMs := last, ingested })
  | (.ok t, last) =>
    let report := ⟨some t, ingested e.build⟩
    (.ok report, {
      lastIngestTimeMs := last
      cache := match key with
        | none => r.cache
        | some k => Function.update r.cache k (some report)
      ingested })

/-- `_check_answer_from_cache`. -/
def Batch.replayed (b : Batch Key Build Time) (r : Runner Key Build Time) : Option (Report Time) :=
  if b.forceLive then none else b.key.bind r.cache

def runWorker (r : Runner Key Build Time) (b : Batch Key Build Time) :
    Except Raised (Report Time) × Runner Key Build Time :=
  if b.accepted = false then (.ok ⟨none, none⟩, r)
  else
    match b.replayed r with
    | some report => (.ok report, r)
    | none => executeAndValidate clock r b.key b.execution

/-! ## `OptimizeBuildStage` -/

structure Stage where
  executed : Bool := false
  ingestFixAttempts : Nat := 0

def maxIngestFixAttempts : Nat := 3

inductive Prompt (Time : Type) where
  | nothing
  | fix
  | optimise (currentIngestTimeMs : Time)
  | raised (raised : Raised)
  deriving DecidableEq

/-- What becomes of the result of the ingest run. -/
def afterRun (st : Stage) : Except Raised (Report Time) → Prompt Time × Stage
  | .error raised => (.raised raised, st)
  | .ok report =>
    match report.ingestTimeMs with
    | none =>
      let st := { st with ingestFixAttempts := st.ingestFixAttempts + 1 }
      if maxIngestFixAttempts < st.ingestFixAttempts then (.raised .stillFails, st) else (.fix, st)
    | some t => (.optimise t, { st with executed := true })

/-- A batch of another stage, or a call of `next_prompt` with the ingest batch that it runs. -/
inductive Step (Key Build Time : Type) where
  | batch (b : Batch Key Build Time)
  | prompt (b : Batch Key Build Time)

structure System (Key Build Time : Type) where
  runner : Runner Key Build Time
  stage : Stage := {}

structure Entry (Time : Type) where
  report : Option (Except Raised (Report Time))
  prompt : Option (Prompt Time)

def step (s : System Key Build Time) : Step Key Build Time → Entry Time × System Key Build Time
  | .batch b =>
    let (report, runner) := runWorker clock s.runner b
    (⟨some report, none⟩, { s with runner })
  | .prompt b =>
    if s.stage.executed then (⟨none, some .nothing⟩, s)
    else
      let (report, runner) := runWorker clock s.runner b
      let (prompt, stage) := afterRun s.stage report
      (⟨some report, some prompt⟩, { runner, stage })

def log : System Key Build Time → List (Step Key Build Time) → List (Entry Time)
  | _, [] => []
  | s, a :: steps => (step clock s a).1 :: log (step clock s a).2 steps

/-! ## What is claimed -/

/-- A batch has the time of the latest ingest of its build, or none where there is none. -/
def RightReport : Except Raised (Report Time) → Prop
  | .error _ => False
  | .ok report => report.ingestTimeMs = report.latest

def isFix : Prompt Time → Bool
  | .fix => true
  | _ => false

/-- Up to three fixes and then only exceptions, one request to optimise at the most, and nothing after it. -/
def StageOk (prompts : List (Prompt Time)) : Prop :=
  ∃ before after, prompts = before ++ after ∧ (∀ p ∈ before, p = .fix ∨ ∃ raised, p = .raised raised) ∧
    before.countP isFix ≤ maxIngestFixAttempts ∧
    (after = [] ∨ ∃ t rest, after = .optimise t :: rest ∧ ∀ p ∈ rest, p = .nothing)

/-- Optimising is asked for after an ingest of the build, with its time. -/
def Entry.AfterIngest (x : Entry Time) : Prop :=
  ∀ t, x.prompt = some (.optimise t) → ∃ report, x.report = some (.ok report) ∧ report.latest = some t

def Told (entries : List (Entry Time)) : Prop :=
  (∀ x ∈ entries, ∀ report, x.report = some report → RightReport report) ∧ StageOk (entries.filterMap Entry.prompt) ∧
    ∀ x ∈ entries, x.AfterIngest

/-- An execution of a batch: the build has completed an ingest by its end, and the output has one line with its time, or
none where the time read last is just that. -/
def Tells (r : Runner Key Build Time) (b : Batch Key Build Time) : Prop :=
  b.accepted = true → b.replayed r = none → ∃ t, ingestedAfter r.ingested b.execution b.execution.build = some t ∧
    (ingestLines b.execution.used = [] ∧ r.lastIngestTimeMs = t ∧
        (t = clock.minusOne → pipelineRan b.execution.used = true) ∨
      ∃ line, ingestLines b.execution.used = [line] ∧ clock.float (timeText line) = some t)

/-- A stage that has asked to optimise runs no batch. -/
def StepTells (s : System Key Build Time) : Step Key Build Time → Prop
  | .batch b => Tells clock s.runner b
  | .prompt b => s.stage.executed = false → Tells clock s.runner b

def AllTell : System Key Build Time → List (Step Key Build Time) → Prop
  | _, [] => True
  | s, a :: steps => StepTells clock s a ∧ AllTell (step clock s a).2 steps

end

/-! ## One batch -/

section
variable [DecidableEq Key] [DecidableEq Build] [DecidableEq Time] {clock : Clock Time}

omit [DecidableEq Build] in
theorem callHotpatchProc_ok (last t : Time) (e : Execution Build Time) :
    (callHotpatchProc clock last e).1 = .ok t ↔
      (ingestLines e.used = [] ∧ last = t ∧ (t = clock.minusOne → pipelineRan e.used = true) ∨
        ∃ line, ingestLines e.used = [line] ∧ clock.float (timeText line) = some t) := by
  unfold callHotpatchProc
  match ingestLines e.used with
  | [] =>
    simp only [List.ne_cons_self, true_and, false_and, exists_false, or_false]
    by_cases hlast : last = clock.minusOne
    · rw [if_pos hlast]
      by_cases hran : pipelineRan e.used = true
      · rw [if_pos hran]
        simp only [Except.ok.injEq]
        exact ⟨fun h => ⟨hlast.trans h, fun _ => hran⟩, fun h => hlast.symm.trans h.1⟩
      · rw [if_neg hran]
        simp only [reduceCtorEq, false_iff, not_and]
        intro h hsame
        exact hran (hsame (h.symm.trans hlast))
    · rw [if_neg hlast]
      simp only [Except.ok.injEq]
      exact ⟨fun h => ⟨h, fun h' => absurd (h.trans h') hlast⟩, And.left⟩
  | [line] =>
    simp only [List.cons_ne_self, false_and, List.cons.injEq, and_true, exists_eq_left', false_or]
    cases clock.float (timeText line) <;> simp
  | _ :: _ :: _ => simp

/-- All pickled verdicts are right. -/
def RightCache (r : Runner Key Build Time) : Prop := ∀ k report, r.cache k = some report → report.ingestTimeMs = report.latest

theorem executeAndValidate_right {r : Runner Key Build Time} (key : Option Key) (e : Execution Build Time) :
    RightReport (executeAndValidate clock r key e).1 ↔
      ∃ t, ingestedAfter r.ingested e e.build = some t ∧ (callHotpatchProc clock r.lastIngestTimeMs e).1 = .ok t := by
  unfold executeAndValidate
  match callHotpatchProc clock r.lastIngestTimeMs e with
  | (.error _, _) => simp [RightReport]
  | (.ok t, _) =>
    simp only [RightReport, Except.ok.injEq, exists_eq_right']
    exact eq_comm

theorem RightCache.execute {r : Runner Key Build Time} (h : RightCache r) {key : Option Key} {e : Execution Build Time}
    (hright : RightReport (executeAndValidate clock r key e).1) : RightCache (executeAndValidate clock r key e).2 := by
  unfold executeAndValidate at hright ⊢
  match callHotpatchProc clock r.lastIngestTimeMs e, hright with
  | (.ok t, last), hright =>
    cases key with
    | none => exact h
    | some k =>
      intro k' report hreport
      dsimp only at hreport
      by_cases hk : k' = k
      · rw [hk, Function.update_self, Option.some.injEq] at hreport
        rw [← hreport]
        exact hright
      · rw [Function.update_of_ne hk] at hreport
        exact h k' report hreport

variable (clock) in
/-- **A batch has the right time iff its execution tells it**, and then the verdict can be replayed. -/
theorem runWorker_right {r : Runner Key Build Time} (hcache : RightCache r) (b : Batch Key Build Time) :
    (RightReport (runWorker clock r b).1 ↔ Tells clock r b) ∧
      (RightReport (runWorker clock r b).1 → RightCache (runWorker clock r b).2) := by
  unfold runWorker Tells
  by_cases haccepted : b.accepted = true
  · rw [if_neg (by rw [haccepted]; decide)]
    cases hreplay : b.replayed r with
    | some report =>
      have hright : report.ingestTimeMs = report.latest := by
        unfold Batch.replayed at hreplay
        split at hreplay
        · cases hreplay
        · obtain ⟨k, -, hk⟩ := Option.bind_eq_some_iff.1 hreplay
          exact hcache k report hk
      exact ⟨iff_of_true hright fun _ h => (by cases h), fun _ => hcache⟩
    | none =>
      refine ⟨?_, hcache.execute⟩
      simp only [executeAndValidate_right, callHotpatchProc_ok, haccepted, true_implies]
  · rw [Bool.not_eq_true] at haccepted
    rw [if_pos haccepted]
    exact ⟨iff_of_true rfl fun h => absurd h (by rw [haccepted]; decide), fun _ => hcache⟩

/-! ## The stage -/

theorem step_executed {s : System Key Build Time} (h : s.stage.executed = true) (b : Batch Key Build Time) :
    step clock s (.prompt b) = (⟨none, some .nothing⟩, s) := by
  rw [step, if_pos h]

theorem step_waiting {s : System Key Build Time} (h : s.stage.executed = false) (b : Batch Key Build Time) :
    step clock s (.prompt b) =
      (⟨some (runWorker clock s.runner b).1, some (afterRun s.stage (runWorker clock s.runner b).1).1⟩,
        { runner := (runWorker clock s.runner b).2, stage :=
          (afterRun s.stage (runWorker clock s.runner b).1).2 }) := by
  rw [step, if_neg (by rw [h]; decide)]

omit [DecidableEq Time] in
/-- The ways a run of the stage ends. -/
theorem afterRun_cases (st : Stage) (h : st.executed = false) (result : Except Raised (Report Time)) :
    (∃ t report, result = .ok report ∧ report.ingestTimeMs = some t ∧
      afterRun st result = (.optimise t, { st with executed := true })) ∨
    (∃ raised n, afterRun st result = (.raised raised, ⟨false, n⟩) ∧ st.ingestFixAttempts ≤ n) ∨
    (st.ingestFixAttempts < maxIngestFixAttempts ∧ afterRun st result = (.fix, ⟨false, st.ingestFixAttempts + 1⟩)) := by
  obtain ⟨executed, attempts⟩ := st
  subst h
  cases result with
  | error raised => exact .inr (.inl ⟨raised, attempts, rfl, Nat.le_refl _⟩)
  | ok report =>
    cases htime : report.ingestTimeMs with
    | some t => exact .inl ⟨t, report, rfl, htime, by rw [afterRun, htime]⟩
    | none =>
      rw [afterRun, htime]
      dsimp only
      by_cases hmany : maxIngestFixAttempts < attempts + 1
      · rw [if_pos hmany]
        exact .inr (.inl ⟨_, _, rfl, Nat.le_succ _⟩)
      · rw [if_neg hmany]
        exact .inr (.inr ⟨by omega, rfl⟩)

/-- Once it has asked to optimise, the stage has nothing more to say. -/
theorem prompts_executed : ∀ (steps : List (Step Key Build Time)) (s : System Key Build Time), s.stage.executed = true →
    ∀ p ∈ (log clock s steps).filterMap Entry.prompt, p = .nothing
  | [], _, _, p, hp => by cases hp
  | .batch b :: steps, s, h, p, hp => prompts_executed steps (step clock s (.batch b)).2 h p hp
  | .prompt b :: steps, s, h, p, hp => by
    rw [log, step_executed h] at hp
    rcases List.mem_cons.1 hp with rfl | hp
    · rfl
    · exact prompts_executed steps s h p hp

theorem prompts_waiting : ∀ (steps : List (Step Key Build Time)) (s : System Key Build Time), s.stage.executed = false →
    ∃ before after, (log clock s steps).filterMap Entry.prompt = before ++ after ∧
      (∀ p ∈ before, p = .fix ∨ ∃ raised, p = .raised raised) ∧
      before.countP isFix ≤ maxIngestFixAttempts - s.stage.ingestFixAttempts ∧
      (after = [] ∨ ∃ t rest, after = .optimise t :: rest ∧ ∀ p ∈ rest, p = .nothing)
  | [], _, _ => ⟨[], [], rfl, fun _ h => (by cases h), Nat.zero_le _, .inl rfl⟩
  | .batch b :: steps, s, h => prompts_waiting steps (step clock s (.batch b)).2 h
  | .prompt b :: steps, s, h => by
    rw [log, step_waiting h]
    rcases afterRun_cases s.stage h (runWorker clock s.runner b).1 with
      ⟨t, -, -, -, hrun⟩ | ⟨raised, n, hrun, hn⟩ | ⟨hfew, hrun⟩
    · rw [hrun]
      exact ⟨[], _, rfl, fun _ h => (by cases h), Nat.zero_le _, .inr ⟨t, _, rfl, prompts_executed steps _ rfl⟩⟩
    · rw [hrun]
      obtain ⟨before, after, hlog, hbefore, hcount, hafter⟩ :=
        prompts_waiting steps ⟨(runWorker clock s.runner b).2, ⟨false, n⟩⟩ rfl
      refine ⟨.raised raised :: before, after, congrArg (List.cons _) hlog,
        List.forall_mem_cons.2 ⟨.inr ⟨raised, rfl⟩, hbefore⟩, ?_, hafter⟩
      rw [List.countP_cons_of_neg (by simp [isFix])]
      dsimp only at hcount
      omega
    · rw [hrun]
      obtain ⟨before, after, hlog, hbefore, hcount, hafter⟩ :=
        prompts_waiting steps ⟨(runWorker clock s.runner b).2, ⟨false, s.stage.ingestFixAttempts + 1⟩⟩ rfl
      refine ⟨.fix :: before, after, congrArg (List.cons _) hlog, List.forall_mem_cons.2 ⟨.inl rfl, hbefore⟩,
        ?_, hafter⟩
      rw [List.countP_cons_of_pos (by rfl)]
      dsimp only at hcount
      omega

/-! ## Runs -/

variable (clock) in
/-- The report of a step, if it runs a batch, is right iff the batch tells it. -/
theorem step_right {s : System Key Build Time} (hcache : RightCache s.runner) (a : Step Key Build Time) :
    ((∀ report, (step clock s a).1.report = some report → RightReport report) →
      (step clock s a).1.AfterIngest ∧ RightCache (step clock s a).2.runner) ∧
    ((∀ report, (step clock s a).1.report = some report → RightReport report) ↔ StepTells clock s a) := by
  cases a with
  | batch b =>
    obtain ⟨hiff, hkept⟩ := runWorker_right clock hcache b
    simp only [step, Option.some.injEq, forall_eq']
    exact ⟨fun h => ⟨fun _ h' => (by cases h'), hkept h⟩, hiff⟩
  | prompt b =>
    cases hexecuted : s.stage.executed with
    | true =>
      rw [step_executed hexecuted]
      refine ⟨fun _ => ⟨fun _ h => (by cases h), hcache⟩, iff_of_true (fun _ h => by cases h) fun h => ?_⟩
      exact absurd (hexecuted.symm.trans h) (by decide)
    | false =>
      obtain ⟨hiff, hkept⟩ := runWorker_right clock hcache b
      rw [step_waiting hexecuted]
      simp only [Option.some.injEq, forall_eq']
      refine ⟨fun h => ⟨fun t ht => ?_, hkept h⟩, hiff.trans ⟨fun h _ => h, fun h => h hexecuted⟩⟩
      rcases afterRun_cases s.stage hexecuted (runWorker clock s.runner b).1 with
        ⟨t', report, hreport, htime, hrun⟩ | ⟨raised, n, hrun, -⟩ | ⟨-, hrun⟩
      · rw [hrun, Option.some.injEq, Prompt.optimise.injEq] at ht
        rw [hreport] at h
        exact ⟨report, congrArg some hreport, h.symm.trans (htime.trans (congrArg some ht))⟩
      · rw [hrun] at ht
        cases ht
      · rw [hrun] at ht
        cases ht

variable (clock) in
theorem log_right : ∀ (steps : List (Step Key Build Time)) {s : System Key Build Time}, RightCache s.runner →
    ((∀ x ∈ log clock s steps, ∀ report, x.report = some report → RightReport report) →
      ∀ x ∈ log clock s steps, x.AfterIngest) ∧
    ((∀ x ∈ log clock s steps, ∀ report, x.report = some report → RightReport report) ↔ AllTell clock s steps)
  | [], _, _ => ⟨fun _ _ h => (by cases h), iff_of_true (fun _ h => by cases h) trivial⟩
  | a :: steps, s, hcache => by
    obtain ⟨hstep, hiff⟩ := step_right clock hcache a
    rw [log]
    simp only [List.forall_mem_cons]
    refine ⟨fun h => ⟨(hstep h.1).1, (log_right steps (hstep h.1).2).1 h.2⟩, ?_⟩
    rw [AllTell, ← hiff]
    exact and_congr_right fun h => (log_right steps (hstep h).2).2

/-! ## Results -/

/-- **The times are right and the stage waits for an ingest iff every execution tells its own.** -/
theorem told_iff (clock : Clock Time) (steps : List (Step Key Build Time)) :
    Told (log clock { runner := { lastIngestTimeMs := clock.minusOne } } steps) ↔
      AllTell clock { runner := { lastIngestTimeMs := clock.minusOne } } steps := by
  have hright := log_right clock steps (s := { runner := { lastIngestTimeMs := clock.minusOne } })
    fun _ _ h => (by cases h)
  refine ⟨fun h => hright.2.1 h.1, fun h => ⟨hright.2.2 h, ?_, hright.1 (hright.2.2 h)⟩⟩
  exact prompts_waiting steps _ rfl

end

def wholeMs : Clock Int := ⟨fun text => if text = "5".toList then some 5 else none, -1⟩

def outputOf (stderr : String) (ingested : Option Int) : RunOutput Int := ⟨[], stderr.toList, 1, ingested⟩

def batchOf (build : Nat) (r : RunOutput Int) : Batch Nat Nat Int := ⟨true, none, false, ⟨build, r, r⟩⟩

/-- The loader of the build throws. -/
def failing (build : Nat) : Batch Nat Nat Int := batchOf build (outputOf "loader start\nlibloader.so stage threw\n" none)

def ingesting (build : Nat) : Batch Nat Nat Int := batchOf build (outputOf "builder start\nIngest ms: 5\n" (some 5))

def pooled : System Nat Nat Int := { runner := { lastIngestTimeMs := wholeMs.minusOne } }

/-- **A loader that throws.** The stage asks to optimise a build that takes `-1` ms, and behind another build's
ingest the failing one has that build's time. -/
theorem failed_loader : (¬ ∀ steps, Told (log wholeMs pooled steps)) ∧
    (log wholeMs pooled [.prompt (failing 0)]).filterMap Entry.prompt = [.optimise (-1)] ∧
    (log wholeMs pooled [.batch (ingesting 0), .batch (failing 1)]).map Entry.report =
      [some (.ok ⟨some 5, some 5⟩), some (.ok ⟨some 5, none⟩)] := by
  refine ⟨fun h => ?_, by rfl, by rfl⟩
  have hright := (h [.prompt (failing 0)]).1 _ (List.mem_cons_self ..) (.ok ⟨some (-1), none⟩) rfl
  cases hright

end SynnoDB.Tools.IngestTime
