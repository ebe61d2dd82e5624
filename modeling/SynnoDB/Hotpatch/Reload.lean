import SynnoDB.Hotpatch.DoneToken

/-!
# What a stage hands to its child (`stage_loop_impl`, `pipeline.hpp:788-918`)

`loads` counts how often the process loaded its plugin, `resultAt` is the load whose compute produced
`result`, `childInput` the load whose result the child was forked with. `Fresh` is kept by every step but
one: `do_run` decides from `has_run` alone that a result is there, and `has_run` is not reset when the
plugin is reloaded. If the compute after the reload threw, the next RUN without a rebuild forks the child on
the result of the plugin that the teardown has cleaned up (`stale_result_forked`).
-/

namespace SynnoDB.Hotpatch

/-! ## The property -/

/-- The result handed to the child is one of the plugin that is loaded now. -/
structure Proc.FreshInput (p : Proc) : Prop where
  starts : ∀ b, p.pc = .startChild b → p.resultAt = some p.loads
  notifies : ∀ b, p.pc = .finish b → p.childActive = true → p.childInput = some p.loads

def Sys.FreshInput (s : Sys) : Prop :=
  ∀ p ∈ s.chain, p.status = none → p.stage.policy = .onChange → p.FreshInput

/-- `do_run` would fork the child on the result it has: no reload, `has_run`, no child. -/
def Proc.reusesResult (files : Nat → BuildId) (p : Proc) : Bool :=
  !p.needsReload files && p.hasRun && !p.childActive && !p.terminal

/-- A result that is used again was computed after the last load of the plugin. -/
def Proc.reuseOk (files : Nat → BuildId) (p : Proc) : Act → Bool
  | .go _ => match p.pc with
    | .decide _ => p.stage.policy ≠ .onChange || !p.reusesResult files || p.resultAt = some p.loads
    | _ => true
  | _ => true

def Sys.ReuseOk (s : Sys) : SysAct → Bool
  | .proc i a => (s.chain[i]?).all fun p => p.reuseOk s.files a
  | _ => true

/-! ## The invariant -/

structure Proc.Current (p : Proc) : Prop where
  child : p.childActive = true → p.childInput = some p.loads
  start : ∀ b, p.pc = .startChild b → p.resultAt = some p.loads
  reload : ∀ b, p.pc = .reload b → p.childActive = false

/-- Live stages that run on change hand on current results. -/
def Proc.Fresh (p : Proc) : Prop := p.status = none → p.stage.policy = .onChange → p.Current

def AllFresh (cs : List Proc) : Prop := ∀ p ∈ cs, p.Fresh

variable {files : Nat → BuildId} {p q c : Proc} {cs ds : List Proc} {o : Outcome}

theorem Proc.Current.freshInput (h : p.Current) : p.FreshInput := ⟨h.start, fun _ _ ha => h.child ha⟩

@[simp] theorem allFresh_nil : AllFresh [] := by simp [AllFresh]

@[simp] theorem allFresh_cons : AllFresh (p :: cs) ↔ p.Fresh ∧ AllFresh cs := List.forall_mem_cons

/-- A process just forked. -/
theorem fresh_new (st : StageDef) (rest : List StageDef) : Proc.Fresh { stage := st, next := rest } :=
  fun _ _ => ⟨nofun, nofun, nofun⟩

theorem fresh_dead (h : p.status ≠ none) : p.Fresh := fun h0 => absurd h0 h

/-- The same plugin and child, at a program counter that hands nothing on. -/
theorem Proc.Fresh.congr (h : p.Fresh) (hs : q.status = p.status) (hst : q.stage = p.stage)
    (ha : q.childActive = p.childActive) (hc : q.childInput = p.childInput) (hl : q.loads = p.loads)
    (h1 : ∀ b, q.pc ≠ .startChild b) (h2 : ∀ b, q.pc ≠ .reload b) : q.Fresh := fun h0 hp =>
  { child := by rw [ha, hc, hl]; exact (h (hs ▸ h0) (hst ▸ hp)).child
    start := fun b hb => absurd hb (h1 b)
    reload := fun b hb => absurd hb (h2 b) }

/-- Without a child, and not about to fork one. -/
theorem fresh_childless (ha : p.childActive = false) (h1 : ∀ b, p.pc ≠ .startChild b) : p.Fresh := fun _ _ =>
  { child := fun h => by rw [ha] at h; cases h
    start := fun b hb => absurd hb (h1 b)
    reload := fun _ _ => ha }

theorem Proc.Fresh.inbox (h : p.Fresh) (msgs : List Msg) : Proc.Fresh { p with inbox := msgs } := fun h0 hp =>
  ⟨(h h0 hp).child, (h h0 hp).start, (h h0 hp).reload⟩

/-! ## Steps -/

theorem fresh_resume (ha : p.childActive = false) (hs : AllFresh cs) (after : AfterStop) :
    AllFresh (resume p cs after).chain := by
  cases after with
  | exit =>
    simp only [resume, allFresh_cons, allFresh_nil, and_true]
    exact fresh_dead (by simp)
  | _ =>
    simp only [resume, allFresh_cons]
    exact ⟨fresh_childless ha nofun, hs⟩

theorem fresh_stopChild (h : p.Fresh) (hs : AllFresh cs) (after : AfterStop) :
    AllFresh (stopChild p cs after).chain := by
  unfold stopChild
  split
  · rename_i c ds _
    simp only [allFresh_cons] at hs ⊢
    refine ⟨h.congr rfl rfl rfl rfl rfl nofun nofun, ?_, hs.2⟩
    split
    · exact hs.1.inbox _
    · exact hs.1
  · exact fresh_resume rfl allFresh_nil after
  · rename_i ha
    exact fresh_resume ha hs after

/-- Reaping leaves the first process where it is, with its child or without. -/
theorem fresh_reap (h : p.Fresh) (hs : AllFresh cs) {pc : Pc} (h1 : ∀ b, pc ≠ .startChild b)
    (h2 : ∀ b, pc ≠ .reload b) :
    AllFresh (Proc.goto (reapDeadChild p cs) pc).chain := by
  unfold reapDeadChild
  split
  · split
    · simp only [Proc.goto, allFresh_cons, allFresh_nil, and_true]
      exact fresh_childless rfl h1
    · simp only [Proc.goto, allFresh_cons] at hs ⊢
      exact ⟨h.congr rfl rfl rfl rfl rfl h1 h2, hs⟩
  · simp only [Proc.goto, allFresh_cons]
    exact ⟨h.congr rfl rfl rfl rfl rfl h1 h2, hs⟩

theorem fresh_decide (h : p.Fresh) (hs : AllFresh cs) {b : Nat} (hp : p.status = none)
    (hok : p.stage.policy = .onChange → p.reusesResult files = true → p.resultAt = some p.loads) :
    AllFresh (p.decide files cs b).chain := by
  unfold Proc.decide
  dsimp only
  split
  · exact fresh_stopChild h hs _
  · rename_i hrel
    simp only [Bool.or_eq_true, not_or, Bool.not_eq_true] at hrel
    split
    · simp only [allFresh_cons]
      exact ⟨h.congr rfl rfl rfl rfl rfl nofun nofun, hs⟩
    · split
      · rename_i hc
        simp only [allFresh_cons]
        refine ⟨fun _ hpol => ⟨(h hp hpol).child, fun _ _ => hok hpol ?_, nofun⟩, hs⟩
        simp [Proc.reusesResult, hrel.1, hc]
      · simp only [allFresh_cons]
        exact ⟨h.congr rfl rfl rfl rfl rfl nofun nofun, hs⟩

theorem fresh_compute (h : p.Fresh) (hs : AllFresh cs) {b : Nat} (hp : p.status = none) (answer : Answer) :
    AllFresh (p.compute cs b answer).chain := by
  cases answer with
  | fail => exact fresh_stopChild h hs _
  | ok r =>
    simp only [Proc.compute, allFresh_cons]
    refine ⟨fun _ hpol => ⟨(h hp hpol).child, fun _ _ => rfl, fun b hb => ?_⟩, hs⟩
    split at hb <;> cases hb

/-- The child is forked on `result`. -/
theorem fresh_startChild (h : p.Fresh) {b : Nat} (hp : p.status = none) (hpc : p.pc = .startChild b) (answer : Answer) :
    AllFresh (p.startChild files cs b answer).chain := by
  unfold Proc.startChild
  dsimp only
  split
  · simp only [allFresh_cons, allFresh_nil, and_true]
    exact ⟨fun _ hpol => ⟨fun _ => (h hp hpol).start b hpc, nofun, nofun⟩, fresh_new _ _⟩
  · simp only [allFresh_cons, allFresh_nil, and_true]
    exact h.congr rfl rfl rfl rfl rfl nofun nofun

theorem fresh_finish (h : p.Fresh) (hs : AllFresh cs) {b : Nat} : AllFresh (p.finish cs b).chain := by
  have hd : ∀ q : Proc, q.status = p.status → q.stage = p.stage → q.childActive = p.childActive →
      q.childInput = p.childInput → q.loads = p.loads → (q.done b).Fresh := fun q h1 h2 h3 h4 h5 =>
    h.congr h1 h2 h3 h4 h5 nofun nofun
  unfold Proc.finish
  split
  · exact allFresh_cons.2 ⟨hd p rfl rfl rfl rfl rfl, hs⟩
  · split
    · cases cs with
      | nil => exact allFresh_cons.2 ⟨hd p rfl rfl rfl rfl rfl, allFresh_nil⟩
      | cons c ds =>
        simp only [allFresh_cons] at hs
        dsimp only
        split
        · exact allFresh_cons.2 ⟨hd _ rfl rfl rfl rfl rfl, allFresh_cons.2 ⟨hs.1.inbox _, hs.2⟩⟩
        · exact allFresh_cons.2 ⟨hd p rfl rfl rfl rfl rfl, allFresh_nil⟩
    · exact allFresh_cons.2 ⟨hd p rfl rfl rfl rfl rfl, hs⟩

theorem fresh_go (h : p.Fresh) (hs : AllFresh cs) (hp : p.status = none) {answer : Answer}
    (hok : p.reuseOk files (.go answer) = true) (ho : p.go files cs answer = some o) : AllFresh o.chain := by
  have hgoto : ∀ q : Proc, q.status = p.status → q.stage = p.stage → q.childActive = p.childActive →
      q.childInput = p.childInput → q.loads = p.loads → (∀ b, q.pc ≠ .startChild b) → (∀ b, q.pc ≠ .reload b) →
      AllFresh (q :: cs) := fun q h1 h2 h3 h4 h5 h6 h7 => allFresh_cons.2 ⟨h.congr h1 h2 h3 h4 h5 h6 h7, hs⟩
  unfold Proc.go at ho
  cases hpc : p.pc <;> simp only [hpc] at ho
  case boot => cases ho; exact hgoto _ rfl rfl rfl rfl rfl nofun nofun
  case poll =>
    cases hin : p.inbox with
    | nil => rw [hin] at ho; cases ho
    | cons m rest =>
      rw [hin] at ho
      cases m <;> cases ho
      · exact hgoto _ rfl rfl rfl rfl rfl nofun nofun
      · have hq : Proc.Fresh { p with inbox := rest, pc := .poll } := h.congr rfl rfl rfl rfl rfl nofun nofun
        exact fresh_stopChild hq hs _
  case preReap b => cases ho; exact fresh_reap h hs nofun nofun
  case start b =>
    cases ho
    unfold Proc.start
    split
    · exact fresh_stopChild h hs _
    · exact hgoto _ rfl rfl rfl rfl rfl nofun nofun
  case decide b =>
    cases ho
    refine fresh_decide h hs hp fun hpol hre => ?_
    simpa [Proc.reuseOk, hpc, hpol, hre] using hok
  case reload b =>
    cases ho
    refine allFresh_cons.2 ⟨fun _ hpol => ⟨fun ha => ?_, nofun, nofun⟩, hs⟩
    exact absurd (((h hp hpol).reload b hpc).symm.trans ha) (by simp)
  case compute b => cases ho; exact fresh_compute h hs hp answer
  case threw b => cases ho; exact hgoto _ rfl rfl rfl rfl rfl nofun nofun
  case startChild b => cases ho; exact fresh_startChild h hp hpc answer
  case finish b => cases ho; exact fresh_finish h hs
  case postReap => cases ho; exact fresh_reap h hs nofun nofun
  case stop after =>
    cases cs with
    | nil => cases ho; exact fresh_resume rfl allFresh_nil after
    | cons c ds =>
      simp only [Option.ite_none_left_eq_some, Option.some.injEq] at ho
      obtain ⟨-, rfl⟩ := ho
      exact fresh_resume rfl allFresh_nil after

theorem fresh_head (h : p.Fresh) (hs : AllFresh cs) (hp : p.status = none) {a : Act} (hok : p.reuseOk files a = true)
    (ho : p.step files cs a = some o) : AllFresh o.chain := by
  cases a with
  | go answer => exact fresh_go h hs hp hok ho
  | die st =>
    cases ho
    exact allFresh_cons.2 ⟨fresh_dead (by simp), allFresh_nil⟩
  | reapIdle =>
    simp only [Proc.step, Option.ite_none_right_eq_some, Option.some.injEq] at ho
    obtain ⟨⟨hpc, -, -⟩, rfl⟩ := ho
    unfold reapDeadChild
    split
    · split
      · simp only [allFresh_cons, allFresh_nil, and_true]
        exact fresh_childless rfl (by simp [hpc])
      · exact allFresh_cons.2 ⟨h, hs⟩
    · exact allFresh_cons.2 ⟨h, hs⟩

/-- **One step** of one process keeps every stage's result current. -/
theorem fresh_chainStep : ∀ {cs : List Proc} {i : Nat} {a : Act} {o : Outcome}, AllFresh cs →
    ((cs[i]?).all fun p => p.reuseOk files a) = true → chainStep files cs i a = some o → AllFresh o.chain
  | [], _, _, _, _, _, h => by cases h
  | p :: cs, 0, a, o, hs, hok, h => by
    simp only [allFresh_cons] at hs
    simp only [chainStep, Option.ite_none_right_eq_some] at h
    exact fresh_head hs.1 hs.2 h.1 (by simpa using hok) h.2
  | p :: cs, i + 1, a, o, hs, hok, h => by
    simp only [allFresh_cons] at hs
    simp only [chainStep, Option.map_eq_some_iff] at h
    obtain ⟨o, h, rfl⟩ := h
    exact allFresh_cons.2 ⟨hs.1, fresh_chainStep hs.2 (by simpa using hok) h⟩

theorem fresh_send {m : Msg} {chain : List Proc} (hs : AllFresh cs) (h : Sys.send m cs = some chain) :
    AllFresh chain := by
  unfold Sys.send at h
  split at h
  · simp only [Option.ite_none_right_eq_some, Option.some.injEq] at h
    obtain ⟨-, rfl⟩ := h
    simp only [allFresh_cons] at hs ⊢
    exact ⟨hs.1.inbox _, hs.2⟩
  · cases h

theorem fresh_step {s s' : Sys} {a : SysAct} (h : AllFresh s.chain) (hok : s.ReuseOk a = true)
    (hs : s.step a = some s') : AllFresh s'.chain := by
  cases a with
  | proc i act =>
    simp only [Sys.step, Option.map_eq_some_iff] at hs
    obtain ⟨o, ho, rfl⟩ := hs
    exact fresh_chainStep h hok ho
  | request =>
    simp only [Sys.step] at hs
    split at hs
    · split at hs
      · rename_i hsend
        cases hs
        exact fresh_send h hsend
      · cases hs; exact h
    · cases hs
  | terminate =>
    simp only [Sys.step] at hs
    split at hs
    · cases hs
      cases hsend : Sys.send .terminate s.chain with
      | none => exact h
      | some chain => exact fresh_send h hsend
    · cases hs
  | rebuild so build => cases hs; exact h
  | killParent => cases hs; exact h
  | readToken =>
    simp only [Sys.step] at hs
    split at hs
    · cases hs; exact h
    · cases hs
  | traceComplete =>
    simp only [Sys.step] at hs
    split at hs
    · cases hs; exact h
    · cases hs
  | respond =>
    simp only [Sys.step] at hs
    split at hs
    · simp only [Option.ite_none_right_eq_some, Option.some.injEq] at hs
      obtain ⟨-, rfl⟩ := hs
      exact h
    · cases hs
  | orphanWrites t =>
    simp only [Sys.step, Option.ite_none_left_eq_some, Option.some.injEq] at hs
    obtain ⟨-, rfl⟩ := hs
    exact h

/-- After RUN 1 the loader is rebuilt; RUN 2 stops builder and query, reloads the loader and computes. -/
def reloadRun (compute : Answer) : List SysAct :=
  firstRun ++ [.rebuild 0 2, .request, goTo 0, goTo 0, goTo 0, goTo 0, goTo 1, goTo 2, goTo 1, goTo 0, goTo 0,
    .proc 0 (.go compute), goTo 0]

/-- RUN 3, without a rebuild. -/
def thirdRun : List SysAct := [goTo 0, .readToken, .respond, .request, goTo 0, goTo 0, goTo 0, goTo 0]

end SynnoDB.Hotpatch
