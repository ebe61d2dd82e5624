import SynnoDB.Hotpatch.Pipeline

/-!
# One done token per RUN

`Idle`, `Stopping` and `Holds` say where the RUN that is owed a token can be: nowhere in the chain, or in
exactly one stage's pipe or hands, or with a child it was handed to. They are kept by every step but three
kinds (`Sys.StepOk`): a stage that waits for a dead child and writes a token for it although that child was
not handed the owed RUN or its token is already written (`reap_dead_child`, `pipeline.hpp:612-622`, writes
one for every dead child: `idle_death_second_token`); a notification that meets a dead child
(`notify_child_run` writes the token, but its result is ignored and `child_active` stays true:
`notify_dead_child`); and a token from a process whose parent stage has died.
-/

namespace SynnoDB.Hotpatch

/-! ## The property -/

/-- The events of the RUNs `1 … n`, newest first. -/
def expected : Nat → List Ev
  | 0 => []
  | n + 1 => .tok (some (n + 1)) :: .fwd (n + 1) :: expected n

/-- Each RUN forwarded so far has exactly one token, the last one at most one; a stage that is through with
a RUN has written its token or handed it to a child it still has; `child_active` goes with a valid handle. -/
structure ExactlyOnce (s : Sys) : Prop where
  log : ∃ n, s.log = expected n ∨ s.log = .fwd (n + 1) :: expected n
  handled : ∀ above p below, s.chain = above ++ p :: below → p.status = none → ∀ b, p.finished = some b →
    .tok (some b) ∈ s.log ∨ p.handed = some b ∧ below ≠ []
  handle : ∀ above p below, s.chain = above ++ p :: below → p.status = none →
    (p.childActive = true ↔ below ≠ [])

/-- The child of a process, if it has died. -/
def deadChild (p : Proc) (cs : List Proc) : Bool := p.childActive && cs.head?.any fun c => c.status ≠ none

/-- A process waits only for a dead child that was handed the owed RUN, and notifies only a live one. -/
def Proc.stepOk (owed : Option Nat) (p : Proc) (cs : List Proc) : Act → Bool
  | .die _ => true
  | .reapIdle => !deadChild p cs || (owed.isSome && p.handed = owed)
  | .go _ => match p.pc with
    | .preReap _ | .postReap => !deadChild p cs || (owed.isSome && p.handed = owed)
    | .finish _ => !deadChild p cs
    | _ => true

def chainOk (owed : Option Nat) : List Proc → Nat → Act → Bool
  | [], _, _ => true
  | p :: cs, 0, a => p.stepOk owed cs a
  | _ :: cs, i + 1, a => chainOk owed cs i a

def Sys.StepOk (s : Sys) : SysAct → Bool
  | .proc i a => chainOk s.owed s.chain i a
  | .orphanWrites _ => false
  | _ => true

/-! ## Where the owed RUN is -/

/-- All stages but the last run on change. -/
def InnerOnChange : List StageDef → Prop
  | st :: st' :: rest => st.policy = .onChange ∧ InnerOnChange (st' :: rest)
  | _ => True

structure Base (p : Proc) (cs : List Proc) : Prop where
  active : p.status = none → (p.childActive = true ↔ cs ≠ [])
  dead : p.status ≠ none → cs = []
  notRun : p.hasRun = false → p.childActive = false
  terminal : p.next = [] → cs = []
  onChange : InnerOnChange (p.stage :: p.next)

/-- The RUNs the process has handed on or finished are among the first `n`. -/
structure Past (n : Nat) (p : Proc) : Prop where
  handed : ∀ b, p.handed = some b → b ≤ n
  finished : ∀ b, p.finished = some b → 1 ≤ b ∧ b ≤ n

def Proc.Resting (p : Proc) : Prop := p.pc = .boot ∨ p.pc = .poll ∨ p.pc = .postReap

def AfterStop.batch : AfterStop → Option Nat
  | .decide b | .reload b | .threw b => some b
  | .exit => none

/-- Between reading RUN `k` and handing it on. -/
def Proc.WorksOn (k : Nat) (p : Proc) : Prop :=
  match p.pc with
  | .preReap b | .start b | .decide b => b = k
  | .reload b | .compute b | .threw b => b = k ∧ p.childActive = false
  | .startChild b => b = k ∧ p.childActive = false ∧ p.hasRun = true
  | .finish b => b = k ∧ (p.next ≠ [] → p.childActive = true)
  | _ => False

/-- No stage has a RUN to handle. -/
def Idle (n : Nat) : List Proc → Prop
  | [] => True
  | p :: cs => Base p cs ∧ Past n p ∧ (p.status = none → p.Resting ∧ p.inbox = []) ∧ Idle n cs

/-- The first stage has been told to terminate. -/
def Stopping (n : Nat) : List Proc → Prop
  | [] => False
  | p :: cs => Base p cs ∧ Past n p ∧ (p.status = none →
      p.Resting ∧ p.inbox = [.terminate] ∧ Idle n cs ∨ p.pc = .stop .exit ∧ p.inbox = [] ∧ Stopping n cs)

/-- RUN `n + 1` is with the first stage, or with a child it was handed to, or died with one of them. -/
def Holds (n : Nat) : List Proc → Prop
  | [] => False
  | p :: cs => Base p cs ∧ (p.status = none →
      (Past n p ∧ p.Resting ∧ p.inbox = [.run (n + 1)] ∧ Idle n cs) ∨
      (Past n p ∧ p.inbox = [] ∧ p.WorksOn (n + 1) ∧ Idle n cs) ∨
      (Past n p ∧ p.inbox = [] ∧ (∃ x, p.pc = .stop x ∧ x.batch = some (n + 1)) ∧ Stopping n cs) ∨
      (p.inbox = [] ∧ (p.pc = .poll ∨ p.pc = .postReap) ∧ p.handed = some (n + 1) ∧ p.finished = some (n + 1) ∧
        Holds n cs))

variable {files : Nat → BuildId} {n k : Nat} {p p' : Proc} {c : Proc} {cs cs' ds : List Proc} {o : Outcome}
  {owed : Option Nat}

/-! ## Small facts -/

theorem Base.congr (h : Base p cs) (hc : cs' = [] ↔ cs = []) (h1 : p'.status = p.status)
    (h2 : p'.childActive = p.childActive) (h3 : p'.hasRun = true ∨ p'.hasRun = p.hasRun) (h4 : p'.next = p.next)
    (h5 : p'.stage = p.stage) : Base p' cs' where
  active := by rw [h1, h2, ne_eq, hc]; exact h.active
  dead := by rw [h1, hc]; exact h.dead
  notRun hr := by
    rcases h3 with h3 | h3
    · rw [h3] at hr; cases hr
    · rw [h2]; exact h.notRun (h3 ▸ hr)
  terminal := by rw [h4, hc]; exact h.terminal
  onChange := by rw [h4, h5]; exact h.onChange

/-- The child is gone and `child_active` is false. -/
theorem Base.childless (h : Base p cs) (h2 : p'.childActive = false) (h4 : p'.next = p.next) (h5 : p'.stage = p.stage) :
    Base p' [] where
  active _ := by simp [h2]
  dead _ := rfl
  notRun _ := h2
  terminal _ := rfl
  onChange := by rw [h4, h5]; exact h.onChange

theorem Base.died (h : Base p cs) (h2 : p'.hasRun = p.hasRun) (h3 : p'.childActive = p.childActive)
    (h4 : p'.next = p.next) (h5 : p'.stage = p.stage) (hd : p'.status ≠ none) : Base p' [] where
  active h0 := absurd h0 hd
  dead _ := rfl
  notRun := by rw [h2, h3]; exact h.notRun
  terminal _ := rfl
  onChange := by rw [h4, h5]; exact h.onChange

theorem Base.inactive (h : Base p cs) (hp : p.status = none) (ha : p.childActive = false) : cs = [] := by
  have := h.active hp
  rw [ha] at this
  simpa using this

theorem Past.mono (h : Past n p) : Past (n + 1) p where
  handed b hb := Nat.le_succ_of_le (h.handed b hb)
  finished b hb := ⟨(h.finished b hb).1, Nat.le_succ_of_le (h.finished b hb).2⟩

theorem Idle.mono : ∀ {cs : List Proc}, Idle n cs → Idle (n + 1) cs
  | [], _ => trivial
  | _ :: _, ⟨hb, hp, hr, hc⟩ => ⟨hb, hp.mono, hr, hc.mono⟩

theorem Stopping.ne_nil (h : Stopping n cs) : cs ≠ [] := by rintro rfl; exact h

theorem Holds.ne_nil (h : Holds n cs) : cs ≠ [] := by rintro rfl; exact h

/-- A finished RUN of the past is not the owed one. -/
theorem Past.not_reap (h : Past n p) (ho : ∀ b ≤ n, owed ≠ some b)
    (hok : (!deadChild p cs || (owed.isSome && p.handed = owed)) = true) : deadChild p cs = false := by
  rw [← Bool.not_eq_true]
  intro hd
  rw [hd, Bool.not_true, Bool.false_or, Bool.and_eq_true, decide_eq_true_eq] at hok
  obtain ⟨b, hb⟩ := Option.isSome_iff_exists.1 hok.1
  exact ho b (h.handed b (hok.2.trans hb)) hb

theorem reapDeadChild_live (h : deadChild p cs = false) : reapDeadChild p cs = ⟨p :: cs, [], []⟩ := by
  unfold reapDeadChild
  split
  · rename_i c ds ha
    split
    · rename_i st hst
      simp [deadChild, ha, hst] at h
    · rfl
  · rfl

/-- Waiting for a dead child: it leaves the chain, with a token for the batch it was handed. -/
theorem reapDeadChild_dead (h : deadChild p cs = true) :
    ∃ c ds st, cs = c :: ds ∧ c.status = some st ∧
      reapDeadChild p cs = ⟨[{ p with childActive := false }], leave ds, [⟨st, p.handed⟩]⟩ := by
  obtain ⟨ha, hc⟩ := Bool.and_eq_true_iff.1 h
  cases cs with
  | nil => simp at hc
  | cons c ds =>
    have hc : c.status ≠ none := by simpa using hc
    obtain ⟨st, hst⟩ := Option.ne_none_iff_exists'.1 hc
    exact ⟨c, ds, st, rfl, hst, by simp [reapDeadChild, ha, hst]⟩

/-- A child that is told to terminate. -/
theorem Idle.stopping (h : Idle n (c :: ds)) :
    Stopping n ((if c.status = none then { c with inbox := c.inbox ++ [.terminate] } else c) :: ds) := by
  obtain ⟨hb, hp, hr, hd⟩ := h
  by_cases hs : c.status = none
  · rw [if_pos hs]
    refine ⟨hb.congr .rfl rfl rfl (.inr rfl) rfl rfl, ⟨hp.handed, hp.finished⟩, fun _ => .inl ⟨(hr hs).1, ?_, hd⟩⟩
    simp [(hr hs).2]
  · rw [if_neg hs]
    exact ⟨hb, hp, fun h => absurd h hs⟩

/-- `stop_child`: either it waits for a stopping child, or there is none. -/
theorem stopChild_cases (hb : Base p cs) (hp : p.status = none) (hi : Idle n cs) (after : AfterStop) :
    (p.childActive = true ∧ ∃ cs', stopChild p cs after = ⟨{ p with pc := .stop after } :: cs', [], []⟩ ∧
      Stopping n cs') ∨ (p.childActive = false ∧ cs = [] ∧ stopChild p cs after = resume p [] after) := by
  cases ha : p.childActive with
  | false =>
    have hc := hb.inactive hp ha
    subst hc
    exact .inr ⟨rfl, rfl, by simp [stopChild, ha]⟩
  | true =>
    cases cs with
    | nil => exact absurd rfl ((hb.active hp).1 ha)
    | cons c ds => exact .inl ⟨rfl, _, by simp [stopChild, ha], hi.stopping⟩

theorem chainStep_ne_nil {i : Nat} {a : Act} (h : chainStep files cs i a = some o) : cs ≠ [] := by
  rintro rfl
  cases h

/-! ## Steps of a chain without the owed RUN -/

theorem Base.die (h : Base p cs) (st : DoneToken) : Base { p with status := some st } [] :=
  h.died rfl rfl rfl rfl (by simp)

/-- What a step of an idle chain leaves behind. -/
def Quiet (n : Nat) (o : Outcome) : Prop := o.tokens = [] ∧ o.chain ≠ [] ∧ Idle n o.chain

theorem idle_head (hb : Base p cs) (hpast : Past n p) (hr : p.Resting) (hin : p.inbox = []) (hi : Idle n cs)
    (hp : p.status = none) (ho : ∀ b ≤ n, owed ≠ some b) {a : Act} (hok : p.stepOk owed cs a = true)
    (h : p.step files cs a = some o) : Quiet n o := by
  cases a with
  | die st =>
    cases h
    exact ⟨rfl, by simp, hb.die st, ⟨hpast.handed, hpast.finished⟩, by simp, trivial⟩
  | reapIdle =>
    have hd := hpast.not_reap ho hok
    simp only [Proc.step, Option.ite_none_right_eq_some] at h
    simp [deadChild, h.1.2.1] at hd
    simp [hd] at h
  | go answer =>
    have hrest : ∀ q : Proc, q.status = none → q.childActive = p.childActive → q.hasRun = p.hasRun → q.next = p.next →
        q.stage = p.stage → q.handed = p.handed → q.finished = p.finished → q.Resting → q.inbox = [] →
        Quiet n ⟨q :: cs, [], []⟩ := by
      intro q h1 h2 h3 h4 h5 h6 h7 h8 h9
      exact ⟨rfl, by simp, hb.congr .rfl (h1.trans hp.symm) h2 (.inr h3) h4 h5,
        ⟨by rw [h6]; exact hpast.handed, by rw [h7]; exact hpast.finished⟩, fun _ => ⟨h8, h9⟩, hi⟩
    rcases hr with hpc | hpc | hpc
    · simp only [Proc.step, Proc.go, hpc, Option.some.injEq] at h
      subst h
      exact hrest _ hp rfl rfl rfl rfl rfl rfl (.inr (.inl rfl)) hin
    · simp [Proc.step, Proc.go, hpc, hin] at h
    · simp only [Proc.stepOk, hpc] at hok
      simp only [Proc.step, Proc.go, hpc, reapDeadChild_live (hpast.not_reap ho hok), Proc.goto, Option.some.injEq] at h
      subst h
      exact hrest _ hp rfl rfl rfl rfl rfl rfl (.inr (.inl rfl)) hin

/-- **Idle chains stay idle** and write no token. -/
theorem idle_step : ∀ {cs : List Proc} {i : Nat} {a : Act} {o : Outcome}, Idle n cs → (∀ b ≤ n, owed ≠ some b) →
    chainOk owed cs i a = true → chainStep files cs i a = some o → Quiet n o
  | [], _, _, _, _, _, _, h => by cases h
  | p :: cs, 0, a, o, ⟨hb, hpast, hr, hi⟩, ho, hok, h => by
    simp only [chainStep, Option.ite_none_right_eq_some] at h
    exact idle_head hb hpast (hr h.1).1 (hr h.1).2 hi h.1 ho hok h.2
  | p :: cs, i + 1, a, o, ⟨hb, hpast, hr, hi⟩, ho, hok, h => by
    simp only [chainStep, Option.map_eq_some_iff] at h
    obtain ⟨o, h, rfl⟩ := h
    have hne := chainStep_ne_nil h
    obtain ⟨ht, hne', hi'⟩ := idle_step hi ho hok h
    exact ⟨ht, by simp, hb.congr (by simp [hne, hne']) rfl rfl (.inr rfl) rfl rfl, hpast, hr, hi'⟩

/-- A stopping process steps. -/
theorem stopping_head (hb : Base p cs) (hpast : Past n p) (hr : p.Resting) (hin : p.inbox = [.terminate])
    (hi : Idle n cs) (hp : p.status = none) (ho : ∀ b ≤ n, owed ≠ some b) {a : Act}
    (hok : p.stepOk owed cs a = true) (h : p.step files cs a = some o) : o.tokens = [] ∧ Stopping n o.chain := by
  cases a with
  | die st =>
    cases h
    exact ⟨rfl, hb.die st, ⟨hpast.handed, hpast.finished⟩, by simp⟩
  | reapIdle =>
    have hd := hpast.not_reap ho hok
    simp only [Proc.step, Option.ite_none_right_eq_some] at h
    simp [deadChild, h.1.2.1] at hd
    simp [hd] at h
  | go answer =>
    rcases hr with hpc | hpc | hpc
    · simp only [Proc.step, Proc.go, hpc, Option.some.injEq] at h
      subst h
      exact ⟨rfl, hb.congr .rfl rfl rfl (.inr rfl) rfl rfl, ⟨hpast.handed, hpast.finished⟩,
        fun _ => .inl ⟨.inr (.inl rfl), hin, hi⟩⟩
    · simp only [Proc.step, Proc.go, hpc, hin, Option.some.injEq] at h
      subst h
      have hb' : Base { p with inbox := [], pc := .poll } cs := hb.congr .rfl rfl rfl (.inr rfl) rfl rfl
      rcases stopChild_cases hb' hp hi .exit with ⟨ha, cs', he, hs⟩ | ⟨ha, rfl, he⟩
      · rw [he]
        exact ⟨rfl, hb'.congr (by simp [hs.ne_nil, (hb.active hp).1 ha]) rfl rfl (.inr rfl) rfl rfl,
          ⟨hpast.handed, hpast.finished⟩, fun _ => .inr ⟨rfl, rfl, hs⟩⟩
      · rw [he]
        exact ⟨rfl, hb'.died rfl rfl rfl rfl (by simp), ⟨hpast.handed, hpast.finished⟩, by simp⟩
    · simp only [Proc.stepOk, hpc] at hok
      simp only [Proc.step, Proc.go, hpc, reapDeadChild_live (hpast.not_reap ho hok), Proc.goto, Option.some.injEq] at h
      subst h
      exact ⟨rfl, hb.congr .rfl rfl rfl (.inr rfl) rfl rfl, ⟨hpast.handed, hpast.finished⟩,
        fun _ => .inl ⟨.inr (.inl rfl), hin, hi⟩⟩

theorem stopping_exit (hb : Base p cs) (hpast : Past n p) (hpc : p.pc = .stop .exit)
    (hs : Stopping n cs) {a : Act} (h : p.step files cs a = some o) : o.tokens = [] ∧ Stopping n o.chain := by
  cases a with
  | die st =>
    cases h
    exact ⟨rfl, hb.die st, ⟨hpast.handed, hpast.finished⟩, by simp⟩
  | reapIdle => simp [Proc.step, hpc] at h
  | go answer =>
    obtain ⟨c, ds, rfl⟩ := List.exists_cons_of_ne_nil hs.ne_nil
    simp only [Proc.step, Proc.go, hpc, Option.ite_none_left_eq_some, Option.some.injEq] at h
    obtain ⟨-, rfl⟩ := h
    exact ⟨rfl, hb.childless rfl rfl rfl, ⟨hpast.handed, hpast.finished⟩, by simp⟩

/-- **Stopping chains** write no token either. -/
theorem stopping_step : ∀ {cs : List Proc} {i : Nat} {a : Act} {o : Outcome}, Stopping n cs →
    (∀ b ≤ n, owed ≠ some b) → chainOk owed cs i a = true → chainStep files cs i a = some o →
    o.tokens = [] ∧ Stopping n o.chain
  | [], _, _, _, _, _, _, h => by cases h
  | p :: cs, 0, a, o, ⟨hb, hpast, hr⟩, ho, hok, h => by
    simp only [chainStep, Option.ite_none_right_eq_some] at h
    rcases hr h.1 with ⟨hr, hin, hi⟩ | ⟨hpc, -, hs⟩
    · exact stopping_head hb hpast hr hin hi h.1 ho hok h.2
    · exact stopping_exit hb hpast hpc hs h.2
  | p :: cs, i + 1, a, o, ⟨hb, hpast, hr⟩, ho, hok, h => by
    simp only [chainStep, Option.map_eq_some_iff] at h
    obtain ⟨o, h, rfl⟩ := h
    have hne := chainStep_ne_nil h
    have hp : p.status = none := by
      by_contra hd
      exact hne (hb.dead hd)
    rcases hr hp with ⟨hr, hin, hi⟩ | ⟨hpc, hin, hs⟩
    · obtain ⟨ht, hne', hi'⟩ := idle_step hi ho hok h
      exact ⟨ht, hb.congr (by simp [hne, hne']) rfl rfl (.inr rfl) rfl rfl, hpast, fun _ => .inl ⟨hr, hin, hi'⟩⟩
    · obtain ⟨ht, hs'⟩ := stopping_step hs ho hok h
      exact ⟨ht, hb.congr (by simp [hne, hs'.ne_nil]) rfl rfl (.inr rfl) rfl rfl, hpast, fun _ => .inr ⟨hpc, hin, hs'⟩⟩

/-! ## Steps of the chain that holds the owed RUN -/

/-- The RUN is still owed, or this step wrote its token. -/
def Delivers (n : Nat) (o : Outcome) : Prop :=
  (o.tokens = [] ∧ Holds n o.chain) ∨
    (∃ t, o.tokens = [⟨t, some (n + 1)⟩]) ∧ o.chain ≠ [] ∧ Idle (n + 1) o.chain

theorem Delivers.ne_nil (h : Delivers n o) : o.chain ≠ [] := by
  rcases h with ⟨-, h⟩ | ⟨-, h, -⟩
  · exact h.ne_nil
  · exact h

theorem holds_die (hb : Base p cs) (st : DoneToken) : Delivers n ⟨[{ p with status := some st }], leave cs, []⟩ :=
  .inl ⟨rfl, hb.die st, by simp⟩

theorem Past.done (h : Past n p) (h1 : p'.handed = p.handed ∨ p'.handed = some (n + 1) ∨ p'.handed = none)
    (h2 : p'.finished = some (n + 1)) : Past (n + 1) p' where
  handed b hb := by
    rcases h1 with h1 | h1 | h1
    · exact Nat.le_succ_of_le (h.handed b (h1 ▸ hb))
    · rw [h1] at hb; cases hb; exact Nat.le_refl _
    · rw [h1] at hb; cases hb
  finished b hb := by rw [h2] at hb; cases hb; omega

/-- The RUN waits in the pipe. -/
theorem queued_head (hb : Base p cs) (hpast : Past n p) (hr : p.Resting) (hin : p.inbox = [.run (n + 1)])
    (hi : Idle n cs) {a : Act} (hok : p.stepOk (some (n + 1)) cs a = true)
    (h : p.step files cs a = some o) : Delivers n o := by
  have ho : ∀ b ≤ n, some (n + 1) ≠ some b := by
    intro b hb h
    cases h
    omega
  cases a with
  | die st => cases h; exact holds_die hb st
  | reapIdle =>
    have hd := hpast.not_reap ho hok
    simp only [Proc.step, Option.ite_none_right_eq_some] at h
    simp [deadChild, h.1.2.1] at hd
    simp [hd] at h
  | go answer =>
    rcases hr with hpc | hpc | hpc
    · simp only [Proc.step, Proc.go, hpc, Option.some.injEq] at h
      subst h
      exact .inl ⟨rfl, hb.congr .rfl rfl rfl (.inr rfl) rfl rfl,
        fun _ => .inl ⟨⟨hpast.handed, hpast.finished⟩, .inr (.inl rfl), hin, hi⟩⟩
    · simp only [Proc.step, Proc.go, hpc, hin, Option.some.injEq] at h
      subst h
      exact .inl ⟨rfl, hb.congr .rfl rfl rfl (.inr rfl) rfl rfl,
        fun _ => .inr (.inl ⟨⟨hpast.handed, hpast.finished⟩, rfl, rfl, hi⟩)⟩
    · simp only [Proc.stepOk, hpc] at hok
      simp only [Proc.step, Proc.go, hpc, reapDeadChild_live (hpast.not_reap ho hok), Proc.goto, Option.some.injEq] at h
      subst h
      exact .inl ⟨rfl, hb.congr .rfl rfl rfl (.inr rfl) rfl rfl,
        fun _ => .inl ⟨⟨hpast.handed, hpast.finished⟩, .inr (.inl rfl), hin, hi⟩⟩

/-- Stopping a child in the middle of the RUN. -/
theorem holds_stopChild (hb : Base p cs) (hpast : Past n p) (hin : p.inbox = []) (hi : Idle n cs)
    (hp : p.status = none) {after : AfterStop} (hk : after.batch = some (n + 1)) :
    Delivers n (stopChild p cs after) := by
  rcases stopChild_cases hb hp hi after with ⟨ha, cs', he, hs⟩ | ⟨ha, rfl, he⟩
  · rw [he]
    exact .inl ⟨rfl, hb.congr (by simp [hs.ne_nil, (hb.active hp).1 ha]) rfl rfl (.inr rfl) rfl rfl,
      fun _ => .inr (.inr (.inl ⟨⟨hpast.handed, hpast.finished⟩, hin, ⟨after, rfl, hk⟩, hs⟩))⟩
  · rw [he]
    cases after with
    | exit => cases hk
    | decide b =>
      cases hk
      exact .inl ⟨rfl, hb.childless ha rfl rfl, fun _ => .inr (.inl ⟨⟨hpast.handed, hpast.finished⟩, hin, rfl, hi⟩)⟩
    | reload b =>
      cases hk
      exact .inl ⟨rfl, hb.childless ha rfl rfl,
        fun _ => .inr (.inl ⟨⟨hpast.handed, hpast.finished⟩, hin, ⟨rfl, ha⟩, hi⟩)⟩
    | threw b =>
      cases hk
      exact .inl ⟨rfl, hb.childless ha rfl rfl,
        fun _ => .inr (.inl ⟨⟨hpast.handed, hpast.finished⟩, hin, ⟨rfl, ha⟩, hi⟩)⟩

/-- The child was stopped and is waited for. -/
theorem waiting_head (hb : Base p cs) (hpast : Past n p) (hin : p.inbox = []) {after : AfterStop}
    (hpc : p.pc = .stop after) (hk : after.batch = some (n + 1)) (hs : Stopping n cs) {a : Act}
    (h : p.step files cs a = some o) : Delivers n o := by
  cases a with
  | die st => cases h; exact holds_die hb st
  | reapIdle => simp [Proc.step, hpc] at h
  | go answer =>
    obtain ⟨c, ds, rfl⟩ := List.exists_cons_of_ne_nil hs.ne_nil
    simp only [Proc.step, Proc.go, hpc, Option.ite_none_left_eq_some, Option.some.injEq] at h
    obtain ⟨-, rfl⟩ := h
    cases after with
    | exit => cases hk
    | decide b =>
      cases hk
      exact .inl ⟨rfl, hb.childless rfl rfl rfl,
        fun _ => .inr (.inl ⟨⟨hpast.handed, hpast.finished⟩, hin, rfl, trivial⟩)⟩
    | reload b =>
      cases hk
      exact .inl ⟨rfl, hb.childless rfl rfl rfl,
        fun _ => .inr (.inl ⟨⟨hpast.handed, hpast.finished⟩, hin, ⟨rfl, rfl⟩, trivial⟩)⟩
    | threw b =>
      cases hk
      exact .inl ⟨rfl, hb.childless rfl rfl rfl,
        fun _ => .inr (.inl ⟨⟨hpast.handed, hpast.finished⟩, hin, ⟨rfl, rfl⟩, trivial⟩)⟩

/-- A process that goes on working on the RUN, with the same child. -/
theorem holds_working (hb : Base p cs) (hpast : Past n p) (hi : Idle n cs) {q : Proc} (h1 : q.status = p.status)
    (h2 : q.childActive = p.childActive) (h3 : q.hasRun = true ∨ q.hasRun = p.hasRun) (h4 : q.next = p.next)
    (h5 : q.stage = p.stage) (h6 : q.handed = p.handed) (h7 : q.finished = p.finished) (h8 : q.inbox = [])
    (hw : q.WorksOn (n + 1)) : Delivers n ⟨q :: cs, [], []⟩ :=
  .inl ⟨rfl, hb.congr .rfl h1 h2 h3 h4 h5, fun _ => .inr (.inl
    ⟨⟨by rw [h6]; exact hpast.handed, by rw [h7]; exact hpast.finished⟩, h8, hw, hi⟩)⟩

/-- `do_run` after the checks: reload, run or pass the RUN on. -/
theorem decide_delivers (hb : Base p cs) (hpast : Past n p) (hin : p.inbox = []) (hi : Idle n cs)
    (hp : p.status = none) : Delivers n (p.decide files cs (n + 1)) := by
  unfold Proc.decide
  dsimp only
  split
  · exact holds_stopChild hb hpast hin hi hp rfl
  · rename_i hrel
    split
    · rename_i hrun
      -- no reload and not `Always`: the stage has not run yet, so it has no child
      have hinact : p.childActive = false := by
        by_cases ht : p.next = []
        · have := hb.active hp
          rw [hb.terminal ht] at this
          simpa using this
        · obtain ⟨st, rest, hn⟩ := List.exists_cons_of_ne_nil ht
          have hpol := hb.onChange
          rw [hn] at hpol
          have hpol := hpol.1
          refine hb.notRun ?_
          simp only [Bool.or_eq_true, not_or, Bool.not_eq_true] at hrel hrun
          simpa [hrel, hpol] using hrun
      exact holds_working hb hpast hi rfl rfl (.inr rfl) rfl rfl rfl rfl hin ⟨rfl, hinact⟩
    · rename_i hrun
      simp only [Bool.or_eq_true, not_or, Bool.not_eq_true, Bool.not_eq_false'] at hrun
      split
      · rename_i hc
        exact holds_working hb hpast hi rfl rfl (.inr rfl) rfl rfl rfl rfl hin ⟨rfl, hc.2.2, hc.2.1⟩
      · rename_i hc
        refine holds_working hb hpast hi rfl rfl (.inr rfl) rfl rfl rfl rfl hin ⟨rfl, fun hne => ?_⟩
        by_contra ha
        exact hc ⟨by simpa [Proc.terminal] using hne, by simpa using hrun.2, by simpa using ha⟩

theorem startChild_delivers (hb : Base p cs) (hpast : Past n p) (hin : p.inbox = []) (hp : p.status = none)
    (ha : p.childActive = false) (hrun : p.hasRun = true) (answer : Answer) :
    Delivers n (p.startChild files cs (n + 1) answer) := by
  have hc := hb.inactive hp ha
  subst hc
  unfold Proc.startChild
  dsimp only
  split
  · rename_i r st rest hn
    have hon : InnerOnChange (st :: rest) := by
      have := hb.onChange
      rw [hn] at this
      exact this.2
    have hchild : Base { stage := st, next := rest : Proc } [] :=
      ⟨by simp, fun _ => rfl, fun _ => rfl, fun _ => rfl, hon⟩
    refine .inl ⟨rfl, ⟨fun _ => by simp, fun h => absurd hp h, fun h => ?_, fun h => ?_, hb.onChange⟩,
      fun _ => .inr (.inl ⟨⟨by simp, hpast.finished⟩, hin, ⟨rfl, fun _ => rfl⟩,
        hchild, ⟨by simp, by simp⟩, fun _ => ⟨.inl rfl, rfl⟩, trivial⟩)⟩
    · exact absurd (hrun.symm.trans h) (by simp)
    · rw [hn] at h; cases h
  · refine .inr ⟨⟨_, rfl⟩, by simp, hb.congr .rfl rfl rfl (.inr rfl) rfl rfl, hpast.done (.inl rfl) rfl,
      fun _ => ⟨.inr (.inr rfl), hin⟩, trivial⟩

/-- The last stage writes the token, the others hand the RUN to a child, which the step finds alive. -/
theorem finish_delivers (hb : Base p cs) (hpast : Past n p) (hin : p.inbox = []) (hi : Idle n cs)
    (hact : p.next ≠ [] → p.childActive = true) (hp : p.status = none) (hd : deadChild p cs = false) :
    Delivers n (p.finish cs (n + 1)) := by
  unfold Proc.finish
  by_cases ht : p.next = []
  · have hc := hb.terminal ht
    subst hc
    rw [if_pos (by simpa [Proc.terminal] using ht)]
    exact .inr ⟨⟨_, rfl⟩, by simp, hb.congr .rfl rfl rfl (.inr rfl) rfl rfl, hpast.done (.inl rfl) rfl,
      fun _ => ⟨.inr (.inr rfl), hin⟩, trivial⟩
  · have ha := hact ht
    rw [if_neg (by simpa [Proc.terminal] using ht), if_pos ha]
    cases cs with
    | nil => exact absurd rfl ((hb.active hp).1 ha)
    | cons c ds =>
      have hs : c.status = none := by
        by_contra hs
        simp [deadChild, ha, hs] at hd
      obtain ⟨hcb, hcp, hcr, hds⟩ := hi
      simp only [hs]
      refine .inl ⟨rfl, hb.congr (by simp) rfl rfl (.inr rfl) rfl rfl, fun _ =>
        .inr (.inr (.inr ⟨hin, .inr rfl, rfl, rfl,
        hcb.congr .rfl hs.symm rfl (.inr rfl) rfl rfl, fun _ =>
          .inl ⟨⟨hcp.handed, hcp.finished⟩, (hcr hs).1, ?_, hds⟩⟩))⟩
      simp [(hcr hs).2]

/-- The stage is working on the RUN. -/
theorem working_head (hb : Base p cs) (hpast : Past n p) (hin : p.inbox = []) (hw : p.WorksOn (n + 1)) (hi : Idle n cs)
    (hp : p.status = none) {a : Act} (hok : p.stepOk (some (n + 1)) cs a = true) (h : p.step files cs a = some o) :
    Delivers n o := by
  have ho : ∀ b ≤ n, some (n + 1) ≠ some b := by
    intro b hb h
    cases h
    omega
  cases a with
  | die st => cases h; exact holds_die hb st
  | reapIdle =>
    simp only [Proc.step, Option.ite_none_right_eq_some] at h
    simp [Proc.WorksOn, h.1.1] at hw
  | go answer =>
    simp only [Proc.step, Proc.go] at h
    simp only [Proc.stepOk] at hok
    unfold Proc.WorksOn at hw
    cases hpc : p.pc <;> simp only [hpc] at h hok hw
    case preReap b =>
      subst hw
      rw [reapDeadChild_live (hpast.not_reap ho hok)] at h
      cases h
      exact holds_working hb hpast hi rfl rfl (.inr rfl) rfl rfl rfl rfl hin rfl
    case start b =>
      subst hw
      cases h
      unfold Proc.start
      split
      · exact holds_stopChild hb hpast hin hi hp rfl
      · exact holds_working hb hpast hi rfl rfl (.inr rfl) rfl rfl rfl rfl hin rfl
    case decide b =>
      subst hw
      cases h
      exact decide_delivers hb hpast hin hi hp
    case reload b =>
      obtain ⟨rfl, ha⟩ := hw
      cases h
      exact holds_working hb hpast hi rfl rfl (.inr rfl) rfl rfl rfl rfl hin ⟨rfl, ha⟩
    case compute b =>
      obtain ⟨rfl, ha⟩ := hw
      cases h
      cases answer with
      | fail => exact holds_stopChild hb hpast hin hi hp rfl
      | ok r =>
        refine holds_working hb hpast hi rfl rfl (.inl rfl) rfl rfl rfl rfl hin ?_
        by_cases ht : p.next = []
        · simp [Proc.WorksOn, Proc.terminal, ht]
        · simp [Proc.WorksOn, Proc.terminal, ht, ha]
    case threw b =>
      obtain ⟨rfl, ha⟩ := hw
      cases h
      exact .inr ⟨⟨_, rfl⟩, by simp, hb.congr .rfl rfl rfl (.inr rfl) rfl rfl, hpast.done (.inl rfl) rfl,
        fun _ => ⟨.inr (.inr rfl), hin⟩, hi.mono⟩
    case startChild b =>
      obtain ⟨rfl, ha, hrun⟩ := hw
      cases h
      exact startChild_delivers hb hpast hin hp ha hrun answer
    case finish b =>
      obtain ⟨rfl, hact⟩ := hw
      cases h
      exact finish_delivers hb hpast hin hi hact hp (by simpa using hok)

/-- The RUN was handed to the child. -/
theorem below_head (hb : Base p cs) (hin : p.inbox = []) (hpc : p.pc = .poll ∨ p.pc = .postReap)
    (hh : p.handed = some (n + 1)) (hf : p.finished = some (n + 1)) (hs : Holds n cs) {a : Act}
    (h : p.step files cs a = some o) : Delivers n o := by
  -- reaping either finds the child alive or writes the token of the RUN it was handed
  have hreap : Delivers n (Proc.goto (reapDeadChild p cs) .poll) := by
    cases hd : deadChild p cs with
    | false =>
      rw [reapDeadChild_live hd]
      exact .inl ⟨rfl, hb.congr .rfl rfl rfl (.inr rfl) rfl rfl,
        fun _ => .inr (.inr (.inr ⟨hin, .inl rfl, hh, hf, hs⟩))⟩
    | true =>
      obtain ⟨c, ds, st, rfl, hst, he⟩ := reapDeadChild_dead hd
      rw [he, hh]
      exact .inr ⟨⟨_, rfl⟩, by simp [Proc.goto], hb.childless rfl rfl rfl,
        ⟨fun b hb => by simp at hb; omega, fun b hb => by simp [hf] at hb; omega⟩,
        fun _ => ⟨.inr (.inl rfl), hin⟩, trivial⟩
  cases a with
  | die st => cases h; exact holds_die hb st
  | reapIdle =>
    simp only [Proc.step, Option.ite_none_right_eq_some, Option.some.injEq] at h
    obtain ⟨⟨hpc, ha, hc⟩, rfl⟩ := h
    have hd : deadChild p cs = true := by simpa [deadChild, ha] using hc
    obtain ⟨c, ds, st, rfl, hst, he⟩ := reapDeadChild_dead hd
    rw [he, Proc.goto] at hreap
    rw [he]
    simpa [hpc] using hreap
  | go answer =>
    rcases hpc with hpc | hpc
    · simp [Proc.step, Proc.go, hpc, hin] at h
    · simp only [Proc.step, Proc.go, hpc, Option.some.injEq] at h
      exact h ▸ hreap

/-- **The owed RUN is kept or answered**: a step of the chain that holds RUN `n + 1` writes its token, or no
token, and then still holds it. -/
theorem holds_step : ∀ {cs : List Proc} {i : Nat} {a : Act} {o : Outcome}, Holds n cs →
    chainOk (some (n + 1)) cs i a = true → chainStep files cs i a = some o → Delivers n o
  | [], _, _, _, _, _, h => by cases h
  | p :: cs, 0, a, o, ⟨hb, hr⟩, hok, h => by
    simp only [chainStep, Option.ite_none_right_eq_some] at h
    obtain ⟨hp, h⟩ := h
    rcases hr hp with ⟨hpast, hrest, hin, hi⟩ | ⟨hpast, hin, hw, hi⟩ | ⟨hpast, hin, ⟨x, hpc, hx⟩, hs⟩ |
      ⟨hin, hpc, hh, hf, hs⟩
    · exact queued_head hb hpast hrest hin hi hok h
    · exact working_head hb hpast hin hw hi hp hok h
    · exact waiting_head hb hpast hin hpc hx hs h
    · exact below_head hb hin hpc hh hf hs h
  | p :: cs, i + 1, a, o, ⟨hb, hr⟩, hok, h => by
    simp only [chainStep, Option.map_eq_some_iff] at h
    obtain ⟨o, h, rfl⟩ := h
    have hne := chainStep_ne_nil h
    have hp : p.status = none := by
      by_contra hd
      exact hne (hb.dead hd)
    have ho : ∀ b ≤ n, some (n + 1) ≠ some b := by
      intro b hb h
      cases h
      omega
    have hbase : o.chain ≠ [] → Base p o.chain := fun hne' => hb.congr (by simp [hne, hne']) rfl rfl (.inr rfl) rfl rfl
    rcases hr hp with ⟨hpast, hrest, hin, hi⟩ | ⟨hpast, hin, hw, hi⟩ | ⟨hpast, hin, hpc, hs⟩ | ⟨hin, hpc, hh, hf, hs⟩
    · obtain ⟨ht, hne', hi'⟩ := idle_step hi ho hok h
      exact .inl ⟨ht, hbase hne', fun _ => .inl ⟨hpast, hrest, hin, hi'⟩⟩
    · obtain ⟨ht, hne', hi'⟩ := idle_step hi ho hok h
      exact .inl ⟨ht, hbase hne', fun _ => .inr (.inl ⟨hpast, hin, hw, hi'⟩)⟩
    · obtain ⟨ht, hs'⟩ := stopping_step hs ho hok h
      exact .inl ⟨ht, hbase hs'.ne_nil, fun _ => .inr (.inr (.inl ⟨hpast, hin, hpc, hs'⟩))⟩
    · rcases holds_step hs hok h with ⟨ht, hs'⟩ | ⟨ht, hne', hi'⟩
      · exact .inl ⟨ht, hbase hs'.ne_nil, fun _ => .inr (.inr (.inr ⟨hin, hpc, hh, hf, hs'⟩))⟩
      · refine .inr ⟨ht, by simp, hbase hne', ⟨fun b hb => ?_, fun b hb => ?_⟩, fun _ => ⟨.inr hpc, hin⟩, hi'⟩
        · rw [hh] at hb; cases hb; exact Nat.le_refl _
        · rw [hf] at hb; cases hb; omega

/-! ## The whole system -/

theorem idle_split : ∀ {above : List Proc}, Idle n (above ++ p :: cs) → Base p cs ∧ Past n p
  | [], ⟨hb, hp, _, _⟩ => ⟨hb, hp⟩
  | _ :: _, ⟨_, _, _, hi⟩ => idle_split hi

theorem stopping_split : ∀ {above : List Proc}, Stopping n (above ++ p :: cs) → Base p cs ∧ Past n p
  | [], ⟨hb, hp, _⟩ => ⟨hb, hp⟩
  | q :: above, ⟨hb, _, hr⟩ => by
    have hq : q.status = none := by
      by_contra hd
      exact absurd (hb.dead hd) (by simp)
    rcases hr hq with ⟨-, -, hi⟩ | ⟨-, -, hs⟩
    · exact idle_split hi
    · exact stopping_split hs

theorem holds_split : ∀ {above : List Proc}, Holds n (above ++ p :: cs) →
    Base p cs ∧ (p.status = none → Past n p ∨ p.handed = some (n + 1) ∧ p.finished = some (n + 1) ∧ cs ≠ [])
  | [], ⟨hb, hr⟩ => by
    refine ⟨hb, fun hp => ?_⟩
    rcases hr hp with ⟨hpast, -⟩ | ⟨hpast, -⟩ | ⟨hpast, -⟩ | ⟨-, -, hh, hf, hs⟩
    · exact .inl hpast
    · exact .inl hpast
    · exact .inl hpast
    · exact .inr ⟨hh, hf, hs.ne_nil⟩
  | q :: above, ⟨hb, hr⟩ => by
    have hq : q.status = none := by
      by_contra hd
      exact absurd (hb.dead hd) (by simp)
    rcases hr hq with ⟨-, -, -, hi⟩ | ⟨-, -, -, hi⟩ | ⟨-, -, -, hs⟩ | ⟨-, -, -, -, hs⟩
    · exact (idle_split hi).imp_right fun h _ => .inl h
    · exact (idle_split hi).imp_right fun h _ => .inl h
    · exact (stopping_split hs).imp_right fun h _ => .inl h
    · exact holds_split hs

theorem mem_expected : ∀ {n b : Nat}, 1 ≤ b → b ≤ n → Ev.tok (some b) ∈ expected n
  | 0, b, h1, h2 => by omega
  | n + 1, b, h1, h2 => by
    by_cases h : b = n + 1
    · simp [expected, h]
    · exact List.mem_cons_of_mem _ (List.mem_cons_of_mem _ (mem_expected h1 (by omega)))

namespace Sys

variable {s s' : Sys}

theorem owed_expected {log : List Ev} (h : s.log = log) (hn : log = expected n) : s.owed = none := by
  subst hn
  cases n <;> simp [owed, h, expected]

/-- The parent between two RUNs, or with the token of the last one on its way. -/
def ParentSettled (s : Sys) : Prop :=
  match s.parent with
  | .idle => s.done = []
  | .waiting none _ => ∃ t, s.done = [t]
  | .waiting (some _) _ => s.done = []
  | .finished | .dead => True

/-- Every RUN has its token, or the last one is owed it. -/
inductive Accounted (n : Nat) (s : Sys) : Prop where
  | settled (sent : s.sent = n) (log : s.log = expected n) (chain : Idle n s.chain) (parent : s.ParentSettled)
  | stopping (log : s.log = expected n) (chain : Stopping n s.chain) (parent : s.parent = .finished ∨ s.parent = .dead)
  | owing (sent : s.sent = n + 1) (log : s.log = .fwd (n + 1) :: expected n) (chain : Holds n s.chain)
      (parent : s.parent = .dead ∨ s.done = [] ∧ ∃ trace, s.parent = .waiting none trace)

theorem Accounted.exactlyOnce (h : Accounted n s) : ExactlyOnce s := by
  cases h with
  | settled _ log chain _ =>
    refine ⟨⟨n, .inl log⟩, fun above p below he hp b hb => ?_, fun above p below he hp => ?_⟩
    · have hf := (idle_split (he ▸ chain)).2.finished b hb
      exact .inl (log ▸ mem_expected hf.1 hf.2)
    · exact (idle_split (he ▸ chain)).1.active hp
  | stopping log chain _ =>
    refine ⟨⟨n, .inl log⟩, fun above p below he hp b hb => ?_, fun above p below he hp => ?_⟩
    · have hf := (stopping_split (he ▸ chain)).2.finished b hb
      exact .inl (log ▸ mem_expected hf.1 hf.2)
    · exact (stopping_split (he ▸ chain)).1.active hp
  | owing _ log chain _ =>
    refine ⟨⟨n, .inr log⟩, fun above p below he hp b hb => ?_, fun above p below he hp => ?_⟩
    · rcases (holds_split (he ▸ chain)).2 hp with hpast | ⟨hh, hf, hne⟩
      · have hf := hpast.finished b hb
        exact .inl (log ▸ List.mem_cons_of_mem _ (mem_expected hf.1 hf.2))
      · exact .inr ⟨by rw [hh, ← hf, hb], hne⟩
    · exact (holds_split (he ▸ chain)).1.active hp

theorem accounted_init {st : StageDef} {rest : List StageDef} (h : InnerOnChange (st :: rest)) :
    Accounted 0 (init files st rest) :=
  .settled rfl rfl ⟨⟨by simp, fun _ => rfl, fun _ => rfl, fun _ => rfl, h⟩, ⟨by simp, by simp⟩, fun _ =>
    ⟨.inl rfl, rfl⟩,
    trivial⟩ rfl

/-- A step that touches neither the chain nor the log. -/
theorem Accounted.congr (h : Accounted n s) (h1 : s'.sent = s.sent) (h2 : s'.log = s.log) (h3 : s'.chain = s.chain)
    (h4 : s.ParentSettled → s'.ParentSettled)
    (h5 : s.parent = .finished ∨ s.parent = .dead → s'.parent = .finished ∨ s'.parent = .dead)
    (h6 : (s.parent = .dead ∨ s.done = [] ∧ ∃ trace, s.parent = .waiting none trace) →
      s'.parent = .dead ∨ s'.done = [] ∧ ∃ trace, s'.parent = .waiting none trace) : Accounted n s' := by
  cases h with
  | settled sent log chain parent => exact .settled (h1.trans sent) (h2.trans log) (h3 ▸ chain) (h4 parent)
  | stopping log chain parent => exact .stopping (h2.trans log) (h3 ▸ chain) (h5 parent)
  | owing sent log chain parent => exact .owing (h1.trans sent) (h2.trans log) (h3 ▸ chain) (h6 parent)

theorem accounted_killParent (h : Accounted n s) : Accounted n { s with parent := .dead } :=
  h.congr rfl rfl rfl (fun _ => trivial) (fun _ => .inr rfl) (fun _ => .inl rfl)

/-- A message to an idle chain. -/
theorem send_run {chain : List Proc} (hi : Idle n s.chain) (h : send (.run (n + 1)) s.chain = some chain) :
    Holds n chain := by
  unfold send at h
  split at h
  · rename_i p cs hc
    rw [hc] at hi
    obtain ⟨hb, hp, hr, hcs⟩ := hi
    simp only [Option.ite_none_right_eq_some, Option.some.injEq] at h
    obtain ⟨hs, rfl⟩ := h
    refine ⟨hb.congr .rfl rfl rfl (.inr rfl) rfl rfl, fun _ => .inl ⟨⟨hp.handed, hp.finished⟩, (hr hs).1, ?_, hcs⟩⟩
    simp [(hr hs).2]
  · cases h

/-- TERMINATE to an idle chain: its first stage stops, or is already dead. -/
theorem send_terminate (hi : Idle n s.chain) :
    Idle n ((send .terminate s.chain).getD s.chain) ∨ Stopping n ((send .terminate s.chain).getD s.chain) := by
  unfold send
  split
  · rename_i p cs hc
    rw [hc] at hi
    by_cases hs : p.status = none
    · right
      rw [if_pos hs, Option.getD_some]
      simpa only [hs, ↓reduceIte] using hi.stopping
    · left
      rw [if_neg hs, Option.getD_none]
      exact hc ▸ hi
  · exact .inl hi

/-- A step of one stage process. -/
theorem accounted_proc (h : Accounted n s) {i : Nat} {a : Act} (hok : chainOk s.owed s.chain i a = true) {o : Outcome}
    (ho : chainStep s.files s.chain i a = some o) :
    ∃ m, Accounted m ({ s with chain := o.chain, orphans := s.orphans ++ o.left }.write o.tokens) := by
  cases h with
  | settled sent log chain parent =>
    rw [owed_expected log rfl] at hok
    obtain ⟨ht, -, hi⟩ := idle_step chain (by simp) hok ho
    refine ⟨n, .settled sent ?_ hi ?_⟩
    · simpa [write, ht] using log
    · unfold ParentSettled at parent ⊢
      simpa [write, ht] using parent
  | stopping log chain parent =>
    rw [owed_expected log rfl] at hok
    obtain ⟨ht, hs⟩ := stopping_step chain (by simp) hok ho
    refine ⟨n, .stopping ?_ hs parent⟩
    simpa [write, ht] using log
  | owing sent log chain parent =>
    have howed : s.owed = some (n + 1) := by simp [owed, log]
    rw [howed] at hok
    rcases holds_step chain hok ho with ⟨ht, hs⟩ | ⟨⟨t, ht⟩, -, hi⟩
    · refine ⟨n, .owing sent ?_ hs ?_⟩
      · simpa [write, ht] using log
      · simpa [write, ht] using parent
    · refine ⟨n + 1, .settled sent ?_ hi ?_⟩
      · simpa [write, ht, expected] using log
      · unfold ParentSettled
        rcases parent with parent | ⟨hd, trace, parent⟩
        · simp [write, parent]
        · exact ht ▸ by simp [write, parent, hd]

/-- **One step** that meets the condition keeps the account. -/
theorem accounted_step (h : Accounted n s) {a : SysAct} (hok : s.StepOk a = true) (hs : s.step a = some s') :
    ∃ m, Accounted m s' := by
  cases a with
  | rebuild so build => cases hs; exact ⟨n, h.congr rfl rfl rfl id id id⟩
  | request =>
    simp only [step] at hs
    split at hs
    · rename_i hpar
      split at hs
      · rename_i chain hsend
        cases hs
        cases h with
        | settled sent log chain parent =>
          refine ⟨n, .owing (by simp [sent]) (by simp [sent, log]) (send_run chain (sent ▸ hsend))
            (.inr ⟨?_, false, rfl⟩)⟩
          simpa [ParentSettled, hpar] using parent
        | stopping log chain parent => rw [hpar] at parent; simp at parent
        | owing sent log chain parent => rw [hpar] at parent; simp at parent
      · cases hs
        exact ⟨n, accounted_killParent h⟩
    · cases hs
  | terminate =>
    simp only [step] at hs
    split at hs
    · rename_i hpar
      cases hs
      cases h with
      | settled sent log chain parent =>
        rcases send_terminate chain with hi | hst
        · exact ⟨n, .settled sent log hi trivial⟩
        · exact ⟨n, .stopping log hst (.inl rfl)⟩
      | stopping log chain parent => rw [hpar] at parent; simp at parent
      | owing sent log chain parent => rw [hpar] at parent; simp at parent
    · cases hs
  | readToken =>
    simp only [step] at hs
    split at hs
    · rename_i token trace t ts hpar hdone
      cases hs
      refine ⟨n, h.congr rfl rfl rfl (fun hp => ?_) (fun hp => ?_) (fun hp => ?_)⟩
      · unfold ParentSettled at hp ⊢
        cases token <;> simp_all
      · simp [hpar] at hp
      · simp [hpar, hdone] at hp
    · cases hs
  | traceComplete =>
    simp only [step] at hs
    split at hs
    · rename_i token trace hpar
      cases hs
      refine ⟨n, h.congr rfl rfl rfl (fun hp => ?_) (fun hp => ?_) (fun hp => ?_)⟩
      · unfold ParentSettled at hp ⊢
        cases token <;> simpa [hpar] using hp
      · simp [hpar] at hp
      · simpa [hpar] using hp
    · cases hs
  | respond =>
    simp only [step] at hs
    split at hs
    · rename_i t trace hpar
      simp only [Option.ite_none_right_eq_some, Option.some.injEq] at hs
      obtain ⟨-, rfl⟩ := hs
      refine ⟨n, h.congr rfl rfl rfl (fun hp => ?_) (fun hp => ?_) (fun hp => ?_)⟩
      · unfold ParentSettled at hp ⊢
        simpa [hpar] using hp
      · simp [hpar] at hp
      · simp [hpar] at hp
    · cases hs
  | killParent => cases hs; exact ⟨n, accounted_killParent h⟩
  | proc i act =>
    simp only [step, Option.map_eq_some_iff] at hs
    obtain ⟨o, ho, rfl⟩ := hs
    exact accounted_proc h hok ho
  | orphanWrites t => cases hok

end Sys

/-- **Exactly one token per RUN**: in every state of every run whose steps meet `Sys.StepOk`, the tokens
written so far are one for each RUN that was followed by another, and at most one for the last. -/
theorem one_token_per_run (st : StageDef) (rest : List StageDef) (hst : InnerOnChange (st :: rest))
    (files : Nat → BuildId) (as : List SysAct) (s : Sys)
    (hok : Trace.Meets Sys.step (fun s a => s.StepOk a = true) (.init files st rest) as)
    (hrun : Trace.exec Sys.step (.init files st rest) as = some s) : ExactlyOnce s := by
  obtain ⟨n, h⟩ := Trace.exec_invariant (I := fun s => ∃ n, Sys.Accounted n s)
    (fun _ _ _ ⟨_, h⟩ hok hs => Sys.accounted_step h hok hs) ⟨0, Sys.accounted_init hst⟩ hok hrun
  exact h.exactlyOnce

/-- All plugins have a build id. -/
def builtFiles : Nat → BuildId := fun _ => 1

def goTo (i : Nat) : SysAct := .proc i (.go (.ok 0))

/-- A RUN through all three stages, up to the parent's answer. -/
def firstRun : List SysAct :=
  [.request, goTo 0, goTo 0, goTo 0, goTo 0, goTo 0, goTo 0, goTo 0, goTo 0,
    goTo 1, goTo 1, goTo 1, goTo 1, goTo 1, goTo 1, goTo 1, goTo 1,
    goTo 2, goTo 2, goTo 2, goTo 2, goTo 2, goTo 2, goTo 2, goTo 2,
    goTo 0, goTo 1, goTo 2, .readToken, .traceComplete, .respond]

theorem one_token_per_run_olap : ∃ s, Trace.exec Sys.step (olapPipeline builtFiles) firstRun = some s ∧
    s.log = expected 1 ∧ ExactlyOnce s :=
  ⟨_, rfl, rfl, one_token_per_run loaderStage [builderStage, queryStage] ⟨rfl, rfl, trivial⟩ builtFiles firstRun _
    (Trace.meets_of_check rfl) rfl⟩

/-- The query process dies between two RUNs; the builder reaps it from its poll loop and writes a second
token, which the parent takes for the answer to RUN 2. -/
def idleDeath : List SysAct :=
  firstRun ++ [.proc 2 (.die ⟨0, 9⟩), .proc 1 .reapIdle, .request, .readToken, .respond]

theorem idle_death_second_token : ∃ s, Trace.exec Sys.step (olapPipeline builtFiles) idleDeath = some s ∧
    s.log = [.fwd 2, .tok (some 1), .tok (some 1), .fwd 1] ∧ s.parent = .idle ∧ ¬ ExactlyOnce s := by
  refine ⟨_, rfl, rfl, rfl, fun h => ?_⟩
  obtain ⟨n, h | h⟩ := h.log
  · rcases n with _ | n <;> cases h
  · rcases n with _ | _ | _ | n <;> cases h

/-- `notify_child_run` on a dead child: one token is written, but `child_active` stays true without a child. -/
theorem notify_dead_child {ds : List Proc} {st : DoneToken} (hn : p.next ≠ []) (ha : p.childActive = true)
    (hc : c.status = some st) (b : Nat) :
    p.finish (c :: ds) b = ⟨[p.done b], leave ds, [⟨st, some b⟩]⟩ ∧ (p.done b).childActive = true := by
  refine ⟨?_, ha⟩
  have ht : p.terminal ≠ true := by simpa [Proc.terminal] using hn
  simp [Proc.finish, ht, ha, hc]

end SynnoDB.Hotpatch
