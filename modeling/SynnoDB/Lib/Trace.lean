import Mathlib.Data.List.Basic

/-!
# Runs of a partial step function

A component is a state type, an input type and `step : σ → α → Option σ` (`none`: the input is not
enabled in this state). `exec` folds a list of inputs, `Meets ok` says that every step of the run
is taken in a state where `ok` holds of it. The rules below turn a fact about one step into a fact
about whole runs; nothing here knows about a particular component.
-/

namespace Trace

variable {σ α : Type*} (step : σ → α → Option σ)

/-- The state after the inputs `as`, if each of them is enabled when its turn comes. -/
def exec : σ → List α → Option σ
  | s, [] => some s
  | s, a :: as => match step s a with
    | some s' => exec s' as
    | none => none

/-- Every step of the run from `s` on `as` meets `ok` in the state it is taken in. -/
def Meets (ok : σ → α → Prop) : σ → List α → Prop
  | _, [] => True
  | s, a :: as => ok s a ∧ ∀ s', step s a = some s' → Meets ok s' as

/-- `Meets` for a condition that can be computed. -/
def meetsCheck (ok : σ → α → Bool) : σ → List α → Bool
  | _, [] => true
  | s, a :: as => ok s a && match step s a with
    | some s' => meetsCheck ok s' as
    | none => true

/-- `s'` is reached from `s` by some run. -/
def Reach (s s' : σ) : Prop := ∃ as, exec step s as = some s'

variable {step}

@[simp] theorem exec_nil (s : σ) : exec step s [] = some s := rfl

theorem exec_cons {s s' : σ} {a : α} {as : List α} :
    exec step s (a :: as) = some s' ↔ ∃ t, step s a = some t ∧ exec step t as = some s' := by
  simp only [exec]
  cases step s a <;> simp

theorem exec_append {s s' : σ} {as bs : List α} :
    exec step s (as ++ bs) = some s' ↔ ∃ t, exec step s as = some t ∧ exec step t bs = some s' := by
  induction as generalizing s with
  | nil => simp
  | cons a as ih =>
    simp only [List.cons_append, exec_cons, ih]
    constructor
    · rintro ⟨t, h, u, h1, h2⟩; exact ⟨u, ⟨t, h, h1⟩, h2⟩
    · rintro ⟨u, ⟨t, h, h1⟩, h2⟩; exact ⟨t, h, u, h1, h2⟩

theorem meets_of_check {ok : σ → α → Bool} : ∀ {as : List α} {s : σ}, meetsCheck step ok s as = true →
    Meets step (fun s a => ok s a = true) s as
  | [], _, _ => trivial
  | a :: as, s, h => by
    simp only [meetsCheck, Bool.and_eq_true] at h
    refine ⟨h.1, fun s' hs => meets_of_check ?_⟩
    simpa only [hs] using h.2

theorem Meets.mono {ok ok' : σ → α → Prop} (h : ∀ s a, ok s a → ok' s a) : ∀ {as : List α} {s : σ},
    Meets step ok s as → Meets step ok' s as
  | [], _, _ => trivial
  | _ :: _, _, hok => ⟨h _ _ hok.1, fun s' hs => (hok.2 s' hs).mono h⟩

/-- A condition met by all steps is met by each. -/
theorem Meets.at {ok : σ → α → Prop} {a : α} {bs : List α} :
    ∀ {as : List α} {s t : σ}, Meets step ok s (as ++ a :: bs) →
    exec step s as = some t → ok t a
  | [], _, _, h, hexec => by
    cases hexec
    exact h.1
  | _ :: _, _, _, h, hexec => by
    obtain ⟨u, hu, hexec⟩ := exec_cons.1 hexec
    exact (h.2 u hu).at hexec

/-- **Invariant rule**: what the start has and every step meeting `ok` keeps, the end has. -/
theorem exec_invariant {I : σ → Prop} {ok : σ → α → Prop}
    (hstep : ∀ s a s', I s → ok s a → step s a = some s' → I s') :
    ∀ {as : List α} {s s' : σ}, I s → Meets step ok s as → exec step s as = some s' → I s'
  | [], s, s', h0, _, h => by
    simp only [exec_nil, Option.some.injEq] at h
    exact h ▸ h0
  | a :: as, s, s', h0, hok, h => by
    obtain ⟨t, ht, h⟩ := exec_cons.1 h
    exact exec_invariant hstep (hstep s a t h0 hok.1 ht) (hok.2 t ht) h

/-- The same rule for runs without a condition on the steps. -/
theorem reach_invariant {I : σ → Prop} (hstep : ∀ s a s', I s → step s a = some s' → I s')
    {s s' : σ} (h0 : I s) (h : Reach step s s') : I s' := by
  obtain ⟨as, h⟩ := h
  have hok : ∀ (as : List α) (s : σ), Meets step (fun _ _ => True) s as := by
    intro as
    induction as with
    | nil => intro s; trivial
    | cons a as ih => intro s; exact ⟨trivial, fun s' _ => ih s'⟩
  exact exec_invariant (fun s a s' hi _ hs => hstep s a s' hi hs) h0 (hok as s) h

end Trace
