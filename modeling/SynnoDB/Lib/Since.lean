import Mathlib.Data.List.Induction

/-!
# What happened last

A history is the list of what happened, oldest first. `Since on off h`: something that is `on` happened and
nothing since then was `off`. A state that is updated one act at a time has a property because of such an act
exactly when each act sets it, keeps it or takes it away by these two predicates (`foldl_since`).
-/

namespace History

variable {α σ : Type*}

def Since (on off : α → Prop) (h : List α) : Prop := ∃ before x after, h = before ++ x :: after ∧ on x ∧ ∀ a ∈ after, ¬ off a

variable {on off : α → Prop} {as bs : List α} {a : α}

@[simp] theorem since_nil : ¬ Since on off [] := by
  rintro ⟨before, x, after, h, -⟩
  simp at h

theorem since_append : Since on off (as ++ bs) ↔ Since on off bs ∨ Since on off as ∧ ∀ b ∈ bs, ¬ off b := by
  constructor
  · rintro ⟨before, x, after, h, hon, hoff⟩
    rcases List.append_eq_append_iff.1 h with ⟨mid, hbefore, hbs⟩ | ⟨mid, has, hafter⟩
    · exact .inl ⟨mid, x, after, hbs, hon, hoff⟩
    · cases mid with
      | nil => exact .inl ⟨[], x, after, by simpa using hafter.symm, hon, hoff⟩
      | cons y mid =>
        obtain ⟨rfl, rfl⟩ := List.cons.inj hafter
        exact .inr ⟨⟨before, x, mid, has, hon, fun a ha => hoff a (List.mem_append_left _ ha)⟩,
          fun b hb => hoff b (List.mem_append_right _ hb)⟩
  · rintro (⟨before, x, after, rfl, hon, hoff⟩ | ⟨⟨before, x, after, rfl, hon, hoff⟩, hbs⟩)
    · exact ⟨as ++ before, x, after, by simp, hon, hoff⟩
    · refine ⟨before, x, after ++ bs, by simp, hon, fun a ha => ?_⟩
      rcases List.mem_append.1 ha with ha | ha
      · exact hoff a ha
      · exact hbs a ha

theorem since_concat : Since on off (as ++ [a]) ↔ on a ∨ Since on off as ∧ ¬ off a := by
  have hone : Since on off [a] ↔ on a := by
    constructor
    · rintro ⟨before, x, after, h, hon, -⟩
      cases before with
      | nil => exact (List.cons.inj h).1 ▸ hon
      | cons y before => simp at h
    · intro hon
      exact ⟨[], a, [], rfl, hon, nofun⟩
  rw [since_append, hone]
  simp

/-- **Last act rule**: a property that each act sets, keeps or takes away holds because of the last act that set it. -/
theorem foldl_since {step : σ → α → σ} {P : σ → Prop} {s : σ} (h0 : ¬ P s)
    (hstep : ∀ s a, P (step s a) ↔ on a ∨ P s ∧ ¬ off a) (acts : List α) :
      P (acts.foldl step s) ↔ Since on off acts := by
  induction acts using List.reverseRecOn with
  | nil => exact iff_of_false h0 since_nil
  | append_singleton acts a ih => rw [List.foldl_append, List.foldl_cons, List.foldl_nil, hstep, ih, since_concat]

end History
