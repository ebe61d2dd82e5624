import Mathlib.Data.List.Basic
import Mathlib.Order.Basic

/-!
# Loops over a worklist

`drain step` repeats a step until it has nothing left to do. An invariant of the step is one of the loop
(`drain_invariant`); where a measure falls with each step, as many rounds as the measure counts reach the end
(`drain_done`).

`mark` is the step of a search: the neighbours that are not marked yet are marked and go onto the worklist, a stack or
a queue. The unmarked nodes and the length of the worklist are together such a measure (`mark_measure`).
-/

namespace Worklist

variable {σ α : Type*}

def drain (step : σ → Option σ) : Nat → σ → σ
  | 0, s => s
  | fuel + 1, s => match step s with
    | none => s
    | some s' => drain step fuel s'

theorem drain_invariant {step : σ → Option σ} {P : σ → Prop} (hstep : ∀ s s', P s → step s = some s' → P s')
    (fuel : Nat)
    {s : σ} (h : P s) : P (drain step fuel s) := by
  induction fuel generalizing s with
  | zero => exact h
  | succ fuel ih =>
    unfold drain
    split
    · exact h
    · rename_i s' hs'
      exact ih (hstep s s' h hs')

/-- Nothing is left to do at the end. -/
theorem drain_done {step : σ → Option σ} {P : σ → Prop} (hstep : ∀ s s', P s → step s = some s' → P s') (μ : σ → Nat)
    (hμ : ∀ s s', P s → step s = some s' → μ s' < μ s) {fuel : Nat} {s : σ} (h : P s) (hfuel : μ s ≤ fuel) :
    step (drain step fuel s) = none := by
  induction fuel generalizing s with
  | zero =>
    unfold drain
    cases hs : step s with
    | none => rfl
    | some s' =>
      have hless := hμ s s' h hs
      omega
  | succ fuel ih =>
    unfold drain
    cases hs : step s with
    | none => exact hs
    | some s' =>
      have hless := hμ s s' h hs
      exact ih (hstep s s' h hs) (by omega)

/-! ## Marking neighbours -/

/-- A stack, a queue: what is put onto it is in it, beside what was. -/
def Puts (put : α → List α → List α) : Prop := ∀ v work, (∀ x, x ∈ put v work ↔ x = v ∨ x ∈ work) ∧
  (put v work).length = work.length + 1

theorem puts_stack : Puts fun (v : α) work => v :: work := fun _ _ => ⟨fun _ => List.mem_cons, rfl⟩

section
variable {β : Type*} [DecidableEq α] (key : β → α) (tag : α → β) (put : α → List α → List α)

/-- Each neighbour that is not seen is, under its tag, and is put onto the worklist. -/
def mark : List α → List β × List α → List β × List α
  | [], st => st
  | v :: vs, (seen, work) =>
    if v ∈ seen.map key then mark vs (seen, work) else mark vs (tag v :: seen, put v work)

variable {key tag put} {seen : List β} {work nodes vs : List α} {v x : α}

theorem mem_mark (hput : Puts put) (htag : ∀ v, key (tag v) = v) :
    (x ∈ (mark key tag put vs (seen, work)).1.map key ↔ x ∈ seen.map key ∨ x ∈ vs) ∧
    (x ∈ (mark key tag put vs (seen, work)).2 ↔ x ∈ work ∨ (x ∈ vs ∧ x ∉ seen.map key)) := by
  induction vs generalizing seen work with
  | nil => simp [mark]
  | cons v vs ih =>
    unfold mark
    by_cases hv : v ∈ seen.map key
    · rw [if_pos hv, ih.1, ih.2, List.mem_cons]
      constructor
      · constructor
        · tauto
        · rintro (hx | rfl | hx)
          · exact .inl hx
          · exact .inl hv
          · exact .inr hx
      · constructor
        · tauto
        · rintro (hx | ⟨rfl | hx, hnew⟩)
          · exact .inl hx
          · exact absurd hv hnew
          · exact .inr ⟨hx, hnew⟩
    · rw [if_neg hv, ih.1, ih.2, (hput v work).1, List.map_cons, htag, List.mem_cons, List.mem_cons]
      constructor
      · tauto
      · by_cases hxv : x = v
        · subst hxv
          tauto
        · tauto

/-- The nodes that are still unmarked. -/
def unmarked (nodes marked : List α) : Nat := nodes.countP fun x => x ∉ marked

theorem unmarked_cons {marked : List α} (hv : v ∈ nodes) (hnew : v ∉ marked) :
    unmarked nodes (v :: marked) < unmarked nodes marked := by
  have hmono : ∀ l : List α, (l.countP fun x => decide (x ∉ v :: marked)) ≤ l.countP fun x => decide (x ∉ marked) := by
    intro l
    apply List.countP_mono_left
    intro x _
    simp
  obtain ⟨s, t, rfl⟩ := List.append_of_mem hv
  have hs := hmono s
  have ht := hmono t
  simp only [unmarked, List.countP_append, List.countP_cons]
  simp [hnew] at hs ht ⊢
  omega

theorem unmarked_le (nodes marked : List α) : unmarked nodes marked ≤ nodes.length := List.countP_le_length

theorem mark_measure (hput : Puts put) (htag : ∀ v, key (tag v) = v) (hvs : vs ⊆ nodes) :
    unmarked nodes ((mark key tag put vs (seen, work)).1.map key) + (mark key tag put vs (seen, work)).2.length ≤
      unmarked nodes (seen.map key) + work.length := by
  induction vs generalizing seen work with
  | nil => exact Nat.le_refl _
  | cons v vs ih =>
    obtain ⟨hv, hrest⟩ := List.cons_subset.1 hvs
    unfold mark
    by_cases hold : v ∈ seen.map key
    · rw [if_pos hold]
      exact ih hrest
    · rw [if_neg hold]
      obtain hmore : _ ≤ unmarked nodes ((tag v :: seen).map key) + (put v work).length := ih hrest
      have hfewer := unmarked_cons hv hold
      have hlen := (hput v work).2
      rw [List.map_cons, htag] at hmore
      omega

end

end Worklist
