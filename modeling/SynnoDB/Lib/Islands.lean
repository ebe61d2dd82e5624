import Mathlib.Data.List.Pairwise
import SynnoDB.Lib.Worklist

/-!
# The islands of a graph

`components` searches the connected components of a graph depth first, one start node after the other. Over a symmetric
adjacency they are `Islands`: nothing is adjacent to an island but the island itself, no two of them meet, and every
node is on one.
-/

namespace Worklist

variable {α : Type*} [DecidableEq α] (adj : α → List α)

structure Growth (α : Type*) where
  seen : List α
  stack : List α
  comp : List α

def growStep (s : Growth α) : Option (Growth α) :=
  match s.stack with
  | [] => none
  | u :: stack =>
    let marked := mark id id (fun v work => v :: work) (adj u) (s.seen, stack)
    some ⟨marked.1, marked.2, u :: s.comp⟩

def components (fuel : Nat) : List α → List α → List (List α)
  | [], _ => []
  | start :: starts, seen =>
    if start ∈ seen then components fuel starts seen
    else
      let s := drain (growStep adj) fuel ⟨start :: seen, [start], []⟩
      s.comp :: components fuel starts s.seen

structure Islands (nodes : List α) (comps : List (List α)) : Prop where
  closed : ∀ c ∈ comps, ∀ u ∈ c, ∀ v ∈ adj u, v ∈ c
  apart : comps.Pairwise fun c d => ∀ x ∈ c, x ∉ d
  cover : ∀ x ∈ nodes, ∃ c ∈ comps, x ∈ c
  known : ∀ c ∈ comps, c ⊆ nodes

variable {adj} {nodes old starts : List α} {s s' : Growth α} {fuel : Nat} {x u v : α}

/-- Two islands that meet are one. -/
theorem Islands.same {comps : List (List α)} (h : Islands adj nodes comps) {c d : List α} (hc : c ∈ comps)
    (hd : d ∈ comps)
    (hxc : x ∈ c) (hxd : x ∈ d) : c = d := by
  by_contra hne
  have hsymm : Std.Symm fun c d : List α => ∀ x ∈ c, x ∉ d := ⟨fun c d h x hxd hxc => h x hxc hxd⟩
  exact h.apart.forall hc hd hne x hxc hxd

/-! ## One component -/

/-- While a component grows beside `old`. -/
structure Growing (adj : α → List α) (nodes old : List α) (s : Growth α) : Prop where
  seen_iff : ∀ x, x ∈ s.seen ↔ x ∈ old ∨ x ∈ s.comp ∨ x ∈ s.stack
  fresh : ∀ x, x ∈ s.comp ∨ x ∈ s.stack → x ∉ old ∧ x ∈ nodes
  closed : ∀ u ∈ s.comp, ∀ v ∈ adj u, v ∈ s.seen

omit [DecidableEq α] in
theorem Growing.start (hx : x ∈ nodes) (hnew : x ∉ old) : Growing adj nodes old ⟨x :: old, [x], []⟩ where
  seen_iff y := by simp [or_comm]
  fresh y hy := by
    obtain rfl : y = x := by simpa using hy
    exact ⟨hnew, hx⟩
  closed u hu := absurd hu List.not_mem_nil

theorem Growing.step (hadj : ∀ u ∈ nodes, adj u ⊆ nodes) (h : Growing adj nodes old s) (hs : growStep adj s = some s') :
    Growing adj nodes old s' := by
  unfold growStep at hs
  split at hs
  · cases hs
  · rename_i u stack hstack
    cases hs
    have hmark : ∀ x, (x ∈ (mark id id (fun v work => v :: work) (adj u) (s.seen, stack)).1.map id ↔
          x ∈ s.seen.map id ∨ x ∈ adj u) ∧
        (x ∈ (mark id id (fun v work => v :: work) (adj u) (s.seen, stack)).2 ↔
          x ∈ stack ∨ (x ∈ adj u ∧ x ∉ s.seen.map id)) :=
      fun x => mem_mark puts_stack fun v => rfl
    simp only [List.map_id] at hmark
    have hu := h.fresh u (.inr (by simp [hstack]))
    refine ⟨fun x => ?_, fun x hx => ?_, fun w hw v hv => ?_⟩
    · have hold := h.seen_iff x
      rw [hstack, List.mem_cons] at hold
      rw [(hmark x).1, (hmark x).2, List.mem_cons]
      by_cases hxu : x = u
      · subst hxu
        tauto
      · tauto
    · rw [List.mem_cons, (hmark x).2] at hx
      rcases hx with (rfl | hx) | hx | ⟨hxu, hnew⟩
      · exact hu
      · exact h.fresh x (.inl hx)
      · exact h.fresh x (.inr (by simp [hstack, hx]))
      · exact ⟨fun hold => hnew ((h.seen_iff x).2 (.inl hold)), hadj u hu.2 hxu⟩
    · rw [(hmark v).1]
      rcases List.mem_cons.1 hw with rfl | hw
      · exact .inr hv
      · exact .inl (h.closed w hw v hv)

theorem Growing.measure (hadj : ∀ u ∈ nodes, adj u ⊆ nodes) (h : Growing adj nodes old s)
    (hs : growStep adj s = some s') :
    unmarked nodes s'.seen + s'.stack.length < unmarked nodes s.seen + s.stack.length := by
  unfold growStep at hs
  split at hs
  · cases hs
  · rename_i u stack hstack
    cases hs
    have hu := h.fresh u (.inr (by simp [hstack]))
    have hless : unmarked nodes ((mark id id (fun v work => v :: work) (adj u) (s.seen, stack)).1.map id) +
        (mark id id (fun v work => v :: work) (adj u) (s.seen, stack)).2.length ≤
        unmarked nodes (s.seen.map id) + stack.length :=
      mark_measure puts_stack (fun v => rfl) (hadj u hu.2)
    simp only [List.map_id] at hless
    rw [hstack, List.length_cons]
    exact Nat.lt_succ_of_le hless

theorem growStep_seen (hs : growStep adj s = some s') (hx : x ∈ s.seen) : x ∈ s'.seen := by
  unfold growStep at hs
  split at hs
  · cases hs
  · rename_i u stack hstack
    cases hs
    have hmark : x ∈ (mark id id (fun v work => v :: work) (adj u) (s.seen, stack)).1.map id ↔
        x ∈ s.seen.map id ∨ x ∈ adj u := (mem_mark puts_stack fun v => rfl).1
    simp only [List.map_id] at hmark
    exact hmark.2 (.inl hx)

/-- A component that has stopped growing. -/
theorem Growing.done (hadj : ∀ u ∈ nodes, adj u ⊆ nodes) (hfuel : nodes.length ≤ fuel) (hx : x ∈ nodes)
    (hnew : x ∉ old) :
    Growing adj nodes old (drain (growStep adj) fuel ⟨x :: old, [x], []⟩) ∧
      (drain (growStep adj) fuel ⟨x :: old, [x], []⟩).stack = [] := by
  have hstart : Growing adj nodes old ⟨x :: old, [x], []⟩ := .start hx hnew
  refine ⟨drain_invariant (fun s s' => Growing.step hadj) fuel hstart, ?_⟩
  have hcount : unmarked nodes (x :: old) + [x].length ≤ fuel := by
    have hless := unmarked_cons hx hnew
    have htop := unmarked_le nodes old
    simp only [List.length_singleton]
    omega
  have hdone : growStep adj (drain (growStep adj) fuel ⟨x :: old, [x], []⟩) = none :=
    drain_done (fun s s' => Growing.step hadj) (fun s => unmarked nodes s.seen + s.stack.length)
      (fun s s' => Growing.measure hadj) hstart hcount
  unfold growStep at hdone
  split at hdone
  · assumption
  · cases hdone

/-! ## All components -/

/-- Closed under adjacency. -/
def Closed (adj : α → List α) (s : List α) : Prop := ∀ u ∈ s, ∀ v ∈ adj u, v ∈ s

omit [DecidableEq α] in
theorem Growing.closed_comp (h : Growing adj nodes old s) (hstack : s.stack = []) (hold : Closed adj old)
    (hsymm : ∀ u v, v ∈ adj u → u ∈ adj v) : Closed adj s.comp ∧ Closed adj s.seen := by
  have hseen : ∀ x, x ∈ s.seen ↔ x ∈ old ∨ x ∈ s.comp := fun x => by simpa [hstack] using h.seen_iff x
  have hcomp : Closed adj s.comp := by
    intro u hu v hv
    rcases (hseen v).1 (h.closed u hu v hv) with hvold | hvcomp
    · -- an old neighbour would have made `u` old
      exact absurd (hold v hvold u (hsymm u v hv)) (h.fresh u (.inl hu)).1
    · exact hvcomp
  refine ⟨hcomp, fun u hu v hv => (hseen v).2 ?_⟩
  rcases (hseen u).1 hu with hu | hu
  · exact .inl (hold u hu v hv)
  · exact .inr (hcomp u hu v hv)

/-- What the search from `starts` finds beside `old`. -/
theorem components_spec (hadj : ∀ u ∈ nodes, adj u ⊆ nodes) (hsymm : ∀ u v, v ∈ adj u → u ∈ adj v)
    (hfuel : nodes.length ≤ fuel) (hstarts : starts ⊆ nodes) (hold : Closed adj old) :
    (∀ c ∈ components adj fuel starts old, Closed adj c ∧ c ⊆ nodes ∧ ∀ x ∈ c, x ∉ old) ∧
    ((components adj fuel starts old).Pairwise fun c d => ∀ x ∈ c, x ∉ d) ∧
    ∀ x ∈ starts, x ∈ old ∨ ∃ c ∈ components adj fuel starts old, x ∈ c := by
  induction starts generalizing old with
  | nil => simp [components]
  | cons start starts ih =>
    obtain ⟨hstart, hrest⟩ := List.cons_subset.1 hstarts
    unfold components
    by_cases hseen : start ∈ old
    · rw [if_pos hseen]
      obtain ⟨hall, hapart, hcover⟩ := ih hrest hold
      refine ⟨hall, hapart, fun x hx => ?_⟩
      rcases List.mem_cons.1 hx with rfl | hx
      · exact .inl hseen
      · exact hcover x hx
    · rw [if_neg hseen]
      dsimp only
      obtain ⟨hgrown, hempty⟩ := Growing.done hadj hfuel hstart hseen
      have hstarted : start ∈ (drain (growStep adj) fuel ⟨start :: old, [start], []⟩).seen :=
        drain_invariant (fun s s' hx hs => growStep_seen hs hx) fuel (s := ⟨start :: old, [start], []⟩)
          List.mem_cons_self
      generalize drain (growStep adj) fuel ⟨start :: old, [start], []⟩ = s at hgrown hempty hstarted ⊢
      have hseen' : ∀ x, x ∈ s.seen ↔ x ∈ old ∨ x ∈ s.comp := fun x => by simpa [hempty] using hgrown.seen_iff x
      obtain ⟨hcomp, hold'⟩ := hgrown.closed_comp hempty hold hsymm
      obtain ⟨hall, hapart, hcover⟩ := ih hrest hold'
      refine ⟨fun c hc => ?_, List.pairwise_cons.2 ⟨fun c hc x hx hxc => ?_, hapart⟩, fun x hx => ?_⟩
      · rcases List.mem_cons.1 hc with rfl | hc
        · exact ⟨hcomp, fun x hx => (hgrown.fresh x (.inl hx)).2, fun x hx => (hgrown.fresh x (.inl hx)).1⟩
        · obtain ⟨hclosed, hknown, hnew⟩ := hall c hc
          exact ⟨hclosed, hknown, fun x hx hxold => hnew x hx ((hseen' x).2 (.inl hxold))⟩
      · exact (hall c hc).2.2 x hxc ((hseen' x).2 (.inr hx))
      · rcases List.mem_cons.1 hx with rfl | hx
        · have hfound : x ∈ s.seen := hstarted
          rcases (hseen' x).1 hfound with hxold | hxcomp
          · exact .inl hxold
          · exact .inr ⟨s.comp, List.mem_cons_self, hxcomp⟩
        · rcases hcover x hx with hxseen | ⟨c, hc, hxc⟩
          · rcases (hseen' x).1 hxseen with hxold | hxcomp
            · exact .inl hxold
            · exact .inr ⟨s.comp, List.mem_cons_self, hxcomp⟩
          · exact .inr ⟨c, List.mem_cons_of_mem _ hc, hxc⟩

/-- **The components are the islands of the graph.** -/
theorem islands (hadj : ∀ u ∈ nodes, adj u ⊆ nodes) (hsymm : ∀ u v, v ∈ adj u → u ∈ adj v)
    (hfuel : nodes.length ≤ fuel) : Islands adj nodes (components adj fuel nodes []) := by
  have hnone : Closed adj [] := fun u hu => absurd hu List.not_mem_nil
  obtain ⟨hall, hapart, hcover⟩ := components_spec hadj hsymm hfuel (List.Subset.refl nodes) hnone
  refine ⟨fun c hc => (hall c hc).1, hapart, fun x hx => ?_, fun c hc => (hall c hc).2.1⟩
  rcases hcover x hx with hnone | hfound
  · exact absurd hnone List.not_mem_nil
  · exact hfound

end Worklist
