import SynnoDB.Lib.Uncrossing

/-!
# First fit

Each element of a list takes the first of the pool that fits it and that no element before it has taken; `leftover`
are the elements that find none. What first fit leaves over depends on the order, but it is a maximal matching: nothing
that is left over fits anything that is left of the pool (`leftover_spec`).
-/

namespace FirstFit

open List Pairing

variable {α β : Type*} {fits : α → β → Bool} {xs : List α} {pool : List β}

variable (fits) in
def leftover : List α → List β → List α
  | [], _ => []
  | x :: xs, pool =>
    match pool.findIdx? (fits x) with
    | some j => leftover xs (pool.eraseIdx j)
    | none => x :: leftover xs pool

theorem leftover_sublist : leftover fits xs pool <+ xs := by
  induction xs generalizing pool with
  | nil => exact .slnil
  | cons x xs ih =>
    rw [leftover]
    split
    · exact ih.cons x
    · exact ih.cons_cons x

variable (fits xs pool) in
/-- What is taken, what is left of the pool, and that nothing left over fits anything left. -/
theorem leftover_spec : ∃ kept used rest, kept ++ leftover fits xs pool ~ xs ∧ used ++ rest ~ pool ∧
    Forall₂ (fun x y => fits x y = true) kept used ∧ ∀ x ∈ leftover fits xs pool, ∀ y ∈ rest, fits x y = false := by
  induction xs generalizing pool with
  | nil => exact ⟨[], [], pool, .nil, .refl _, .nil, fun _ hx => absurd hx not_mem_nil⟩
  | cons x xs ih =>
    rw [leftover]
    cases hj : pool.findIdx? (fits x) with
    | some j =>
      obtain ⟨kept, used, rest, hxs, hpool, hfit, hleft⟩ := ih (pool.eraseIdx j)
      obtain ⟨hlt, hx, -⟩ := findIdx?_eq_some_iff_getElem.1 hj
      refine ⟨x :: kept, pool[j] :: used, rest, hxs.cons x, ?_, .cons hx hfit, hleft⟩
      exact (hpool.cons _).trans (getElem_cons_eraseIdx_perm hlt)
    | none =>
      obtain ⟨kept, used, rest, hxs, hpool, hfit, hleft⟩ := ih pool
      refine ⟨kept, used, rest, perm_middle.trans (hxs.cons x), hpool, hfit, fun y hy z hz => ?_⟩
      rcases mem_cons.1 hy with rfl | hy
      · have hnone := findIdx?_eq_none_iff.1 hj
        exact hnone z (hpool.subset (mem_append_right _ hz))
      · exact hleft y hy z hz

/-- If nothing is left over, everything has found an element of its own. -/
theorem embeds_of_leftover (h : leftover fits xs pool = []) : Embeds (fun x y => fits x y = true) xs pool := by
  obtain ⟨kept, used, rest, hxs, hpool, hfit, -⟩ := leftover_spec fits xs pool
  rw [h, append_nil] at hxs
  have hkept : Embeds (fun x y => fits x y = true) kept (used ++ rest) :=
    ⟨used, (sublist_append_left _ _).subperm, hfit⟩
  exact hkept.perm hxs.symm hpool

end FirstFit
