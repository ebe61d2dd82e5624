import Mathlib.Data.List.Chain
import Mathlib.Data.List.Flatten

/-!
# Lists cut into runs

`together gs i j`: the `i`-th and the `j`-th element, counted through all the lists, are in one list. Where
neighbours in a list are related and neighbours across a cut are not, two elements are together iff all the
neighbours between them are related (`together_iff`).
-/

namespace Runs

variable {α : Type*} {r : α → α → Prop} {g : List α} {gs : List (List α)} {i j : Nat}

def together : List (List α) → Nat → Nat → Prop
  | [], _, _ => False
  | g :: gs, i, j => i < g.length ∧ j < g.length ∨
      g.length ≤ i ∧ g.length ≤ j ∧ together gs (i - g.length) (j - g.length)

/-- The cuts are just where neighbours are not related. -/
structure Cut (r : α → α → Prop) (gs : List (List α)) : Prop where
  nonempty : [] ∉ gs
  inside : ∀ g ∈ gs, g.IsChain r
  across : gs.IsChain fun g h => ∀ x ∈ g.getLast?, ∀ y ∈ h.head?, ¬r x y

/-- All neighbours from the one place to the other are related. -/
def Linked (r : α → α → Prop) (l : List α) (i j : Nat) : Prop :=
  ∀ k x y, i ≤ k → k < j → l[k]? = some x → l[k + 1]? = some y → r x y

theorem Cut.tail (h : Cut r (g :: gs)) : Cut r gs :=
  ⟨fun hmem => h.nonempty (List.mem_cons_of_mem _ hmem), fun g hg =>
    h.inside g (List.mem_cons_of_mem _ hg), h.across.tail⟩

theorem Cut.head_ne_nil (h : Cut r (g :: gs)) : g ≠ [] := fun hg => h.nonempty (hg ▸ List.mem_cons_self)

/-- **Together are those that are linked.** -/
theorem together_iff : ∀ {gs : List (List α)} {i j : Nat}, Cut r gs → i ≤ j → j < gs.flatten.length →
    (together gs i j ↔ Linked r gs.flatten i j)
  | [], _, _, _, _, hj => by cases hj
  | g :: gs, i, j, hcut, hij, hj => by
    rw [List.flatten_cons, List.length_append] at hj
    rw [together, List.flatten_cons]
    by_cases hi : i < g.length
    · by_cases hj' : j < g.length
      · refine ⟨fun _ k x y hk hkj hx hy => ?_, fun _ => .inl ⟨hi, hj'⟩⟩
        rw [List.getElem?_append_left (by omega)] at hx hy
        obtain ⟨hk', rfl⟩ := List.getElem?_eq_some_iff.1 hx
        obtain ⟨hk'', rfl⟩ := List.getElem?_eq_some_iff.1 hy
        exact List.isChain_iff_getElem.1 (hcut.inside g List.mem_cons_self) k hk''
      · -- the cut behind `g` lies between them
        refine ⟨fun h => (by omega), fun hlinked => ?_⟩
        cases gs with
        | nil =>
          rw [List.flatten_nil, List.length_nil] at hj
          omega
        | cons h gs =>
          obtain ⟨y, ys, rfl⟩ := List.exists_cons_of_ne_nil hcut.tail.head_ne_nil
          obtain ⟨xs, x, rfl⟩ := List.eq_nil_or_concat g |>.resolve_left hcut.head_ne_nil
          have hx : (xs.concat x)[(xs.concat x).length - 1]? = some x := by simp
          have hr := hlinked ((xs.concat x).length - 1) x y (by omega) (by omega)
            (by rw [List.getElem?_append_left (by omega), hx])
            (by
              rw [List.getElem?_append_right (by omega), show (xs.concat x).length - 1 + 1
                - (xs.concat x).length = 0 by omega]
              rfl)
          exact absurd hr ((List.isChain_cons_cons.1 hcut.across).1 x (by simp) y rfl)
    · have hsub : together gs (i - g.length) (j - g.length) ↔ Linked r gs.flatten (i - g.length) (j - g.length) :=
        together_iff hcut.tail (by omega) (by omega)
      constructor
      · rintro (h | ⟨-, -, h⟩)
        · exact absurd h.1 hi
        · intro k x y hk hkj hx hy
          rw [List.getElem?_append_right (by omega)] at hx hy
          refine hsub.1 h (k - g.length) x y (by omega) (by omega) hx ?_
          rw [← hy]
          congr 1
          omega
      · intro h
        refine .inr ⟨by omega, by omega, hsub.2 fun k x y hk hkj hx hy => ?_⟩
        refine h (k + g.length) x y (by omega) (by omega) ?_ ?_
        · rw [List.getElem?_append_right (by omega), Nat.add_sub_cancel, hx]
        · rw [List.getElem?_append_right (by omega), ← hy]
          congr 1
          omega

theorem together_symm : ∀ {gs : List (List α)} {i j : Nat}, together gs i j → together gs j i
  | _ :: _, _, _, .inl h => .inl h.symm
  | _ :: _, _, _, .inr ⟨hi, hj, h⟩ => .inr ⟨hj, hi, together_symm h⟩

/-- A stretch that is together and with nothing else is one of the lists. -/
theorem mem_of_together {n : Nat} (hn : 0 < n) : ∀ {gs : List (List α)} {i : Nat}, i + n ≤ gs.flatten.length →
    (∀ j, j < gs.flatten.length → (together gs i j ↔ i ≤ j ∧ j < i + n)) → (gs.flatten.drop i).take n ∈ gs
  | [], i, hle, _ => by
    rw [List.flatten_nil, List.length_nil] at hle
    omega
  | g :: gs, i, hle, h => by
    rw [List.flatten_cons, List.length_append] at hle h
    by_cases hi : i < g.length
    · have hiff : ∀ j, j < g.length + gs.flatten.length → (j < g.length ↔ i ≤ j ∧ j < i + n) := by
        intro j hj
        rw [← h j hj, together]
        exact ⟨fun hj' => .inl ⟨hi, hj'⟩, fun ht => ht.elim And.right fun ht => absurd ht.1 (by omega)⟩
      have hzero := (hiff 0 (by omega)).1 (by omega)
      have hn' : n = g.length := by
        rcases Nat.lt_trichotomy n g.length with hlt | heq | hlt
        · have := (hiff n (by omega)).1 hlt
          omega
        · exact heq
        · have := (hiff g.length (by omega)).2 (by omega)
          omega
      rw [show i = 0 by omega, List.drop_zero, List.flatten_cons, hn', List.take_left]
      exact List.mem_cons_self
    · rw [List.flatten_cons, List.drop_append, List.drop_eq_nil_of_le (by omega), List.nil_append]
      refine List.mem_cons_of_mem _ (mem_of_together hn (by omega) fun j hj => ?_)
      have hj' := h (j + g.length) (by omega)
      rw [together, Nat.add_sub_cancel] at hj'
      constructor
      · intro ht
        have := hj'.1 (.inr ⟨by omega, by omega, ht⟩)
        omega
      · intro ht
        rcases hj'.2 (by omega) with hfirst | hrest
        · exact absurd hfirst.1 hi
        · exact hrest.2.2

end Runs
