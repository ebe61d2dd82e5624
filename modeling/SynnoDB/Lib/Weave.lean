import Mathlib.Data.List.TakeWhile

/-!
# Cores between constants

`weave cs ks` is the text that has the constants `cs` after the cores `ks`, one each. Some elements may stand in a
core (`free`) and the others may not. **The cores can be read off the text** if each constant but the last has an
element that no core may have (`weave_injective`), and only then (`weave_ambiguous`). From the texts of all cores
of one element the constants can be read off (`weave_determines`).
-/

namespace Weave

variable {α : Type*}

def weave : List (List α) → List (List α) → List α
  | c :: cs, k :: ks => k ++ (c ++ weave cs ks)
  | _, _ => []

/-- All elements are free. -/
def Free (free : α → Bool) (k : List α) : Prop := ∀ x ∈ k, free x = true

variable {free : α → Bool} {c c₀ c₀' k k' r r' : List α} {cs cs' ks ks' : List (List α)}

theorem weave_eq_flatMap : ∀ (cs ks : List (List α)), weave cs ks = (ks.zip cs).flatMap fun p => p.1 ++ p.2
  | [], ks => by rw [List.zip_nil_right]; rfl
  | _ :: _, [] => rfl
  | c :: cs, k :: ks => by
    rw [weave, weave_eq_flatMap cs ks, List.zip_cons_cons, List.flatMap_cons, List.append_assoc]

/-- A core ends with the last free element before its constant. -/
theorem core_unique (hk : Free free k) (hk' : Free free k') (hc : ¬Free free c) (h : k ++ (c ++ r) = k' ++ (c ++ r')) :
    k = k' ∧ r = r' := by
  have hcut : ∀ {k r : List α}, Free free k → (k ++ (c ++ r)).takeWhile free = k ++ c.takeWhile free := by
    intro k r hk
    rw [List.takeWhile_append_of_pos hk, List.takeWhile_append, if_neg]
    intro hlen
    refine hc fun x hx => ?_
    have hall : c.takeWhile free = c := (List.takeWhile_sublist free).eq_of_length hlen
    exact List.takeWhile_eq_self_iff.1 hall x hx
  have heq : k = k' := by
    have h1 := hcut (r := r) hk
    rw [h, hcut hk'] at h1
    exact (List.append_cancel_right h1).symm
  subst heq
  exact ⟨rfl, List.append_cancel_left (List.append_cancel_left h)⟩

/-- **The cores are determined** where each inner constant has an element that is not free. -/
theorem weave_injective {cs ks ks' : List (List α)} (hsep : ∀ c ∈ cs.dropLast, ¬Free free c)
    (hlen : ks.length = cs.length) (hlen' : ks'.length = cs.length) (hks : ∀ k ∈ ks, Free free k)
    (hks' : ∀ k ∈ ks', Free free k) (h : weave cs ks = weave cs ks') : ks = ks' := by
  induction cs generalizing ks ks' with
  | nil =>
    rw [List.length_nil, List.length_eq_zero_iff] at hlen hlen'
    rw [hlen, hlen']
  | cons c cs ih =>
    obtain ⟨k, ks, rfl⟩ := List.exists_cons_of_length_eq_add_one hlen
    obtain ⟨k', ks', rfl⟩ := List.exists_cons_of_length_eq_add_one hlen'
    rw [List.length_cons, List.length_cons, Nat.succ_inj] at hlen hlen'
    cases cs with
    | nil =>
      rw [List.length_nil, List.length_eq_zero_iff] at hlen hlen'
      subst hlen hlen'
      change k ++ (c ++ []) = k' ++ (c ++ []) at h
      rw [List.append_cancel_right h]
    | cons d cs =>
      rw [List.dropLast_cons_cons, List.forall_mem_cons] at hsep
      obtain ⟨rfl, hrest⟩ := core_unique (hks k List.mem_cons_self) (hks' k' List.mem_cons_self) hsep.1 h
      rw [ih hsep.2 hlen hlen' (fun x hx => hks x (List.mem_cons_of_mem _ hx))
        (fun x hx => hks' x (List.mem_cons_of_mem _ hx)) hrest]

/-- **A free constant between two cores** can move from one to the other: with all cores `x` there is a second
reading. -/
theorem weave_ambiguous {z : α} (hz : free z = true) (hc : c ∈ cs.dropLast) (hfree : Free free c) :
    ∃ x ks, Free free x ∧ ks.length = cs.length ∧ (∀ k ∈ ks, Free free k) ∧ ks ≠ List.replicate cs.length x ∧
      weave cs ks = weave cs (List.replicate cs.length x) := by
  obtain ⟨x, hx, hne, hmove⟩ : ∃ x, Free free x ∧ x ≠ [] ∧ x ++ x ++ c = x ++ (c ++ x) := by
    cases c with
    | nil => exact ⟨[z], fun y hy => List.mem_singleton.1 hy ▸ hz, List.cons_ne_nil _ _, rfl⟩
    | cons d c => exact ⟨d :: c, hfree, List.cons_ne_nil _ _, List.append_assoc _ _ _⟩
  refine ⟨x, ?_⟩
  clear hfree
  induction cs with
  | nil => cases hc
  | cons d cs ih =>
    cases cs with
    | nil => cases hc
    | cons e cs =>
      rw [List.dropLast_cons_cons, List.mem_cons] at hc
      by_cases hcd : c = d
      · subst hcd
        refine ⟨(x ++ x) :: [] :: List.replicate cs.length x, hx, by simp, ?_, ?_, ?_⟩
        · rintro k (_ | ⟨_, _ | ⟨_, hk⟩⟩)
          · exact fun y hy => (List.mem_append.1 hy).elim (hx y) (hx y)
          · exact fun y hy => by cases hy
          · exact List.eq_of_mem_replicate hk ▸ hx
        · intro heq
          exact hne (List.cons.inj (List.cons.inj heq).2).1.symm
        · show x ++ x ++ (c ++ ([] ++ (e ++ _))) = x ++ (c ++ (x ++ (e ++ _)))
          rw [List.nil_append, ← List.append_assoc, hmove, List.append_assoc, List.append_assoc]
      · obtain ⟨ks, hx, hlen, hks, hdiff, heq⟩ := ih (hc.resolve_left hcd)
        refine ⟨x :: ks, hx, congrArg (· + 1) hlen, List.forall_mem_cons.2 ⟨hx, hks⟩, ?_, ?_⟩
        · intro h
          exact hdiff (List.cons.inj h).2
        · show x ++ (d ++ weave (e :: cs) ks) = x ++ (d ++ weave (e :: cs) _)
          rw [heq]

section
variable [Inhabited α] (hother : ∀ y, ∃ z, free z = true ∧ z ≠ y)

include hother

/-- What stands before a changing element. -/
theorem before_unique {f f' : α → List α} (h : ∀ z, free z = true → c ++ z :: f z = c₀ ++ z :: f' z) :
    c = c₀ ∧ ∀ z, free z = true → f z = f' z := by
  have hshort : ∀ {a b : List α} {g g' : α → List α}, (∀ z, free z = true → a ++ z :: g z = b ++ z :: g' z) →
      ¬a.length < b.length := by
    intro a b g g' h hlt
    obtain ⟨z, hz, hne⟩ := hother b[a.length]
    have hget := congrArg (·[a.length]?) (h z hz)
    simp only [List.getElem?_append_right le_rfl, Nat.sub_self, List.getElem?_cons_zero, List.getElem?_append_left hlt,
      List.getElem?_eq_getElem hlt, Option.some.injEq] at hget
    exact hne hget
  have hlen : c.length = c₀.length := by
    have h1 := hshort h
    have h2 := hshort fun z hz => (h z hz).symm
    omega
  obtain ⟨z, hz, -⟩ := hother default
  have heq := (List.append_inj (h z hz) hlen).1
  subst heq
  exact ⟨rfl, fun z hz => (List.cons.inj (List.append_cancel_left (h z hz))).2⟩

/-- **The constants are determined** by the texts with all cores of one element. -/
theorem weave_determines : ∀ {c₀ c₀' : List α} {cs cs' : List (List α)}, cs.length = cs'.length →
    (∀ z, free z = true → c₀ ++ weave cs (List.replicate cs.length [z]) =
      c₀' ++ weave cs' (List.replicate cs.length [z])) →
    c₀ = c₀' ∧ cs = cs'
  | c₀, c₀', [], [], _, h => by
    obtain ⟨z, hz, -⟩ := hother default
    have heq : c₀ ++ [] = c₀' ++ [] := h z hz
    rw [List.append_nil, List.append_nil] at heq
    exact ⟨heq, rfl⟩
  | _, _, [], _ :: _, hlen, _ => by cases hlen
  | _, _, _ :: _, [], hlen, _ => by cases hlen
  | c₀, c₀', c :: cs, c' :: cs', hlen, h => by
    obtain ⟨rfl, hrest⟩ : c₀ = c₀' ∧ _ := before_unique hother h
    obtain ⟨rfl, rfl⟩ := weave_determines (Nat.succ.inj hlen) hrest
    exact ⟨rfl, rfl⟩

end

end Weave
