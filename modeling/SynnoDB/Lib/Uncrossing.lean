import SynnoDB.Lib.Pairing

/-!
# Pairing two sorted lists from the front

A relation `Uncrosses` when two crossing pairs can be swapped: it then pairs two sorted lists iff it relates them place
by place (`pairs_iff_forall₂`), and the first partner of each element is never the wrong one (`Embeds.uncross`). A
relation that holds between two elements only if it holds of everything in between uncrosses (`Between.uncrosses`);
closeness in one dimension is such a relation, whether or not it is transitive.
-/

namespace Pairing

open List

variable {α β κ : Type*} {R : α → β → Prop} {a : List α} {b : List β} {x : α} {y : β}

theorem Embeds.nil_left : Embeds R [] b := ⟨[], nil_subperm, .nil⟩

theorem Embeds.nil_right (h : Embeds R a []) : a = [] := length_eq_zero_iff.1 (Nat.le_zero.1 h.length_le)

theorem Embeds.tail (h : Embeds R (x :: a) b) : Embeds R a b := by
  obtain ⟨c, hc, hr⟩ := h
  cases hr with
  | cons hxy htail => exact ⟨_, (sublist_cons_self _ _).subperm.trans hc, htail⟩

theorem Embeds.cons_right (h : Embeds R a b) (y : β) : Embeds R a (y :: b) := by
  obtain ⟨c, hc, hr⟩ := h
  exact ⟨c, hc.cons_right y, hr⟩

theorem Embeds.cons (h : Embeds R a b) (hxy : R x y) : Embeds R (x :: a) (y :: b) := by
  obtain ⟨c, hc, hr⟩ := h
  exact ⟨y :: c, (subperm_cons y).2 hc, .cons hxy hr⟩

/-- What is drawn from `y :: b` leaves `y` out, or holds it once more than what is drawn from `b`. -/
theorem subperm_cons_cases {c : List β} (h : c <+~ y :: b) : c <+~ b ∨ ∃ d, c ~ y :: d ∧ d <+~ b := by
  obtain ⟨e, hec, hsub⟩ := h
  cases hsub with
  | cons _ hskip => exact .inl ⟨e, hec, hskip⟩
  | cons_cons _ htake => exact .inr ⟨_, hec.symm, htake.subperm⟩

theorem embeds_of_head {c : List β} {y₀ : β} (h : y₀ :: c <+~ b) (hr : Forall₂ R a c) (hx : R x y₀) :
    Embeds R (x :: a) b := ⟨y₀ :: c, h, .cons hx hr⟩

variable [LinearOrder κ] {ρ : α → κ} {σ : β → κ}

/-- Of two crossing pairs, both can be uncrossed. -/
def Uncrosses (R : α → β → Prop) (ρ : α → κ) (σ : β → κ) (a : List α) (b : List β) : Prop :=
  ∀ x ∈ a, ∀ x' ∈ a, ∀ y ∈ b, ∀ y' ∈ b, ρ x ≤ ρ x' → σ y ≤ σ y' → R x y' → R x' y → R x y ∧ R x' y'

theorem Uncrosses.mono {a' : List α} {b' : List β} (h : Uncrosses R ρ σ a b) (ha : a' ⊆ a) (hb : b' ⊆ b) :
    Uncrosses R ρ σ a' b' :=
  fun x hx x' hx' y hy y' hy' => h x (ha hx) x' (ha hx') y (hb hy) y' (hb hy')

/-- The first of `b` pairs with the first of `a`, or is not needed. -/
theorem Embeds.uncross (h : Embeds R (x :: a) (y :: b)) (hun : Uncrosses R ρ σ (x :: a) (y :: b))
    (hx : ∀ x' ∈ a, ρ x ≤ ρ x') (hy : ∀ y' ∈ b, σ y ≤ σ y') : Embeds R (x :: a) b ∨ (R x y ∧ Embeds R a b) := by
  classical
  obtain ⟨c, hc, hr⟩ := h
  cases hr with
  | @cons _ y₀ _ c hxy₀ htail =>
    rcases subperm_cons_cases hc with hskip | ⟨d, hperm, hd⟩
    · exact .inl ⟨_, hskip, .cons hxy₀ htail⟩
    · by_cases hfirst : y₀ = y
      · subst hfirst
        have hcd : c ~ d := (perm_cons y₀).1 hperm
        exact .inr ⟨hxy₀, c, hcd.subperm.trans hd, htail⟩
      · -- `y` went to a later `x'`, and `x` took a later `y₀`
        have hmem : y ∈ c := by
          rcases mem_cons.1 (hperm.symm.subset mem_cons_self) with heq | hmem
          · exact absurd heq.symm hfirst
          · exact hmem
        have hc' : c ~ y :: c.erase y := perm_cons_erase hmem
        obtain ⟨e, he, hea⟩ := perm_comp_forall₂ hc'.symm htail.flip
        cases he with
        | @cons _ x' _ a' hx'y htail' =>
          have hx' : x' ∈ a := hea.subset mem_cons_self
          have hd' : y₀ :: c.erase y ~ d := by
            apply (perm_cons y).1
            exact ((Perm.swap y₀ y _).trans (hc'.symm.cons y₀)).trans hperm
          have hrest : y₀ :: c.erase y <+~ b := hd'.subperm.trans hd
          have hy₀ : y₀ ∈ b := hrest.subset mem_cons_self
          obtain ⟨hxy, hx'y₀⟩ := hun x mem_cons_self x' (mem_cons_of_mem _ hx') y mem_cons_self y₀
            (mem_cons_of_mem _ hy₀) (hx x' hx') (hy y₀ hy₀) hxy₀ hx'y
          have hswapped : Embeds R (x' :: a') b := embeds_of_head hrest htail'.flip hx'y₀
          exact .inr ⟨hxy, hswapped.perm hea.symm (.refl b)⟩

/-- Sorted lists pair iff they relate place by place. -/
theorem pairs_iff_forall₂ (ha : a.Pairwise fun x x' => ρ x ≤ ρ x') (hb : b.Pairwise fun y y' => σ y ≤ σ y')
    (hun : Uncrosses R ρ σ a b) : Pairs R a b ↔ Forall₂ R a b := by
  refine ⟨fun h => ?_, pairs_of_forall₂⟩
  obtain ⟨hemb, hlen⟩ := pairs_iff.1 h
  clear h
  induction a generalizing b with
  | nil =>
    obtain rfl : b = [] := length_eq_zero_iff.1 hlen.symm
    exact .nil
  | cons x a ih => cases b with
    | nil => cases hlen
    | cons y b =>
      obtain ⟨hx, ha⟩ := pairwise_cons.1 ha
      obtain ⟨hy, hb⟩ := pairwise_cons.1 hb
      have hlen : a.length = b.length := by simpa using hlen
      rcases hemb.uncross hun hx hy with htoo | ⟨hxy, htail⟩
      · have hmany : a.length + 1 ≤ b.length := htoo.length_le
        omega
      · exact .cons hxy (ih ha hb (hun.mono (subset_cons_self _ _) (subset_cons_self _ _)) htail hlen)

/-- Sorting both sides finds a pairing whenever there is one. -/
theorem pairs_iff_sorted (hun : Uncrosses R ρ σ a b) : Pairs R a b ↔ Forall₂ R (sortBy ρ a) (sortBy σ b) := by
  rw [← pairs_perm (sortBy_perm ρ a) (sortBy_perm σ b)]
  apply pairs_iff_forall₂ (sortBy_pairwise ρ a) (sortBy_pairwise σ b)
  exact hun.mono (sortBy_perm ρ a).subset (sortBy_perm σ b).subset

/-! ## One relation between the places of one line -/

/-- Related elements are related to everything in between. -/
def Between (R : α → α → Prop) (ρ : α → κ) (s : List α) : Prop :=
  ∀ x ∈ s, ∀ m ∈ s, ∀ y ∈ s, ρ x ≤ ρ m → ρ m ≤ ρ y → R x y → R x m ∧ R m y

theorem Between.uncrosses {R : α → α → Prop} {a b : List α} (h : Between R ρ (a ++ b))
    (hsymm : ∀ x y, R x y → R y x) : Uncrosses R ρ ρ a b := by
  intro x hx x' hx' y hy y' hy' hxx hyy hxy' hx'y
  have hx := mem_append_left b hx
  have hx' := mem_append_left b hx'
  have hy := mem_append_right a hy
  have hy' := mem_append_right a hy'
  constructor
  · rcases le_total (ρ x) (ρ y) with hle | hle
    · exact (h x hx y hy y' hy' hle hyy hxy').1
    · exact hsymm _ _ (h y hy x hx x' hx' hle hxx (hsymm _ _ hx'y)).1
  · rcases le_total (ρ x') (ρ y') with hle | hle
    · exact (h x hx x' hx' y' hy' hxx hle hxy').2
    · exact hsymm _ _ (h y hy y' hy' x' hx' hyy hle (hsymm _ _ hx'y)).2

end Pairing
