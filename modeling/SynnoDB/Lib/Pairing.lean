import Mathlib.Data.List.Perm.Basic
import Mathlib.Data.List.Perm.Subperm
import Mathlib.Data.List.Forall2
import Mathlib.Data.List.Sort
import Mathlib.Data.Prod.Lex

/-!
# Pairing off two lists

`Embeds R a b`: each element of `a` has an element of `b` of its own that `R` relates it to. `Pairs R a b`: and
nothing of `b` is left. Neither depends on the order of the lists, and both can be found class by class
(`embeds_of_classes`).

A cheaper way to pair is to sort both sides by a key and to relate what stands at the same place. Its outcome
depends on the input order as soon as keys tie: `SamePlace` says which elements ties can bring together, and
`always_iff`, `sometimes_iff` say from it when every order, and when some order, ends with everything related.
-/

namespace Pairing

open List

variable {α β γ δ κ : Type*} {R S : α → β → Prop} {a a' : List α} {b b' : List β}

def Embeds (R : α → β → Prop) (a : List α) (b : List β) : Prop := ∃ c, c <+~ b ∧ Forall₂ R a c

def Pairs (R : α → β → Prop) (a : List α) (b : List β) : Prop := ∃ c, c ~ b ∧ Forall₂ R a c

theorem Pairs.embeds (h : Pairs R a b) : Embeds R a b := by
  obtain ⟨c, hc, hr⟩ := h
  exact ⟨c, hc.subperm, hr⟩

theorem Pairs.length_eq (h : Pairs R a b) : a.length = b.length := by
  obtain ⟨c, hc, hr⟩ := h
  rw [hr.length_eq, hc.length_eq]

theorem Embeds.length_le (h : Embeds R a b) : a.length ≤ b.length := by
  obtain ⟨c, hc, hr⟩ := h
  rw [hr.length_eq]
  exact hc.length_le

theorem pairs_iff : Pairs R a b ↔ Embeds R a b ∧ a.length = b.length := by
  constructor
  · exact fun h => ⟨h.embeds, h.length_eq⟩
  · rintro ⟨⟨c, hc, hr⟩, hlen⟩
    exact ⟨c, hc.perm_of_length_le (by rw [← hlen, hr.length_eq]), hr⟩

theorem pairs_of_forall₂ (h : Forall₂ R a b) : Pairs R a b := ⟨b, .refl b, h⟩

theorem Embeds.mono (h : Embeds R a b) (hRS : ∀ x ∈ a, ∀ y ∈ b, R x y → S x y) : Embeds S a b := by
  obtain ⟨c, hc, hr⟩ := h
  refine ⟨c, hc, forall₂_iff_zip.2 ⟨hr.length_eq, fun {x y} hxy => ?_⟩⟩
  have hmem := List.of_mem_zip hxy
  exact hRS x hmem.1 y (hc.subset hmem.2) ((forall₂_iff_zip.1 hr).2 hxy)

theorem Pairs.mono (h : Pairs R a b) (hRS : ∀ x ∈ a, ∀ y ∈ b, R x y → S x y) : Pairs S a b :=
  pairs_iff.2 ⟨h.embeds.mono hRS, h.length_eq⟩

/-! ## The order does not matter -/

theorem Embeds.perm (h : Embeds R a b) (ha : a' ~ a) (hb : b ~ b') : Embeds R a' b' := by
  obtain ⟨c, hc, hr⟩ := h
  obtain ⟨d, hd, hdc⟩ := perm_comp_forall₂ ha hr
  exact ⟨d, hdc.subperm.trans (hc.trans hb.subperm), hd⟩

theorem embeds_perm (ha : a ~ a') (hb : b ~ b') : Embeds R a b ↔ Embeds R a' b' :=
  ⟨fun h => h.perm ha.symm hb, fun h => h.perm ha hb.symm⟩

theorem pairs_perm (ha : a ~ a') (hb : b ~ b') : Pairs R a b ↔ Pairs R a' b' := by
  rw [pairs_iff, pairs_iff, embeds_perm ha hb, ha.length_eq, hb.length_eq]

theorem Pairs.symm (h : Pairs R a b) : Pairs (flip R) b a := by
  obtain ⟨c, hc, hr⟩ := h
  exact (pairs_perm hc (.refl a)).1 (pairs_of_forall₂ hr.flip)

theorem pairs_comm {R : α → α → Prop} (hR : ∀ x y, R x y → R y x) {a b : List α} : Pairs R a b ↔ Pairs R b a :=
  ⟨fun h => h.symm.mono fun _ _ _ _ h => hR _ _ h, fun h => h.symm.mono fun _ _ _ _ h => hR _ _ h⟩

/-- A sublist of a mapped list, up to order, is the image of one. -/
theorem exists_subperm_map {f : γ → β} {l : List γ} {c : List β} (h : c <+~ l.map f) : ∃ d, d <+~ l ∧ c = d.map f := by
  obtain ⟨e, hce, hsub⟩ := h
  obtain ⟨d, hd, rfl⟩ := sublist_map_iff.1 hsub
  have hperm : Relation.Comp (fun x y => x = map f y) (· ~ ·) c d := by
    rw [eq_map_comp_perm]
    exact hce.symm
  obtain ⟨d', rfl, hd'⟩ := hperm
  exact ⟨d', hd'.subperm.trans hd.subperm, rfl⟩

theorem embeds_map {R : γ → δ → Prop} {f : α → γ} {g : β → δ} :
    Embeds R (a.map f) (b.map g) ↔ Embeds (fun x y => R (f x) (g y)) a b := by
  constructor
  · rintro ⟨c, hc, hr⟩
    obtain ⟨d, hd, rfl⟩ := exists_subperm_map hc
    exact ⟨d, hd, by simpa using hr⟩
  · rintro ⟨d, ⟨e, hed, he⟩, hr⟩
    exact ⟨d.map g, ⟨e.map g, hed.map g, he.map g⟩, by simpa using hr⟩

theorem pairs_map {R : γ → δ → Prop} {f : α → γ} {g : β → δ} :
    Pairs R (a.map f) (b.map g) ↔ Pairs (fun x y => R (f x) (g y)) a b := by
  rw [pairs_iff, pairs_iff, embeds_map, length_map, length_map]

/-! ## Class by class -/

section
variable [DecidableEq γ] {k : α → γ} {k' : β → γ}

/-- The elements of class `c`. -/
def cls (k : α → γ) (c : γ) (l : List α) : List α := l.filter fun x => k x = c

@[simp] theorem mem_cls {c : γ} {l : List α} {x : α} : x ∈ cls k c l ↔ x ∈ l ∧ k x = c := by
  simp [cls]

theorem cls_perm {c : γ} (h : a ~ a') : cls k c a ~ cls k c a' := h.filter _

theorem cls_cons (c : γ) (x : α) (l : List α) : cls k c (x :: l) = if k x = c then x :: cls k c l else cls k c l := by
  by_cases h : k x = c <;> simp [cls, h]

/-- Any arrangement of a class is that of an arrangement of the whole list. -/
theorem exists_with_class {c : γ} {l : List α} (h : l ~ cls k c a) : ∃ a', a' ~ a ∧ cls k c a' = l := by
  refine ⟨l ++ a.filter fun x => k x ≠ c, ?_, ?_⟩
  · refine (h.append_right _).trans ?_
    simpa [cls] using filter_append_perm (fun x => decide (k x = c)) a
  · have hleft : cls k c l = l := filter_eq_self.2 fun x hx => by simpa using (mem_cls.1 (h.subset hx)).2
    have hright : cls k c (a.filter fun x => k x ≠ c) = [] :=
      filter_eq_nil_iff.2 fun x hx => by simpa using (mem_filter.1 hx).2
    rw [cls, filter_append, ← cls, ← cls, hleft, hright, append_nil]

/-- **Pairing off class by class pairs off everything.** -/
theorem embeds_of_classes (k : α → γ) (k' : β → γ) (h : ∀ c, Embeds R (cls k c a) (cls k' c b)) : Embeds R a b := by
  induction a generalizing b with
  | nil => exact ⟨[], nil_subperm, .nil⟩
  | cons x a ih =>
    obtain ⟨_, hys, hr⟩ := h (k x)
    rw [cls_cons, if_pos rfl] at hr
    cases hr with
    | @cons _ y _ ys hxy hr =>
      obtain ⟨hy, hky⟩ := mem_cls.1 (hys.subset mem_cons_self)
      obtain ⟨s, t, rfl⟩ := append_of_mem hy
      have hb₁ : s ++ y :: t ~ y :: (s ++ t) := perm_middle
      have hrest : ∀ c, Embeds R (cls k c a) (cls k' c (s ++ t)) := by
        intro c
        have hcls : cls k' c (s ++ y :: t) ~ cls k' c (y :: (s ++ t)) := cls_perm hb₁
        rw [cls_cons] at hcls
        by_cases hc : k x = c
        · subst hc
          rw [if_pos hky] at hcls
          exact ⟨ys, (subperm_cons y).1 (hys.trans hcls.subperm), hr⟩
        · rw [if_neg (hky ▸ hc)] at hcls
          have hold := h c
          rw [cls_cons, if_neg hc] at hold
          exact hold.perm (.refl _) hcls
      obtain ⟨zs, hzs, hr⟩ := ih hrest
      exact ⟨y :: zs, ((subperm_cons y).2 hzs).trans hb₁.symm.subperm, .cons hxy hr⟩

theorem pairs_of_classes (k : α → γ) (k' : β → γ) (h : ∀ c, Pairs R (cls k c a) (cls k' c b)) : Pairs R a b := by
  have hab := embeds_of_classes k k' fun c => (h c).embeds
  have hba := embeds_of_classes k' k fun c => (h c).symm.embeds
  exact pairs_iff.2 ⟨hab, Nat.le_antisymm hab.length_le hba.length_le⟩

theorem forall₂_cls (h : Forall₂ R a b) (hk : ∀ x ∈ a, ∀ y ∈ b, R x y → k x = k' y) (c : γ) :
    Forall₂ R (cls k c a) (cls k' c b) := by
  induction h with
  | nil => exact .nil
  | @cons x y a b hxy hr ih =>
    have hxk := hk x mem_cons_self y mem_cons_self hxy
    have hrest := ih fun x hx y hy => hk x (mem_cons_of_mem _ hx) y (mem_cons_of_mem _ hy)
    rw [cls_cons, cls_cons, hxk]
    split
    · exact .cons hxy hrest
    · exact hrest

/-- What relates only elements of one class pairs off each class. -/
theorem Embeds.on_class (h : Embeds R a b) (k : α → γ) (k' : β → γ) (hk : ∀ x ∈ a, ∀ y ∈ b, R x y → k x = k' y)
    (c : γ) :
    Embeds R (cls k c a) (cls k' c b) := by
  obtain ⟨d, hd, hr⟩ := h
  exact ⟨cls k' c d, hd.filter _, forall₂_cls hr (fun x hx y hy => hk x hx y (hd.subset hy)) c⟩

end

/-! ## Sorting both sides -/

section
variable [LinearOrder κ] (ρ : α → κ)

def sortBy (l : List α) : List α := l.insertionSort fun x y => ρ x ≤ ρ y

theorem sortBy_perm (l : List α) : sortBy ρ l ~ l := perm_insertionSort _ l

theorem sortBy_pairwise (l : List α) : (sortBy ρ l).Pairwise fun x y => ρ x ≤ ρ y := by
  have : Std.Total fun x y => ρ x ≤ ρ y := ⟨fun x y => le_total (ρ x) (ρ y)⟩
  have : IsTrans α fun x y => ρ x ≤ ρ y := ⟨fun _ _ _ => le_trans⟩
  exact pairwise_insertionSort _ l

variable {ρ} in
theorem sortBy_eq {l : List α} (h : l.Pairwise fun x y => ρ x ≤ ρ y) : sortBy ρ l = l := h.insertionSort_eq

/-- The keys of a list in ascending order. -/
def ranks (l : List α) : List κ := (sortBy ρ l).map ρ

theorem length_ranks (l : List α) : (ranks ρ l).length = l.length := by
  rw [ranks, length_map, (sortBy_perm ρ l).length_eq]

theorem ranks_pairwise (l : List α) : (ranks ρ l).Pairwise (· ≤ ·) := pairwise_map.2 (sortBy_pairwise ρ l)

theorem ranks_mono {l : List α} {i j : Nat} (hi : i < (ranks ρ l).length) (hj : j < (ranks ρ l).length) (h : i ≤ j) :
    (ranks ρ l)[i] ≤ (ranks ρ l)[j] := by
  rcases h.lt_or_eq with hlt | rfl
  · exact pairwise_iff_getElem.1 (ranks_pairwise ρ l) i j hi hj hlt
  · exact le_rfl

theorem ranks_perm {l l' : List α} (h : l ~ l') : ranks ρ l = ranks ρ l' := by
  have hperm : ranks ρ l ~ ranks ρ l' := ((sortBy_perm ρ l).trans (h.trans (sortBy_perm ρ l').symm)).map ρ
  exact hperm.eq_of_pairwise' (ranks_pairwise ρ l) (ranks_pairwise ρ l')

/-- A sorted arrangement of `a` and one of `b` can have `x` and `y` at the same place. -/
def SamePlace (a b : List α) (x y : α) : Prop := ∃ i : Nat, (ranks ρ a)[i]? = some (ρ x) ∧ (ranks ρ b)[i]? = some (ρ y)

variable {ρ}

theorem SamePlace.perm {a a' b b' : List α} {x y : α} (ha : a ~ a') (hb : b ~ b') (h : SamePlace ρ a b x y) :
    SamePlace ρ a' b' x y := by
  rw [SamePlace, ranks_perm ρ ha, ranks_perm ρ hb] at h
  exact h

/-- Places are taken in order. -/
theorem SamePlace.le_of_lt {a b : List α} {x y x' y' : α} (h : SamePlace ρ a b x y) (h' : SamePlace ρ a b x' y')
    (hlt : ρ x < ρ x') : ρ y ≤ ρ y' := by
  obtain ⟨i, hx, hy⟩ := h
  obtain ⟨j, hx', hy'⟩ := h'
  obtain ⟨hi, hx⟩ := List.getElem?_eq_some_iff.1 hx
  obtain ⟨hj, hx'⟩ := List.getElem?_eq_some_iff.1 hx'
  obtain ⟨hi', hy⟩ := List.getElem?_eq_some_iff.1 hy
  obtain ⟨hj', hy'⟩ := List.getElem?_eq_some_iff.1 hy'
  have hij : i < j := by
    by_contra hij
    have hle := ranks_mono ρ hj hi (Nat.not_lt.1 hij)
    rw [hx, hx'] at hle
    exact absurd hlt (not_lt.2 hle)
  have hle := ranks_mono ρ hi' hj' hij.le
  rwa [hy, hy'] at hle

omit [LinearOrder κ] in
theorem map_set_of_eq {l : List α} {i : Nat} {x : α} (hi : i < l.length) (h : ρ x = ρ l[i]) :
    (l.set i x).map ρ = l.map ρ := by
  have hi' : i < (l.map ρ).length := by rwa [length_map]
  rw [map_set, h, ← getElem_map ρ (h := hi'), set_getElem_self]

/-- Whatever has the key of a place can stand there. -/
theorem exists_sorted_at {l : List α} {x : α} {i : Nat} (hx : x ∈ l) (hi : (ranks ρ l)[i]? = some (ρ x)) :
    ∃ l', l' ~ l ∧ (l'.Pairwise fun x y => ρ x ≤ ρ y) ∧ l'[i]? = some x := by
  obtain ⟨hlt, hkey⟩ := List.getElem?_eq_some_iff.1 hi
  have hmem : x ∈ sortBy ρ l := (sortBy_perm ρ l).mem_iff.2 hx
  obtain ⟨j, hj, rfl⟩ := mem_iff_getElem.1 hmem
  have hi : i < (sortBy ρ l).length := by simpa [ranks] using hlt
  have hsame : ρ (sortBy ρ l)[i] = ρ (sortBy ρ l)[j] := by simpa [ranks] using hkey
  refine ⟨((sortBy ρ l).set i (sortBy ρ l)[j]).set j (sortBy ρ l)[i], ?_, ?_, ?_⟩
  · exact (set_set_perm hi hj).trans (sortBy_perm ρ l)
  · have hmap : (((sortBy ρ l).set i (sortBy ρ l)[j]).set j (sortBy ρ l)[i]).map ρ = ranks ρ l := by
      rw [map_set, hsame, ← map_set, map_set_of_eq (by simpa using hj), map_set_of_eq hi hsame.symm, ranks]
      by_cases hij : i = j
      · subst hij
        simp
      · rw [getElem_set_ne hij]
    exact pairwise_map.1 (hmap ▸ ranks_pairwise ρ l)
  · rw [getElem?_set]
    by_cases hji : j = i
    · subst hji
      simp [hi]
    · simp [hji, hi]

end

/-! ## Comparing class by class -/

/-- How two lists are compared: a class of a size in `sorts` is sorted by `rank` on both sides and compared place by
place, any other class is paired off. -/
structure Method (α γ κ : Type*) where
  cls : α → γ
  rank : α → κ
  close : α → α → Prop
  sorts : Nat → Prop

namespace Method

variable [LinearOrder κ] (m : Method α γ κ) {a a' b b' : List α}

def AcceptsClass (a b : List α) : Prop :=
  a.length = b.length ∧ (m.sorts a.length → Forall₂ m.close (sortBy m.rank a) (sortBy m.rank b)) ∧
    (¬ m.sorts a.length → Pairs m.close a b)

/-- Whatever ties can bring together is close. -/
def FirmClass (a b : List α) : Prop :=
  a.length = b.length ∧ (m.sorts a.length → ∀ x ∈ a, ∀ y ∈ b, SamePlace m.rank a b x y → m.close x y) ∧
    (¬ m.sorts a.length → Pairs m.close a b)

/-- The class can be paired off, a sorted class with elements that ties can bring together. -/
def FeasibleClass (a b : List α) : Prop :=
  Pairs (fun x y => m.close x y ∧ (m.sorts a.length → SamePlace m.rank a b x y)) a b

variable {m}

theorem FirmClass.accepts (h : m.FirmClass a b) (ha : a' ~ a) (hb : b' ~ b) : m.AcceptsClass a' b' := by
  obtain ⟨hlen, hfirm, hpairs⟩ := h
  refine ⟨by rw [ha.length_eq, hb.length_eq, hlen], fun hsorts => ?_, fun hsorts => ?_⟩
  · rw [ha.length_eq] at hsorts
    refine forall₂_iff_get.2 ⟨?_, fun i hi hi' => ?_⟩
    · rw [(sortBy_perm m.rank a').length_eq, (sortBy_perm m.rank b').length_eq, ha.length_eq, hb.length_eq, hlen]
    have hmem := ((sortBy_perm m.rank a').trans ha).mem_iff.1 (get_mem _ ⟨i, hi⟩)
    have hmem' := ((sortBy_perm m.rank b').trans hb).mem_iff.1 (get_mem _ ⟨i, hi'⟩)
    have hplace : SamePlace m.rank a' b' ((sortBy m.rank a').get ⟨i, hi⟩) ((sortBy m.rank b').get ⟨i, hi'⟩) :=
      ⟨i, by simp [ranks, hi], by simp [ranks, hi']⟩
    exact hfirm hsorts _ hmem _ hmem' (hplace.perm ha hb)
  · rw [ha.length_eq] at hsorts
    exact (pairs_perm ha hb).2 (hpairs hsorts)

theorem AcceptsClass.feasible (h : m.AcceptsClass a b) : m.FeasibleClass a b := by
  obtain ⟨hlen, hsorted, hpairs⟩ := h
  by_cases hsorts : m.sorts a.length
  · refine (pairs_perm (sortBy_perm m.rank a) (sortBy_perm m.rank b)).1 (pairs_of_forall₂ ?_)
    refine forall₂_iff_get.2 ⟨(hsorted hsorts).length_eq, fun i hi hi' => ?_⟩
    exact ⟨(hsorted hsorts).get hi hi', fun _ => ⟨i, by simp [ranks, hi], by simp [ranks, hi']⟩⟩
  · exact (hpairs hsorts).mono fun x _ y _ hxy => ⟨hxy, fun h => absurd h hsorts⟩

theorem FeasibleClass.perm (h : m.FeasibleClass a b) (ha : a ~ a') (hb : b ~ b') : m.FeasibleClass a' b' := by
  refine ((pairs_perm ha hb).1 h).mono fun x _ y _ hxy => ⟨hxy.1, fun hsorts => ?_⟩
  rw [← ha.length_eq] at hsorts
  exact (hxy.2 hsorts).perm ha hb

/-- Pairs in the order of both keys, taken apart again: both sides are sorted. -/
theorem sorted_of_places {ps : List (α × α)}
    (hps : ps.Pairwise fun p q => toLex (m.rank p.1, m.rank p.2) ≤ toLex (m.rank q.1, m.rank q.2))
    (hplace : ∀ p ∈ ps, SamePlace m.rank a b p.1 p.2) :
    ((ps.map Prod.fst).Pairwise fun x y => m.rank x ≤ m.rank y) ∧
      (ps.map Prod.snd).Pairwise fun x y => m.rank x ≤ m.rank y := by
  constructor
  · refine pairwise_map.2 (hps.imp fun h => ?_)
    rcases Prod.Lex.toLex_le_toLex.1 h with hlt | ⟨heq, -⟩
    · exact hlt.le
    · exact heq.le
  · refine pairwise_map.2 (hps.imp_of_mem fun hp hq h => ?_)
    rcases Prod.Lex.toLex_le_toLex.1 h with hlt | ⟨-, hle⟩
    · exact (hplace _ hp).le_of_lt (hplace _ hq) hlt
    · exact hle

variable [DecidableEq γ] (m) in
def Accepts (a b : List α) : Prop := ∀ c, m.AcceptsClass (Pairing.cls m.cls c a) (Pairing.cls m.cls c b)

variable [DecidableEq γ] (m) in
def Firm (a b : List α) : Prop := ∀ c, m.FirmClass (Pairing.cls m.cls c a) (Pairing.cls m.cls c b)

variable [DecidableEq γ] (m) in
def Feasible (a b : List α) : Prop := ∀ c, m.FeasibleClass (Pairing.cls m.cls c a) (Pairing.cls m.cls c b)

variable [DecidableEq γ]

/-- **Accepted in every order**: exactly when whatever ties can bring together is close. -/
theorem always_iff : (∀ a' b', a' ~ a → b' ~ b → m.Accepts a' b') ↔ m.Firm a b := by
  constructor
  · intro h c
    obtain ⟨hlen, -, hpairs⟩ := h a b (.refl a) (.refl b) c
    refine ⟨hlen, fun hsorts x hx y hy hplace => ?_, hpairs⟩
    obtain ⟨i, hx', hy'⟩ := hplace
    obtain ⟨l, hl, hsorted, hlx⟩ := exists_sorted_at hx hx'
    obtain ⟨l', hl', hsorted', hly⟩ := exists_sorted_at hy hy'
    obtain ⟨a', ha, hac⟩ := exists_with_class hl
    obtain ⟨b', hb, hbc⟩ := exists_with_class hl'
    have haccepts := h _ _ ha hb c
    rw [hac, hbc] at haccepts
    have hall := haccepts.2.1 (by rwa [hl.length_eq])
    rw [sortBy_eq hsorted, sortBy_eq hsorted'] at hall
    obtain ⟨hi, rfl⟩ := List.getElem?_eq_some_iff.1 hlx
    obtain ⟨hi', rfl⟩ := List.getElem?_eq_some_iff.1 hly
    exact hall.get hi hi'
  · exact fun h a' b' ha hb c => (h c).accepts (cls_perm ha) (cls_perm hb)

variable (m) in
/-- `x` and `y` are of one class, close, and ties can bring them together where the class is sorted. -/
def Fits (a b : List α) (x y : α) : Prop :=
  m.cls x = m.cls y ∧ m.close x y ∧ (m.sorts (Pairing.cls m.cls (m.cls x) a).length →
    SamePlace m.rank (Pairing.cls m.cls (m.cls x) a) (Pairing.cls m.cls (m.cls x) b) x y)

theorem Feasible.pairs (h : m.Feasible a b) : Pairs (m.Fits a b) a b := by
  refine pairs_of_classes m.cls m.cls fun c => (h c).mono fun x hx y hy hxy => ?_
  obtain ⟨-, rfl⟩ := mem_cls.1 hx
  exact ⟨(mem_cls.1 hy).2.symm, hxy⟩

theorem accepts_of_fits {ps : List (α × α)} (ha : ps.map Prod.fst ~ a)
    (hps : ps.Pairwise fun p q => toLex (m.rank p.1, m.rank p.2) ≤ toLex (m.rank q.1, m.rank q.2))
    (hfits : ∀ p ∈ ps, m.Fits a b p.1 p.2) : m.Accepts (ps.map Prod.fst) (ps.map Prod.snd) := by
  intro c
  let qs := ps.filter fun p => m.cls p.1 = c
  have hqs : ∀ p ∈ qs, m.Fits a b p.1 p.2 ∧ m.cls p.1 = c := fun p hp =>
    ⟨hfits p (mem_filter.1 hp).1, by simpa using (mem_filter.1 hp).2⟩
  have hleft : Pairing.cls m.cls c (ps.map Prod.fst) = qs.map Prod.fst := by
    rw [Pairing.cls, filter_map]
    rfl
  have hright : Pairing.cls m.cls c (ps.map Prod.snd) = qs.map Prod.snd := by
    rw [Pairing.cls, filter_map]
    refine congrArg _ (filter_congr fun p hp => ?_)
    simp [(hfits p hp).1]
  have hclose : Forall₂ m.close (qs.map Prod.fst) (qs.map Prod.snd) := by
    simpa [forall₂_map_left_iff, forall₂_map_right_iff, forall₂_same] using fun x y hxy => (hqs (x, y) hxy).1.2.1
  have hlen : (qs.map Prod.fst).length = (Pairing.cls m.cls c a).length := by
    rw [← hleft]
    exact (cls_perm ha).length_eq
  rw [hleft, hright]
  refine ⟨by simp, fun hsorts => ?_, fun _ => pairs_of_forall₂ hclose⟩
  rw [hlen] at hsorts
  have hplace : ∀ p ∈ qs, SamePlace m.rank (Pairing.cls m.cls c a) (Pairing.cls m.cls c b) p.1 p.2 := by
    intro p hp
    obtain ⟨⟨-, -, hplace⟩, rfl⟩ := hqs p hp
    exact hplace hsorts
  obtain ⟨hfst, hsnd⟩ := sorted_of_places (hps.sublist filter_sublist) hplace
  rwa [sortBy_eq hfst, sortBy_eq hsnd]

/-- **Accepted in some order**: exactly when every class can be paired off with what ties can bring together. -/
theorem sometimes_iff : (∃ a' b', a' ~ a ∧ b' ~ b ∧ m.Accepts a' b') ↔ m.Feasible a b := by
  constructor
  · rintro ⟨a', b', ha, hb, h⟩ c
    exact (h c).feasible.perm (cls_perm ha) (cls_perm hb)
  · intro h
    obtain ⟨b₁, hb₁, hfits⟩ := h.pairs
    -- In the order of both keys, the two sides are sorted at once, and so is every class.
    let ps := sortBy (fun p : α × α => toLex (m.rank p.1, m.rank p.2)) (a.zip b₁)
    have hps : ps ~ a.zip b₁ := sortBy_perm _ _
    have ha : ps.map Prod.fst ~ a := by
      have hmap := hps.map Prod.fst
      rwa [map_fst_zip hfits.length_eq.le] at hmap
    have hb : ps.map Prod.snd ~ b := by
      have hmap := hps.map Prod.snd
      rw [map_snd_zip hfits.length_eq.ge] at hmap
      exact hmap.trans hb₁
    exact ⟨_, _, ha, hb, accepts_of_fits ha (sortBy_pairwise _ _) fun p hp =>
      (forall₂_iff_zip.1 hfits).2 (hps.mem_iff.1 hp)⟩

/-- **The order does not matter**: exactly when whatever ties can bring together is close, or nothing can be paired. -/
theorem stable_iff : (∀ a' b', a' ~ a → b' ~ b → (m.Accepts a' b' ↔ m.Accepts a b)) ↔
    m.Firm a b ∨ ¬ m.Feasible a b := by
  constructor
  · intro h
    by_cases hab : m.Accepts a b
    · exact .inl (always_iff.1 fun a' b' ha hb => (h a' b' ha hb).2 hab)
    · refine .inr fun hfeasible => hab ?_
      obtain ⟨a', b', ha, hb, h'⟩ := sometimes_iff.2 hfeasible
      exact (h a' b' ha hb).1 h'
  · rintro (hfirm | hnot) a' b' ha hb
    · exact iff_of_true (always_iff.2 hfirm a' b' ha hb) (always_iff.2 hfirm a b (.refl a) (.refl b))
    · exact iff_of_false (fun h => hnot (sometimes_iff.1 ⟨a', b', ha, hb, h⟩))
        fun h => hnot (sometimes_iff.1 ⟨a, b, .refl a, .refl b, h⟩)

theorem accepts_comm (hclose : ∀ x y, m.close x y → m.close y x) : m.Accepts a b ↔ m.Accepts b a := by
  have hone : ∀ {a b : List α}, m.Accepts a b → m.Accepts b a := by
    intro a b h c
    obtain ⟨hlen, hsorted, hpairs⟩ := h c
    refine ⟨hlen.symm, fun hsorts => ?_, fun hsorts => ?_⟩
    · exact (hsorted (hlen ▸ hsorts)).flip.imp fun x y => hclose y x
    · exact (pairs_comm hclose).1 (hpairs (hlen ▸ hsorts))
  exact ⟨hone, hone⟩

/-- Where the key decides what an element is close to, the order does not matter. -/
theorem accepts_perm_of_key
    (hkey : ∀ x ∈ a, ∀ y ∈ b, ∀ x' ∈ a, ∀ y' ∈ b, m.rank x = m.rank x' → m.rank y = m.rank y' → m.close x y →
      m.close x' y')
    (ha : a' ~ a) (hb : b' ~ b) (h : m.Accepts a b) : m.Accepts a' b' := by
  refine always_iff.2 (fun c => ?_) a' b' ha hb
  obtain ⟨hlen, hsorted, hpairs⟩ := h c
  refine ⟨hlen, fun hsorts x hx y hy hplace => ?_, hpairs⟩
  obtain ⟨i, hxi, hyi⟩ := hplace
  obtain ⟨hi, hxi⟩ := List.getElem?_eq_some_iff.1 hxi
  obtain ⟨hi', hyi⟩ := List.getElem?_eq_some_iff.1 hyi
  simp only [ranks, getElem_map, length_map] at hi hi' hxi hyi
  have hmem := (mem_cls.1 ((sortBy_perm m.rank _).mem_iff.1 (getElem_mem hi))).1
  have hmem' := (mem_cls.1 ((sortBy_perm m.rank _).mem_iff.1 (getElem_mem hi'))).1
  exact hkey _ hmem _ hmem' x (mem_cls.1 hx).1 y (mem_cls.1 hy).1 hxi hyi ((hsorted hsorts).get hi hi')

theorem accepts_self (hclose : ∀ x ∈ a, m.close x x) : m.Accepts a a := by
  intro c
  refine ⟨rfl, fun _ => forall₂_same.2 fun x hx => ?_, fun _ => pairs_of_forall₂ (forall₂_same.2 fun x hx => ?_)⟩
  · exact hclose x (mem_cls.1 ((sortBy_perm m.rank _).mem_iff.1 hx)).1
  · exact hclose x (mem_cls.1 hx).1

end Method

end Pairing
