import Mathlib.Data.List.Basic
import Mathlib.Data.List.Forall2

/-!
# `mapM` in `Option` and `Except`

A list is mapped if every element is, and the results are then the images in order.
-/

namespace MapM

variable {α β : Type*} {f : α → Option β}

theorem eq_some_iff : ∀ {xs : List α} {ys : List β}, xs.mapM f = some ys ↔ xs.map f = ys.map some
  | [], [] => by simp
  | [], _ :: _ => by simp
  | x :: xs, [] => by simp [Option.bind_eq_some_iff]
  | x :: xs, y :: ys => by
    have ih := @eq_some_iff xs ys
    simp only [List.mapM_cons, Option.bind_eq_bind, Option.pure_def, Option.bind_eq_some_iff, Option.some.injEq,
      List.map_cons, List.cons.injEq, ← ih]
    constructor
    · rintro ⟨b, hb, bs, hbs, rfl, rfl⟩
      exact ⟨hb, hbs⟩
    · rintro ⟨hb, hbs⟩
      exact ⟨y, hb, ys, hbs, rfl, rfl⟩

theorem eq_some_of_forall {g : α → β} {xs : List α} (h : ∀ x ∈ xs, f x = some (g x)) : xs.mapM f = some (xs.map g) :=
  eq_some_iff.2 (by rw [List.map_map]; exact List.map_congr_left h)

/-- Mapping again with a function that agrees wherever the first one gives a result. -/
theorem imp {g : α → Option β} {xs : List α} {ys : List β} (h : xs.mapM f = some ys)
    (himp : ∀ x ∈ xs, ∀ y, f x = some y → g x = some y) : xs.mapM g = some ys := by
  have hmap := eq_some_iff.1 h
  refine eq_some_iff.2 (Eq.trans (List.map_congr_left fun x hx => ?_) hmap)
  have hfx : f x ∈ ys.map some := hmap ▸ List.mem_map_of_mem hx
  obtain ⟨y, -, hy⟩ := List.mem_map.1 hfx
  rw [← hy, himp x hx y hy.symm]

theorem getElem?_eq {xs : List α} {ys : List β} (h : xs.mapM f = some ys) :
    ys.length = xs.length ∧ ∀ i (hi : i < xs.length), ys[i]? = f xs[i] := by
  have hmap := eq_some_iff.1 h
  refine ⟨by simpa using (congrArg List.length hmap).symm, fun i hi => ?_⟩
  have hget := congrArg (·[i]?) hmap
  simp only [List.getElem?_map, List.getElem?_eq_getElem hi, Option.map_some] at hget
  cases hy : ys[i]? with
  | none => simp [hy] at hget
  | some y => simpa [hy] using hget.symm

theorem exists_of_forall {P : β → Prop} : ∀ {xs : List α}, (∀ x ∈ xs, ∃ y, f x = some y ∧ P y) →
    ∃ ys, xs.mapM f = some ys ∧ ∀ y ∈ ys, P y
  | [], _ => ⟨[], rfl, fun _ h => absurd h List.not_mem_nil⟩
  | x :: xs, h => by
    obtain ⟨y, hy, hP⟩ := h x List.mem_cons_self
    obtain ⟨ys, hys, hall⟩ := exists_of_forall fun x' hx' => h x' (List.mem_cons_of_mem _ hx')
    refine ⟨y :: ys, ?_, List.forall_mem_cons.2 ⟨hP, hall⟩⟩
    rw [List.mapM_cons, hy, hys]
    rfl

theorem congr {g : α → Option β} : ∀ {xs : List α}, (∀ x ∈ xs, f x = g x) → xs.mapM f = xs.mapM g
  | [], _ => rfl
  | x :: xs, h => by
    rw [List.mapM_cons, List.mapM_cons, h x (List.mem_cons_self ..), congr fun y hy => h y (List.mem_cons_of_mem _ hy)]

theorem eq_none_of_mem {x : α} {xs : List α} (hmem : x ∈ xs) (h : f x = none) : xs.mapM f = none := by
  rw [Option.eq_none_iff_forall_ne_some]
  intro ys hys
  have hx := List.mem_map_of_mem (f := f) hmem
  rw [eq_some_iff.1 hys, h] at hx
  obtain ⟨y, -, hy⟩ := List.mem_map.1 hx
  cases hy

/-- The positions of a list read one by one. -/
theorem range_eq_some {f : Nat → Option β} {ys : List β} {n : Nat} (hn : ys.length = n)
    (h : ∀ i y, ys[i]? = some y → f i = some y) : (List.range n).mapM f = some ys := by
  refine eq_some_iff.2 (List.ext_getElem (by simpa using hn.symm) fun i h1 h2 => ?_)
  rw [List.length_map] at h2
  rw [List.getElem_map, List.getElem_map, List.getElem_range]
  exact h i _ (List.getElem?_eq_getElem h2)

/-! ## `Except` -/

section
variable {ε : Type*} {f : α → Except ε β}

theorem eq_ok_of_forall {g : α → β} :
    ∀ {xs : List α}, (∀ x ∈ xs, f x = .ok (g x)) → xs.mapM f = .ok (xs.map g)
  | [], _ => rfl
  | x :: xs, h => by
    have htail : xs.mapM f = .ok (xs.map g) := eq_ok_of_forall fun y hy => h y (List.mem_cons_of_mem x hy)
    rw [List.mapM_cons, h x List.mem_cons_self, htail]
    rfl

theorem forall₂_of_ok {P : α → β → Prop} : ∀ {xs : List α} {ys : List β}, xs.mapM f = .ok ys →
    (∀ x ∈ xs, ∀ y, f x = .ok y → P x y) → List.Forall₂ P xs ys
  | [], ys, h, _ => by
    cases h
    exact .nil
  | x :: xs, ys, h, hP => by
    rw [List.mapM_cons] at h
    cases hx : f x with
    | error e =>
      rw [hx] at h
      cases h
    | ok y =>
      cases hl : xs.mapM f with
      | error e =>
        rw [hx, hl] at h
        cases h
      | ok zs =>
        rw [hx, hl] at h
        cases h
        have htail := forall₂_of_ok hl fun x' hx' => hP x' (List.mem_cons_of_mem _ hx')
        exact .cons (hP x List.mem_cons_self y hx) htail

/-- The error of a `mapM` is the error of one of its elements. -/
theorem exists_error {e : ε} : ∀ {xs : List α}, xs.mapM f = .error e → ∃ x ∈ xs, f x = .error e
  | [], h => by cases h
  | x :: xs, h => by
    rw [List.mapM_cons] at h
    cases hx : f x with
    | error e' =>
      rw [hx] at h
      cases h
      exact ⟨x, List.mem_cons_self, hx⟩
    | ok y =>
      cases hl : xs.mapM f with
      | error e' =>
        rw [hx, hl] at h
        cases h
        obtain ⟨x', hx', he⟩ := exists_error hl
        exact ⟨x', List.mem_cons_of_mem _ hx', he⟩
      | ok zs =>
        rw [hx, hl] at h
        cases h

/-- A `mapM` raises iff it meets an element that raises. -/
theorem error_iff {xs : List α} : (∃ e, xs.mapM f = .error e) ↔ ∃ x ∈ xs, ∃ e, f x = .error e := by
  constructor
  · rintro ⟨e, h⟩
    obtain ⟨x, hx, he⟩ := exists_error h
    exact ⟨x, hx, e, he⟩
  · rintro ⟨x, hx, e, he⟩
    cases h : xs.mapM f with
    | error e' => exact ⟨e', rfl⟩
    | ok ys =>
      have hall : List.Forall₂ (fun x y => (∃ z, f x = .ok z) ∧ f x = .ok y) xs ys :=
        forall₂_of_ok h fun _ _ y hy => ⟨⟨y, hy⟩, hy⟩
      obtain ⟨z, hz⟩ := ((List.forall₂_and_left xs ys).1 hall).1 x hx
      rw [he] at hz
      cases hz

end

end MapM
