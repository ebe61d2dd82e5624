import Mathlib

/-!
# Terms

A term is a head with its arguments. `fold` gives every term a value from its head and the values of its arguments;
`Alike R` is the least congruence that contains `R`. **A value that `R` leaves alone, and that a term takes from the
values of its arguments, is the same for what is alike** (`Alike.value`), at any depth.
-/

universe u v

inductive Term (H : Type u) : Type u where
  | node (head : H) (args : List (Term H))

namespace Term

variable {H : Type u} {α : Type v}

/-- Induction over the arguments. -/
theorem induction {P : Term H → Prop} (h : ∀ head args, (∀ a ∈ args, P a) → P (.node head args)) : ∀ t, P t := by
  intro t
  refine @Term.rec H P (fun args => ∀ a ∈ args, P a) ?_ ?_ ?_ t
  · exact fun head args hargs => h head args hargs
  · simp
  · intro a args ha hargs b hb
    rcases List.mem_cons.1 hb with rfl | hb
    · exact ha
    · exact hargs b hb

mutual

def fold (f : H → List α → α) : Term H → α
  | .node head args => f head (foldAll f args)

def foldAll (f : H → List α → α) : List (Term H) → List α
  | [] => []
  | a :: args => fold f a :: foldAll f args

end

theorem foldAll_eq (f : H → List α → α) (args : List (Term H)) : foldAll f args = args.map (fold f) := by
  induction args with
  | nil => rfl
  | cons a args ih => rw [foldAll, ih, List.map_cons]

@[simp] theorem fold_node (f : H → List α → α) (head : H) (args : List (Term H)) :
    fold f (.node head args) = f head (args.map (fold f)) := by
  rw [fold, foldAll_eq]

inductive Alike (R : Term H → Term H → Prop) : Term H → Term H → Prop
  | rule {a b : Term H} (h : R a b) : Alike R a b
  | refl (a : Term H) : Alike R a a
  | symm {a b : Term H} (h : Alike R a b) : Alike R b a
  | trans {a b c : Term H} (h : Alike R a b) (h' : Alike R b c) : Alike R a c
  | arg (head : H) (before after : List (Term H)) {a b : Term H} (h : Alike R a b) :
      Alike R (.node head (before ++ a :: after)) (.node head (before ++ b :: after))

/-- Alike argument by argument. -/
theorem Alike.args {R : Term H → Term H → Prop} (head : H) {l l' : List (Term H)} (h : List.Forall₂ (Alike R) l l') :
    Alike R (.node head l) (.node head l') := by
  have hfrom : ∀ before, Alike R (.node head (before ++ l)) (.node head (before ++ l')) := by
    induction h with
    | nil => exact fun before => .refl _
    | @cons a b l l' hab _ ih =>
      intro before
      have hrest := ih (before ++ [b])
      rw [List.append_assoc, List.append_assoc] at hrest
      exact .trans (.arg head before l hab) hrest
  exact hfrom []

/-- A value that a related pair shares, and that an argument only passes on. -/
theorem Alike.value {R : Term H → Term H → Prop} {f : Term H → α} (hR : ∀ a b, R a b → f a = f b)
    (harg : ∀ head before after a b, f a = f b →
      f (.node head (before ++ a :: after)) = f (.node head (before ++ b :: after)))
    {a b : Term H} (hab : Alike R a b) : f a = f b := by
  induction hab with
  | rule hr => exact hR _ _ hr
  | refl a => rfl
  | symm _ ih => exact ih.symm
  | trans _ _ ih ih' => exact ih.trans ih'
  | arg head before after _ ih => exact harg head before after _ _ ih

end Term
