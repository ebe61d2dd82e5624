import Mathlib.Data.List.Nodup
import Mathlib.Logic.Function.Basic

/-!
# Definitions evaluated in order

`assignAll` evaluates a list of definitions one after the other, each in the environment that the earlier ones left.
Where no name is defined twice and each definition reads earlier names only, the final environment satisfies all of
them at once (`assignAll_eq`).
-/

namespace InOrder

variable {ι κ ν : Type*} [DecidableEq κ] (name : ι → κ) (eval : ι → (κ → ν) → ν)

def assignAll : List ι → (κ → ν) → κ → ν
  | [], env => env
  | i :: is, env => assignAll is (Function.update env (name i) (eval i env))

variable {name eval} {is js : List ι} {env : κ → ν} {i : ι} {k : κ}

theorem assignAll_append (is js : List ι) (env : κ → ν) :
    assignAll name eval (is ++ js) env = assignAll name eval js (assignAll name eval is env) := by
  induction is generalizing env with
  | nil => rfl
  | cons i is ih => exact ih _

/-- A name that is not defined keeps its value. -/
theorem assignAll_other (h : k ∉ is.map name) : assignAll name eval is env k = env k := by
  induction is generalizing env with
  | nil => rfl
  | cons i is ih =>
    rw [List.map_cons, List.mem_cons, not_or] at h
    unfold assignAll
    rw [ih h.2, Function.update_of_ne h.1]

/-- Each definition reads earlier names only. -/
def ReadsEarlier (name : ι → κ) (eval : ι → (κ → ν) → ν) (is : List ι) : Prop :=
  ∀ before i after, is = before ++ i :: after → ∀ env env' : κ → ν,
    (∀ k ∈ before.map name, env k = env' k) → eval i env = eval i env'

theorem assignAll_eq (hnodup : (is.map name).Nodup) (hreads : ReadsEarlier name eval is) (hi : i ∈ is) (env : κ → ν) :
    assignAll name eval is env (name i) = eval i (assignAll name eval is env) := by
  obtain ⟨before, after, rfl⟩ := List.append_of_mem hi
  rw [List.map_append, List.map_cons, List.nodup_append, List.nodup_cons] at hnodup
  obtain ⟨-, ⟨hlater, -⟩, hapart⟩ := hnodup
  have hsplit : assignAll name eval (before ++ i :: after) env =
      assignAll name eval after (Function.update (assignAll name eval before env) (name i)
        (eval i (assignAll name eval before env))) := assignAll_append _ _ _
  have hvalue : assignAll name eval (before ++ i :: after) env (name i) = eval i (assignAll name eval before env) := by
    rw [hsplit, assignAll_other hlater, Function.update_self]
  rw [hvalue]
  apply hreads before i after rfl
  intro k hk
  have hne : k ∉ (i :: after).map name := fun hk' => hapart k hk k hk' rfl
  rw [List.map_cons, List.mem_cons, not_or] at hne
  rw [hsplit, assignAll_other hne.2, Function.update_of_ne hne.1]

end InOrder
