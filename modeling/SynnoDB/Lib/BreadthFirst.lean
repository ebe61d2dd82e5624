import Mathlib

/-!
# Breadth first over a forest

`bfs` takes from the front of a queue and puts the children at its back. With enough fuel it goes **level by level**
(`bfs_levels`); no step looks at a node twice, so the number of nodes is enough.
-/

namespace BreadthFirst

variable {α : Type*} (children : α → List α)

def bfs : Nat → List α → List α
  | 0, _ => []
  | _ + 1, [] => []
  | n + 1, a :: queue => a :: bfs n (queue ++ children a)

/-- What is `k` steps below. -/
def level : Nat → α → List α
  | 0, a => [a]
  | k + 1, a => (children a).flatMap (level k)

/-- A count of the nodes below and at each node. -/
def Counts (size : α → Nat) : Prop := ∀ a, size a = 1 + ((children a).map size).sum

variable {children}

theorem bfs_queue (n : Nat) (queue later : List α) :
    bfs children (queue.length + n) (queue ++ later) =
      queue ++ bfs children n (later ++ queue.flatMap children) := by
  induction queue generalizing later with
  | nil => simp
  | cons a queue ih =>
    have hlen : (a :: queue).length + n = (queue.length + n) + 1 := by simp; omega
    rw [hlen, List.cons_append, bfs, List.append_assoc, ih]
    simp

theorem level_flatMap (k : Nat) (queue : List α) :
    (queue.flatMap children).flatMap (level children k) = queue.flatMap (level children (k + 1)) := by
  induction queue with
  | nil => rfl
  | cons a queue ih => simp [ih, level]

theorem Counts.sum {size : α → Nat} (h : Counts children size) (queue : List α) :
    (queue.map size).sum = queue.length + ((queue.flatMap children).map size).sum := by
  induction queue with
  | nil => rfl
  | cons a queue ih =>
    simp only [List.map_cons, List.sum_cons, List.length_cons, List.flatMap_cons, List.map_append, List.sum_append,
      ih, h a]
    omega

/-- **Level by level**, however many levels are asked for beyond the last. -/
theorem bfs_levels {size : α → Nat} (h : Counts children size) (k : Nat) (queue : List α)
    (hk : (queue.map size).sum ≤ k) :
    bfs children (queue.map size).sum queue = (List.range k).flatMap fun i => queue.flatMap (level children i) := by
  induction k generalizing queue with
  | zero =>
    have hsum := h.sum queue
    have hnil : queue = [] := List.length_eq_zero_iff.1 (by omega)
    simp [hnil, bfs]
  | succ k ih =>
    rcases queue with _ | ⟨a, queue⟩
    · simp [bfs]
    · have hsum := h.sum (a :: queue)
      have hlen : (a :: queue).length = queue.length + 1 := rfl
      have hrange : ∀ f : Nat → List α, (List.range (k + 1)).flatMap f = f 0 ++ (List.range k).flatMap fun i => f (i + 1) := by
        intro f
        rw [List.range_succ_eq_map, List.flatMap_cons, List.flatMap_map]
      have hstep := @bfs_queue α children (((a :: queue).flatMap children).map size).sum (a :: queue) []
      rw [List.append_nil, List.nil_append, ih _ (by omega), ← hsum] at hstep
      simp only [level_flatMap] at hstep
      rw [hstep, hrange]
      simp [level]

/-- The order does not depend on what the nodes carry. -/
theorem bfs_map {β : Type*} {children' : β → List β} {f : α → β} (h : ∀ a, children' (f a) = (children a).map f)
    (n : Nat) (queue : List α) : bfs children' n (queue.map f) = (bfs children n queue).map f := by
  induction n generalizing queue with
  | zero => rfl
  | succ n ih =>
    rcases queue with _ | ⟨a, queue⟩
    · rfl
    · rw [List.map_cons, bfs, bfs, List.map_cons, h, ← List.map_append, ih]

end BreadthFirst
