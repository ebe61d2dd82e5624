import Mathlib
import SynnoDB.Lib.BreadthFirst
import SynnoDB.PgRouter.SameStructure
import SynnoDB.Router.WriteGate

/-!
# The values that a handler is given (`routes.py:47-76, 181-196`, `normalization.py:179-215`)

A simple query carries its values in its text. They are read off the statement as it was sent, not off its normal
form, by `walk()`, which goes breadth first.

| here | there |
| --- | --- |
| `parse`            | `parse_query`; `none`: `ParseError` |
| `Route.new`        | `Statement.__post_init__`; `none`: `ValueError` |
| `matchRoute`       | `match_statement_route` |
| `children`         | `iter_expressions`, in the order of `args` |
| `walk`             | `Expression.walk()` |
| `extractValues`    | `extract_record_values`, `resolve_parameter_values` |

**Statements that differ only in their constants are matched alike and carry their values at the same nodes**
(`values_in_place`). Any other rewriting keeps the route and moves the values: the conjuncts of `a = 1 AND b = 2 AND
c = 3` hang at three depths, and the handler is given `3, 1, 2` (`conjunction_values`).
-/

namespace SynnoDB.PgRouter.Structure

open BreadthFirst (bfs level Counts bfs_levels)
open Router (pyWhitespace strip)
open Term (Alike)

inductive Value where
  | text (value : Text)
  | boolean (value : Bool)
  | null
  deriving DecidableEq, Repr

def valueOf : Tree → Option Value
  | .node (.literal _ value) _ => some (.text value)
  | .node (.boolean value) _ => some (.boolean value)
  | .node .null _ => some .null
  | _ => none

/-- A FROM clause is a node of its own to `walk`. -/
def children : Tree → List Tree
  | .node (.select before joins) (first :: l) =>
    (l.drop joins).take before ++
      .node (.other ['F', 'r', 'o', 'm']) [first] :: (l.take joins ++ (l.drop joins).drop before)
  | .node _ l => l

def weight (h : Head) (sizes : List Nat) : Nat :=
  match h, sizes with
  | .select _ _, _ :: _ => 2 + sizes.sum
  | _, _ => 1 + sizes.sum

def size : Tree → Nat := Term.fold weight

/-- Each node is taken from the queue once. -/
def walk (t : Tree) : List Tree := bfs children (size t) [t]

/-- `extract_record_values` of a record without `parameters`. -/
def extractValues (parse : Text → Option Tree) (query : Text) : List Value :=
  ((parse query).map fun t => (walk t).filterMap valueOf).getD []

variable (txt : Head → List Text → Text) (parse : Text → Option Tree)

/-- `normalize_query_structure`: what does not parse keeps its words. -/
def normalizeQueryStructure (query : Text) : Text :=
  match parse query with
  | some t => sql txt (normalize txt t)
  | none => [' '].intercalate ((query.splitOnP pyWhitespace).filter (· ≠ []))

structure Route where
  text : Text
  normalized : Text

/-- `normalize_query_structure_strict` of the text without the space around it. -/
def Route.new (text : Text) : Option Route :=
  if strip text = [] then none else (parse (strip text)).map fun t => ⟨text, sql txt (normalize txt t)⟩

def matchRoute (routes : List Route) (query : Text) : Option Route :=
  if query = [] then none else routes.find? fun r => r.normalized = normalizeQueryStructure txt parse query

/-! ## Breadth first -/

theorem size_counts : Counts children size := by
  intro t
  have hsum : ∀ l : List Tree, ((l.map size).sum) = (l.map (Term.fold weight)).sum := fun _ => rfl
  rcases t with ⟨h, l⟩
  rw [size, Term.fold_node]
  have hother : children (.node h l) = l → weight h (l.map (Term.fold weight)) = 1 + (l.map (Term.fold weight)).sum →
      weight h (l.map (Term.fold weight)) = 1 + ((children (.node h l)).map (Term.fold weight)).sum := by
    intro hc hs
    rw [hc, hs]
  cases h with
  | select b n =>
    rcases l with _ | ⟨first, l⟩
    · exact hother rfl rfl
    · have hsplit : ∀ k : Nat, ∀ l : List Tree,
          ((l.take k).map (Term.fold weight)).sum + ((l.drop k).map (Term.fold weight)).sum =
            (l.map (Term.fold weight)).sum := by
        intro k l
        rw [← List.sum_append, ← List.map_append, List.take_append_drop]
      have h1 := hsplit n l
      have h2 := hsplit b (l.drop n)
      simp only [children, weight, List.map_cons, List.map_append, List.sum_cons, List.sum_append, List.map_nil,
        Term.fold_node, List.sum_nil]
      omega
  | _ => exact hother rfl rfl

theorem walk_levels {t : Tree} {k : Nat} (hk : size t ≤ k) :
    walk t = (List.range k).flatMap fun i => level children i t := by
  have h := bfs_levels size_counts k [t] (by simpa using hk)
  simpa [walk] using h

/-- The values `k` steps below. -/
def levelValues (k : Nat) (t : Tree) : List Value := (level children k t).filterMap valueOf

theorem levelValues_succ (k : Nat) (t : Tree) : levelValues (k + 1) t = (children t).flatMap (levelValues k) := by
  rw [levelValues, level, List.filterMap_flatMap]
  rfl

def values (t : Tree) : List Value := (walk t).filterMap valueOf

theorem values_levels {t : Tree} {k : Nat} (hk : size t ≤ k) :
    values t = (List.range k).flatMap fun i => levelValues i t := by
  rw [values, walk_levels hk, List.filterMap_flatMap]
  rfl

/-! ## The constants of a statement -/

def blankHead : Head → Head
  | .literal _ _ | .boolean _ | .null => .null
  | h => h

/-- The statement without the values of its constants. -/
def blank : Tree → Tree := Term.fold fun h l => .node (blankHead h) l

theorem blank_node (h : Head) (l : List Tree) : blank (.node h l) = .node (blankHead h) (l.map blank) :=
  Term.fold_node ..

theorem children_blank (t : Tree) : children (blank t) = (children t).map blank := by
  rcases t with ⟨h, l⟩
  rw [blank_node]
  cases h with
  | select b n =>
    rcases l with _ | ⟨first, l⟩
    · rfl
    · simp [children, blankHead, blank_node, List.map_take, List.map_drop]
  | _ => rfl

theorem size_blank (t : Tree) : size (blank t) = size t := by
  induction t using Term.induction with
  | h h l ih =>
    have hsizes : (l.map blank).map size = l.map size := by
      rw [List.map_map]
      exact List.map_congr_left ih
    rw [blank_node, size, Term.fold_node, Term.fold_node, ← size, hsizes]
    cases h with
    | select b n => rfl
    | _ => rfl

theorem walk_blank (t : Tree) : walk (blank t) = (walk t).map blank := by
  rw [walk, size_blank, ← List.map_singleton, BreadthFirst.bfs_map children_blank]
  rfl

theorem alike_blank (t : Tree) : Alike (Rewrites txt) t (blank t) := by
  induction t using Term.induction with
  | h h l ih =>
    have hargs : Alike (Rewrites txt) (.node h l) (.node h (l.map blank)) := by
      refine .args h ?_
      rw [List.forall₂_map_right_iff, List.forall₂_same]
      exact ih
    have hconstant : isConstant h = true → Alike (Rewrites txt) (.node h l) (.node .null (l.map blank)) :=
      fun hh => .trans (.rule (.constant hh l)) (.symm (.rule (.constant rfl _)))
    rw [blank_node]
    cases h with
    | literal _ _ => exact hconstant rfl
    | boolean _ => exact hconstant rfl
    | null => exact hargs
    | _ => exact hargs

/-- **What is alike is answered by one route.** -/
theorem routed_alike (routes : List Route) {query query' : Text} {t t' : Tree} (hq : parse query = some t)
    (hq' : parse query' = some t') (hne : query ≠ []) (hne' : query' ≠ []) (h : Alike (Rewrites txt) t t') :
    matchRoute txt parse routes query = matchRoute txt parse routes query' := by
  simp only [matchRoute, normalizeQueryStructure, hq, hq', if_neg hne, if_neg hne', text_of_alike h]

/-- **The same route, and value for value at the same node.** -/
theorem values_in_place (routes : List Route) {query query' : Text} {t t' : Tree} (hq : parse query = some t)
    (hq' : parse query' = some t') (hne : query ≠ []) (hne' : query' ≠ []) (h : blank t = blank t') :
    matchRoute txt parse routes query = matchRoute txt parse routes query' ∧
      List.Forall₂ (fun a a' => blank a = blank a') (walk t) (walk t') := by
  have halike : Alike (Rewrites txt) t t' := by
    have hblank := alike_blank txt t'
    rw [← h] at hblank
    exact .trans (alike_blank txt t) (.symm hblank)
  have htext := text_of_alike halike
  constructor
  · simp only [matchRoute, normalizeQueryStructure, hq, hq', if_neg hne, if_neg hne', htext]
  · have hwalk : (walk t).map blank = (walk t').map blank := by rw [← walk_blank, h, walk_blank]
    have hrel := List.forall₂_eq_eq_eq ▸ hwalk
    simpa [List.forall₂_map_left_iff, List.forall₂_map_right_iff] using hrel

/-- `SELECT x FROM t WHERE …`. -/
def selectWhere (condition : Tree) : Tree :=
  .node (.select 1 0) [leaf 't', leaf 'x', .node (.other ['W', 'h', 'e', 'r', 'e']) [condition]]

/-- `a = c`. -/
def equals (column value : Char) : Tree := .node .eq [leaf column, constant value]

/-- `SELECT x FROM t WHERE a = 1` and `SELECT x FROM t WHERE a = 2`, the two queries told apart by their length. -/
def parseTwo (query : Text) : Option Tree :=
  some (selectWhere (equals 'a' (if query.length = 1 then '1' else '2')))

def routeTwo : Route := ⟨['a'], sql plain (normalize plain (selectWhere (equals 'a' '1')))⟩

theorem values_in_place_two :
    matchRoute plain parseTwo [routeTwo] ['1'] = matchRoute plain parseTwo [routeTwo] ['2', '2'] ∧
      List.Forall₂ (fun a a' => blank a = blank a') (walk (selectWhere (equals 'a' '1')))
        (walk (selectWhere (equals 'a' '2'))) :=
  values_in_place plain parseTwo [routeTwo] rfl rfl (by decide) (by decide) rfl

/-- `b = 1` and `2 = b`. -/
def parseTurned (query : Text) : Option Tree :=
  some (if query.length = 1 then .node .eq [leaf 'b', constant '1'] else .node .eq [constant '2', leaf 'b'])

theorem routed_alike_turned :
    matchRoute plain parseTurned [routeTwo] ['1'] = matchRoute plain parseTurned [routeTwo] ['2', '2'] :=
  routed_alike plain parseTurned [routeTwo] rfl rfl (by decide) (by decide)
    (.trans (.rule (.turned (.inl rfl) _ _))
      (.args _ (.cons (.trans (.rule (.constant rfl _)) (.symm (.rule (.constant rfl _)))) (.cons (.refl _) .nil))))

/-! ## Conjuncts -/

/-- A condition whose only value stands directly below it. -/
structure Compares (p : Tree) (v : Value) : Prop where
  here : levelValues 0 p = []
  below : levelValues 1 p = [v]
  deeper : ∀ k, levelValues (k + 2) p = []

/-- `t` has no values outside `c`. -/
inductive Around (c : Tree) : Tree → Prop
  | self : Around c c
  | inside {t q : Tree} {before after : List Tree} (hv : valueOf t = none) (hc : children t = before ++ q :: after)
      (hb : ∀ x ∈ before, values x = []) (ha : ∀ x ∈ after, values x = []) (hq : Around c q) : Around c t

theorem levelValues_of_values {x : Tree} (h : values x = []) (k : Nat) : levelValues k x = [] := by
  rw [values_levels (Nat.le_add_right (size x) (k + 1)), List.flatMap_eq_nil_iff] at h
  exact h k (List.mem_range.2 (by omega))

theorem flatMap_range_succ {α : Type*} (f : Nat → List α) (k : Nat) :
    (List.range (k + 1)).flatMap f = f 0 ++ (List.range k).flatMap fun i => f (i + 1) := by
  rw [List.range_succ_eq_map, List.flatMap_cons, List.flatMap_map]

theorem Around.values {c t : Tree} (h : Around c t) : values t = values c := by
  induction h with
  | self => rfl
  | @inside t q before after hv hc hb ha _ ih =>
    have hsucc : ∀ k, levelValues (k + 1) t = levelValues k q := by
      intro k
      have hbefore : before.flatMap (levelValues k) = [] :=
        List.flatMap_eq_nil_iff.2 fun x hx => levelValues_of_values (hb x hx) k
      have hafter : after.flatMap (levelValues k) = [] :=
        List.flatMap_eq_nil_iff.2 fun x hx => levelValues_of_values (ha x hx) k
      rw [levelValues_succ, hc, List.flatMap_append, List.flatMap_cons, hbefore, hafter]
      simp
    have hzero : levelValues 0 t = [] := by simp [levelValues, level, hv]
    have ht : size t ≤ size t + size q + 1 := by omega
    have hq : size q ≤ size t + size q := by omega
    rw [← ih, values_levels ht, values_levels hq, flatMap_range_succ, hzero]
    simp only [hsucc, List.nil_append]

/-- The values of a conjunction, from the second level down. -/
def deep (first second : Value) (rest : List Value) : List (List Value) :=
  rest.reverse.map (fun v => [v]) ++ [[first, second]]

theorem levelValues_and (k : Nat) (a b : Tree) :
    levelValues (k + 1) (.node .and [a, b]) = levelValues k a ++ levelValues k b := by
  rw [levelValues_succ]
  simp [children]

theorem levelValues_rebuildAnd {first second : Tree} {v v' : Value} (hf : Compares first v) (hs : Compares second v')
    {rest : List Tree} {vs : List Value} (hrest : List.Forall₂ Compares rest vs) :
    levelValues 0 (rebuildAnd first (second :: rest)) = [] ∧
      levelValues 1 (rebuildAnd first (second :: rest)) = [] ∧
      ∀ k, levelValues (k + 2) (rebuildAnd first (second :: rest)) = ((deep v v' vs)[k]?).getD [] := by
  induction rest using List.reverseRecOn generalizing vs with
  | nil =>
    have hnil : vs = [] := List.forall₂_nil_left_iff.1 hrest
    subst hnil
    have hand : rebuildAnd first [second] = .node .and [first, second] := rfl
    rw [hand]
    refine ⟨rfl, ?_, ?_⟩
    · rw [levelValues_and, hf.here, hs.here, List.append_nil]
    · intro k
      rw [levelValues_and]
      cases k with
      | zero => simp [hf.below, hs.below, deep]
      | succ k => simp [hf.deeper, hs.deeper, deep]
  | append_singleton rest e ih =>
    obtain ⟨us, ws, hus, hws, rfl⟩ : ∃ us ws, List.Forall₂ Compares rest us ∧ List.Forall₂ Compares [e] ws ∧
        vs = us ++ ws := by
      refine ⟨vs.take rest.length, vs.drop rest.length, ?_, ?_, (List.take_append_drop _ _).symm⟩
      · simpa using List.forall₂_take rest.length hrest
      · simpa using List.forall₂_drop rest.length hrest
    obtain ⟨w, rfl, he⟩ : ∃ w, ws = [w] ∧ Compares e w := by
      cases hws with
      | @cons _ w _ ws hw hnil => exact ⟨w, by rw [List.forall₂_nil_left_iff.1 hnil], hw⟩
    have hshort := ih hus
    rw [← List.cons_append, rebuildAnd_concat]
    refine ⟨rfl, ?_, ?_⟩
    · rw [levelValues_and, hshort.1, he.here, List.append_nil]
    · intro k
      rw [levelValues_and]
      cases k with
      | zero => simp [hshort.2.1, he.below, deep]
      | succ k => rw [hshort.2.2, he.deeper]; simp [deep]

theorem flatten_levels {α : Type*} {l : List (List α)} {k : Nat} (hk : l.length ≤ k) :
    ((List.range k).flatMap fun i => (l[i]?).getD []) = l.flatten := by
  induction l generalizing k with
  | nil => simp
  | cons a l ih =>
    obtain ⟨k, rfl⟩ : ∃ j, k = j + 1 := ⟨k - 1, by simp at hk; omega⟩
    rw [flatMap_range_succ]
    simpa using ih (by simpa using hk)

/-- **The values of `p₁ AND … AND pₙ` come out last first**, only the first two in their order. -/
theorem conjunction_values {first second : Tree} {rest : List Tree} {v v' : Value} {vs : List Value}
    (hf : Compares first v) (hs : Compares second v') (hrest : List.Forall₂ Compares rest vs) {query : Text} {t : Tree}
    (hq : parse query = some t) (ht : Around (rebuildAnd first (second :: rest)) t) :
    extractValues parse query = vs.reverse ++ [v, v'] := by
  obtain ⟨h0, h1, hdeep⟩ := levelValues_rebuildAnd hf hs hrest
  have hvalues : extractValues parse query = values t := by simp [extractValues, hq, values]
  have hk : size (rebuildAnd first (second :: rest)) ≤
      size (rebuildAnd first (second :: rest)) + (deep v v' vs).length + 1 + 1 := by omega
  rw [hvalues, ht.values, values_levels hk, flatMap_range_succ, flatMap_range_succ, h0, h1, List.nil_append,
    List.nil_append]
  simp only [hdeep]
  rw [flatten_levels (by omega)]
  rw [deep, List.flatten_append, ← List.flatMap_def, List.flatMap_singleton']
  simp

theorem compares_equals (column value : Char) : Compares (equals column value) (.text [value]) := by
  refine ⟨rfl, rfl, fun k => ?_⟩
  rw [levelValues_succ]
  change ([leaf column, constant value].flatMap (levelValues (k + 1))) = []
  simp [levelValues_succ, children, leaf, constant]

/-- `SELECT x FROM t WHERE a = 1 AND b = 2 AND c = 3`. -/
theorem conjunction_values_three :
    extractValues (fun _ => some (selectWhere (rebuildAnd (equals 'a' '1') [equals 'b' '2', equals 'c' '3']))) ['q'] =
      [.text ['3'], .text ['1'], .text ['2']] := by
  refine conjunction_values _ (compares_equals 'a' '1') (compares_equals 'b' '2')
    (.cons (compares_equals 'c' '3') .nil) rfl ?_
  refine @Around.inside _ _ _ [leaf 'x', .node (.other ['F', 'r', 'o', 'm']) [leaf 't']] [] rfl rfl ?_ ?_ ?_
  · simp only [List.mem_cons, List.not_mem_nil, or_false, forall_eq_or_imp, forall_eq]
    exact ⟨rfl, rfl⟩
  · simp
  · exact @Around.inside _ _ _ [] [] rfl rfl (by simp) (by simp) .self

end SynnoDB.PgRouter.Structure
