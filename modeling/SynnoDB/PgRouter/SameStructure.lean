import Mathlib
import SynnoDB.PgRouter.Structure

/-!
# Which statements have one structure

| here | there |
| --- | --- |
| `Rewrites`         | ours: what the rules are meant to make indistinguishable, in one place |
| `Alike (Rewrites txt)` | ours: the same at any depth and any number of times |
| `Shape`            | ours: what a rule can see of an argument, its head and some texts |

**What is alike has one text, and one tree only what is alike** (`text_of_alike`, `alike_of_normalize`): every constant
may be another one, an output may lose its alias, the sides of `=`, `<>`, `+`, `*` and `OR` may be exchanged, conjuncts
and the members of an IN list come in any order, and so do the sources of a FROM clause with its joins.

A join is inner when its *kind* is: `LEFT JOIN` has a side and no kind, so it is sorted with the rest
(`left_join_turned`). An `OR` is only ever turned around in place: `a OR b OR c` and `a OR c OR b` stay apart.
-/

namespace SynnoDB.PgRouter.Structure

open Pairing (sortBy sortBy_perm sortBy_pairwise sortBy_eq)
open Term (Alike)

/-! ## What a rule can see of its arguments -/

variable (txt : Head → List Text → Text)

/-- A head, the texts of its arguments and those of its conjuncts. -/
structure Shape where
  head : Head
  args : List Text
  conjuncts : List Text

def shape (t : Tree) : Shape := ⟨head t, (args t).map (sql txt), (flattenAnd t).map (sql txt)⟩

def Shape.text (s : Shape) : Text := txt s.head s.args

@[simp] theorem text_shape (t : Tree) : (shape txt t).text txt = sql txt t := (sql_eq txt t).symm

variable {txt}

theorem sql_of_shape {t t' : Tree} (h : shape txt t = shape txt t') : sql txt t = sql txt t' := by
  rw [← text_shape txt t, h, text_shape]

theorem map_sql_of_shape {l l' : List Tree} (h : l.map (shape txt) = l'.map (shape txt)) :
    l.map (sql txt) = l'.map (sql txt) := by
  have htext := congrArg (List.map (Shape.text txt)) h
  simpa only [List.map_map, Function.comp_def, text_shape] using htext

/-- Nothing else is seen of what is not a conjunction. -/
theorem shape_of_flattenAnd {t t' : Tree} (ht : flattenAnd t = [t]) (ht' : flattenAnd t' = [t'])
    (hh : head t = head t') (ha : (args t).map (sql txt) = (args t').map (sql txt)) : shape txt t = shape txt t' := by
  have htext : sql txt t = sql txt t' := by rw [sql_eq, sql_eq, hh, ha]
  simp [shape, ht, ht', hh, ha, htext]

theorem shape_node {h : Head} (hh : h ≠ .and) {l l' : List Tree} (ha : l.map (sql txt) = l'.map (sql txt)) :
    shape txt (.node h l) = shape txt (.node h l') :=
  shape_of_flattenAnd (flattenAnd_of_head hh) (flattenAnd_of_head hh) rfl ha

/-- Sorting by the texts is sorting the texts. -/
theorem map_sortBy {α β : Type*} (f : α → β) (k : α → Bool ×ₗ Text) (k' : β → Bool ×ₗ Text) (l : List α)
    (h : ∀ x ∈ l, k x = k' (f x)) : (sortBy k l).map f = sortBy k' (l.map f) := by
  apply List.map_insertionSort
  intro a ha b hb
  rw [h a ha, h b hb]

theorem textKey_inj {s s' : Text} (h : textKey s = textKey s') : s = s' := (Prod.ext_iff.1 (toLex.injective h)).2

/-- Texts in order are determined by which texts they are. -/
theorem sorted_texts {l l' : List Text} (h : l.Perm l') : sortBy textKey l = sortBy textKey l' := by
  have : Std.Antisymm fun x y => textKey x ≤ textKey y := ⟨fun _ _ hxy hyx => textKey_inj (le_antisymm hxy hyx)⟩
  exact ((sortBy_perm _ l).trans (h.trans (sortBy_perm _ l').symm)).eq_of_pairwise' (sortBy_pairwise _ l)
    (sortBy_pairwise _ l')

theorem map_sql_sortBy (l : List Tree) : (sortBy (sortKey txt) l).map (sql txt) = sortBy textKey (l.map (sql txt)) :=
  map_sortBy (sql txt) (sortKey txt) textKey l fun _ _ => rfl

theorem perm_sorted {l l' : List Tree} (h : (l.map (sql txt)).Perm (l'.map (sql txt))) :
    (sortBy (sortKey txt) l).map (sql txt) = (sortBy (sortKey txt) l').map (sql txt) := by
  rw [map_sql_sortBy, map_sql_sortBy, sorted_texts h]

theorem sql_rebuildAnd {c c' : Tree} {rest rest' : List Tree} (hc : sql txt c = sql txt c')
    (hr : rest.map (sql txt) = rest'.map (sql txt)) : sql txt (rebuildAnd c rest) = sql txt (rebuildAnd c' rest') := by
  induction rest generalizing c c' rest' with
  | nil =>
    have hnil : rest' = [] := List.map_eq_nil_iff.1 hr.symm
    simpa [rebuildAnd, hnil] using hc
  | cons e rest ih =>
    rcases rest' with _ | ⟨e', rest'⟩
    · simp at hr
    · simp only [List.map_cons, List.cons.injEq] at hr
      refine @ih (.node .and [c, e]) (.node .and [c', e']) rest' ?_ hr.2
      rw [sql_eq, sql_eq]
      simp [head, args, hc, hr.1]

/-- Two conjunctions with the same conjuncts, up to order. -/
theorem shape_sortAnd {a b a' b' : Tree}
    (h : ((flattenAnd (.node .and [a, b])).map (sql txt)).Perm ((flattenAnd (.node .and [a', b'])).map (sql txt))) :
    shape txt (sortAnd txt (.node .and [a, b])) = shape txt (sortAnd txt (.node .and [a', b'])) := by
  have htexts := perm_sorted h
  obtain ⟨c, r, hs, heq⟩ := sortAnd_eq txt (.node .and [a, b])
  obtain ⟨c', r', hs', heq'⟩ := sortAnd_eq txt (.node .and [a', b'])
  have hconj : (flattenAnd (sortAnd txt (.node .and [a, b]))).map (sql txt) =
      (flattenAnd (sortAnd txt (.node .and [a', b']))).map (sql txt) := by
    rw [flattenAnd_sortAnd, flattenAnd_sortAnd, htexts]
  rw [hs, hs', List.map_cons, List.map_cons, List.cons.injEq] at htexts
  have hlen : r.length = r'.length := by simpa using congrArg List.length htexts.2
  rcases List.eq_nil_or_concat r with hr | ⟨r, e, rfl⟩
  · -- a conjunction has two conjuncts
    obtain ⟨x, y, hxy⟩ := sortAnd_and txt a b
    have hflat := flattenAnd_sortAnd txt (.node .and [a, b])
    rw [hs, hr, hxy, flattenAnd_and] at hflat
    have hx := List.length_pos_iff.2 (flattenAnd_ne_nil x)
    have hy := List.length_pos_iff.2 (flattenAnd_ne_nil y)
    have := congrArg List.length hflat
    simp at this
    omega
  · rcases List.eq_nil_or_concat r' with hr' | ⟨r', e', rfl⟩
    · simp [hr'] at hlen
    · have hrest := htexts.2
      rw [List.concat_eq_append, List.concat_eq_append, List.map_append, List.map_append] at hrest
      have hsplit := List.append_inj' hrest rfl
      have hchain := sql_rebuildAnd htexts.1 hsplit.1
      have hlast : sql txt e = sql txt e' := by simpa using hsplit.2
      rw [heq, heq', List.concat_eq_append, List.concat_eq_append, rebuildAnd_concat, rebuildAnd_concat] at hconj ⊢
      simp [shape, head, args, hchain, hlast, hconj]

theorem shape_direct {h : Head} (hh : Turned h) {a b a' b' : Tree} (ha : sql txt a = sql txt a')
    (hb : sql txt b = sql txt b') : shape txt (direct txt h a b) = shape txt (direct txt h a' b') := by
  have hne : h ≠ .and := by rintro rfl; simp [Turned] at hh
  simp only [direct, sortKey, ha, hb]
  split
  · exact shape_node hne (by simp [ha, hb])
  · exact shape_node hne (by simp [ha, hb])

theorem shape_direct_swap {h : Head} (hh : Turned h) (a b : Tree) :
    shape txt (direct txt h a b) = shape txt (direct txt h b a) := by
  have hne : h ≠ .and := by rintro rfl; simp [Turned] at hh
  rcases lt_trichotomy (sortKey txt a) (sortKey txt b) with hlt | heq | hlt
  · rw [direct, if_neg hlt.not_gt, direct, if_pos hlt]
  · have htext : sql txt a = sql txt b := textKey_inj heq
    rw [direct, if_neg (by simp [heq]), direct, if_neg (by simp [heq])]
    exact shape_node hne (by simp [htext])
  · rw [direct, if_pos hlt, direct, if_neg hlt.not_gt]

/-! ### Joins -/

variable (txt) in
/-- What is written of a join apart from its source. -/
def joinTexts (j : Tree) : Head × List Text := (head j, (args j).tail.map (sql txt))

theorem sql_setSource {j : Tree} (hin : inner j = true) (this : Tree) :
    sql txt (setSource j this) = txt (joinTexts txt j).1 (sql txt this :: (joinTexts txt j).2) := by
  obtain ⟨m, s, k, this', rest, rfl⟩ := inner_cases hin
  rw [sql_eq]
  rfl

variable (txt) in
theorem map_sql_resource {joins : List Tree} (hin : ∀ j ∈ joins, inner j = true) (sources : List Tree) :
    (resource joins sources).map (sql txt) =
      (joins.map (joinTexts txt)).zipWith (fun d t => txt d.1 (t :: d.2)) (sources.map (sql txt)) := by
  induction joins generalizing sources with
  | nil => simp [resource]
  | cons j joins ih =>
    rcases sources with _ | ⟨this, sources⟩
    · simp [resource]
    · have hrest := ih (fun j' hj' => hin j' (by simp [hj'])) sources
      simp only [resource] at hrest ⊢
      simp only [List.zipWith_cons_cons, List.map_cons, hrest, sql_setSource (hin j (by simp))]

/-- Two FROM clauses with the same sources, up to order, and the same conditions in the order of their own sources. -/
theorem shape_sortJoins {b n : Nat} {first first' : Tree} {joins joins' rest rest' : List Tree}
    (hin : ∀ j ∈ joins, inner j = true) (hin' : ∀ j ∈ joins', inner j = true)
    (hs : ((first :: joins.map source).map (sql txt)).Perm ((first' :: joins'.map source).map (sql txt)))
    (hd : (sortBy (fun j => sortKey txt (source j)) joins).map (joinTexts txt) =
      (sortBy (fun j => sortKey txt (source j)) joins').map (joinTexts txt))
    (hr : rest.map (sql txt) = rest'.map (sql txt)) :
    shape txt (sortJoins txt b n first joins rest) = shape txt (sortJoins txt b n first' joins' rest') := by
  have htexts := perm_sorted hs
  obtain ⟨f, ss, hsort, -, heq⟩ := sortJoins_eq txt b n first joins rest
  obtain ⟨f', ss', hsort', -, heq'⟩ := sortJoins_eq txt b n first' joins' rest'
  rw [hsort, hsort', List.map_cons, List.map_cons, List.cons.injEq] at htexts
  have hkept : ∀ l : List Tree, (∀ j ∈ l, inner j = true) →
      ∀ j ∈ sortBy (fun j => sortKey txt (source j)) l, inner j = true := fun l hl j hj => hl j ((sortBy_perm _ l).subset hj)
  have hjoins := map_sql_resource txt (hkept joins hin) ss
  have hjoins' := map_sql_resource txt (hkept joins' hin') ss'
  rw [hd, htexts.2, ← hjoins'] at hjoins
  rw [heq, heq']
  apply shape_node (by simp)
  rw [List.map_cons, List.map_cons, List.map_append, List.map_append, htexts.1, hjoins, hr]

def Shape.inner (s : Shape) : Bool :=
  match s.head, s.args with
  | .join _ _ kind, _ :: _ => kind.all fun k => k.map Char.toUpper = ['I', 'N', 'N', 'E', 'R']
  | _, _ => false

theorem inner_shape (j : Tree) : (shape txt j).inner = inner j := by
  rcases j with ⟨h, _ | ⟨this, rest⟩⟩
  · cases h <;> rfl
  · cases h <;> rfl

theorem source_shape {j : Tree} (hin : inner j = true) : sql txt (source j) = (shape txt j).args.headD [] := by
  obtain ⟨m, s, k, this, rest, rfl⟩ := inner_cases hin
  rfl

theorem joinTexts_shape (j : Tree) : joinTexts txt j = ((shape txt j).head, (shape txt j).args.tail) := by
  simp [joinTexts, shape]

theorem all_inner_of_shape {l l' : List Tree} (h : l.map (shape txt) = l'.map (shape txt)) :
    l.all inner = l'.all inner := by
  have hall : ∀ l : List Tree, l.all inner = (l.map (shape txt)).all Shape.inner := by
    intro l
    rw [List.all_map]
    congr 1
    funext j
    exact (inner_shape j).symm
  rw [hall, hall, h]

theorem joinTexts_of_shape {l l' : List Tree} (h : l.map (shape txt) = l'.map (shape txt))
    (hin : ∀ j ∈ l, inner j = true) (hin' : ∀ j ∈ l', inner j = true) :
    (sortBy (fun j => sortKey txt (source j)) l).map (joinTexts txt) =
      (sortBy (fun j => sortKey txt (source j)) l').map (joinTexts txt) := by
  have hsorted : ∀ l : List Tree, (∀ j ∈ l, inner j = true) →
      (sortBy (fun j => sortKey txt (source j)) l).map (shape txt) =
        sortBy (fun s : Shape => textKey (s.args.headD [])) (l.map (shape txt)) := by
    intro l hl
    apply map_sortBy
    intro j hj
    rw [sortKey, source_shape (hl j hj)]
  have hsh := (hsorted l hin).trans ((congrArg _ h).trans (hsorted l' hin').symm)
  have htexts := congrArg (List.map fun s : Shape => (s.head, s.args.tail)) hsh
  simpa only [List.map_map, Function.comp_def, ← joinTexts_shape] using htexts

theorem map_source_of_shape {l l' : List Tree} (h : l.map (shape txt) = l'.map (shape txt))
    (hin : ∀ j ∈ l, inner j = true) (hin' : ∀ j ∈ l', inner j = true) :
    (l.map source).map (sql txt) = (l'.map source).map (sql txt) := by
  have hone : ∀ l : List Tree, (∀ j ∈ l, inner j = true) →
      (l.map source).map (sql txt) = (l.map (shape txt)).map fun s => s.args.headD [] := by
    intro l hl
    rw [List.map_map, List.map_map]
    exact List.map_congr_left fun j hj => source_shape (hl j hj)
  rw [hone l hin, hone l' hin', h]

theorem shape_normalizeJoins {b n : Nat} {l l' : List Tree} (h : l.map (shape txt) = l'.map (shape txt)) :
    shape txt (normalizeJoins txt (.node (.select b n) l)) = shape txt (normalizeJoins txt (.node (.select b n) l')) := by
  rcases l with _ | ⟨first, l⟩
  · rw [List.map_nil] at h
    rw [List.map_eq_nil_iff.1 h.symm]
  · rcases l' with _ | ⟨first', l'⟩
    · simp at h
    · have hall := map_sql_of_shape h
      rw [List.map_cons, List.map_cons, List.cons.injEq] at h
      have htake : (l.take n).map (shape txt) = (l'.take n).map (shape txt) := by
        rw [List.map_take, List.map_take, h.2]
      have hdrop : (l.drop n).map (shape txt) = (l'.drop n).map (shape txt) := by
        rw [List.map_drop, List.map_drop, h.2]
      have hlen : l.length = l'.length := by simpa using congrArg List.length h.2
      rw [normalizeJoins, normalizeJoins, ← all_inner_of_shape htake, ← hlen]
      split
      · next hc =>
        have hin := List.all_eq_true.1 hc.2.2
        have hin' := List.all_eq_true.1 ((all_inner_of_shape htake).symm.trans hc.2.2)
        apply shape_sortJoins hin hin'
        · rw [List.map_cons, List.map_cons, sql_of_shape h.1, map_source_of_shape htake hin hin']
        · exact joinTexts_of_shape htake hin hin'
        · exact map_sql_of_shape hdrop
      · exact shape_node (by simp) hall

/-- **A rule sees no more of the arguments than their shapes.** -/
theorem shape_rules (h : Head) {l l' : List Tree} (hs : l.map (shape txt) = l'.map (shape txt))
    (hl : ∀ t ∈ l, Normal txt t) (hl' : ∀ t ∈ l', Normal txt t) :
    shape txt (rules txt (.node h l)) = shape txt (rules txt (.node h l')) := by
  have htexts := map_sql_of_shape hs
  have hlen : l.length = l'.length := by simpa using congrArg List.length hs
  have hturned : Turned h → shape txt (rules txt (.node h l)) = shape txt (rules txt (.node h l')) := by
    intro hh
    by_cases h2 : l.length = 2
    · obtain ⟨a, b, rfl⟩ := List.length_eq_two.1 h2
      obtain ⟨a', b', rfl⟩ := List.length_eq_two.1 (hlen.symm.trans h2)
      simp only [List.map_cons, List.cons.injEq] at htexts
      rw [rules_turned txt hh, rules_turned txt hh]
      exact shape_direct hh htexts.1 htexts.2.1
    · rw [rules_turned_else txt hh h2, rules_turned_else txt hh (hlen ▸ h2)]
      exact shape_node (by rintro rfl; simp [Turned] at hh) htexts
  cases h with
  | literal _ _ => rfl
  | boolean _ => rfl
  | null => rfl
  | parameter => rfl
  | placeholder => exact shape_node (by simp) htexts
  | other _ => exact shape_node (by simp) htexts
  | join m s k => exact shape_node (by simp) htexts
  | eq => exact hturned (by simp [Turned])
  | add => exact hturned (by simp [Turned])
  | mul => exact hturned (by simp [Turned])
  | or => exact hturned (by simp [Turned])
  | neq => exact hturned (by simp [Turned])
  | aliased name =>
    by_cases h1 : l.length = 1
    · obtain ⟨a, rfl⟩ := List.length_eq_one_iff.1 h1
      obtain ⟨a', rfl⟩ := List.length_eq_one_iff.1 (hlen.symm.trans h1)
      have hchild : ∀ a, Normal txt a → rules txt (.node (.aliased name) [a]) = a := fun a ha => ha.settled.later
      rw [hchild a (hl a (by simp)), hchild a' (hl' a' (by simp))]
      simpa using hs
    · have hself : ∀ l : List Tree, l.length ≠ 1 → rules txt (.node (.aliased name) l) = .node (.aliased name) l := by
        intro l hl
        rcases l with _ | ⟨a, _ | ⟨b, l⟩⟩
        · rfl
        · exact absurd rfl hl
        · rfl
      rw [hself l h1, hself l' (hlen ▸ h1)]
      exact shape_node (by simp) htexts
  | and =>
    by_cases h2 : l.length = 2
    · obtain ⟨a, b, rfl⟩ := List.length_eq_two.1 h2
      obtain ⟨a', b', rfl⟩ := List.length_eq_two.1 (hlen.symm.trans h2)
      have hconj := congrArg (List.flatMap Shape.conjuncts) hs
      rw [rules_and, rules_and]
      apply shape_sortAnd
      rw [flattenAnd_and, flattenAnd_and, List.map_append, List.map_append]
      simpa [shape] using List.Perm.of_eq hconj
    · rw [rules_and_else txt h2, rules_and_else txt (hlen ▸ h2)]
      exact shape_of_flattenAnd (flattenAnd_of_length h2 _) (flattenAnd_of_length (hlen ▸ h2) _) rfl htexts
  | isIn =>
    rcases l with _ | ⟨this, l⟩
    · rw [List.map_eq_nil_iff.1 hs.symm]
    · rcases l' with _ | ⟨this', l'⟩
      · simp at hs
      · rw [List.map_cons, List.map_cons, List.cons.injEq] at htexts
        have hsorted := perm_sorted (List.Perm.of_eq htexts.2)
        change shape txt (.node .isIn (this :: sortBy (sortKey txt) l)) =
          shape txt (.node .isIn (this' :: sortBy (sortKey txt) l'))
        exact shape_node (by simp) (by rw [List.map_cons, List.map_cons, htexts.1, hsorted])
  | select b n =>
    rw [rules_select, rules_select]
    exact shape_normalizeJoins hs

/-! ## What is meant to be one structure -/

def isConstant : Head → Bool
  | .literal _ _ | .boolean _ | .null | .parameter => true
  | _ => false

variable (txt) in
/-- The steps that lose no more than the values, the names of outputs and an order. -/
inductive Rewrites : Tree → Tree → Prop
  | constant {h : Head} (hh : isConstant h = true) (l : List Tree) : Rewrites (.node h l) (.node .placeholder [])
  | output (name : Text) (t : Tree) : Rewrites (.node (.aliased name) [t]) t
  | turned {h : Head} (hh : Turned h) (a b : Tree) : Rewrites (.node h [a, b]) (.node h [b, a])
  | conjuncts {a b a' b' : Tree} (h : (flattenAnd (.node .and [a, b])).Perm (flattenAnd (.node .and [a', b']))) :
      Rewrites (.node .and [a, b]) (.node .and [a', b'])
  | members (this : Tree) {l l' : List Tree} (h : l.Perm l') : Rewrites (.node .isIn (this :: l)) (.node .isIn (this :: l'))
  /-- The sources in any order; the conditions follow the order of the sources they stand at. -/
  | joins {b n : Nat} {first first' : Tree} {l l' : List Tree} (rest : List Tree) (hn : n ≠ 0) (hlen : l.length = n)
      (hlen' : l'.length = n) (hin : ∀ j ∈ l, inner j = true) (hin' : ∀ j ∈ l', inner j = true)
      (hs : (first :: l.map source).Perm (first' :: l'.map source))
      (hd : (sortBy (fun j => sortKey txt (normalize txt (source j))) l).map detached =
        (sortBy (fun j => sortKey txt (normalize txt (source j))) l').map detached) :
      Rewrites (.node (.select b n) (first :: (l ++ rest))) (.node (.select b n) (first' :: (l' ++ rest)))

theorem flattenAnd_normalize (t : Tree) :
    (flattenAnd (normalize txt t)).Perm ((flattenAnd t).flatMap fun e => flattenAnd (normalize txt e)) := by
  induction t using flattenAnd.induct with
  | case1 a b iha ihb =>
    rw [normalize_node, List.map_cons, List.map_cons, List.map_nil, rules_and, flattenAnd_sortAnd, flattenAnd_and,
      flattenAnd_and, List.flatMap_append]
    exact (sortBy_perm _ _).trans (iha.append ihb)
  | case2 t ht =>
    rcases flattenAnd_cases t with ⟨a, b, rfl⟩ | hself
    · exact absurd rfl (ht a b)
    · simp [hself]

theorem normalize_inner {j : Tree} (hin : inner j = true) :
    inner (normalize txt j) = true ∧ source (normalize txt j) = normalize txt (source j) ∧
      joinTexts txt (normalize txt j) =
        ((detached j).1, (detached j).2.map fun t => sql txt (normalize txt t)) := by
  obtain ⟨m, s, k, this, rest, rfl⟩ := inner_cases hin
  have heq : normalize txt (.node (.join m s k) (this :: rest)) =
      .node (.join m s k) (normalize txt this :: rest.map (normalize txt)) := by
    rw [normalize_node, rules_join, List.map_cons]
  rw [heq]
  refine ⟨hin, rfl, ?_⟩
  simp [joinTexts, detached, head, args, Function.comp_def]

/-- A FROM clause of inner joins, normalized. -/
theorem normalize_select {b n : Nat} {first : Tree} {l : List Tree} (rest : List Tree) (hn : n ≠ 0) (hlen : l.length = n)
    (hin : ∀ j ∈ l, inner j = true) : normalize txt (.node (.select b n) (first :: (l ++ rest))) =
      sortJoins txt b n (normalize txt first) (l.map (normalize txt)) (rest.map (normalize txt)) := by
  have hmap : (l.map (normalize txt)).length = n := by rw [List.length_map, hlen]
  rw [normalize_node, rules_select, List.map_cons, List.map_append, normalizeJoins, if_pos,
    List.take_left' hmap, List.drop_left' hmap]
  refine ⟨hn, by simp [hlen], ?_⟩
  rw [List.take_left' hmap, List.all_eq_true]
  intro j hj
  obtain ⟨j', hmem, rfl⟩ := List.mem_map.1 hj
  exact (normalize_inner (hin j' hmem)).1

theorem map_source_normalize {l : List Tree} (hin : ∀ j ∈ l, inner j = true) :
    (l.map (normalize txt)).map source = (l.map source).map (normalize txt) := by
  rw [List.map_map, List.map_map]
  exact List.map_congr_left fun j hj => (normalize_inner (hin j hj)).2.1

theorem joinTexts_normalize {l : List Tree} (hin : ∀ j ∈ l, inner j = true) :
    (sortBy (fun j => sortKey txt (source j)) (l.map (normalize txt))).map (joinTexts txt) =
      ((sortBy (fun j => sortKey txt (normalize txt (source j))) l).map detached).map fun d =>
        (d.1, d.2.map fun t => sql txt (normalize txt t)) := by
  rw [← map_sortBy (normalize txt) (fun j => sortKey txt (normalize txt (source j))), List.map_map, List.map_map]
  · apply List.map_congr_left
    intro j hj
    exact (normalize_inner (hin j ((sortBy_perm _ l).subset hj))).2.2
  · intro j hj
    rw [(normalize_inner (hin j hj)).2.1]

theorem shape_of_rewrites {t t' : Tree} (h : Rewrites txt t t') :
    shape txt (normalize txt t) = shape txt (normalize txt t') := by
  cases h with
  | @constant h hh l =>
    have hnorm : ∀ l : List Tree, rules txt (.node h l) = .node .placeholder [] := by
      intro l
      cases h <;> first | rfl | cases hh
    rw [normalize_node, hnorm, normalize_node]
    rfl
  | output name =>
    have hchild : rules txt (.node (.aliased name) [normalize txt t']) = normalize txt t' :=
      (normal_normalize t').settled.later
    rw [normalize_node, List.map_cons, List.map_nil, hchild]
  | turned hh a b =>
    simp only [normalize_node, List.map_cons, List.map_nil, rules_turned txt hh]
    exact shape_direct_swap hh _ _
  | @conjuncts a b a' b' h =>
    simp only [normalize_node, List.map_cons, List.map_nil, rules_and]
    apply shape_sortAnd
    have hnorm : ∀ a b : Tree, (flattenAnd (.node .and [normalize txt a, normalize txt b])).Perm
        ((flattenAnd (.node .and [a, b])).flatMap fun e => flattenAnd (normalize txt e)) := by
      intro a b
      rw [flattenAnd_and, flattenAnd_and, List.flatMap_append]
      exact (flattenAnd_normalize a).append (flattenAnd_normalize b)
    exact (((hnorm a b).trans (h.flatMap_right _)).trans (hnorm a' b').symm).map _
  | @members this l l' h =>
    rw [normalize_node, normalize_node, List.map_cons, List.map_cons]
    have hsorted := perm_sorted ((h.map (normalize txt)).map (sql txt))
    change shape txt (.node .isIn (normalize txt this :: sortBy (sortKey txt) (l.map (normalize txt)))) =
      shape txt (.node .isIn (normalize txt this :: sortBy (sortKey txt) (l'.map (normalize txt))))
    exact shape_node (by simp) (by rw [List.map_cons, List.map_cons, hsorted])
  | @joins b n first first' l l' rest hn hlen hlen' hin hin' hs hd =>
    rw [normalize_select rest hn hlen hin, normalize_select rest hn hlen' hin']
    have hnin : ∀ l : List Tree, (∀ j ∈ l, inner j = true) → ∀ j ∈ l.map (normalize txt), inner j = true := by
      intro l hl j hj
      obtain ⟨j', hmem, rfl⟩ := List.mem_map.1 hj
      exact (normalize_inner (hl j' hmem)).1
    apply shape_sortJoins (hnin l hin) (hnin l' hin')
    · rw [map_source_normalize hin, map_source_normalize hin', ← List.map_cons, ← List.map_cons]
      exact (hs.map _).map _
    · rw [joinTexts_normalize hin, joinTexts_normalize hin', hd]
    · rfl

/-- **What is alike, at any depth, has one text.** -/
theorem text_of_alike {t t' : Tree} (h : Alike (Rewrites txt) t t') :
    sql txt (normalize txt t) = sql txt (normalize txt t') := by
  refine sql_of_shape (h.value (f := fun t => shape txt (normalize txt t)) (fun _ _ => shape_of_rewrites) ?_)
  intro hd before after a b hab
  simp only [normalize_node, List.map_append, List.map_cons]
  apply shape_rules
  · simp [hab]
  · intro t ht
    simp only [List.mem_append, List.mem_cons, List.mem_map] at ht
    rcases ht with ⟨x, _, rfl⟩ | rfl | ⟨x, _, rfl⟩ <;> exact normal_normalize _
  · intro t ht
    simp only [List.mem_append, List.mem_cons, List.mem_map] at ht
    rcases ht with ⟨x, _, rfl⟩ | rfl | ⟨x, _, rfl⟩ <;> exact normal_normalize _

/-! ## The rules only rewrite -/

theorem alike_direct {h : Head} (hh : Turned h) (a b : Tree) :
    Alike (Rewrites txt) (.node h [a, b]) (direct txt h a b) := by
  rcases direct_cases txt h a b with ⟨_, hd⟩ | ⟨_, hd⟩
  · rw [hd]
    exact .rule (.turned hh a b)
  · rw [hd]
    exact .refl _

theorem alike_joins {b n : Nat} {first : Tree} {l : List Tree} (rest : List Tree) (hn : n ≠ 0) (hlen : l.length = n)
    (hin : ∀ j ∈ l, inner j = true) (hl : ∀ j ∈ l, Normal txt j) (hf : Normal txt first) :
    Alike (Rewrites txt) (.node (.select b n) (first :: (l ++ rest))) (sortJoins txt b n first l rest) := by
  obtain ⟨first', sources, hsort, hslen, heq⟩ := sortJoins_eq txt b n first l rest
  have hperm := sortBy_perm (sortKey txt) (first :: l.map source)
  have hle := sortBy_pairwise (sortKey txt) (first :: l.map source)
  rw [hsort] at hperm hle
  have hjperm := sortBy_perm (fun j => sortKey txt (source j)) l
  have hjin : ∀ j ∈ sortBy (fun j => sortKey txt (source j)) l, inner j = true :=
    fun j hj => hin j (hjperm.subset hj)
  have hjlen : sources.length = (sortBy (fun j => sortKey txt (source j)) l).length := by
    rw [hjperm.length_eq, hslen]
  have hsrc := map_source_resource hjin hjlen
  have hdet := map_detached_resource hjlen
  have hnew := inner_resource hjin sources
  -- the sources have their final texts already
  have hkey : ∀ l : List Tree, (∀ j ∈ l, Normal txt (source j)) →
      sortBy (fun j => sortKey txt (normalize txt (source j))) l = sortBy (fun j => sortKey txt (source j)) l := by
    intro l hl
    have hid := map_sortBy id (fun j => sortKey txt (normalize txt (source j))) (fun j => sortKey txt (source j)) l
      fun j hj => by rw [(hl j hj).normalize]; rfl
    simpa using hid
  have hlsrc : ∀ j ∈ l, Normal txt (source j) := fun j hj => normal_source (hin j hj) (hl j hj)
  have hnsrc : ∀ j ∈ resource (sortBy (fun j => sortKey txt (source j)) l) sources, Normal txt (source j) := by
    intro j hj
    have hmem : source j ∈ sources := hsrc ▸ List.mem_map_of_mem hj
    rcases List.mem_cons.1 (hperm.subset (List.mem_cons_of_mem _ hmem)) with h | h
    · exact h ▸ hf
    · obtain ⟨j', hj', h⟩ := List.mem_map.1 h
      exact h ▸ hlsrc j' hj'
  rw [heq]
  refine .rule (.joins rest hn hlen ?_ hin hnew (by rw [hsrc]; exact hperm.symm) ?_)
  · have hlens := congrArg List.length hsrc
    rw [List.length_map] at hlens
    rw [hlens, hslen, hlen]
  · have hsorted : (resource (sortBy (fun j => sortKey txt (source j)) l) sources).Pairwise
        fun x y => sortKey txt (source x) ≤ sortKey txt (source y) := by
      refine (List.pairwise_map (R := fun x y => sortKey txt x ≤ sortKey txt y)).1 ?_
      rw [hsrc]
      exact (List.pairwise_cons.1 hle).2
    rw [hkey l hlsrc, hkey _ hnsrc, ← hdet, sortBy_eq (ρ := fun j => sortKey txt (source j)) hsorted]

theorem alike_rules {h : Head} {l : List Tree} (hl : ∀ t ∈ l, Normal txt t) :
    Alike (Rewrites txt) (.node h l) (rules txt (.node h l)) := by
  have hturned : Turned h → Alike (Rewrites txt) (.node h l) (rules txt (.node h l)) := by
    intro hh
    by_cases h2 : l.length = 2
    · obtain ⟨a, b, rfl⟩ := List.length_eq_two.1 h2
      rw [rules_turned txt hh]
      exact alike_direct hh a b
    · rw [rules_turned_else txt hh h2]
      exact .refl _
  cases h with
  | literal s v => exact .rule (.constant rfl l)
  | boolean v => exact .rule (.constant rfl l)
  | null => exact .rule (.constant rfl l)
  | parameter => exact .rule (.constant rfl l)
  | placeholder => exact .refl _
  | other _ => exact .refl _
  | join m s k => exact .refl _
  | eq => exact hturned (by simp [Turned])
  | add => exact hturned (by simp [Turned])
  | mul => exact hturned (by simp [Turned])
  | or => exact hturned (by simp [Turned])
  | neq => exact hturned (by simp [Turned])
  | aliased name =>
    rcases l with _ | ⟨a, _ | ⟨b, l⟩⟩
    · exact .refl _
    · have hchild : rules txt (.node (.aliased name) [a]) = a := (hl a (by simp)).settled.later
      rw [hchild]
      exact .rule (.output name a)
    · exact .refl _
  | and =>
    by_cases h2 : l.length = 2
    · obtain ⟨a, b, rfl⟩ := List.length_eq_two.1 h2
      obtain ⟨c, e, h⟩ := sortAnd_and txt a b
      have hperm := sortBy_perm (sortKey txt) (flattenAnd (.node .and [a, b]))
      rw [← flattenAnd_sortAnd, h] at hperm
      rw [rules_and, h]
      exact .rule (.conjuncts hperm.symm)
    · rw [rules_and_else txt h2]
      exact .refl _
  | isIn =>
    rcases l with _ | ⟨this, l⟩
    · exact .refl _
    · exact .rule (.members this (sortBy_perm _ l).symm)
  | select b n =>
    rw [rules_select]
    rcases l with _ | ⟨first, l⟩
    · exact .refl _
    · rw [normalizeJoins]
      split
      · next hc =>
        have hin := List.all_eq_true.1 hc.2.2
        have halike := @alike_joins txt b n first _ (l.drop n) hc.1 (by simp [hc.2.1]) hin
          (fun j hj => hl j (List.mem_cons_of_mem _ (List.mem_of_mem_take hj))) (hl first (by simp))
        rwa [List.take_append_drop] at halike
      · exact .refl _

theorem alike_normalize (t : Tree) : Alike (Rewrites txt) t (normalize txt t) := by
  induction t using Term.induction with
  | h h l ih =>
    rw [normalize_node]
    refine .trans (.args h ?_) (alike_rules ?_)
    · rw [List.forall₂_map_right_iff, List.forall₂_same]
      exact ih
    · intro t ht
      obtain ⟨a, _, rfl⟩ := List.mem_map.1 ht
      exact normal_normalize a

/-- **Only what is alike has one normal form.** -/
theorem alike_of_normalize {t t' : Tree} (h : normalize txt t = normalize txt t') : Alike (Rewrites txt) t t' :=
  .trans (alike_normalize t) (h ▸ .symm (alike_normalize t'))

/-- A generator: names, and arguments in brackets. -/
def plain (h : Head) (l : List Text) : Text :=
  let name : Text := match h with
    | .literal _ value => value
    | .boolean value => if value then ['t'] else ['f']
    | .null => ['N']
    | .parameter => ['$']
    | .placeholder => ['?']
    | .aliased name => 'A' :: name
    | .eq => ['=']
    | .neq => ['≠']
    | .add => ['+']
    | .mul => ['*']
    | .or => ['∨']
    | .and => ['∧']
    | .isIn => ['∈']
    | .join _ side kind => 'J' :: (side.getD [] ++ kind.getD [])
    | .select _ _ => ['S']
    | .other cls => cls
  if l = [] then name else name ++ '(' :: (l.map (· ++ [' '])).flatten ++ [')']

def leaf (c : Char) : Tree := .node (.other [c]) []

def constant (c : Char) : Tree := .node (.literal false [c]) []

/-- `2 = b AND a = 1` and `a = 3 AND b = 4`. -/
example :
    sql plain (normalize plain (.node .and [.node .eq [constant '2', leaf 'b'], .node .eq [leaf 'a', constant '1']])) =
      sql plain (normalize plain (.node .and [.node .eq [leaf 'a', constant '3'], .node .eq [leaf 'b', constant '4']])) := by
  have hswap : Rewrites plain
      (.node .and [.node .eq [constant '2', leaf 'b'], .node .eq [leaf 'a', constant '1']])
      (.node .and [.node .eq [leaf 'a', constant '1'], .node .eq [constant '2', leaf 'b']]) :=
    .conjuncts (by simpa [flattenAnd, leaf] using List.Perm.swap _ _ _)
  have hvalue : ∀ c d, Alike (Rewrites plain) (constant c) (constant d) :=
    fun c d => .trans (.rule (.constant rfl _)) (.symm (.rule (.constant rfl _)))
  apply text_of_alike
  refine .trans (.rule hswap) (.args _ (.cons ?_ (.cons ?_ .nil)))
  · exact .args _ (.cons (.refl _) (.cons (hvalue _ _) .nil))
  · exact .trans (.rule (.turned (.inl rfl) _ _)) (.args _ (.cons (.refl _) (.cons (hvalue _ _) .nil)))

/-- `b = 2` and `1 = b`. -/
theorem alike_of_normalize_turned :
    Alike (Rewrites plain) (.node .eq [leaf 'b', constant '2']) (.node .eq [constant '1', leaf 'b']) :=
  alike_of_normalize (by rfl)

/-- `a OR b OR c` and `a OR c OR b`. -/
example : sql plain (normalize plain (.node .or [.node .or [leaf 'a', leaf 'b'], leaf 'c'])) ≠
    sql plain (normalize plain (.node .or [.node .or [leaf 'a', leaf 'c'], leaf 'b'])) := by decide +kernel

/-- `a LEFT JOIN b ON on` and `b LEFT JOIN a ON on` are one structure, although they have different rows. -/
theorem left_join_turned {txt : Head → List Text → Text} (before : Nat) (method : Option Text) (a b on : Tree)
    (rest : List Tree) :
    sql txt (normalize txt (.node (.select before 1)
        (a :: .node (.join method (some ['L', 'E', 'F', 'T']) none) [b, on] :: rest))) =
      sql txt (normalize txt (.node (.select before 1)
        (b :: .node (.join method (some ['L', 'E', 'F', 'T']) none) [a, on] :: rest))) := by
  apply text_of_alike
  exact .rule (@Rewrites.joins txt before 1 a b [_] [_] rest (by decide) rfl rfl (by simp [inner]) (by simp [inner])
    (.swap _ _ _) rfl)

end SynnoDB.PgRouter.Structure
