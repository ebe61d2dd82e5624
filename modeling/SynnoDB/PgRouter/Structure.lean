import Mathlib
import SynnoDB.Lib.Pairing
import SynnoDB.Lib.Term

/-!
# The structure of a statement (`pgrouter/analyze/normalization.py`)

A statement is answered by the route whose normalized text is its own. Seven rules are applied from the leaves
upward; then the tree is written out.

| here | there |
| --- | --- |
| `Tree`, `Head`     | sqlglot's `Expression`: its class and scalar arguments, its child expressions in the order of its `args` |
| `txt`              | the generator, `Expression.sql(dialect="postgres", normalize=True)`: any text made of the head and the texts of the arguments |
| `sortKey`          | `_expression_sort_key` |
| `flattenAnd`       | `_flatten_binary_chain(_, exp.And)` |
| `rules`            | `NORMALIZATION_RULES`, in their order |
| `normalize`        | `normalize_expression` |
| `Normal`           | ours: no rule changes anything, at the root or below |

**One pass is enough** (`normalize_normalize`): what the rules leave, they leave again. An alias is dropped before the
later rules run, so these see its child, which they have finished with.
-/

namespace SynnoDB.PgRouter.Structure

open Pairing (sortBy sortBy_perm sortBy_pairwise sortBy_eq)

abbrev Text := List Char

inductive Head where
  | literal (string : Bool) (value : Text)
  | boolean (value : Bool)
  | null
  | parameter
  /-- `exp.Placeholder()`, without a name. -/
  | placeholder
  | aliased (name : Text)
  | eq
  | neq
  | add
  | mul
  | or
  | and
  /-- `this`, then `expressions`; an IN over a subquery is among the others. -/
  | isIn
  /-- `this`, then the condition. -/
  | join (method side kind : Option Text)
  /-- `from_.this`, then that many `joins`, then the rest, of which `before` stand before the FROM clause in `args`. A
  SELECT without FROM is among the others. -/
  | select (before joins : Nat)
  | other (cls : Text)
  deriving DecidableEq, Repr

abbrev Tree := Term Head

def head : Tree → Head
  | .node h _ => h

def args : Tree → List Tree
  | .node _ l => l

variable (txt : Head → List Text → Text)

/-- `expression.sql(dialect=SQL_DIALECT, normalize=True)`. -/
abbrev sql : Tree → Text := Term.fold txt

def textKey (s : Text) : Bool ×ₗ Text := toLex (decide (s = ['%', 's'] ∨ s = ['?']), s)

abbrev sortKey (t : Tree) : Bool ×ₗ Text := textKey (sql txt t)

/-! ## The rules -/

/-- `_normalize_literals_and_parameters`. -/
def normalizeLiterals : Tree → Tree
  | .node (.literal _ _) _ | .node (.boolean _) _ | .node .null _ | .node .parameter _ => .node .placeholder []
  | t => t

/-- `_normalize_aliases`. -/
def normalizeAliases : Tree → Tree
  | .node (.aliased _) [child] => child
  | t => t

/-- The exchange in `_normalize_comparison_direction` and `_normalize_commutative_expressions`. -/
def direct (h : Head) (left right : Tree) : Tree :=
  if sortKey txt right < sortKey txt left then .node h [right, left] else .node h [left, right]

def normalizeComparison : Tree → Tree
  | .node .eq [left, right] => direct txt .eq left right
  | t => t

/-- The parser gives every AND both of its sides. -/
def flattenAnd : Tree → List Tree
  | .node .and [left, right] => flattenAnd left ++ flattenAnd right
  | t => [t]

/-- `_rebuild_binary_chain(_, exp.And)`. -/
def rebuildAnd (current : Tree) (rest : List Tree) : Tree := rest.foldl (fun c e => .node .and [c, e]) current

def sortAnd (t : Tree) : Tree :=
  match sortBy (sortKey txt) (flattenAnd t) with
  | [] => t
  | first :: rest => rebuildAnd first rest

def normalizeAnd : Tree → Tree
  | .node .and [left, right] => sortAnd txt (.node .and [left, right])
  | t => t

def normalizeIn : Tree → Tree
  | .node .isIn (this :: expressions) => .node .isIn (this :: sortBy (sortKey txt) expressions)
  | t => t

/-- `isinstance(join, exp.Join) and _join_kind_name(join) == "INNER"`, and it has a source. -/
def inner : Tree → Bool
  | .node (.join _ _ kind) (_ :: _) => kind.all fun k => k.map Char.toUpper = ['I', 'N', 'N', 'E', 'R']
  | _ => false

/-- `join.this`. -/
def source : Tree → Tree
  | .node _ (this :: _) => this
  | t => t

/-- `join.set("this", source)`. -/
def setSource : Tree → Tree → Tree
  | .node h (_ :: rest), this => .node h (this :: rest)
  | t, _ => t

def sortJoins (b n : Nat) (first : Tree) (joins rest : List Tree) : Tree :=
  match sortBy (sortKey txt) (first :: joins.map source) with
  | [] => .node (.select b n) (first :: (joins ++ rest))
  | first' :: sources =>
    .node (.select b n)
      (first' :: ((sortBy (fun j => sortKey txt (source j)) joins).zipWith setSource sources ++ rest))

def normalizeJoins : Tree → Tree
  | .node (.select b n) (first :: l) =>
    if n ≠ 0 ∧ n ≤ l.length ∧ (l.take n).all inner = true then sortJoins txt b n first (l.take n) (l.drop n)
    else .node (.select b n) (first :: l)
  | t => t

/-- `_normalize_commutative_expressions`: `COMMUTATIVE_EXPRESSIONS`. -/
def normalizeCommutative : Tree → Tree
  | .node .add [left, right] => direct txt .add left right
  | .node .mul [left, right] => direct txt .mul left right
  | .node .or [left, right] => direct txt .or left right
  | .node .neq [left, right] => direct txt .neq left right
  | t => t

/-- The rules after the aliases: they run on the child that an alias leaves as well. -/
def laterRules (t : Tree) : Tree :=
  normalizeCommutative txt (normalizeJoins txt (normalizeIn txt (normalizeAnd txt (normalizeComparison txt t))))

def rules (t : Tree) : Tree := laterRules txt (normalizeAliases (normalizeLiterals t))

mutual

def normalize : Tree → Tree
  | .node h l => rules txt (.node h (normalizeAll l))

def normalizeAll : List Tree → List Tree
  | [] => []
  | t :: l => normalize t :: normalizeAll l

end

theorem normalizeAll_eq (l : List Tree) : normalizeAll txt l = l.map (normalize txt) := by
  induction l with
  | nil => rfl
  | cons t l ih => rw [normalizeAll, ih, List.map_cons]

theorem normalize_node (h : Head) (l : List Tree) :
    normalize txt (.node h l) = rules txt (.node h (l.map (normalize txt))) := by
  rw [normalize, normalizeAll_eq]

/-! ## What the rules do to each head -/

theorem sql_eq (t : Tree) : sql txt t = txt (head t) ((args t).map (sql txt)) := by
  cases t with
  | node h l => rw [sql, Term.fold_node]; rfl

theorem direct_cases (h : Head) (a b : Tree) :
    sortKey txt b < sortKey txt a ∧ direct txt h a b = .node h [b, a] ∨
      ¬sortKey txt b < sortKey txt a ∧ direct txt h a b = .node h [a, b] := by
  unfold direct
  split
  · next hlt => exact .inl ⟨hlt, rfl⟩
  · next hlt => exact .inr ⟨hlt, rfl⟩

/-- The heads whose two sides are exchanged. -/
def Turned (h : Head) : Prop := h = .eq ∨ h = .add ∨ h = .mul ∨ h = .or ∨ h = .neq

theorem laterRules_turned {h : Head} (hh : Turned h) (a b : Tree) :
    laterRules txt (.node h [a, b]) = direct txt h a b := by
  rcases hh with rfl | rfl | rfl | rfl | rfl
  · rcases direct_cases txt .eq a b with ⟨_, hd⟩ | ⟨_, hd⟩ <;>
      simp [laterRules, normalizeComparison, normalizeAnd, normalizeIn, normalizeJoins, normalizeCommutative, hd]
  all_goals rfl

theorem rules_turned {h : Head} (hh : Turned h) (a b : Tree) : rules txt (.node h [a, b]) = direct txt h a b := by
  rw [← laterRules_turned txt hh]
  rcases hh with rfl | rfl | rfl | rfl | rfl <;> rfl

theorem rules_turned_else {h : Head} (hh : Turned h) {l : List Tree} (hl : l.length ≠ 2) :
    rules txt (.node h l) = .node h l := by
  rcases l with _ | ⟨a, _ | ⟨b, _ | ⟨c, l⟩⟩⟩
  · rcases hh with rfl | rfl | rfl | rfl | rfl <;> rfl
  · rcases hh with rfl | rfl | rfl | rfl | rfl <;> rfl
  · exact absurd rfl hl
  · rcases hh with rfl | rfl | rfl | rfl | rfl <;> rfl

/-! ### Conjuncts -/

theorem flattenAnd_and (a b : Tree) : flattenAnd (.node .and [a, b]) = flattenAnd a ++ flattenAnd b := by
  rw [flattenAnd]

theorem flattenAnd_of_head {t : Tree} (h : head t ≠ .and) : flattenAnd t = [t] := by
  unfold flattenAnd
  split
  · exact absurd rfl h
  · rfl

theorem flattenAnd_of_length {l : List Tree} (h : l.length ≠ 2) (hd : Head) :
    flattenAnd (.node hd l) = [.node hd l] := by
  unfold flattenAnd
  split
  · next heq =>
    injection heq with _ heq
    exact absurd (congrArg List.length heq) h
  · rfl

theorem flattenAnd_ne_nil (t : Tree) : flattenAnd t ≠ [] := by
  fun_induction flattenAnd t with
  | case1 a b iha _ => simp [iha]
  | case2 => simp

theorem flattenAnd_of_mem {t e : Tree} (h : e ∈ flattenAnd t) : flattenAnd e = [e] := by
  induction t using flattenAnd.induct with
  | case1 a b iha ihb =>
    rw [flattenAnd_and, List.mem_append] at h
    exact h.elim iha ihb
  | case2 t ht =>
    have hself : flattenAnd t = [t] := by
      unfold flattenAnd
      split
      · exact absurd rfl (ht _ _)
      · rfl
    rw [hself, List.mem_singleton] at h
    rw [h, hself]

/-- A conjunction, or its own only conjunct. -/
theorem flattenAnd_cases (t : Tree) : (∃ a b, t = .node .and [a, b]) ∨ flattenAnd t = [t] := by
  unfold flattenAnd
  split
  · exact .inl ⟨_, _, rfl⟩
  · exact .inr rfl

@[simp] theorem rebuildAnd_concat (c : Tree) (rest : List Tree) (e : Tree) :
    rebuildAnd c (rest ++ [e]) = .node .and [rebuildAnd c rest, e] := by
  simp [rebuildAnd]

theorem flattenAnd_rebuildAnd {rest : List Tree} (h : ∀ e ∈ rest, flattenAnd e = [e]) (c : Tree) :
    flattenAnd (rebuildAnd c rest) = flattenAnd c ++ rest := by
  induction rest generalizing c with
  | nil => simp [rebuildAnd]
  | cons e rest ih =>
    have hrest := ih (fun e' he' => h e' (by simp [he'])) (.node .and [c, e])
    rw [flattenAnd_and, h e (by simp)] at hrest
    simpa [rebuildAnd] using hrest

/-- The conjuncts in order, put together again. -/
theorem sortAnd_eq (t : Tree) : ∃ first rest,
    sortBy (sortKey txt) (flattenAnd t) = first :: rest ∧ sortAnd txt t = rebuildAnd first rest := by
  unfold sortAnd
  split
  · next h =>
    have hlen := (sortBy_perm (sortKey txt) (flattenAnd t)).length_eq
    rw [h] at hlen
    exact absurd (List.length_eq_zero_iff.1 hlen.symm) (flattenAnd_ne_nil t)
  · next first rest h => exact ⟨first, rest, h, rfl⟩

theorem simple_sorted (t : Tree) : ∀ e ∈ sortBy (sortKey txt) (flattenAnd t), flattenAnd e = [e] :=
  fun _ he => flattenAnd_of_mem ((sortBy_perm _ _).subset he)

theorem flattenAnd_sortAnd (t : Tree) : flattenAnd (sortAnd txt t) = sortBy (sortKey txt) (flattenAnd t) := by
  obtain ⟨first, rest, hsort, heq⟩ := sortAnd_eq txt t
  have hsimple := simple_sorted txt t
  rw [hsort] at hsimple ⊢
  rw [heq, flattenAnd_rebuildAnd (fun e he => hsimple e (by simp [he])), hsimple first (by simp)]
  rfl

theorem sortAnd_and (a b : Tree) : ∃ c e, sortAnd txt (.node .and [a, b]) = .node .and [c, e] := by
  rcases flattenAnd_cases (sortAnd txt (.node .and [a, b])) with h | h
  · exact h
  · rw [flattenAnd_sortAnd] at h
    have hlen := (sortBy_perm (sortKey txt) (flattenAnd (.node .and [a, b]))).length_eq
    rw [h, flattenAnd_and, List.length_append] at hlen
    have ha := List.length_pos_iff.2 (flattenAnd_ne_nil a)
    have hb := List.length_pos_iff.2 (flattenAnd_ne_nil b)
    simp at hlen
    omega

theorem laterRules_and (a b : Tree) : laterRules txt (.node .and [a, b]) = sortAnd txt (.node .and [a, b]) := by
  obtain ⟨c, e, h⟩ := sortAnd_and txt a b
  simp [laterRules, normalizeComparison, normalizeAnd, normalizeIn, normalizeJoins, normalizeCommutative, h]

theorem rules_and (a b : Tree) : rules txt (.node .and [a, b]) = sortAnd txt (.node .and [a, b]) :=
  laterRules_and txt a b

theorem rules_and_else {l : List Tree} (hl : l.length ≠ 2) : rules txt (.node .and l) = .node .and l := by
  rcases l with _ | ⟨a, _ | ⟨b, _ | ⟨c, l⟩⟩⟩
  · rfl
  · rfl
  · exact absurd rfl hl
  · rfl

/-! ### Joins -/

theorem normalizeJoins_select (b n : Nat) (l : List Tree) :
    ∃ l', normalizeJoins txt (.node (.select b n) l) = .node (.select b n) l' := by
  unfold normalizeJoins
  split
  · next first l heq =>
    injection heq with hn hl
    injection hn with hb hn
    subst hb hn
    split
    · unfold sortJoins
      split
      · exact ⟨_, rfl⟩
      · exact ⟨_, rfl⟩
    · exact ⟨_, rfl⟩
  · exact ⟨l, rfl⟩

theorem laterRules_select (b n : Nat) (l : List Tree) :
    laterRules txt (.node (.select b n) l) = normalizeJoins txt (.node (.select b n) l) := by
  obtain ⟨l', h⟩ := normalizeJoins_select txt b n l
  simp [laterRules, normalizeComparison, normalizeAnd, normalizeIn, normalizeCommutative, h]

theorem rules_select (b n : Nat) (l : List Tree) :
    rules txt (.node (.select b n) l) = normalizeJoins txt (.node (.select b n) l) :=
  laterRules_select txt b n l

theorem sortBy_cons (first : Tree) (l : List Tree) : ∃ first' l', sortBy (sortKey txt) (first :: l) = first' :: l' ∧
    l'.length = l.length := by
  have hlen := (sortBy_perm (sortKey txt) (first :: l)).length_eq
  rcases h : sortBy (sortKey txt) (first :: l) with _ | ⟨first', l'⟩
  · simp [h] at hlen
  · exact ⟨first', l', rfl, by simpa [h] using hlen⟩

theorem inner_cases {j : Tree} (h : inner j = true) : ∃ m s k this rest, j = .node (.join m s k) (this :: rest) := by
  unfold inner at h
  split at h
  · exact ⟨_, _, _, _, _, rfl⟩
  · cases h

theorem inner_setSource {j : Tree} (h : inner j = true) (this : Tree) : inner (setSource j this) = true := by
  obtain ⟨m, s, k, this', rest, rfl⟩ := inner_cases h
  exact h

theorem source_setSource {j : Tree} (h : inner j = true) (this : Tree) : source (setSource j this) = this := by
  obtain ⟨m, s, k, this', rest, rfl⟩ := inner_cases h
  rfl

theorem setSource_source (j : Tree) : setSource j (source j) = j := by
  rcases j with ⟨h, _ | ⟨this, rest⟩⟩ <;> rfl

/-- What a join is apart from its source. -/
def detached (j : Tree) : Head × List Tree := (head j, (args j).tail)

theorem detached_setSource (j this : Tree) : detached (setSource j this) = detached j := by
  rcases j with ⟨h, _ | ⟨this', rest⟩⟩ <;> rfl

/-- The joins of a FROM clause, and new sources for them. -/
def resource (joins sources : List Tree) : List Tree := joins.zipWith setSource sources

theorem map_source_resource {joins sources : List Tree} (hin : ∀ j ∈ joins, inner j = true)
    (hlen : sources.length = joins.length) : (resource joins sources).map source = sources := by
  induction joins generalizing sources with
  | nil => simpa [resource] using (List.length_eq_zero_iff.1 hlen).symm
  | cons j joins ih =>
    rcases sources with _ | ⟨this, sources⟩
    · simp at hlen
    · have hrest := ih (fun j' hj' => hin j' (by simp [hj'])) (by simpa using hlen)
      simp only [resource] at hrest ⊢
      simp [source_setSource (hin j (by simp)), hrest]

theorem map_detached_resource {joins sources : List Tree} (hlen : sources.length = joins.length) :
    (resource joins sources).map detached = joins.map detached := by
  induction joins generalizing sources with
  | nil => simp [resource]
  | cons j joins ih =>
    rcases sources with _ | ⟨this, sources⟩
    · simp at hlen
    · have hrest := @ih sources (by simpa using hlen)
      simp only [resource] at hrest ⊢
      simp [detached_setSource, hrest]

theorem inner_resource {joins : List Tree} (hin : ∀ j ∈ joins, inner j = true) (sources : List Tree) :
    ∀ j ∈ resource joins sources, inner j = true := by
  intro j hj
  rw [resource, ← List.map_uncurry_zip_eq_zipWith, List.mem_map] at hj
  obtain ⟨p, hp, rfl⟩ := hj
  exact inner_setSource (hin p.1 (List.of_mem_zip hp).1) p.2

/-- The outcome of a FROM clause whose joins are all inner. -/
theorem sortJoins_eq (b n : Nat) (first : Tree) (joins rest : List Tree) : ∃ first' sources,
    sortBy (sortKey txt) (first :: joins.map source) = first' :: sources ∧ sources.length = joins.length ∧
    sortJoins txt b n first joins rest = .node (.select b n)
      (first' :: (resource (sortBy (fun j => sortKey txt (source j)) joins) sources ++ rest)) := by
  obtain ⟨first', sources, hsort, hlen⟩ := sortBy_cons txt first (joins.map source)
  refine ⟨first', sources, hsort, by simpa using hlen, ?_⟩
  unfold sortJoins
  split
  · next h => rw [hsort] at h; cases h
  · next f ss h =>
    rw [hsort] at h
    injection h with hf hss
    rw [← hf, ← hss, resource]

/-! ## What the rules leave, they leave again -/

structure Settled (t : Tree) : Prop where
  literals : normalizeLiterals t = t
  aliases : normalizeAliases t = t
  later : laterRules txt t = t

inductive Normal : Tree → Prop
  | node {h : Head} {l : List Tree} (hl : ∀ t ∈ l, Normal t) (hs : Settled txt (.node h l)) : Normal (.node h l)

variable {txt}

theorem Normal.settled {t : Tree} (h : Normal txt t) : Settled txt t := by
  cases h with
  | node _ hs => exact hs

theorem Normal.args {h : Head} {l : List Tree} (hn : Normal txt (.node h l)) : ∀ t ∈ l, Normal txt t := by
  cases hn with
  | node hl _ => exact hl

theorem Normal.rules {t : Tree} (h : Normal txt t) : rules txt t = t := by
  rw [Structure.rules, h.settled.literals, h.settled.aliases, h.settled.later]

theorem Normal.flattenAnd {t : Tree} (h : Normal txt t) : ∀ e ∈ flattenAnd t, Normal txt e := by
  induction t using Structure.flattenAnd.induct with
  | case1 a b iha ihb =>
    intro e he
    rw [flattenAnd_and, List.mem_append] at he
    exact he.elim (iha (h.args a (by simp)) e) (ihb (h.args b (by simp)) e)
  | case2 t ht =>
    rcases flattenAnd_cases t with ⟨a, b, rfl⟩ | hself
    · exact absurd rfl (ht a b)
    · simpa [hself] using h

/-- Heads that no rule looks at. -/
theorem normal_of_rules {h : Head} {l : List Tree} (hl : ∀ t ∈ l, Normal txt t)
    (hlit : normalizeLiterals (.node h l) = .node h l) (hali : normalizeAliases (.node h l) = .node h l)
    (hr : Structure.rules txt (.node h l) = .node h l) : Normal txt (.node h l) := by
  refine .node hl ⟨hlit, hali, ?_⟩
  rwa [Structure.rules, hlit, hali] at hr

theorem normal_direct {h : Head} (hh : Turned h) {a b : Tree} (ha : Normal txt a) (hb : Normal txt b) :
    Normal txt (direct txt h a b) := by
  rcases direct_cases txt h a b with ⟨hlt, hd⟩ | ⟨hlt, hd⟩
  · have hagain : direct txt h b a = .node h [b, a] := by
      rw [direct, if_neg hlt.not_gt]
    rw [hd]
    apply normal_of_rules (by simp [ha, hb])
    · rcases hh with rfl | rfl | rfl | rfl | rfl <;> rfl
    · rcases hh with rfl | rfl | rfl | rfl | rfl <;> rfl
    · rw [rules_turned txt hh, hagain]
  · rw [hd]
    apply normal_of_rules (by simp [ha, hb])
    · rcases hh with rfl | rfl | rfl | rfl | rfl <;> rfl
    · rcases hh with rfl | rfl | rfl | rfl | rfl <;> rfl
    · rw [rules_turned txt hh, hd]

/-- Conjuncts in order: each shorter chain is in order as well. -/
theorem normal_rebuildAnd {first : Tree} {rest : List Tree} (hn : ∀ e ∈ first :: rest, Normal txt e)
    (hsimple : ∀ e ∈ first :: rest, Structure.flattenAnd e = [e])
    (hsort : (first :: rest).Pairwise fun x y => sortKey txt x ≤ sortKey txt y) :
    Normal txt (rebuildAnd first rest) := by
  induction rest using List.reverseRecOn with
  | nil => exact hn first (by simp)
  | append_singleton rest e ih =>
    have hshort : Normal txt (rebuildAnd first rest) := by
      apply ih
      · exact fun x hx => hn x (by simp at hx ⊢; tauto)
      · exact fun x hx => hsimple x (by simp at hx ⊢; tauto)
      · exact (List.pairwise_append.1 (by simpa using hsort : (first :: rest ++ [e]).Pairwise _)).1
    have hflat : Structure.flattenAnd (.node .and [rebuildAnd first rest, e]) = first :: (rest ++ [e]) := by
      rw [flattenAnd_and, flattenAnd_rebuildAnd (fun x hx => hsimple x (by simp [hx])), hsimple first (by simp),
        hsimple e (by simp)]
      simp
    rw [rebuildAnd_concat]
    apply normal_of_rules (by simpa [hshort] using hn e (by simp)) rfl rfl
    obtain ⟨f, r, hs, heq⟩ := sortAnd_eq txt (.node .and [rebuildAnd first rest, e])
    rw [hflat, sortBy_eq hsort] at hs
    injection hs with hf hr
    rw [rules_and, heq, ← hf, ← hr, rebuildAnd_concat]

theorem normal_sortAnd {t : Tree} (h : Normal txt t ∨ ∃ a b, t = .node .and [a, b] ∧ Normal txt a ∧ Normal txt b) :
    Normal txt (sortAnd txt t) := by
  have hparts : ∀ e ∈ Structure.flattenAnd t, Normal txt e := by
    rcases h with h | ⟨a, b, rfl, ha, hb⟩
    · exact h.flattenAnd
    · intro e he
      rw [flattenAnd_and, List.mem_append] at he
      exact he.elim (ha.flattenAnd e) (hb.flattenAnd e)
  obtain ⟨first, rest, hsort, heq⟩ := sortAnd_eq txt t
  have hperm := sortBy_perm (sortKey txt) (Structure.flattenAnd t)
  have hle := sortBy_pairwise (sortKey txt) (Structure.flattenAnd t)
  have hsimple := simple_sorted txt t
  rw [hsort] at hperm hle hsimple
  rw [heq]
  exact normal_rebuildAnd (fun e he => hparts e (hperm.subset he)) hsimple hle

theorem normal_in {this : Tree} {l : List Tree} (ht : Normal txt this) (hl : ∀ t ∈ l, Normal txt t) :
    Normal txt (.node .isIn (this :: sortBy (sortKey txt) l)) := by
  apply normal_of_rules _ rfl rfl
  · change Term.node Head.isIn (this :: sortBy (sortKey txt) (sortBy (sortKey txt) l)) = _
    rw [sortBy_eq (sortBy_pairwise _ l)]
  · intro t hmem
    rcases List.mem_cons.1 hmem with rfl | hmem
    · exact ht
    · exact hl t ((sortBy_perm _ l).subset hmem)

theorem rules_join (m s k : Option Text) (l : List Tree) : rules txt (.node (.join m s k) l) = .node (.join m s k) l := rfl

theorem normal_setSource {j this : Tree} (hin : inner j = true) (hj : Normal txt j) (ht : Normal txt this) :
    Normal txt (setSource j this) := by
  obtain ⟨m, s, k, this', rest, rfl⟩ := inner_cases hin
  apply normal_of_rules _ rfl rfl (rules_join m s k _)
  intro t hmem
  rcases List.mem_cons.1 hmem with rfl | hmem
  · exact ht
  · exact hj.args t (by simp [hmem])

theorem normal_resource {joins sources : List Tree} (hin : ∀ j ∈ joins, inner j = true)
    (hj : ∀ j ∈ joins, Normal txt j) (hs : ∀ t ∈ sources, Normal txt t) :
    ∀ j ∈ resource joins sources, Normal txt j := by
  intro j hmem
  rw [resource, ← List.map_uncurry_zip_eq_zipWith, List.mem_map] at hmem
  obtain ⟨p, hp, rfl⟩ := hmem
  have hp := List.of_mem_zip hp
  exact normal_setSource (hin p.1 hp.1) (hj p.1 hp.1) (hs p.2 hp.2)

theorem normal_source {j : Tree} (hin : inner j = true) (hj : Normal txt j) : Normal txt (source j) := by
  obtain ⟨m, s, k, this, rest, rfl⟩ := inner_cases hin
  exact hj.args this (by simp)

/-- A FROM clause in order stays as it is. -/
theorem sortJoins_sorted {b n : Nat} {first : Tree} {joins : List Tree} (rest : List Tree)
    (hsort : (first :: joins.map source).Pairwise fun x y => sortKey txt x ≤ sortKey txt y) :
    sortJoins txt b n first joins rest = .node (.select b n) (first :: (joins ++ rest)) := by
  obtain ⟨first', sources, hs, -, heq⟩ := sortJoins_eq txt b n first joins rest
  rw [sortBy_eq hsort] at hs
  injection hs with hf hss
  have hjoins : sortBy (fun j => sortKey txt (source j)) joins = joins := by
    have htail := (List.pairwise_cons.1 hsort).2
    rw [List.pairwise_map] at htail
    exact sortBy_eq htail
  have hown : ∀ l : List Tree, resource l (l.map source) = l := by
    intro l
    induction l with
    | nil => rfl
    | cons j l ih => simpa [resource, setSource_source] using ih
  rw [heq, hjoins, ← hf, ← hss, hown]

theorem normal_sortJoins {b n : Nat} {first : Tree} {joins rest : List Tree} (hn : n ≠ 0) (hlen : joins.length = n)
    (hin : ∀ j ∈ joins, inner j = true) (hf : Normal txt first) (hj : ∀ j ∈ joins, Normal txt j)
    (hr : ∀ t ∈ rest, Normal txt t) : Normal txt (sortJoins txt b n first joins rest) := by
  obtain ⟨first', sources, hsort, hslen, heq⟩ := sortJoins_eq txt b n first joins rest
  have hperm := sortBy_perm (sortKey txt) (first :: joins.map source)
  have hle := sortBy_pairwise (sortKey txt) (first :: joins.map source)
  rw [hsort] at hperm hle
  have hall : ∀ t ∈ first' :: sources, Normal txt t := by
    intro t ht
    rcases List.mem_cons.1 (hperm.subset ht) with rfl | ht
    · exact hf
    · obtain ⟨j, hmem, rfl⟩ := List.mem_map.1 ht
      exact normal_source (hin j hmem) (hj j hmem)
  have hjperm := sortBy_perm (fun j => sortKey txt (source j)) joins
  have hjin : ∀ j ∈ sortBy (fun j => sortKey txt (source j)) joins, inner j = true :=
    fun j hmem => hin j (hjperm.subset hmem)
  have hjlen : sources.length = (sortBy (fun j => sortKey txt (source j)) joins).length := by
    rw [hjperm.length_eq, hslen]
  have hnew := inner_resource hjin sources
  have hsrc := map_source_resource hjin hjlen
  have hrlen : (resource (sortBy (fun j => sortKey txt (source j)) joins) sources).length = n := by
    have := congrArg List.length hsrc
    rw [List.length_map] at this
    rw [this, hslen, hlen]
  have hjn : ∀ j ∈ resource (sortBy (fun j => sortKey txt (source j)) joins) sources, Normal txt j :=
    normal_resource hjin (fun j hmem => hj j (hjperm.subset hmem)) (fun t ht => hall t (by simp [ht]))
  rw [heq]
  generalize resource (sortBy (fun j => sortKey txt (source j)) joins) sources = new at *
  apply normal_of_rules _ rfl rfl
  · rw [rules_select, normalizeJoins, if_pos, List.take_left' hrlen, List.drop_left' hrlen]
    · exact sortJoins_sorted rest (by rw [hsrc]; exact hle)
    · refine ⟨hn, by simp [hrlen], ?_⟩
      rw [List.take_left' hrlen]
      exact List.all_eq_true.2 hnew
  · intro t ht
    rcases List.mem_cons.1 ht with rfl | ht
    · exact hall t (by simp)
    · rcases List.mem_append.1 ht with ht | ht
      · exact hjn t ht
      · exact hr t ht

theorem normal_normalizeJoins {b n : Nat} {l : List Tree} (hl : ∀ t ∈ l, Normal txt t) :
    Normal txt (normalizeJoins txt (.node (.select b n) l)) := by
  rcases l with _ | ⟨first, l⟩
  · exact normal_of_rules hl rfl rfl rfl
  · by_cases hc : n ≠ 0 ∧ n ≤ l.length ∧ (l.take n).all inner = true
    · rw [normalizeJoins, if_pos hc]
      refine normal_sortJoins hc.1 (by simp [hc.2.1]) (List.all_eq_true.1 hc.2.2) (hl first (by simp)) ?_ ?_
      · exact fun j hj => hl j (List.mem_cons_of_mem _ (List.mem_of_mem_take hj))
      · exact fun t ht => hl t (List.mem_cons_of_mem _ (List.mem_of_mem_drop ht))
    · have hself : normalizeJoins txt (.node (.select b n) (first :: l)) = .node (.select b n) (first :: l) := by
        rw [normalizeJoins, if_neg hc]
      rw [hself]
      exact normal_of_rules hl rfl rfl ((rules_select txt b n _).trans hself)

theorem normal_rules {h : Head} {l : List Tree} (hl : ∀ t ∈ l, Normal txt t) : Normal txt (rules txt (.node h l)) := by
  have hturned : Turned h → Normal txt (rules txt (.node h l)) := by
    intro hh
    by_cases hlen : l.length = 2
    · obtain ⟨a, b, rfl⟩ := List.length_eq_two.1 hlen
      rw [rules_turned txt hh]
      exact normal_direct hh (hl a (by simp)) (hl b (by simp))
    · have hself := rules_turned_else txt hh hlen
      rw [hself]
      apply normal_of_rules hl _ _ hself
      · rcases hh with rfl | rfl | rfl | rfl | rfl <;> rfl
      · rcases hh with rfl | rfl | rfl | rfl | rfl <;> rfl
  have hconstant : Normal txt (.node .placeholder []) := normal_of_rules (by simp) rfl rfl rfl
  cases h with
  | literal _ _ => exact hconstant
  | boolean _ => exact hconstant
  | null => exact hconstant
  | parameter => exact hconstant
  | placeholder => exact normal_of_rules hl rfl rfl rfl
  | other _ => exact normal_of_rules hl rfl rfl rfl
  | join m s k => exact normal_of_rules hl rfl rfl rfl
  | eq => exact hturned (by simp [Turned])
  | add => exact hturned (by simp [Turned])
  | mul => exact hturned (by simp [Turned])
  | or => exact hturned (by simp [Turned])
  | neq => exact hturned (by simp [Turned])
  | aliased name =>
    rcases l with _ | ⟨a, _ | ⟨b, l⟩⟩
    · exact normal_of_rules hl rfl rfl rfl
    · have ha := hl a (by simp)
      have hself : rules txt (.node (.aliased name) [a]) = a := ha.settled.later
      rwa [hself]
    · exact normal_of_rules hl rfl rfl rfl
  | and =>
    by_cases hlen : l.length = 2
    · obtain ⟨a, b, rfl⟩ := List.length_eq_two.1 hlen
      rw [rules_and]
      exact normal_sortAnd (.inr ⟨a, b, rfl, hl a (by simp), hl b (by simp)⟩)
    · have hself := rules_and_else txt hlen
      rw [hself]
      exact normal_of_rules hl rfl rfl hself
  | isIn =>
    rcases l with _ | ⟨this, l⟩
    · exact normal_of_rules hl rfl rfl rfl
    · exact normal_in (hl this (by simp)) fun t ht => hl t (by simp [ht])
  | select b n =>
    rw [rules_select]
    exact normal_normalizeJoins hl

theorem normal_normalize (t : Tree) : Normal txt (normalize txt t) := by
  induction t using Term.induction with
  | h h l ih =>
    rw [normalize_node]
    apply normal_rules
    intro t ht
    obtain ⟨a, ha, rfl⟩ := List.mem_map.1 ht
    exact ih a ha

theorem Normal.normalize {t : Tree} (h : Normal txt t) : normalize txt t = t := by
  induction h with
  | @node h l hl hs ih =>
    have hargs : l.map (Structure.normalize txt) = l := by
      conv_rhs => rw [← List.map_id l]
      exact List.map_congr_left ih
    rw [normalize_node, hargs, (Normal.node hl hs).rules]

/-- The rules have nothing to do on what they left. -/
theorem normalize_normalize (t : Tree) : normalize txt (normalize txt t) = normalize txt t := (normal_normalize t).normalize

end SynnoDB.PgRouter.Structure
