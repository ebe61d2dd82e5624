import SynnoDB.Workload.Downscale

/-!
# The joins that a query names (`custom_scaler/duckdb_downscale.py:247-327`)

| here | there |
| --- | --- |
| `Expr`                | **the tree that sqlglot parses**: tables, columns and equalities; `query` is a SELECT, `node` everything else |
| `Site`, `sites`       | a node, its path, and the SELECTs around it, innermost first; `find_all` goes breadth first |
| `aliasMap`, `resolve`, `inferEqualities` | `_infer_equalities` of one statement |
| `inferJoinRelationships` | `infer_join_relationships_from_sql` |

The code reads a qualifier through one map for the whole statement, and it groups equalities by the pair of **tables**.
SQL reads it in the innermost SELECT that has a reference of that name (`lookupRef`), and two references to one table
are two join paths. An empty `tableAlias` or qualifier is none.
-/

namespace SynnoDB.Workload.Downscale

inductive Expr where
  | table (name tableAlias : String)
  | column (table name : String)
  | eq (this expression : Expr)
  | query (parts : List Expr)
  | node (parts : List Expr)
deriving Repr

mutual
def Expr.depth : Expr → Nat
  | .table _ _ => 1
  | .column _ _ => 1
  | .eq l r => max l.depth r.depth + 1
  | .query parts => depths parts + 1
  | .node parts => depths parts + 1
def depths : List Expr → Nat
  | [] => 0
  | e :: es => max e.depth (depths es)
end

structure Site where
  path : List Nat
  scopes : List (List Nat)
  expr : Expr

def Site.children (site : Site) : List Site :=
  match site.expr with
  | .table _ _ => []
  | .column _ _ => []
  | .eq l r => [⟨0 :: site.path, site.scopes, l⟩, ⟨1 :: site.path, site.scopes, r⟩]
  | .query parts => parts.zipIdx.map fun (e, i) => ⟨i :: site.path, site.path :: site.scopes, e⟩
  | .node parts => parts.zipIdx.map fun (e, i) => ⟨i :: site.path, site.scopes, e⟩

def levels : Nat → List Site → List Site
  | 0, _ => []
  | n + 1, level => level ++ levels n (level.flatMap Site.children)

def sites (tree : Expr) : List Site := levels tree.depth [⟨[], [], tree⟩]

def findAll (tree : Expr) : List Expr := (sites tree).map Site.expr

/-! ## What the code infers -/

/-- `real_tables.get(name.lower())`. -/
def realTable (schema : SchemaInfo) (name : String) : Option String := schema.tables.find? fun t => sameName t name

def aliasOrName (name tableAlias : String) : String := if tableAlias = "" then name else tableAlias

/-- The body of the loop over the table nodes. -/
def addAliases (schema : SchemaInfo) (m : Dict String String) (e : Expr) : Dict String String :=
  match e with
  | .table name tableAlias =>
    match realTable schema name with
    | none => m
    | some real => (m.set (aliasOrName name tableAlias).toLower real).set name.toLower real
  | _ => m

def aliasMap (schema : SchemaInfo) (tree : Expr) : Dict String String := (findAll tree).foldl (addAliases schema) []

def resolve (schema : SchemaInfo) (aliases : Dict String String) (qualifier name : String) : Option (String × String) :=
  let table :=
    if qualifier ≠ "" then aliases.get qualifier.toLower
    else match schema.colOwner name.toLower with
      | [t] => some t
      | _ => none
  table.map fun t => (t, name)

abbrev Equality := String × String × String × String

/-- The body of the loop over the equalities. -/
def inferEquality (schema : SchemaInfo) (aliases : Dict String String) (e : Expr) : Option Equality :=
  match e with
  | .eq (.column lq ln) (.column rq rn) =>
    match resolve schema aliases lq ln, resolve schema aliases rq rn with
    | some left, some right => if left.1 = right.1 then none else some (left.1, left.2, right.1, right.2)
    | _, _ => none
  | _ => none

def inferEqualities (schema : SchemaInfo) (tree : Expr) : List Equality :=
  (findAll tree).filterMap (inferEquality schema (aliasMap schema tree))

/-- The key of `by_pair`. -/
def tablePair (q : Equality) : String × String := sortedPair q.1 q.2.2.1

def byPair (schema : SchemaInfo) (tree : Expr) : Dict (String × String) (List Equality) :=
  Dict.group tablePair (inferEqualities schema tree)

/-- `None` = `ValueError`. -/
def inferJoinRelationships (schema : SchemaInfo) (tree : Expr) : Option (List JoinRelationship) :=
  (byPair schema tree).mapM fun entry => JoinRelationship.fromEqualities entry.2

/-! ## What the query means -/

/-- A reference to a table of the schema in the FROM of a SELECT. -/
structure Ref where
  scope : List Nat
  called : String
  table : String
deriving DecidableEq, Repr

def references (schema : SchemaInfo) (tree : Expr) : List Ref :=
  (sites tree).filterMap fun site =>
    match site.expr, site.scopes with
    | .table name tableAlias, scope :: _ => (realTable schema name).map fun real => ⟨scope, (aliasOrName name tableAlias).toLower, real⟩
    | _, _ => none

/-- The innermost SELECT that has a reference of this name. -/
def lookupRef (refs : List Ref) (scopes : List (List Nat)) (qualifier : String) : Option Ref :=
  scopes.findSome? fun scope => refs.find? fun ref => ref.scope = scope ∧ ref.called = qualifier.toLower

/-- A column equality between two table references. -/
structure Condition where
  left : Ref
  leftCol : String
  right : Ref
  rightCol : String
deriving DecidableEq, Repr

/-- What the code has to infer from it. -/
def Condition.equality (c : Condition) : Option Equality :=
  if c.left.table = c.right.table then none else some (c.left.table, c.leftCol, c.right.table, c.rightCol)

/-- It connects these two references. -/
def Condition.Joins (c : Condition) (a b : Ref) : Prop := (c.left = a ∧ c.right = b) ∨ (c.left = b ∧ c.right = a)

def conditionOf (schema : SchemaInfo) (tree : Expr) (site : Site) : Option Condition :=
  match site.expr with
  | .eq (.column lq ln) (.column rq rn) =>
    match lookupRef (references schema tree) site.scopes lq, lookupRef (references schema tree) site.scopes rq with
    | some left, some right => some ⟨left, ln, right, rn⟩
    | _, _ => none
  | _ => none

/-- A query whose column equalities are between table references. -/
structure JoinQuery (schema : SchemaInfo) where
  tree : Expr
  refers : ∀ site ∈ sites tree, ∀ lq ln rq rn, site.expr = .eq (.column lq ln) (.column rq rn) →
    lq ≠ "" ∧ rq ≠ "" ∧ (conditionOf schema tree site).isSome

section
variable {schema : SchemaInfo}

/-- A condition and the place where the query states it. -/
def JoinQuery.States (q : JoinQuery schema) (site : Site) (c : Condition) : Prop :=
  site ∈ sites q.tree ∧ conditionOf schema q.tree site = some c

/-- A row of the table of `a` and one of the table of `b` satisfy what the query asks of the two references. -/
def JoinQuery.Satisfied {V : Type} [DecidableEq V] (q : JoinQuery schema) (a b : Ref) (own other : DataRow V) : Prop :=
  ∀ site c, q.States site c → (c.left = a → c.right = b → sqlEq (other c.rightCol) (own c.leftCol) = true) ∧
    (c.left = b → c.right = a → sqlEq (other c.leftCol) (own c.rightCol) = true)

structure PathsApart (q : JoinQuery schema) : Prop where
  /-- An equality is inferred with the tables of its references. -/
  named : ∀ site c, q.States site c → inferEquality schema (aliasMap schema q.tree) site.expr = c.equality
  /-- One relationship holds the equalities of one pair of references. -/
  grouped : ∀ site site' c c', q.States site c → q.States site' c' → ∀ e e',
    inferEquality schema (aliasMap schema q.tree) site.expr = some e →
    inferEquality schema (aliasMap schema q.tree) site'.expr = some e' →
    ∀ entry ∈ byPair schema q.tree, e ∈ entry.2 → e' ∈ entry.2 → c'.Joins c.left c.right
  /-- Rows that match as two references ask match in some relationship. -/
  survives : ∃ rels, inferJoinRelationships schema q.tree = some rels ∧ ∀ site c, q.States site c →
    c.left.table ≠ c.right.table → ∀ a b, c.Joins a b → ∀ (V : Type) [DecidableEq V] (own other : DataRow V),
      q.Satisfied a b own other → ∃ rel ∈ rels, ∃ pairs, rel.other a.table = some (b.table, pairs) ∧ Matches pairs own other

/-! ## The flat map -/

/-- The table of a table node that goes by this name, by its alias or by its own. -/
def tableCalled (schema : SchemaInfo) (name : String) : Expr → Option String
  | .table t tableAlias =>
    if (aliasOrName t tableAlias).toLower = name ∨ t.toLower = name then realTable schema t else none
  | _ => none

/-- The table of the last node of this name. -/
def lastCalled (schema : SchemaInfo) (tree : Expr) (name : String) : Option String :=
  ((findAll tree).filterMap (tableCalled schema name)).getLast?

theorem get_addAliases (m : Dict String String) (e : Expr) (name : String) :
    (addAliases schema m e).get name = (tableCalled schema name e).or (m.get name) := by
  cases e with
  | table t tableAlias =>
    cases hreal : realTable schema t with
    | none => simp [addAliases, tableCalled, hreal]
    | some real =>
      simp only [addAliases, tableCalled, hreal, Dict.get_set]
      by_cases hname : t.toLower = name
      · simp [hname]
      · by_cases halias : (aliasOrName t tableAlias).toLower = name <;> simp [hname, halias]
  | _ => rfl

theorem get_aliasMap (tree : Expr) (name : String) : (aliasMap schema tree).get name = lastCalled schema tree name := by
  unfold aliasMap lastCalled
  induction findAll tree using List.reverseRecOn with
  | nil => rfl
  | append_singleton es e ih =>
    rw [List.foldl_append, List.foldl_cons, List.foldl_nil, get_addAliases, ih, List.filterMap_append,
      List.getLast?_append]
    cases hcalled : tableCalled schema name e <;> simp [hcalled]

/-- When the code keeps join paths apart. -/
structure PathsDistinct (q : JoinQuery schema) : Prop where
  /-- The last table called like the qualifier is the one it means; or both sides mean one table, either way. -/
  read : ∀ site c, q.States site c → ∀ lq ln rq rn, site.expr = .eq (.column lq ln) (.column rq rn) →
    (lastCalled schema q.tree lq.toLower = some c.left.table ∧ lastCalled schema q.tree rq.toLower = some c.right.table) ∨
    (c.left.table = c.right.table ∧ lastCalled schema q.tree lq.toLower = lastCalled schema q.tree rq.toLower)
  /-- Two tables are joined as one pair of references only. -/
  single : ∀ site site' c c', q.States site c → q.States site' c' → c.left.table ≠ c.right.table →
    sortedPair c.left.table c.right.table = sortedPair c'.left.table c'.right.table → c'.Joins c.left c.right

/-! ## One equality -/

variable {q : JoinQuery schema} {site site' : Site} {c c' : Condition} {e : Equality}

theorem lookupRef_some {refs : List Ref} {scopes : List (List Nat)} {name : String} {ref : Ref}
    (h : lookupRef refs scopes name = some ref) : ref ∈ refs ∧ ref.called = name.toLower := by
  obtain ⟨scope, -, hfind⟩ := List.exists_of_findSome?_eq_some h
  have hcalled := List.find?_some hfind
  simp only [decide_eq_true_eq] at hcalled
  exact ⟨List.mem_of_find?_eq_some hfind, hcalled.2⟩

/-- What a reference is called, the flat map knows. -/
theorem lastCalled_isSome {tree : Expr} {ref : Ref} (h : ref ∈ references schema tree) :
    (lastCalled schema tree ref.called).isSome := by
  obtain ⟨site, hsite, href⟩ := List.mem_filterMap.1 h
  unfold lastCalled
  rw [List.getLast?_isSome]
  split at href
  · rename_i t tableAlias scope rest hexpr hscopes
    obtain ⟨real, hreal, rfl⟩ := Option.map_eq_some_iff.1 href
    apply List.ne_nil_of_mem (a := real)
    refine List.mem_filterMap.2 ⟨site.expr, List.mem_map_of_mem hsite, ?_⟩
    rw [hexpr]
    simp [tableCalled, hreal]
  · cases href

theorem JoinQuery.States.shape (h : q.States site c) : ∃ lq rq,
    site.expr = .eq (.column lq c.leftCol) (.column rq c.rightCol) ∧
    lq ≠ "" ∧ rq ≠ "" ∧ (lastCalled schema q.tree lq.toLower).isSome ∧
      (lastCalled schema q.tree rq.toLower).isSome := by
  obtain ⟨hsite, hcond⟩ := h
  unfold conditionOf at hcond
  split at hcond
  · rename_i lq ln rq rn hexpr
    split at hcond
    · rename_i left right hleft hright
      cases hcond
      obtain ⟨hlq, hrq, -⟩ := q.refers site hsite lq ln rq rn hexpr
      obtain ⟨hlmem, hlname⟩ := lookupRef_some hleft
      obtain ⟨hrmem, hrname⟩ := lookupRef_some hright
      exact ⟨lq, rq, hexpr, hlq, hrq, hlname ▸ lastCalled_isSome hlmem, hrname ▸ lastCalled_isSome hrmem⟩
    · cases hcond
  · cases hcond

/-- What is inferred from an equality is what the flat map reads in it. -/
theorem inferEquality_eq {tree e : Expr} {lq ln rq rn s t : String} (he : e = .eq (.column lq ln) (.column rq rn))
    (hlq : lq ≠ "") (hrq : rq ≠ "") (hs : lastCalled schema tree lq.toLower = some s)
    (ht : lastCalled schema tree rq.toLower = some t) :
    inferEquality schema (aliasMap schema tree) e = if s = t then none else some (s, ln, t, rn) := by
  subst he
  simp [inferEquality, resolve, hlq, hrq, get_aliasMap, hs, ht]

theorem named_iff (h : q.States site c) :
    inferEquality schema (aliasMap schema q.tree) site.expr = c.equality ↔
      ∀ lq ln rq rn, site.expr = .eq (.column lq ln) (.column rq rn) →
        (lastCalled schema q.tree lq.toLower = some c.left.table ∧
          lastCalled schema q.tree rq.toLower = some c.right.table) ∨
        (c.left.table = c.right.table ∧ lastCalled schema q.tree lq.toLower = lastCalled schema q.tree rq.toLower) := by
  obtain ⟨lq, rq, hexpr, hlq, hrq, hl, hr⟩ := JoinQuery.States.shape h
  obtain ⟨s, hs⟩ := Option.isSome_iff_exists.1 hl
  obtain ⟨t, ht⟩ := Option.isSome_iff_exists.1 hr
  rw [inferEquality_eq hexpr hlq hrq hs ht]
  unfold Condition.equality
  constructor
  · intro heq lq' ln' rq' rn' hexpr'
    rw [hexpr] at hexpr'
    cases hexpr'
    rw [hs, ht]
    by_cases hst : s = t
    · by_cases htables : c.left.table = c.right.table
      · exact .inr ⟨htables, by rw [hst]⟩
      · rw [if_pos hst, if_neg htables] at heq
        cases heq
    · by_cases htables : c.left.table = c.right.table
      · rw [if_neg hst, if_pos htables] at heq
        cases heq
      · rw [if_neg hst, if_neg htables] at heq
        cases heq
        exact .inl ⟨rfl, rfl⟩
  · intro hread
    rcases hread _ _ _ _ hexpr with ⟨hl', hr'⟩ | ⟨htables, hsame⟩
    · rw [hs] at hl'
      rw [ht] at hr'
      cases hl'
      cases hr'
      rfl
    · rw [hs, ht] at hsame
      cases hsame
      rw [if_pos rfl, if_pos htables]

/-! ## One relationship -/

/-- The column pair of an equality, aligned to a relationship whose first table is `tableA`, its second `tableB`. -/
def aligned (tableA tableB : String) (e : Equality) : String × String :=
  if (e.1, e.2.2.1) = (tableA, tableB) then (e.2.1, e.2.2.2) else (e.2.2.2, e.2.1)

theorem fromEqualities_group {eqs : List Equality} {k : String × String} (hne : eqs ≠ [])
    (hkey : ∀ e ∈ eqs, tablePair e = k) : ∃ rel, JoinRelationship.fromEqualities eqs = some rel ∧ rel.tableA = k.1 ∧
      rel.tableB = k.2 ∧ ∀ p, p ∈ rel.pairs ↔ ∃ e ∈ eqs, p = aligned k.1 k.2 e := by
  have hkeys : (eqs.map fun (ta, _, tb, _) => sortedPair ta tb).dedup = [k] := by
    have hall : (eqs.map fun (ta, _, tb, _) => sortedPair ta tb) = List.replicate eqs.length k := by
      apply List.eq_replicate_iff.2
      refine ⟨by simp, fun x hx => ?_⟩
      obtain ⟨e, he, rfl⟩ := List.mem_map.1 hx
      exact hkey e he
    rw [hall, List.replicate_dedup (by simpa using hne)]
  unfold JoinRelationship.fromEqualities
  rw [hkeys]
  refine ⟨_, rfl, rfl, rfl, fun p => ?_⟩
  rw [List.mem_insertionSort, List.mem_dedup, List.mem_map]
  constructor
  · rintro ⟨e, he, rfl⟩
    exact ⟨e, he, rfl⟩
  · rintro ⟨e, he, rfl⟩
    exact ⟨e, he, rfl⟩

theorem sortedPair_cases (s t : String) : sortedPair s t = (s, t) ∨ sortedPair s t = (t, s) := by
  unfold sortedPair
  split
  · exact .inl rfl
  · exact .inr rfl

theorem sortedPair_self (t : String) : sortedPair t t = (t, t) := if_pos le_rfl

theorem sortedPair_comm (s t : String) : sortedPair s t = sortedPair t s := by
  unfold sortedPair
  by_cases hle : s ≤ t
  · by_cases hge : t ≤ s
    · rw [le_antisymm hle hge]
    · rw [if_pos hle, if_neg hge]
  · rw [if_neg hle, if_pos (le_of_not_ge hle)]

theorem Condition.Joins.pair {a b : Ref} (h : c.Joins a b) :
    sortedPair c.left.table c.right.table = sortedPair a.table b.table := by
  rcases h with ⟨rfl, rfl⟩ | ⟨rfl, rfl⟩
  · rfl
  · exact sortedPair_comm _ _

theorem Condition.Joins.trans {a b : Ref} (h : c.Joins a b) (h' : c'.Joins c.left c.right) : c'.Joins a b := by
  rcases h with ⟨rfl, rfl⟩ | ⟨rfl, rfl⟩
  · exact h'
  · exact h'.symm

/-- What the rows of two references satisfy is what the columns of the relationship ask. -/
theorem aligned_matches {V : Type} [DecidableEq V] {a b : Ref} {own other : DataRow V} (h : c.Joins a b)
    (hne : a.table ≠ b.table) (hsat : (c.left = a → c.right = b → sqlEq (other c.rightCol) (own c.leftCol) = true) ∧
      (c.left = b → c.right = a → sqlEq (other c.leftCol) (own c.rightCol) = true)) :
    sqlEq (other (aligned a.table b.table (c.left.table, c.leftCol, c.right.table, c.rightCol)).2)
      (own (aligned a.table b.table (c.left.table, c.leftCol, c.right.table, c.rightCol)).1) = true := by
  unfold aligned
  rcases h with ⟨rfl, rfl⟩ | ⟨rfl, rfl⟩
  · rw [if_pos rfl]
    exact hsat.1 rfl rfl
  · rw [if_neg fun heq => hne (congrArg Prod.fst heq).symm]
    exact hsat.2 rfl rfl

theorem aligned_swap {s t : String} (hne : s ≠ t) (hpair : tablePair e = sortedPair s t) :
    (aligned s t e).swap = aligned t s e := by
  obtain ⟨ta, ca, tb, cb⟩ := e
  have htables : (ta = s ∧ tb = t) ∨ (ta = t ∧ tb = s) := by
    unfold tablePair at hpair
    rcases sortedPair_cases ta tb with h1 | h1 <;> rcases sortedPair_cases s t with h2 | h2 <;>
      simp only [h1, h2, Prod.mk.injEq] at hpair <;> tauto
  unfold aligned
  rcases htables with ⟨rfl, rfl⟩ | ⟨rfl, rfl⟩ <;> simp [hne, hne.symm]

/-! ## All of them -/

theorem mem_inferEqualities {tree : Expr} : e ∈ inferEqualities schema tree ↔
    ∃ site ∈ sites tree, inferEquality schema (aliasMap schema tree) site.expr = some e := by
  unfold inferEqualities findAll
  rw [List.mem_filterMap]
  constructor
  · rintro ⟨x, hx, he⟩
    obtain ⟨site, hsite, rfl⟩ := List.mem_map.1 hx
    exact ⟨site, hsite, he⟩
  · rintro ⟨site, hsite, he⟩
    exact ⟨site.expr, List.mem_map_of_mem hsite, he⟩

/-- Every column equality of the query is a condition. -/
theorem exists_condition (hsite : site ∈ sites q.tree)
    (h : inferEquality schema (aliasMap schema q.tree) site.expr = some e) : ∃ c, q.States site c := by
  unfold inferEquality at h
  split at h
  · rename_i lq ln rq rn hexpr
    obtain ⟨c, hc⟩ := Option.isSome_iff_exists.1 (q.refers site hsite lq ln rq rn hexpr).2.2
    exact ⟨c, hsite, hc⟩
  · cases h

theorem byPair_entry {tree : Expr} {entry : (String × String) × List Equality} (h : entry ∈ byPair schema tree) :
    entry.2 = (inferEqualities schema tree).filter (fun e => tablePair e = entry.1) ∧ entry.2 ≠ [] := by
  have heq : entry.2 = (inferEqualities schema tree).filter fun e => tablePair e = entry.1 := Dict.group_eq h
  refine ⟨heq, ?_⟩
  obtain ⟨e, he, hkey⟩ := Dict.mem_keys_group.1 (List.mem_map_of_mem (f := Prod.fst) h)
  rw [heq]
  exact List.ne_nil_of_mem (List.mem_filter.2 ⟨he, by simpa using hkey⟩)

theorem inferJoinRelationships_some (tree : Expr) : ∃ rels, inferJoinRelationships schema tree = some rels ∧
    ∀ entry ∈ byPair schema tree, ∃ rel ∈ rels, JoinRelationship.fromEqualities entry.2 = some rel := by
  have hsome : ∀ entry ∈ byPair schema tree, JoinRelationship.fromEqualities entry.2 =
      some ((JoinRelationship.fromEqualities entry.2).getD ⟨"", "", []⟩) := by
    intro entry hentry
    obtain ⟨hgroup, hne⟩ := byPair_entry hentry
    obtain ⟨rel, hrel, -⟩ := fromEqualities_group (k := entry.1) hne fun e he => by
      rw [hgroup] at he
      simpa using (List.mem_filter.1 he).2
    rw [hrel]
    rfl
  exact ⟨_, MapM.eq_some_of_forall hsome, fun entry hentry => ⟨_, List.mem_map_of_mem hentry, hsome entry hentry⟩⟩

theorem apart_of_distinct (h : PathsDistinct q) : PathsApart q := by
  have hnamed : ∀ site c, q.States site c → inferEquality schema (aliasMap schema q.tree) site.expr = c.equality :=
    fun site c hc => (named_iff hc).2 (h.read site c hc)
  have hequality : ∀ {c : Condition} {e : Equality}, c.equality = some e →
      c.left.table ≠ c.right.table ∧ e = (c.left.table, c.leftCol, c.right.table, c.rightCol) := by
    intro c e he
    unfold Condition.equality at he
    split at he
    · cases he
    · rename_i hne
      cases he
      exact ⟨hne, rfl⟩
  refine ⟨hnamed, ?_, ?_⟩
  · intro site site' c c' hc hc' e e' he he' entry hentry hmem hmem'
    rw [hnamed site c hc] at he
    rw [hnamed site' c' hc'] at he'
    obtain ⟨hne, rfl⟩ := hequality he
    obtain ⟨-, rfl⟩ := hequality he'
    have hgroup := (byPair_entry hentry).1
    rw [hgroup, List.mem_filter, decide_eq_true_eq] at hmem hmem'
    exact h.single site site' c c' hc hc' hne (hmem.2.trans hmem'.2.symm)
  · obtain ⟨rels, hrels, hall⟩ : ∃ rels, inferJoinRelationships schema q.tree = some rels ∧
        ∀ entry ∈ byPair schema q.tree, ∃ rel ∈ rels, JoinRelationship.fromEqualities entry.2 = some rel :=
      inferJoinRelationships_some q.tree
    refine ⟨rels, hrels, fun site c hc hne a b hab V _ own other hsat => ?_⟩
    have hpair := hab.pair
    have htables : a.table ≠ b.table := by
      rcases hab with ⟨rfl, rfl⟩ | ⟨rfl, rfl⟩
      · exact hne
      · exact hne.symm
    have he : (c.left.table, c.leftCol, c.right.table, c.rightCol) ∈ inferEqualities schema q.tree := by
      rw [mem_inferEqualities]
      refine ⟨site, hc.1, ?_⟩
      rw [hnamed site c hc, Condition.equality, if_neg hne]
    have hkey : tablePair (c.left.table, c.leftCol, c.right.table, c.rightCol) = sortedPair a.table b.table := hpair
    have hentry : (sortedPair a.table b.table, (inferEqualities schema q.tree).filter
        fun e => tablePair e = sortedPair a.table b.table) ∈ byPair schema q.tree := by
      rw [← hkey]
      exact Dict.exists_group he
    obtain ⟨rel, hrel, hfrom⟩ := hall _ hentry
    -- the group holds equalities of `a` and `b` only
    have hgroup : ∀ e' ∈ (inferEqualities schema q.tree).filter fun e => tablePair e = sortedPair a.table b.table,
        tablePair e' = sortedPair a.table b.table ∧
          sqlEq (other (aligned a.table b.table e').2) (own (aligned a.table b.table e').1) = true := by
      intro e' he'
      rw [List.mem_filter, decide_eq_true_eq, mem_inferEqualities] at he'
      obtain ⟨⟨site', hsite', hinfer⟩, hkey'⟩ := he'
      obtain ⟨c', hc'⟩ := exists_condition hsite' hinfer
      rw [hnamed site' c' hc'] at hinfer
      obtain ⟨-, rfl⟩ := hequality hinfer
      refine ⟨hkey', aligned_matches (hab.trans ?_) htables (hsat site' c' hc')⟩
      exact h.single site site' c c' hc hc' hne (hpair.trans hkey'.symm)
    have hnonempty : (inferEqualities schema q.tree).filter (fun e => tablePair e = sortedPair a.table b.table) ≠ [] :=
      List.ne_nil_of_mem (List.mem_filter.2 ⟨he, by simpa using hkey⟩)
    obtain ⟨rel', hrel', hA, hB, hpairs⟩ := fromEqualities_group hnonempty fun e' he' => (hgroup e' he').1
    obtain rfl : rel = rel' := Option.some.inj (hfrom.symm.trans hrel')
    refine ⟨rel, hrel, ?_⟩
    rcases sortedPair_cases a.table b.table with hsorted | hsorted
    · rw [congrArg Prod.fst hsorted] at hA hpairs
      rw [congrArg Prod.snd hsorted] at hB hpairs
      refine ⟨rel.pairs, ?_, fun p hp => ?_⟩
      · simp [JoinRelationship.other, hA, hB, htables]
      · obtain ⟨e', he', rfl⟩ := (hpairs p).1 hp
        exact (hgroup e' he').2
    · rw [congrArg Prod.fst hsorted] at hA hpairs
      rw [congrArg Prod.snd hsorted] at hB hpairs
      refine ⟨rel.pairs.map Prod.swap, ?_, fun p hp => ?_⟩
      · simp [JoinRelationship.other, hA, hB, htables, htables.symm]
      · obtain ⟨p', hp', rfl⟩ := List.mem_map.1 hp
        obtain ⟨e', he', rfl⟩ := (hpairs p').1 hp'
        have hswap : (aligned b.table a.table e').swap = aligned a.table b.table e' :=
          aligned_swap htables.symm ((hgroup e' he').1.trans (sortedPair_comm _ _))
        rw [hswap]
        exact (hgroup e' he').2

theorem distinct_of_apart (h : PathsApart q) : PathsDistinct q := by
  refine ⟨fun site c hc => (named_iff hc).1 (h.named site c hc), fun site site' c c' hc hc' hne hpair => ?_⟩
  have hne' : c'.left.table ≠ c'.right.table := by
    intro heq
    rw [heq, sortedPair_self] at hpair
    rcases sortedPair_cases c.left.table c.right.table with hs | hs <;> rw [hs] at hpair
    · exact hne ((congrArg Prod.fst hpair).trans (congrArg Prod.snd hpair).symm)
    · exact hne ((congrArg Prod.snd hpair).trans (congrArg Prod.fst hpair).symm)
  have he : inferEquality schema (aliasMap schema q.tree) site.expr =
      some (c.left.table, c.leftCol, c.right.table, c.rightCol) := by
    rw [h.named site c hc, Condition.equality, if_neg hne]
  have he' : inferEquality schema (aliasMap schema q.tree) site'.expr =
      some (c'.left.table, c'.leftCol, c'.right.table, c'.rightCol) := by
    rw [h.named site' c' hc', Condition.equality, if_neg hne']
  have hmem := mem_inferEqualities.2 ⟨site, hc.1, he⟩
  have hmem' := mem_inferEqualities.2 ⟨site', hc'.1, he'⟩
  have hentry : (tablePair (c.left.table, c.leftCol, c.right.table, c.rightCol), (inferEqualities schema q.tree).filter
      fun e => tablePair e = tablePair (c.left.table, c.leftCol, c.right.table, c.rightCol)) ∈ byPair schema q.tree :=
    Dict.exists_group hmem
  apply h.grouped site site' c c' hc hc' _ _ he he' _ hentry
  · exact List.mem_filter.2 ⟨hmem, by simp⟩
  · refine List.mem_filter.2 ⟨hmem', ?_⟩
    rw [decide_eq_true_eq]
    exact hpair.symm

end

/-- **Inference keeps join paths apart iff the flat map reads every qualifier right and no two tables are joined as two
pairs of references.** -/
theorem join_paths_apart_iff (schema : SchemaInfo) (q : JoinQuery schema) : PathsApart q ↔ PathsDistinct q :=
  ⟨distinct_of_apart, apart_of_distinct⟩

/-! ## Two references to one table -/

/-- Every column equality is between table references. -/
def refersCheck (schema : SchemaInfo) (tree : Expr) : Bool :=
  (sites tree).all fun site =>
    match site.expr with
    | .eq (.column lq _) (.column rq _) => lq ≠ "" && rq ≠ "" && (conditionOf schema tree site).isSome
    | _ => true

theorem refers_of_check {schema : SchemaInfo} {tree : Expr} (h : refersCheck schema tree = true) :
    ∀ site ∈ sites tree, ∀ lq ln rq rn, site.expr = .eq (.column lq ln) (.column rq rn) →
      lq ≠ "" ∧ rq ≠ "" ∧ (conditionOf schema tree site).isSome := by
  intro site hsite lq ln rq rn hexpr
  have hcheck := List.all_eq_true.1 h site hsite
  simp only [hexpr, Bool.and_eq_true, decide_eq_true_eq] at hcheck
  exact ⟨hcheck.1.1, hcheck.1.2, hcheck.2⟩

def salesSchema : SchemaInfo where
  tables := ["sales", "users"]
  rowCounts _ := 1
  columns t := if t = "sales" then ["buyer", "seller"] else ["id"]
  pkColumns _ := []
  colOwner c := if c = "id" then ["users"] else ["sales"]
  names := by decide +kernel

/-- `SELECT … FROM sales s JOIN users u1 ON s.buyer = u1.id JOIN users u2 ON s.seller = u2.id`. -/
def buyerSeller : JoinQuery salesSchema where
  tree := .query [.node [.table "sales" "s"],
    .node [.table "users" "u1", .eq (.column "s" "buyer") (.column "u1" "id")],
    .node [.table "users" "u2", .eq (.column "s" "seller") (.column "u2" "id")]]
  refers := refers_of_check (by decide +kernel)

/-- The two paths to `users` become one relationship with both pairs. -/
theorem buyerSeller_merged : inferJoinRelationships salesSchema buyerSeller.tree =
    some [⟨"sales", "users", [("buyer", "id"), ("seller", "id")]⟩] ∧ ¬ PathsApart buyerSeller := by
  refine ⟨by decide +kernel, fun h => ?_⟩
  have hbuyer : buyerSeller.States ⟨[1, 1], [[]], .eq (.column "s" "buyer") (.column "u1" "id")⟩
      ⟨⟨[], "s", "sales"⟩, "buyer", ⟨[], "u1", "users"⟩, "id"⟩ :=
    ⟨List.mem_of_getElem? (i := 6) rfl, by decide +kernel⟩
  have hseller : buyerSeller.States ⟨[1, 2], [[]], .eq (.column "s" "seller") (.column "u2" "id")⟩
      ⟨⟨[], "s", "sales"⟩, "seller", ⟨[], "u2", "users"⟩, "id"⟩ :=
    ⟨List.mem_of_getElem? (i := 8) rfl, by decide +kernel⟩
  rcases (distinct_of_apart h).single _ _ _ _ hbuyer hseller (by decide) rfl with ⟨-, hright⟩ | ⟨hleft, -⟩
  · exact absurd (congrArg Ref.called hright) (by decide)
  · exact absurd (congrArg Ref.called hleft) (by decide)

end SynnoDB.Workload.Downscale
