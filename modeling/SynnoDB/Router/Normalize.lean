import SynnoDB.Lib.Dict
import SynnoDB.Router.Registry
import SynnoDB.Router.Statement

/-!
# Keys and binding (`router/normalize.py`, `guards.py:61-105`, `router.py:151-202`)

Every function keeps its source name. `render` is `Expression.sql`, used where a value is no constant.
`unify` and `record` thread the dictionary that the source mutates. The two renamings of a `?` (`:synpN`,
`__grpN`) are its number here, so `unifyAndBind` answers the dictionary of `_unify` itself; the names they
reserve are taken to be unused by the template.
-/

namespace SynnoDB.Router

/-- The single placeholder token of a key. -/
def hole : Expr Unit := .placeholder (.bare 0)

namespace Expr

variable {κ : Type}

/-! ## The structural key -/

/-- `_placeholder(m) is not m`. -/
def collapses : Statement → Bool
  | .const _ | .placeholder _ | .parameter _ => true
  | .cast (.const _) _ | .cast (.placeholder _) _ => true
  | .neg (.const l) => l.isLiteral
  | .neg (.placeholder _) => true
  | _ => false

mutual
/-- The tree `normalize_sql` renders. -/
def normalize : Statement → Expr Unit
  | .const _ | .placeholder _ | .parameter _ => hole
  | .paren e => .paren (normalize e)
  | .neg e => if collapses (.neg e) then hole else .neg (normalize e)
  | .cast e ty => if collapses (.cast e ty) then hole else .cast (normalize e) (ty.map fun _ => ())
  | .isIn e ms => .isIn (normalize e) (if ms ≠ [] ∧ ms.all collapses then [hole] else normalizeL ms)
  | .inField e (.placeholder _) => .isIn (normalize e) [hole]
  | .inField e f => .inField (normalize e) (normalize f)
  | .node h args => .node h (normalizeL args)
def normalizeL : List Statement → List (Expr Unit)
  | [] => []
  | e :: es => normalize e :: normalizeL es
end

mutual
/-- Equality of trees, as `same_statement` compares them. -/
def sameStatement : Statement → Statement → Bool
  | .const k, .const l => k = l
  | .placeholder m, .placeholder m' => m = m'
  | .parameter n, .parameter n' => n = n'
  | .paren a, .paren b | .neg a, .neg b => sameStatement a b
  | .cast a ty, .cast b ty' => sameStatement a b && ty = ty'
  | .isIn a ms, .isIn b ns => sameStatement a b && sameStatementL ms ns
  | .inField a f, .inField b g => sameStatement a b && sameStatement f g
  | .node h as, .node h' bs => h = h' && sameStatementL as bs
  | _, _ => false
def sameStatementL : List Statement → List Statement → Bool
  | [], [] => true
  | a :: as, b :: bs => sameStatement a b && sameStatementL as bs
  | _, _ => false
end

mutual
theorem sameStatement_eq : ∀ {a b : Statement}, sameStatement a b = true → a = b
  | .const _, b, h => by cases b <;> simp_all [sameStatement]
  | .placeholder _, b, h => by cases b <;> simp_all [sameStatement]
  | .parameter _, b, h => by cases b <;> simp_all [sameStatement]
  | .paren a, b, h => by
    cases b <;> simp only [sameStatement, Bool.false_eq_true] at h
    rw [sameStatement_eq h]
  | .neg a, b, h => by
    cases b <;> simp only [sameStatement, Bool.false_eq_true] at h
    rw [sameStatement_eq h]
  | .cast a ty, b, h => by
    cases b <;> simp only [sameStatement, Bool.false_eq_true, Bool.and_eq_true, decide_eq_true_eq] at h
    rw [sameStatement_eq h.1, h.2]
  | .isIn a ms, b, h => by
    cases b <;> simp only [sameStatement, Bool.false_eq_true, Bool.and_eq_true] at h
    rw [sameStatement_eq h.1, sameStatementL_eq h.2]
  | .inField a f, b, h => by
    cases b <;> simp only [sameStatement, Bool.false_eq_true, Bool.and_eq_true] at h
    rw [sameStatement_eq h.1, sameStatement_eq h.2]
  | .node _ as, b, h => by
    cases b <;> simp only [sameStatement, Bool.false_eq_true, Bool.and_eq_true, decide_eq_true_eq] at h
    rw [h.1, sameStatementL_eq h.2]
theorem sameStatementL_eq : ∀ {as bs : List Statement}, sameStatementL as bs = true → as = bs
  | [], bs, h => by cases bs <;> simp_all [sameStatementL]
  | a :: as, bs, h => by
    cases bs <;> simp only [sameStatementL, Bool.false_eq_true, Bool.and_eq_true] at h
    rw [sameStatement_eq h.1, sameStatementL_eq h.2]
end

/-! ## Reading constants out of a statement -/

def extractLiterals (e : Statement) : List Const := e.walk.map Lit.value

/-- `find_all(exp.Literal)`. -/
def literals (e : Statement) : List Lit := e.constants.filter Lit.isLiteral

def isConstant : Expr κ → Bool
  | .const _ | .cast (.const _) _ => true
  | .neg e => isConstant e
  | _ => false

mutual
def inArities : Expr κ → List (List Nat)
  | .const _ | .placeholder _ | .parameter _ => []
  | .paren e | .neg e | .cast e _ => [] :: inArities e
  | .isIn e ms =>
    (if ms ≠ [] ∧ ms.all isConstant then [ms.length] else []) :: joinLevels (inArities e) (inAritiesL ms)
  | .inField e f => [] :: joinLevels (inArities e) (inArities f)
  | .node _ args => [] :: inAritiesL args
def inAritiesL : List (Expr κ) → List (List Nat)
  | [] => []
  | e :: es => joinLevels (inArities e) (inAritiesL es)
end

/-- `constant_in_arities`, in tree order. -/
def constantInArities (e : Expr κ) : List Nat := (inArities e).flatten

mutual
/-- The markers in text order. -/
def markers : Expr κ → List Marker
  | .const _ => []
  | .placeholder m => [m]
  | .parameter n => [.named n]
  | .paren e | .neg e | .cast e _ => markers e
  | .isIn e ms => markers e ++ markersL ms
  | .inField e f => markers e ++ markers f
  | .node _ args => markersL args
def markersL : List (Expr κ) → List Marker
  | [] => []
  | e :: es => markers e ++ markersL es
end

def hasParamMarkers (e : Expr κ) : Bool := markers e ≠ []

/-- How many `?` the text has. -/
def bareMarkers (e : Expr κ) : Nat := (markers e).countP fun m => match m with
  | .bare _ => true
  | .named _ => false

/-- `_value_of`. -/
def valueOf (render : Statement → String) : Statement → Const
  | .const k => k.value
  | .paren e => valueOf render e
  | .neg e => match (valueOf render e).neg with
    | some v => v
    | none => .str (render (.neg e))
  | e => match literals e with
    | [k] => k.value
    | _ => .str (render e)

def unparen : Expr κ → Expr κ
  | .paren e => unparen e
  | e => e

/-- NULL and boolean members of an IN list do not route. -/
def hasNullOrBoolean (e : Statement) : Bool := e.constants.any fun k => !k.isLiteral

end Expr

/-! ## Unification -/

abbrev Bound := Dict Marker PyValue

/-- `_loose_eq`. -/
def looseEq (a b : PyValue) : Bool := a.pyEq b || a.pyStr = b.pyStr

section
variable {κ : Type} [DecidableEq κ]

/-- `_record`, and the inner loop of `merge_split`. -/
def record (k : κ) (v : PyValue) (bound : Dict κ PyValue) : Option (Dict κ PyValue) :=
  match bound.get k with
  | some w => if looseEq w v then some (bound.set k v) else none
  | none => some (bound.set k v)

def recordAll : List (κ × PyValue) → Dict κ PyValue → Option (Dict κ PyValue)
  | [], bound => some bound
  | (k, v) :: rest, bound => (record k v bound).bind (recordAll rest)

theorem record_eq {k : κ} {v : PyValue} {bound bound' : Dict κ PyValue} (h : record k v bound = some bound') :
    bound' = bound.set k v := by
  unfold record at h
  split at h
  · simp only [Option.ite_none_right_eq_some, Option.some.injEq] at h
    exact h.2.symm
  · cases h; rfl

theorem recordAll_append (as bs : List (κ × PyValue)) (bound : Dict κ PyValue) :
    recordAll (as ++ bs) bound = (recordAll as bound).bind (recordAll bs) := by
  induction as generalizing bound with
  | nil => rfl
  | cons p as ih =>
    rw [List.cons_append, recordAll, recordAll, Option.bind_assoc]
    congr 1
    funext d
    exact ih d

theorem recordAll_get_of_notMem {k : κ} : ∀ {items : List (κ × PyValue)} {bound bound' : Dict κ PyValue},
    k ∉ items.map Prod.fst → recordAll items bound = some bound' → bound'.get k = bound.get k
  | [], _, _, _, h => by cases h; rfl
  | (j, v) :: items, bound, bound', hk, h => by
    simp only [List.map_cons, List.mem_cons, not_or] at hk
    obtain ⟨d, hd, h⟩ := Option.bind_eq_some_iff.1 h
    rw [recordAll_get_of_notMem hk.2 h, record_eq hd, Dict.get_set, if_neg (Ne.symm hk.1)]

/-- A key that is always given the same value has it in the end. -/
theorem recordAll_get {k : κ} {v : PyValue} : ∀ {items : List (κ × PyValue)} {bound bound' : Dict κ PyValue},
    recordAll items bound = some bound' → (k, v) ∈ items → (∀ w, (k, w) ∈ items → w = v) → bound'.get k = some v
  | [], _, _, _, hm, _ => by cases hm
  | (j, w) :: items, bound, bound', h, hm, hall => by
    obtain ⟨d, hd, hrest⟩ := Option.bind_eq_some_iff.1 h
    by_cases hk : (k, v) ∈ items
    · exact recordAll_get hrest hk fun w hw => hall w (List.mem_cons_of_mem _ hw)
    · rcases List.mem_cons.1 hm with heq | hm
      · cases heq
        have hnot : k ∉ items.map Prod.fst := by
          rintro hmem
          obtain ⟨⟨k', w⟩, hw, rfl⟩ := List.mem_map.1 hmem
          have := hall w (List.mem_cons_of_mem _ hw)
          exact hk (this ▸ hw)
        rw [recordAll_get_of_notMem hnot hrest, record_eq hd, Dict.get_set, if_pos rfl]
      · exact absurd hm hk

end

namespace Expr

variable (render : Statement → String)

mutual
/-- `_unify`: the template, the incoming statement, the names bound so far. -/
def unify : Statement → Statement → Bound → Option Bound
  | .paren t, i, bound => unify t i bound
  | .placeholder m, i, bound => record m (.one (valueOf render i)) bound
  | .parameter n, i, bound => record (.named n) (.one (valueOf render i)) bound
  | .const k, i, bound => match unparen i with
    | .const l => if k = l then some bound else none
    | _ => none
  | .neg t, i, bound => match unparen i with
    | .neg i => unify t i bound
    | _ => none
  | .cast t ty, i, bound => match unparen i with
    | .cast i ty' => if ty = ty' then unify t i bound else none
    | _ => none
  | .isIn t ts, i, bound => match unparen i with
    | .isIn i is => (unify t i bound).bind (unifyL ts is)
    | _ => none
  | .inField t f, i, bound => match unparen i, f with
    | .isIn i ms, .placeholder m =>
      if ms ≠ [] ∧ ms.all isConstant ∧ ms.any hasNullOrBoolean = false then
        (unify t i bound).bind (record m (.tuple (ms.map (valueOf render))))
      else none
    | .inField i g, f => (unify t i bound).bind (unify f g)
    | _, _ => none
  | .node h ts, i, bound => match unparen i with
    | .node h' is => if h = h' then unifyL ts is bound else none
    | _ => none
def unifyL : List Statement → List Statement → Bound → Option Bound
  | [], [], bound => some bound
  | t :: ts, i :: is, bound => (unify t i bound).bind (unifyL ts is)
  | _, _, _ => none
end

end Expr

/-- `unify_and_bind` for `n` positional names. -/
def unifyAndBind (render : Statement → String) (template incoming : Statement) (n : Nat) : Option Bound :=
  if template.bareMarkers = n then Expr.unify render template incoming [] else none

/-! ## Binding groups -/

abbrev Group := List PlaceholderSpec

def addToGroups (groups : List Group) (s : PlaceholderSpec) : List Group :=
  match groups.getLast? with
  | some g =>
    if 0 ≤ s.group ∧ g.head?.map PlaceholderSpec.group = some s.group then groups.dropLast ++ [g ++ [s]]
    else groups ++ [[s]]
  | none => [[s]]

def bindingGroups (specs : List PlaceholderSpec) : List Group := specs.foldl addToGroups []

/-- A parameter that is a whole literal. -/
def Group.plain? : Group → Option PlaceholderSpec
  | [s] => if s.affixPrefix = "" ∧ s.affixSuffix = "" then some s else none
  | _ => none

def stripConst (c text : List Char) : Option (List Char) :=
  if text.take c.length = c then some (text.drop c.length) else none

/-- `([^%_]*)c₁([^%_]*)c₂…` up to the end: each core as long as the rest allows. -/
def matchCores : List (List Char) → List Char → Option (List (List Char))
  | [], text => if text = [] then some [] else none
  | c :: cs, text =>
    let free := (text.takeWhile fun d => d ≠ '%' ∧ d ≠ '_').length
    (List.range (free + 1)).reverse.findSome? fun k =>
      ((stripConst c (text.drop k)).bind (matchCores cs)).map (text.take k :: ·)

/-- The constants of a group's literal: before the first parameter, after each of them. -/
def Group.consts (group : Group) : List Char × List (List Char) :=
  ((group.head?.map fun s => s.affixPrefix.toList).getD [], group.map fun s => s.affixSuffix.toList)

/-- The cores under their names; a name used twice must have one core. -/
def collectCores : List (String × String) → Dict String PyValue → Option (Dict String PyValue)
  | [], out => some out
  | (name, core) :: rest, out => match out.get name with
    | some w => if w = .one (.str core) then collectCores rest (out.set name (.one (.str core))) else none
    | none => collectCores rest (out.set name (.one (.str core)))

def splitLiteral (value : PyValue) (group : Group) : Option (Dict String PyValue) :=
  match group.plain?, value with
  | some s, v => some [(s.name, v)]
  | none, .one (.str text) =>
    ((stripConst group.consts.1 text.toList).bind (matchCores group.consts.2)).bind fun cores =>
      collectCores ((group.map PlaceholderSpec.name).zip (cores.map String.ofList)) []
  | none, _ => none

def mergeSplit : List Group → List PyValue → Dict String PyValue → Option (Dict String PyValue)
  | g :: gs, v :: vs, out => (splitLiteral v g).bind fun parts => (recordAll parts out).bind (mergeSplit gs vs)
  | _, _, out => some out

def bindTemplate (render : Statement → String) (template incoming : Statement) (specs : List PlaceholderSpec) :
    Option (Dict String PyValue) :=
  let groups := bindingGroups specs
  (unifyAndBind render template incoming groups.length).bind fun raw =>
    ((List.range groups.length).mapM fun i => raw.get (.bare i)).bind fun values => mergeSplit groups values []

/-! ## The router's guard and binder -/

/-- The `parameters` argument; a scalar is a list of one. -/
inductive Parameters where
  | absent
  | mapping
  | positional (values : List PyValue)
deriving DecidableEq, Repr

def arityDetail (actual expected : Nat) : Bool × String :=
  if actual = expected then (true, toString actual ++ " placeholders")
  else (false, "placeholder arity " ++ toString actual ++ " != expected " ++ toString expected)

/-- `placeholder_arity_guard`, from `if not expected` on. -/
def inlineArityGuard (template : Option Statement) (expected : Nat) (sql : Statement) : Bool × String :=
  if expected = 0 then
    match template with
    | none => (false, "constant template with no template_sql to compare against")
    | some t =>
      if sql.sameStatement t then (true, "constant template, exact statement match")
      else (false, "constant template serves only its exact statement")
  else if template.any Expr.hasParamMarkers then (true, "structural bind")
  else arityDetail sql.extractLiterals.length expected

def placeholderArityGuard (template : Option Statement) (specs : List PlaceholderSpec) (sql : Statement)
    (parameters : Parameters) : Bool × String :=
  let expected := (bindingGroups specs).length
  match parameters with
  | .absent => inlineArityGuard template expected sql
  | .mapping => (false, "named (dict) parameters bind by name, not position; not routable")
  | .positional vs =>
    if vs.length = expected ∧ expected = 0 then inlineArityGuard template expected sql
    else arityDetail vs.length expected

/-- The positional path: the `i`-th literal of the walk under the `i`-th name. -/
def bindPositional (template : Option Statement) (sql : Statement) (specs : List PlaceholderSpec) :
    Option (Dict String PyValue) :=
  if specs.any fun s => s.affixPrefix ≠ "" ∨ s.affixSuffix ≠ "" ∨ 0 ≤ s.group then none
  else
    let arities := sql.constantInArities
    if arities ≠ [] ∧ template.map Expr.constantInArities ≠ some arities then none
    else
      some (Dict.ofItems (specs.zipIdx.map fun p =>
        (p.1.name, (sql.extractLiterals[p.2]?.map .one).getD (.one .null))))

/-- `_bind_placeholders`. -/
def bindPlaceholders (render : Statement → String) (template : Option Statement) (specs : List PlaceholderSpec)
    (sql : Statement) : Parameters → Option (Dict String PyValue)
  | .positional vs =>
    let groups := bindingGroups specs
    if vs.length = groups.length then mergeSplit groups vs [] else none
  | .mapping => none
  | .absent => match template with
    | some t => if t.hasParamMarkers then bindTemplate render t sql specs else bindPositional template sql specs
    | none => bindPositional template sql specs

/-- Guard and binder together: what the engine is called with. -/
def routeBind (render : Statement → String) (template : Option Statement) (specs : List PlaceholderSpec)
    (sql : Statement) (parameters : Parameters) : Option (Dict String PyValue) :=
  if (placeholderArityGuard template specs sql parameters).1 then
    bindPlaceholders render template specs sql parameters
  else none

end SynnoDB.Router
