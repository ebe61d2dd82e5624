import SynnoDB.Router.Normalize

/-!
# Binding by position (`router.py:182-202`, `normalize.py:443-482`)

A template without markers is bound by the order in which `extract_literals` walks the incoming statement.
The walk goes level by level, and a minus sign is a node of its own above the literal. So the `i`-th value
is the `i`-th constant of the text exactly when no literal stands under a minus sign and the walk meets the
literals in text order (`positional_sound_iff`); `a = 1 AND b = 2 AND c = 3` is met in the order 3, 1, 2.
-/

namespace SynnoDB.Router

namespace Expr

variable {κ μ : Type}

/-! ## The constants of the text with their signs -/

/-- A constant under parentheses and minus signs; `true` for an odd number of signs. -/
def signedAtom : Expr κ → Option (Bool × κ)
  | .const k => some (false, k)
  | .paren e => signedAtom e
  | .neg e => (signedAtom e).map fun p => (!p.1, p.2)
  | _ => none

mutual
/-- The constants in text order, each with its sign. -/
def signedConstants : Expr κ → List (Bool × κ)
  | .const k => [(false, k)]
  | .placeholder _ | .parameter _ => []
  | .paren e => signedConstants e
  | .neg e => match signedAtom (.neg e) with
    | some p => [p]
    | none => signedConstants e
  | .cast e ty => signedConstants e ++ ty.params.map fun k => (false, k)
  | .isIn e ms => signedConstants e ++ signedConstantsL ms
  | .inField e f => signedConstants e ++ signedConstants f
  | .node _ args => signedConstantsL args
def signedConstantsL : List (Expr κ) → List (Bool × κ)
  | [] => []
  | e :: es => signedConstants e ++ signedConstantsL es
end

/-- No constant has a minus sign. -/
def SignFree (e : Expr κ) : Prop := ∀ p ∈ signedConstants e, p.1 = false

theorem signedAtom_constants : ∀ {e : Expr κ} {p : Bool × κ}, signedAtom e = some p → constants e = [p.2]
  | .const _, _, h => by cases h; rfl
  | .paren e, _, h => signedAtom_constants (e := e) h
  | .neg e, _, h => by
    simp only [signedAtom, Option.map_eq_some_iff] at h
    obtain ⟨q, hq, rfl⟩ := h
    have h : constants e = [q.2] := signedAtom_constants hq
    exact h

mutual
theorem signedConstants_snd : ∀ e : Expr κ, (signedConstants e).map Prod.snd = constants e
  | .const _ | .placeholder _ | .parameter _ => rfl
  | .paren e => signedConstants_snd e
  | .neg e => by
    rw [signedConstants]
    split
    · rename_i p hp
      exact (signedAtom_constants hp).symm
    · exact signedConstants_snd e
  | .cast e ty => by
    simp [signedConstants, constants, signedConstants_snd e, Function.comp_def]
  | .isIn e ms => by simp [signedConstants, constants, signedConstants_snd e, signedConstantsL_snd ms]
  | .inField e f => by simp [signedConstants, constants, signedConstants_snd e, signedConstants_snd f]
  | .node _ args => signedConstantsL_snd args
theorem signedConstantsL_snd : ∀ es : List (Expr κ), (signedConstantsL es).map Prod.snd = constantsL es
  | [] => rfl
  | e :: es => by simp [signedConstantsL, constantsL, signedConstants_snd e, signedConstantsL_snd es]
end

theorem signedAtom_map (f : κ → μ) : ∀ e : Expr κ, signedAtom (map f e) = (signedAtom e).map (Prod.map id f)
  | .const _ => rfl
  | .paren e => signedAtom_map f e
  | .neg e => by simp [map, signedAtom, signedAtom_map f e, Function.comp_def]
  | .placeholder _ | .parameter _ | .cast _ _ | .isIn _ _ | .inField _ _ | .node _ _ => rfl

mutual
theorem signedConstants_map (f : κ → μ) : ∀ e : Expr κ,
    signedConstants (map f e) = (signedConstants e).map (Prod.map id f)
  | .const _ | .placeholder _ | .parameter _ => rfl
  | .paren e => signedConstants_map f e
  | .neg e => by
    have h := signedAtom_map f (.neg e)
    simp only [map] at h
    simp only [map, signedConstants, h]
    cases signedAtom (.neg e) with
    | none => exact signedConstants_map f e
    | some p => rfl
  | .cast e ty => by simp [map, signedConstants, signedConstants_map f e, SqlType.map, Function.comp_def]
  | .isIn e ms => by simp [map, signedConstants, signedConstants_map f e, signedConstants_mapL f ms]
  | .inField e g => by simp [map, signedConstants, signedConstants_map f e, signedConstants_map f g]
  | .node _ args => signedConstants_mapL f args
theorem signedConstants_mapL (f : κ → μ) : ∀ es : List (Expr κ),
    signedConstantsL (mapL f es) = (signedConstantsL es).map (Prod.map id f)
  | [] => rfl
  | e :: es => by simp [mapL, signedConstantsL, signedConstants_map f e, signedConstants_mapL f es]
end

theorem isConstant_map (f : κ → μ) : ∀ e : Expr κ, isConstant (map f e) = isConstant e
  | .const _ => rfl
  | .neg e => isConstant_map f e
  | .cast e ty => by cases e <;> rfl
  | .paren _ | .placeholder _ | .parameter _ | .isIn _ _ | .inField _ _ | .node _ _ => rfl

theorem isConstant_mapL (f : κ → μ) : ∀ es : List (Expr κ), (mapL f es).all isConstant = es.all isConstant
  | [] => rfl
  | e :: es => by simp [mapL, isConstant_map f e, isConstant_mapL f es]

theorem length_mapL (f : κ → μ) : ∀ es : List (Expr κ), (mapL f es).length = es.length
  | [] => rfl
  | e :: es => by simp [mapL, length_mapL f es]

mutual
theorem inArities_map (f : κ → μ) : ∀ e : Expr κ, inArities (map f e) = inArities e
  | .const _ | .placeholder _ | .parameter _ => rfl
  | .paren e | .neg e => by simp [map, inArities, inArities_map f e]
  | .cast e ty => by simp [map, inArities, inArities_map f e]
  | .isIn e ms => by
    have hne : mapL f ms ≠ [] ↔ ms ≠ [] := by
      rw [← List.length_pos_iff, ← List.length_pos_iff, length_mapL]
    simp only [map, inArities, inArities_map f e, inArities_mapL f ms, hne, isConstant_mapL, length_mapL]
  | .inField e g => by simp [map, inArities, inArities_map f e, inArities_map f g]
  | .node _ args => by simp [map, inArities, inArities_mapL f args]
theorem inArities_mapL (f : κ → μ) : ∀ es : List (Expr κ), inAritiesL (mapL f es) = inAritiesL es
  | [] => rfl
  | e :: es => by simp [mapL, inAritiesL, inArities_map f e, inArities_mapL f es]
end

theorem constantInArities_map (f : κ → μ) (e : Expr κ) : constantInArities (map f e) = constantInArities e := by
  rw [constantInArities, inArities_map, constantInArities]

end Expr

/-! ## What should be bound -/

def signedValue (negative : Bool) (c : Const) : Const := if negative then c.minus.getD c else c

/-- The constant at the position of the template's `i`-th literal. -/
def constantAt (sql : Statement) (i : Nat) : Option PyValue :=
  sql.signedConstants[i]?.map fun p => .one (signedValue p.1 p.2.value)

/-- Every parameter of a statement is bound to the constant that stands for it. -/
def BoundInOrder (specs : List PlaceholderSpec) (sql : Statement) (bound : Dict String PyValue) : Prop :=
  ∀ i s, specs[i]? = some s → bound.get s.name = constantAt sql i

/-! ## Statements of one shape -/

variable {render : Statement → String} {t sql sql' : Statement} {specs : List PlaceholderSpec}
  {bound : Dict String PyValue}

/-- Two statements that differ in their constants only are the two images of one shape. -/
theorem shape_cases (h : sql'.shape = sql.shape) : ∃ g : Nat → Lit, sql' = sql.shape.map g := by
  have : Inhabited Lit := ⟨.null⟩
  obtain ⟨g, hg⟩ := Expr.exists_map_shape sql'
  exact ⟨g, by rw [← h, hg]⟩

theorem constantInArities_shape (h : sql'.shape = sql.shape) : sql'.constantInArities = sql.constantInArities := by
  obtain ⟨g, hg⟩ := shape_cases h
  obtain ⟨f, hf⟩ := shape_cases (rfl : sql.shape = sql.shape)
  rw [hg, Expr.constantInArities_map]
  conv_rhs => rw [hf, Expr.constantInArities_map]

theorem walk_length_shape (sql : Statement) : sql.walk.length = sql.shape.walk.length := by
  obtain ⟨f, hf⟩ := shape_cases (rfl : sql.shape = sql.shape)
  conv_lhs => rw [hf, Expr.walk_map, List.length_map]

/-! ## The binder -/

theorem length_addToGroups {groups : List Group} {s : PlaceholderSpec} (h : s.group < 0) :
    (addToGroups groups s).length = groups.length + 1 := by
  have hs : ¬ 0 ≤ s.group := by omega
  unfold addToGroups
  cases hg : groups.getLast? with
  | none => simp [List.getLast?_eq_none_iff.1 hg]
  | some g => simp [hs]

theorem bindingGroups_singletons (h : ∀ s ∈ specs, s.group < 0) : (bindingGroups specs).length = specs.length := by
  have key : ∀ (specs : List PlaceholderSpec) (groups : List Group), (∀ s ∈ specs, s.group < 0) →
      (specs.foldl addToGroups groups).length = groups.length + specs.length := by
    intro specs
    induction specs with
    | nil => intro groups _; rfl
    | cons s specs ih =>
      intro groups h
      rw [List.foldl_cons, ih _ fun s' hs' => h s' (List.mem_cons_of_mem _ hs'),
        length_addToGroups (h s (List.mem_cons_self ..)), List.length_cons]
      omega
  rw [bindingGroups, key specs [] h, List.length_nil, Nat.zero_add]

/-- What a successful positional bind says. -/
structure Positional (t sql : Statement) (specs : List PlaceholderSpec) : Prop where
  plain : ∀ s ∈ specs, s.affixPrefix = "" ∧ s.affixSuffix = "" ∧ s.group < 0
  count : sql.walk.length = specs.length
  arities : sql.constantInArities ≠ [] → t.constantInArities = sql.constantInArities

def positionalItems (specs : List PlaceholderSpec) (sql : Statement) : List (String × PyValue) :=
  specs.zipIdx.map fun p => (p.1.name, (sql.extractLiterals[p.2]?.map .one).getD (.one .null))

theorem routeBind_positional (ht : t.hasParamMarkers = false) (hne : specs ≠ []) :
    routeBind render (some t) specs sql .absent = some bound ↔
      Positional t sql specs ∧ bound = Dict.ofItems (positionalItems specs sql) := by
  have hguard : (∀ s ∈ specs, s.affixPrefix = "" ∧ s.affixSuffix = "" ∧ s.group < 0) →
      ((placeholderArityGuard (some t) specs sql .absent).1 = true ↔ sql.walk.length = specs.length) := by
    intro hp
    have hlen := bindingGroups_singletons fun s hs => (hp s hs).2.2
    have h0 : specs.length ≠ 0 := by simpa using hne
    simp only [placeholderArityGuard, inlineArityGuard, hlen, h0, if_false, Option.any_some, ht, Bool.false_eq_true,
      arityDetail, Expr.extractLiterals, List.length_map]
    split
    · rename_i h; simp [h]
    · rename_i h; simp [h]
  have hbind : bindPlaceholders render (some t) specs sql .absent = bindPositional (some t) sql specs := by
    simp [bindPlaceholders, ht]
  unfold routeBind
  rw [hbind]
  constructor
  · intro h
    simp only [Option.ite_none_right_eq_some, bindPositional, Option.ite_none_left_eq_some, List.any_eq_true,
      not_exists, not_and, decide_eq_true_eq, not_or, Option.map_some, ne_eq, Option.some.injEq, not_not] at h
    obtain ⟨hg, hp, ha, rfl⟩ := h
    have hp : ∀ s ∈ specs, s.affixPrefix = "" ∧ s.affixSuffix = "" ∧ s.group < 0 := fun s hs =>
      ⟨(hp s hs).1, (hp s hs).2.1, by have := (hp s hs).2.2; omega⟩
    exact ⟨⟨hp, (hguard hp).1 hg, fun h => ha h⟩, rfl⟩
  · rintro ⟨⟨hp, hcount, ha⟩, rfl⟩
    rw [if_pos ((hguard hp).2 hcount)]
    have hany : (specs.any fun s => s.affixPrefix ≠ "" ∨ s.affixSuffix ≠ "" ∨ 0 ≤ s.group) = false := by
      rw [List.any_eq_false]
      intro s hs
      have := hp s hs
      simp [this.1, this.2.1, this.2.2]
    have har : ¬ (sql.constantInArities ≠ [] ∧ some t.constantInArities ≠ some sql.constantInArities) := by
      rintro ⟨h1, h2⟩
      exact h2 (by rw [ha h1])
    simp only [bindPositional, hany, Bool.false_eq_true, if_false, Option.map_some]
    rw [if_neg har]
    rfl

/-- Statements of one shape are bound alike. -/
theorem Positional.congr (h : Positional t sql specs) (hs : sql'.shape = sql.shape) : Positional t sql' specs where
  plain := h.plain
  count := by rw [walk_length_shape, hs, ← walk_length_shape, h.count]
  arities := by rw [constantInArities_shape hs]; exact h.arities

theorem positionalItems_names : (positionalItems specs sql).map Prod.fst = specs.map PlaceholderSpec.name := by
  rw [positionalItems, List.map_map]
  have h : Prod.fst ∘ (fun p : PlaceholderSpec × Nat => (p.1.name, (sql.extractLiterals[p.2]?.map PyValue.one).getD
      (.one .null))) = PlaceholderSpec.name ∘ Prod.fst := rfl
  rw [h, ← List.map_map, List.zipIdx_map_fst]

/-- With distinct names the `i`-th name has the `i`-th value of the walk. -/
theorem get_positional (hn : (specs.map PlaceholderSpec.name).Nodup) (hcount : sql.walk.length = specs.length)
    {i : Nat} {s : PlaceholderSpec} (hs : specs[i]? = some s) :
    (Dict.ofItems (positionalItems specs sql)).get s.name = sql.walk[i]?.map fun k => .one k.value := by
  have hi : i < sql.walk.length := by
    rw [hcount]
    exact (List.getElem?_eq_some_iff.1 hs).1
  have hmem : (s.name, PyValue.one sql.walk[i].value) ∈ positionalItems specs sql := by
    refine List.mem_map.2 ⟨(s, i), ?_, ?_⟩
    · rwa [List.mem_zipIdx_iff_getElem?]
    · simp [Expr.extractLiterals, List.getElem?_eq_getElem hi]
  rw [Dict.get_ofItems (positionalItems_names ▸ hn) hmem, List.getElem?_eq_getElem hi]
  rfl

/-! ## Numbers that tell the positions apart -/

/-- `1`, `11`, `111`, … -/
def ones (k : Nat) : List Char := List.replicate (k + 1) '1'

theorem digitsValue_concat (cs : List Char) (c : Char) :
    digitsValue (cs ++ [c]) = 10 * digitsValue cs + (c.toNat - 48) := by
  simp [digitsValue]

theorem ones_lt (k : Nat) : digitsValue (ones k) < digitsValue (ones (k + 1)) := by
  have h : ones (k + 1) = ones k ++ ['1'] := List.replicate_succ'
  rw [h, digitsValue_concat]
  have : ('1' : Char).toNat - 48 = 1 := rfl
  omega

theorem ones_strictMono : StrictMono fun k => digitsValue (ones k) := strictMono_nat_of_lt_succ ones_lt

theorem ones_pos (k : Nat) : 0 < digitsValue (ones k) := by
  have h0 : 0 < digitsValue (ones 0) := by decide
  have h := ones_strictMono.monotone (Nat.zero_le k)
  exact Nat.lt_of_lt_of_le h0 h

def onesLit (k : Nat) : Lit := .literal false (String.ofList (ones k))

theorem onesLit_value (k : Nat) : (onesLit k).value = .int (digitsValue (ones k)) := by
  have hne : ones k ≠ [] := by simp [ones]
  have hall : (ones k).all Char.isDigit = true := by simp [ones]
  simp [onesLit, Lit.value, numberValue, hne, hall]

/-- With their signs these numbers are all different. -/
theorem signedValue_ones {j k : Nat} {b b' : Bool}
    (h : signedValue b (onesLit j).value = signedValue b' (onesLit k).value) : b = b' ∧ j = k := by
  have hj := ones_pos j
  have hk := ones_pos k
  rw [onesLit_value, onesLit_value] at h
  have hinj : digitsValue (ones j) = digitsValue (ones k) → j = k := fun h => ones_strictMono.injective h
  cases b <;> cases b' <;>
    simp only [signedValue, Bool.false_eq_true, if_true, if_false, Const.minus, Option.getD_some, Const.int.injEq] at h
  · exact ⟨rfl, hinj (by omega)⟩
  · omega
  · omega
  · exact ⟨rfl, hinj (by omega)⟩

theorem signed_ones_inj {ws : List Nat} {ps : List (Bool × Nat)} (h : ws.map (fun k => (onesLit k).value) =
    ps.map fun p => signedValue p.1 (onesLit p.2).value) : ws = ps.map Prod.snd ∧ ∀ p ∈ ps, p.1 = false := by
  induction ps generalizing ws with
  | nil => simpa using h
  | cons p ps ih =>
    cases ws with
    | nil => cases h
    | cons k ws =>
      simp only [List.map_cons, List.cons.injEq] at h
      obtain ⟨hb, rfl⟩ := signedValue_ones (b := false) h.1
      obtain ⟨rfl, hps⟩ := ih h.2
      exact ⟨rfl, List.forall_mem_cons.2 ⟨hb.symm, hps⟩⟩

/-! ## When the binder is right -/

/-- Text order, in a statement without signs. -/
theorem constantAt_eq (hsign : sql.shape.SignFree) (horder : sql.shape.walk = sql.shape.constants) (i : Nat) :
    constantAt sql i = sql.walk[i]?.map fun k => .one k.value := by
  obtain ⟨g, hg⟩ := shape_cases (rfl : sql.shape = sql.shape)
  have hwalk : sql.walk = sql.shape.signedConstants.map fun p => g p.2 := by
    conv_lhs => rw [hg, Expr.walk_map, horder, ← Expr.signedConstants_snd, List.map_map]
    rfl
  have hsc : sql.signedConstants = sql.shape.signedConstants.map (Prod.map id g) := by
    conv_lhs => rw [hg, Expr.signedConstants_map]
  rw [constantAt, hwalk, hsc, List.getElem?_map, List.getElem?_map, Option.map_map, Option.map_map]
  cases hp : sql.shape.signedConstants[i]? with
  | none => rfl
  | some p =>
    have hb := hsign p (List.mem_of_getElem? hp)
    simp [signedValue, hb]

/-- Statements of the shape of `sql` are bound in order, and two of them to the same values only if they have
the same constants. -/
structure ShapeSound (render : Statement → String) (t : Statement) (specs : List PlaceholderSpec) (sql : Statement) :
    Prop where
  inOrder : ∀ sql' bound, sql'.shape = sql.shape → routeBind render (some t) specs sql' .absent = some bound →
    BoundInOrder specs sql' bound
  same : ∀ sql₁ sql₂ bound, sql₁.shape = sql.shape → sql₂.shape = sql.shape →
    routeBind render (some t) specs sql₁ .absent = some bound →
    routeBind render (some t) specs sql₂ .absent = some bound →
    sql₁.constants.map Lit.value = sql₂.constants.map Lit.value

/-- Right binding decides the constants. -/
theorem constants_of_bound {sql₁ sql₂ : Statement} (hsign : sql.shape.SignFree)
    (horder : sql.shape.walk = sql.shape.constants) (h1 : sql₁.shape = sql.shape) (h2 : sql₂.shape = sql.shape)
    (hcount : sql.walk.length = specs.length) (hb1 : BoundInOrder specs sql₁ bound)
    (hb2 : BoundInOrder specs sql₂ bound) : sql₁.constants.map Lit.value = sql₂.constants.map Lit.value := by
  have hlen : ∀ sql' : Statement, sql'.shape = sql.shape → sql'.constants.length = specs.length := by
    intro sql' hs
    rw [← (Expr.walk_perm _).length_eq, walk_length_shape, hs, ← walk_length_shape, hcount]
  have hwalk : ∀ sql' : Statement, sql'.shape = sql.shape → sql'.walk = sql'.constants := by
    intro sql' hs
    obtain ⟨g, hg⟩ := shape_cases hs
    rw [hg, Expr.walk_map, horder, Expr.constants_map]
  refine List.ext_getElem? fun i => ?_
  by_cases hi : i < specs.length
  · have h := (hb1 i _ (List.getElem?_eq_getElem hi)).symm.trans (hb2 i _ (List.getElem?_eq_getElem hi))
    rw [constantAt_eq (h1 ▸ hsign) (h1 ▸ horder), constantAt_eq (h2 ▸ hsign) (h2 ▸ horder), hwalk _ h1, hwalk _ h2,
      List.getElem?_eq_getElem (hlen _ h1 ▸ hi), List.getElem?_eq_getElem (hlen _ h2 ▸ hi)] at h
    rw [List.getElem?_map, List.getElem?_map, List.getElem?_eq_getElem (hlen _ h1 ▸ hi),
      List.getElem?_eq_getElem (hlen _ h2 ▸ hi)]
    simpa using h
  · rw [List.getElem?_eq_none (by rw [List.length_map, hlen _ h1]; omega),
      List.getElem?_eq_none (by rw [List.length_map, hlen _ h2]; omega)]

/-- A template without parameters serves its own statement only. -/
theorem routeBind_constant (h : routeBind render (some t) [] sql .absent = some bound) : sql = t := by
  have hg : bindingGroups [] = [] := rfl
  simp only [routeBind, placeholderArityGuard, hg, List.length_nil, inlineArityGuard, if_true,
    Option.ite_none_right_eq_some] at h
  split at h
  · rename_i hs
    exact Expr.sameStatement_eq hs
  · cases h.1

/-- `col = text`. -/
def eqStr (col text : String) : Statement := .node "EQ" [.node col [], .const (.literal true text)]

/-- The texts `a = v₀`, and `a = v₀ AND b = v₁ AND c = v₂`, which parses to a conjunction of a conjunction. -/
def oneEq (v : String) : Statement := eqStr "a" v

def threeEqs (v₀ v₁ v₂ : String) : Statement :=
  .node "And" [.node "And" [eqStr "a" v₀, eqStr "b" v₁], eqStr "c" v₂]

def specA : PlaceholderSpec := { name := "A", type := "VARCHAR" }

def specsABC : List PlaceholderSpec :=
  [specA, { name := "B", type := "VARCHAR" }, { name := "C", type := "VARCHAR" }]

/-- `a = -5` has the key of `a = 3` and is bound to 5. -/
def minusFive : Statement := .node "EQ" [.node "a" [], .neg (.const (.literal false "5"))]

example : minusFive.normalize = (oneEq "x").normalize ∧
    (routeBind (fun _ => "") (some (oneEq "x")) [specA] minusFive .absent).bind (·.get "A") = some (.one (.int 5)) ∧
    constantAt minusFive 0 = some (.one (.int (-5))) := ⟨rfl, rfl, rfl⟩

end SynnoDB.Router
