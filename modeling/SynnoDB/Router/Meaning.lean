import SynnoDB.Router.Normalize

/-!
# What a statement says

`Term` is a statement without its notation: no parentheses, a signed number is the negative number, and a
typed literal whose cast keeps the value (`preserves`: the value of `DATE '2020-01-01'` is its text) is that
value. Two statements that are read as the same term are the same query up to formatting, redundant
parentheses and such typed literals. A template is read with its markers replaced (`instantiate`); a marker
to which nothing is assigned becomes `unbound`, which no statement contains.
-/

namespace SynnoDB.Router

inductive Term where
  | const (v : PyValue)
  | marker (m : Marker)
  | unbound
  | neg (x : Term)
  | cast (x : Term) (ty : SqlType Lit)
  | isIn (x : Term) (members : List Term)
  | inField (x y : Term)
  | node (head : String) (args : List Term)

abbrev Preserves := SqlType Lit → Const → Bool

namespace Term

def value : Term → Option PyValue
  | .const v => some v
  | _ => none

def atom : Term → Option Const
  | .const (.one c) => some c
  | _ => none

def negate (x : Term) : Term :=
  match x.atom.bind Const.minus with
  | some d => .const (.one d)
  | none => .neg x

def castTo (preserves : Preserves) (x : Term) (ty : SqlType Lit) : Term :=
  if x.atom.any (preserves ty) then x else .cast x ty

/-- `x IN y`, where `y` may be a whole list. -/
def inList (x y : Term) : Term :=
  match y with
  | .const (.tuple cs) => .isIn x (cs.map fun c => .const (.one c))
  | y => .inField x y

end Term

namespace Expr

variable (preserves : Preserves)

mutual
def read (env : Marker → Term) : Statement → Term
  | .const k => .const (.one k.value)
  | .placeholder m => env m
  | .parameter n => env (.named n)
  | .paren e => read env e
  | .neg e => (read env e).negate
  | .cast e ty => (read env e).castTo preserves ty
  | .isIn e ms => .isIn (read env e) (readL env ms)
  | .inField e f => .inList (read env e) (read env f)
  | .node h args => .node h (readL env args)
def readL (env : Marker → Term) : List Statement → List Term
  | [] => []
  | e :: es => read env e :: readL env es
end

def meaning (e : Statement) : Term := read preserves .marker e

def assigned (σ : Marker → Option PyValue) (m : Marker) : Term :=
  match σ m with
  | some v => .const v
  | none => .unbound

/-- The markers replaced by the constants assigned to them. -/
def instantiate (σ : Marker → Option PyValue) (e : Statement) : Term := read preserves (assigned σ) e

end Expr

/-! ## Reading is injective where notation is not concerned -/

theorem Const.minus_minus {c d : Const} (h : c.minus = some d) : d.minus = some c := by
  cases c <;> simp only [Const.minus, Option.some.injEq, reduceCtorEq] at h <;> subst h <;> simp [Const.minus]

namespace Term

variable {x y x' y' : Term} {preserves : Preserves} {ty : SqlType Lit}

theorem atom_eq_some {c : Const} : x.atom = some c ↔ x = .const (.one c) := by
  constructor
  · intro h
    unfold atom at h
    split at h
    · cases h; rfl
    · cases h
  · rintro rfl; rfl

theorem negate_eq_const {v : PyValue} (h : x.negate = .const v) :
    ∃ c d, x = .const (.one c) ∧ c.minus = some d ∧ v = .one d := by
  unfold negate at h
  split at h
  · rename_i d hd
    obtain ⟨c, hc, hd⟩ := Option.bind_eq_some_iff.1 hd
    cases h
    exact ⟨c, d, atom_eq_some.1 hc, hd, rfl⟩
  · cases h

theorem negate_inj (h : x.negate = y.negate) : x = y := by
  cases hx : x.atom.bind Const.minus with
  | some d =>
    have hn : x.negate = .const (.one d) := by simp [negate, hx]
    obtain ⟨c, d₁, rfl, hc, hd₁⟩ := negate_eq_const hn
    obtain ⟨c', d₂, rfl, hc', hd₂⟩ := negate_eq_const (h.symm.trans hn)
    cases hd₁; cases hd₂
    have := (Const.minus_minus hc).symm.trans (Const.minus_minus hc')
    cases this
    rfl
  | none =>
    have hn : x.negate = .neg x := by simp [negate, hx]
    rw [hn] at h
    unfold negate at h
    split at h
    · cases h
    · exact Term.neg.inj h

theorem castTo_inj (h : x.castTo preserves ty = y.castTo preserves ty) : x = y := by
  unfold castTo at h
  by_cases hx : x.atom.any (preserves ty) = true
  · by_cases hy : y.atom.any (preserves ty) = true
    · rwa [if_pos hx, if_pos hy] at h
    · rw [if_pos hx, if_neg hy] at h
      subst h
      simp [atom] at hx
  · by_cases hy : y.atom.any (preserves ty) = true
    · rw [if_neg hx, if_pos hy] at h
      subst h
      simp [atom] at hy
    · rw [if_neg hx, if_neg hy] at h
      exact (Term.cast.inj h).1

/-- A list member is no tuple. -/
def NoTuple (y : Term) : Prop := ∀ cs, y ≠ .const (.tuple cs)

theorem inList_of_noTuple (h : y.NoTuple) : inList x y = .inField x y := by
  unfold inList
  split
  · rename_i cs
    exact absurd rfl (h cs)
  · rfl

theorem inList_eq_inField_iff : inList x y = .inField x' y' ↔ x = x' ∧ y = y' ∧ y.NoTuple := by
  by_cases hy : y.NoTuple
  · rw [inList_of_noTuple hy]
    simp [hy]
  · have hex : ∃ cs, y = .const (.tuple cs) := by
      by_contra hno
      exact hy fun cs h => hno ⟨cs, h⟩
    obtain ⟨cs, rfl⟩ := hex
    simp [inList, hy]

theorem inList_eq_isIn_iff {ms : List Term} : inList x y = .isIn x' ms ↔
    x = x' ∧ ∃ cs : List Const, y = .const (.tuple cs) ∧ ms = cs.map fun c => .const (.one c) := by
  unfold inList
  split
  · rename_i cs
    constructor
    · intro h
      cases h
      exact ⟨rfl, cs, rfl, rfl⟩
    · rintro ⟨rfl, _, h, rfl⟩
      cases h
      rfl
  · rename_i hne
    simp only [reduceCtorEq, false_iff, not_and, not_exists]
    rintro - cs rfl
    exact absurd rfl (hne cs)

theorem value_of_atom {c : Const} (h : x.atom = some c) : x.value = some (.one c) := by
  rw [atom_eq_some.1 h, value]

end Term

namespace Expr

variable {preserves : Preserves}

theorem read_unparen (env : Marker → Term) : ∀ e : Statement, read preserves env e.unparen = read preserves env e
  | .paren e => read_unparen env e
  | .const _ | .placeholder _ | .parameter _ | .neg _ | .cast _ _ | .isIn _ _ | .inField _ _ | .node _ _ => rfl

theorem castTo_cases (x : Term) (ty : SqlType Lit) : x.castTo preserves ty = x ∧ (∃ c, x = .const (.one c)) ∨
    x.castTo preserves ty = .cast x ty := by
  unfold Term.castTo
  split
  · rename_i h
    cases hx : x.atom with
    | none => simp [hx] at h
    | some c => exact .inl ⟨rfl, c, Term.atom_eq_some.1 hx⟩
  · exact .inr rfl

/-- What a statement says is neither a tuple nor an unassigned marker. -/
theorem meaning_ne : ∀ e : Statement, (meaning preserves e).NoTuple ∧ meaning preserves e ≠ .unbound
  | .const k => ⟨nofun, nofun⟩
  | .placeholder m => ⟨nofun, nofun⟩
  | .parameter n => ⟨nofun, nofun⟩
  | .paren e => meaning_ne e
  | .neg e => by
    constructor
    · intro cs h
      obtain ⟨c, d, -, -, hd⟩ := Term.negate_eq_const h
      cases hd
    · intro h
      simp only [meaning, read, Term.negate] at h
      split at h <;> cases h
  | .cast e ty => by
    have h : meaning preserves (.cast e ty) = (meaning preserves e).castTo preserves ty := rfl
    rcases @castTo_cases preserves (meaning preserves e) ty with ⟨hc, c, hx⟩ | hc
    · rw [h, hc, hx]
      exact ⟨nofun, nofun⟩
    · rw [h, hc]
      exact ⟨nofun, nofun⟩
  | .isIn e ms => ⟨nofun, nofun⟩
  | .inField e f => by
    have h : meaning preserves (.inField e f) = .inList (meaning preserves e) (meaning preserves f) := rfl
    rw [h, Term.inList_of_noTuple (meaning_ne f).1]
    exact ⟨nofun, nofun⟩
  | .node h args => ⟨nofun, nofun⟩

end Expr

/-! ## What a marker becomes -/

/-- The cores of a literal between its constants; an embedded parameter must be a string. -/
def joinCores (get : String → Option PyValue) : List PlaceholderSpec → Option (List Char)
  | [] => some []
  | s :: ss => match get s.name with
    | some (.one (.str core)) => (joinCores get ss).map (core.toList ++ s.affixSuffix.toList ++ ·)
    | _ => none

/-- The literal that a group's parameters make up. -/
def joinGroup (get : String → Option PyValue) (g : Group) : Option PyValue :=
  match g.plain? with
  | some s => get s.name
  | none => (joinCores get g).map fun cs => .one (.str (String.ofList (g.consts.1 ++ cs)))

/-- The constant that the bound values put in place of a marker. -/
def assignment (specs : List PlaceholderSpec) (bound : Dict String PyValue) : Marker → Option PyValue
  | .bare i => (bindingGroups specs)[i]?.bind (joinGroup bound.get)
  | .named n => bound.get n

theorem stripConst_eq {c text r : List Char} (h : stripConst c text = some r) : text = c ++ r := by
  simp only [stripConst, Option.ite_none_right_eq_some, Option.some.injEq] at h
  obtain ⟨h, rfl⟩ := h
  conv_lhs => rw [← List.take_append_drop c.length text, h]

theorem matchCores_eq : ∀ {cs : List (List Char)} {text : List Char} {cores : List (List Char)},
    matchCores cs text = some cores → cores.length = cs.length ∧ text = (cores.zip cs).flatMap fun p => p.1 ++ p.2
  | [], text, cores, h => by
    simp only [matchCores, Option.ite_none_right_eq_some, Option.some.injEq] at h
    obtain ⟨rfl, rfl⟩ := h
    exact ⟨rfl, rfl⟩
  | c :: cs, text, cores, h => by
    rw [matchCores] at h
    obtain ⟨k, -, hk⟩ := List.exists_of_findSome?_eq_some h
    obtain ⟨rest, hrest, rfl⟩ := Option.map_eq_some_iff.1 hk
    obtain ⟨r, hr, hm⟩ := Option.bind_eq_some_iff.1 hrest
    obtain ⟨hlen, htext⟩ := matchCores_eq hm
    refine ⟨by rw [List.length_cons, List.length_cons, hlen], ?_⟩
    rw [List.zip_cons_cons, List.flatMap_cons, ← htext, List.append_assoc, ← stripConst_eq hr,
      List.take_append_drop]

theorem collectCores_spec : ∀ {items : List (String × String)} {out out' : Dict String PyValue},
    collectCores items out = some out' → out.Keyed →
      out'.Keyed ∧ (∀ p ∈ items, out'.get p.1 = some (.one (.str p.2))) ∧
      (∀ n v, out.get n = some v → out'.get n = some v) ∧
      ∀ n ∈ out'.map Prod.fst, n ∈ out.map Prod.fst ∨ n ∈ items.map Prod.fst
  | [], out, out', h, hk => by
    cases h
    exact ⟨hk, nofun, fun _ _ h => h, fun n hn => .inl hn⟩
  | (name, core) :: items, out, out', h, hk => by
    have hset : collectCores items (out.set name (.one (.str core))) = some out' ∧
        ∀ v, out.get name = some v → v = .one (.str core) := by
      rw [collectCores] at h
      split at h
      · rename_i w hw
        simp only [Option.ite_none_right_eq_some] at h
        refine ⟨h.2, fun v hv => ?_⟩
        rw [hw] at hv
        cases hv
        exact h.1
      · rename_i hw
        exact ⟨h, fun v hv => by rw [hw] at hv; cases hv⟩
    obtain ⟨hk', hitems, hold, hkeys⟩ := collectCores_spec hset.1 (hk.set _ _)
    refine ⟨hk', ?_, fun n v hn => ?_, fun n hn => ?_⟩
    · refine List.forall_mem_cons.2 ⟨?_, hitems⟩
      exact hold _ _ (by rw [Dict.get_set, if_pos rfl])
    · refine hold n v ?_
      rw [Dict.get_set]
      split
      · rename_i heq
        subst heq
        rw [hset.2 v hn]
      · exact hn
    · rcases hkeys n hn with h | h
      · rcases Dict.mem_keys_set.1 h with rfl | h
        · exact .inr (by simp)
        · exact .inl h
      · exact .inr (List.mem_cons_of_mem _ h)

theorem joinCores_eq {get : String → Option PyValue} : ∀ {ss : List PlaceholderSpec} {cores : List (List Char)},
    cores.length = ss.length →
    (∀ p ∈ (ss.map PlaceholderSpec.name).zip (cores.map String.ofList), get p.1 = some (.one (.str p.2))) →
    joinCores get ss =
      some ((cores.zip (ss.map fun s => s.affixSuffix.toList)).flatMap fun p => p.1 ++ p.2)
  | [], cores, hlen, _ => by
    rw [List.length_nil, List.length_eq_zero_iff] at hlen
    subst hlen
    rfl
  | s :: ss, [], hlen, _ => by cases hlen
  | s :: ss, core :: cores, hlen, h => by
    simp only [List.map_cons, List.zip_cons_cons, List.forall_mem_cons] at h
    rw [joinCores, h.1, joinCores_eq (Nat.succ.inj hlen) h.2]
    simp

theorem Group.plain?_eq_some {g : Group} {s : PlaceholderSpec} :
    g.plain? = some s ↔ g = [s] ∧ s.affixPrefix = "" ∧ s.affixSuffix = "" := by
  unfold Group.plain?
  split
  · rename_i s'
    rw [Option.ite_none_right_eq_some, Option.some.injEq, List.cons.injEq]
    constructor
    · rintro ⟨h, rfl⟩
      exact ⟨⟨rfl, rfl⟩, h⟩
    · rintro ⟨⟨rfl, -⟩, h⟩
      exact ⟨h, rfl⟩
  · rename_i hne
    exact ⟨nofun, fun h => absurd h.1 (hne s)⟩

/-- What a successful split says of the literal, of its names and of a joining of its parts. -/
theorem splitLiteral_spec {v : PyValue} {g : Group} {parts : Dict String PyValue} (h : splitLiteral v g = some parts) :
    parts.Keyed ∧ (∀ n ∈ parts.map Prod.fst, n ∈ g.map PlaceholderSpec.name) ∧
    (∀ n ∈ g.map PlaceholderSpec.name, ∃ w, (n, w) ∈ parts) ∧
    ∀ get : String → Option PyValue, (∀ x ∈ parts, get x.1 = some x.2) → joinGroup get g = some v := by
  unfold splitLiteral at h
  split at h
  · rename_i s hs
    cases h
    obtain ⟨rfl, -⟩ := Group.plain?_eq_some.1 hs
    refine ⟨by simp [Dict.Keyed], by simp, by simp, fun get hget => ?_⟩
    rw [joinGroup, hs]
    exact hget _ (List.mem_singleton_self _)
  · rename_i text hs
    obtain ⟨cores, h, hc⟩ := Option.bind_eq_some_iff.1 h
    obtain ⟨r, hr, hm⟩ := Option.bind_eq_some_iff.1 h
    obtain ⟨hlen, hr'⟩ := matchCores_eq hm
    have hlen' : cores.length = g.length := by rw [hlen, Group.consts, List.length_map]
    obtain ⟨hk, hitems, -, hkeys⟩ := collectCores_spec hc (by simp [Dict.Keyed])
    have hfst : ((g.map PlaceholderSpec.name).zip (cores.map String.ofList)).map Prod.fst =
        g.map PlaceholderSpec.name := by
      rw [List.map_fst_zip]
      rw [List.length_map, List.length_map, hlen']
    refine ⟨hk, fun n hn => ?_, fun n hn => ?_, fun get hget => ?_⟩
    · rcases hkeys n hn with h | h
      · cases h
      · rwa [hfst] at h
    · rw [← hfst] at hn
      obtain ⟨p, hp, rfl⟩ := List.mem_map.1 hn
      exact ⟨_, Dict.mem_of_get (hitems p hp)⟩
    · have hjoin := @joinCores_eq get _ _ hlen' fun p hp => hget _ (Dict.mem_of_get (hitems p hp))
      have hcs : (g.map fun s => s.affixSuffix.toList) = g.consts.2 := rfl
      rw [joinGroup, hs, hjoin, hcs, ← hr', Option.map_some, ← stripConst_eq hr, String.ofList_toList]
  · cases h

/-! ## The last group of a name decides -/

def Group.names (g : Group) : List String := g.map PlaceholderSpec.name

/-- `i` is the last group with a parameter of this name. -/
def Owner (gs : List Group) (n : String) (i : Nat) : Prop :=
  ∃ g, gs[i]? = some g ∧ n ∈ g.names ∧ ∀ j g', i < j → gs[j]? = some g' → n ∉ g'.names

theorem exists_owner {n : String} : ∀ {gs : List Group}, (∃ g ∈ gs, n ∈ g.names) → ∃ i, Owner gs n i
  | [], h => by
    obtain ⟨_, hg, _⟩ := h
    cases hg
  | g :: gs, h => by
    by_cases hlater : ∃ g ∈ gs, n ∈ g.names
    · obtain ⟨i, g', hg', hn, hlast⟩ := exists_owner hlater
      refine ⟨i + 1, g', hg', hn, fun j g'' hij hj => ?_⟩
      cases j with
      | zero => omega
      | succ j => exact hlast j g'' (by omega) hj
    · obtain ⟨g', hg', hn⟩ := h
      rcases List.mem_cons.1 hg' with rfl | hg'
      · refine ⟨0, g', rfl, hn, fun j g'' hij hj hn' => ?_⟩
        cases j with
        | zero => omega
        | succ j => exact hlater ⟨g'', List.mem_of_getElem? hj, hn'⟩
      · exact absurd ⟨g', hg', hn⟩ hlater

section
variable {gs : List Group} {vs : List PyValue} {out bound : Dict String PyValue}

theorem mergeSplit_split {i : Nat} {g : Group} {v : PyValue} (h : mergeSplit gs vs out = some bound)
    (hg : gs[i]? = some g) (hv : vs[i]? = some v) : ∃ parts, splitLiteral v g = some parts := by
  induction gs generalizing vs out i with
  | nil => cases hg
  | cons g' gs ih =>
    cases vs with
    | nil => cases hv
    | cons v' vs =>
      rw [mergeSplit] at h
      obtain ⟨parts, hp, h⟩ := Option.bind_eq_some_iff.1 h
      cases i with
      | zero =>
        cases hg; cases hv
        exact ⟨parts, hp⟩
      | succ i =>
        obtain ⟨out', _, h⟩ := Option.bind_eq_some_iff.1 h
        exact ih h hg hv

theorem mergeSplit_get_of_notMem {n : String} (h : mergeSplit gs vs out = some bound) (hn : ∀ g ∈ gs, n ∉ g.names) :
    bound.get n = out.get n := by
  induction gs generalizing vs out with
  | nil => cases h; rfl
  | cons g gs ih =>
    cases vs with
    | nil => cases h; rfl
    | cons v vs =>
      rw [mergeSplit] at h
      obtain ⟨parts, hp, h⟩ := Option.bind_eq_some_iff.1 h
      obtain ⟨out', ho, h⟩ := Option.bind_eq_some_iff.1 h
      rw [ih h fun g' hg' => hn g' (List.mem_cons_of_mem _ hg')]
      refine recordAll_get_of_notMem (fun hmem => ?_) ho
      exact hn g List.mem_cons_self ((splitLiteral_spec hp).2.1 n hmem)

theorem mergeSplit_get {n : String} {i : Nat} {g : Group} {v w : PyValue} {parts : Dict String PyValue}
    (h : mergeSplit gs vs out = some bound) (hown : Owner gs n i) (hg : gs[i]? = some g) (hv : vs[i]? = some v)
    (hp : splitLiteral v g = some parts) (hw : (n, w) ∈ parts) : bound.get n = some w := by
  induction gs generalizing vs out i with
  | nil => cases hg
  | cons g' gs ih =>
    cases vs with
    | nil => cases hv
    | cons v' vs =>
      obtain ⟨g₀, hg₀, hn, hlast⟩ := hown
      rw [mergeSplit] at h
      obtain ⟨parts', hp', hrest⟩ := Option.bind_eq_some_iff.1 h
      obtain ⟨out', ho, hlater⟩ := Option.bind_eq_some_iff.1 hrest
      cases i with
      | zero =>
        cases hg; cases hv
        cases hp'.symm.trans hp
        rw [mergeSplit_get_of_notMem hlater]
        · refine recordAll_get ho hw fun w' hw' => ?_
          have hk := (splitLiteral_spec hp).1
          exact Option.some.inj ((hk.get_of_mem hw').symm.trans (hk.get_of_mem hw))
        · intro g'' hg''
          obtain ⟨j, hj⟩ := List.mem_iff_getElem?.1 hg''
          exact hlast (j + 1) g'' (by omega) hj
      | succ i =>
        exact ih hlater ⟨g₀, hg₀, hn, fun j g'' hij hj => hlast (j + 1) g'' (by omega) hj⟩ hg hv

end

end SynnoDB.Router
