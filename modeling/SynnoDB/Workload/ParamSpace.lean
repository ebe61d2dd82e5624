import Mathlib
import SynnoDB.Lib.Dict
import SynnoDB.Lib.Digits
import SynnoDB.Lib.MapM
import SynnoDB.Workload.PyNumbers

/-!
# Parameter spaces (`workloads/query_params.py:81-156, 240-633`)

| here | there |
| --- | --- |
| `Raw`              | what `json.loads` gives; a missing argument is `null` |
| `SpecError`        | a `ValueError` by what its text says; `overflow` is the `OverflowError` of `float(_)` |
| `Cell`             | a value with what `_value_wire_shape` says of it |
| `IntSpec`, `DateSpec`, ... | the dataclasses, with what the parser has checked |
| `Rnd`              | what the generator gives a spec; every stream is possible |
| `Space.sample`     | `ParamSpace.sample`; `none`: an exception |

**An accepted space binds every placeholder of the template, in its order and within its spec** (`sample_binds`),
whatever the generator gives; the columns of a group come from one row. Only an infinite bound, which the parser lets
through, makes it raise. Floats are stepped in a context of 28 digits: where the grid fits, nothing leaves the range
(`float_within`).

**A placeholder has one wire shape** (`one_shape`), unless a string starts with `(`: the parser takes it for a scalar
and the args line for a list.
-/

namespace SynnoDB.Workload.ParamSpace

open PyNumbers (PyFloat Dec intText isoformat fromisoformat)

/-! ## Values -/

inductive Raw where
  | null
  | bool (b : Bool)
  | int (n : Int)
  | float (f : PyFloat)
  | str (s : Text)
  | list (l : List Raw)
  | dict (d : List (Text × Raw))

def Raw.truthy : Raw → Bool
  | .null => false
  | .bool b => b
  | .int n => n ≠ 0
  | .float (.finite f) => f.m ≠ 0
  | .float _ => true
  | .str s => s ≠ []
  | .list l => !l.isEmpty
  | .dict d => !d.isEmpty

inductive Num where
  | int (n : Int)
  | float (f : PyFloat)

/-- By which Python compares numbers, exactly; `none`: NaN. -/
def Num.level : Num → Option (WithBot (WithTop ℚ))
  | .int n => some ((n : ℚ) : WithTop ℚ)
  | .float (.finite f) => some (f.value : WithTop ℚ)
  | .float (.inf neg) => some (if neg then ⊥ else (⊤ : WithTop ℚ))
  | .float .nan => none

def Num.le (a b : Num) : Bool :=
  match a.level, b.level with
  | some x, some y => x ≤ y
  | _, _ => false

def Num.text : Num → Text
  | .int n => intText n
  | .float f => f.repr

/-- `float(_)`. -/
def Num.toFloat : Num → Option PyFloat
  | .int n => PyFloat.ofInt n
  | .float f => some f

inductive Scalar where
  | str (s : Text)
  | num (n : Num)

/-- By which `dict.fromkeys` tells values apart. -/
def Scalar.key : Scalar → Text ⊕ Option (WithBot (WithTop ℚ))
  | .str s => .inl s
  | .num n => .inr n.level

/-- `_is_simple_scalar`. -/
def scalarOf : Raw → Option Scalar
  | .str s => some (.str s)
  | .int n => some (.num (.int n))
  | .float f => some (.num (.float f))
  | _ => none

/-- A number, or `none`: missing, a boolean or something else. -/
def numOf : Raw → Option Num
  | .int n => some (.int n)
  | .float f => some (.float f)
  | _ => none

inductive Cell where
  | scalar (v : Scalar)
  | inList (v : Scalar) (vs : List Scalar)

def Cell.shape : Cell → Shape
  | .scalar _ => .scalar
  | .inList _ _ => .inList

/-- The first of each key, in order: `list(dict.fromkeys(_))`. -/
def firsts {α κ : Type*} [DecidableEq κ] (key : α → κ) : List α → List α
  | [] => []
  | x :: l => x :: (firsts key l).filter fun y => key y ≠ key x

/-! ## Placeholders -/

def nameChar (c : Char) : Bool := c.isUpper || c.isDigit || c = '_'

/-- The name, where a `[` has just been read. -/
def holeName (s : Text) : Option Text :=
  let name := s.takeWhile nameChar
  if name.head?.any Char.isUpper = true ∧ (s.dropWhile nameChar).head? = some ']' then some name else none

/-- `_PLACEHOLDER_RE.finditer`: there is no `[` in a hole, so nothing is passed over. -/
def holes : Text → List Text
  | [] => []
  | c :: s => (if c = '[' then (holeName s).toList else []) ++ holes s

def findPlaceholders (sql : Text) : List Text := firsts id (holes sql)

/-! ## Specs -/

structure IntSpec where
  min : Int
  max : Int
  step : Int
  pos : 0 < step
  le : min ≤ max

structure FloatSpec where
  min : PyFloat
  max : PyFloat
  step : PyFloat

/-- Dates by their ordinals. -/
structure DateSpec where
  min : Nat
  max : Nat
  le : min ≤ max

structure CategoricalSpec where
  values : List Cell
  nonempty : values ≠ []
  uniform : ∀ v ∈ values, ∀ w ∈ values, v.shape = w.shape

structure TupleGroupSpec where
  placeholders : List Text
  rows : List (List Scalar)
  nonempty : rows ≠ []
  wide : ∀ r ∈ rows, r.length = placeholders.length

structure SampleGroupSpec where
  placeholders : List Text
  domain : List Scalar
  distinct : Bool
  nonempty : domain ≠ []
  enough : distinct = true → placeholders.length ≤ domain.length
  apart : distinct = true → (domain.map Scalar.key).Nodup

inductive ScalarSpec where
  | int (s : IntSpec)
  | float (s : FloatSpec)
  | date (s : DateSpec)
  | categorical (s : CategoricalSpec)

inductive GroupSpec where
  | tuples (g : TupleGroupSpec)
  | sample (g : SampleGroupSpec)

def GroupSpec.placeholders : GroupSpec → List Text
  | .tuples g => g.placeholders
  | .sample g => g.placeholders

structure Space where
  order : List Text
  scalars : List (Text × ScalarSpec)
  groups : List GroupSpec

/-! ## The parser -/

inductive GroupError where
  | noType (raw : Raw)
  | placeholders
  | noRows
  | row (r : Raw)
  | cell (v : Raw)
  | noDomain
  | domainValue (v : Raw)
  | distinct
  | tooFew (need got : Nat)
  | unknownType (t : Raw)

inductive SpecError where
  | noType (ph : Text) (raw : Raw)
  | missing (ph kind key : Text)
  | notNumber (ph kind key : Text) (v : Raw)
  | notIntegers (ph : Text)
  | step (ph kind : Text)
  | range (ph kind : Text)
  | overflow
  | granularity (ph : Text)
  | notDateText (ph key : Text)
  | notDate (ph key v : Text)
  | noValues (ph : Text)
  | notScalar (ph : Text) (v : Raw)
  | notInList (ph : Text) (v : Raw)
  | mixed (ph : Text)
  | unknownType (ph : Text) (t : Raw)
  | group (index : Nat) (e : GroupError)
  | noPlaceholders
  | notObject
  | notList
  | covered (names : List Text)
  | mismatch (missing extra expected : List Text)

def parseNumber (ph : Text) (raw : Dict Text Raw) (key kind : Text) : Except SpecError Num :=
  match raw.get key with
  | none => .error (.missing ph kind key)
  | some v =>
    match numOf v with
    | some n => .ok n
    | none => .error (.notNumber ph kind key v)

def parseDate (ph : Text) (raw : Dict Text Raw) (key : Text) : Except SpecError Nat :=
  match raw.get key with
  | none => .error (.missing ph "date".toList key)
  | some (.str v) =>
    match fromisoformat v with
    | some n => .ok n
    | none => .error (.notDate ph key v)
  | some _ => .error (.notDateText ph key)

def parseInt (ph : Text) (raw : Dict Text Raw) : Except SpecError ScalarSpec := do
  let lo ← parseNumber ph raw "min".toList "int".toList
  let hi ← parseNumber ph raw "max".toList "int".toList
  match lo, hi, raw.getD "step".toList (.int 1) with
  | .int lo, .int hi, .int step =>
    if hpos : 0 < step then
      if hle : lo ≤ hi then .ok (.int ⟨lo, hi, step, hpos, hle⟩) else .error (.range ph "int".toList)
    else .error (.step ph "int".toList)
  | _, _, _ => .error (.notIntegers ph)

def parseFloat (ph : Text) (raw : Dict Text Raw) : Except SpecError ScalarSpec := do
  let lo ← parseNumber ph raw "min".toList "float".toList
  let hi ← parseNumber ph raw "max".toList "float".toList
  let step ← parseNumber ph raw "step".toList "float".toList
  if step.le (.int 0) = true ∨ step.level = none then .error (.step ph "float".toList)
  else if lo.le hi = false then .error (.range ph "float".toList)
  else
    match lo.toFloat, hi.toFloat, step.toFloat with
    | some lo, some hi, some step => .ok (.float ⟨lo, hi, step⟩)
    | _, _, _ => .error .overflow

def parseDates (ph : Text) (raw : Dict Text Raw) : Except SpecError ScalarSpec :=
  if (raw.get "granularity".toList).isSome = true then .error (.granularity ph)
  else do
    let lo ← parseDate ph raw "min".toList
    let hi ← parseDate ph raw "max".toList
    if hle : lo ≤ hi then .ok (.date ⟨lo, hi, hle⟩) else .error (.range ph "date".toList)

/-- `_value_wire_shape`. -/
def cellOf (ph : Text) : Raw → Except SpecError Cell
  | .list l =>
    match l.mapM scalarOf with
    | some (v :: vs) => .ok (.inList v vs)
    | _ => .error (.notInList ph (.list l))
  | v =>
    match scalarOf v with
    | some v => .ok (.scalar v)
    | none => .error (.notScalar ph v)

def parseCategorical (ph : Text) (raw : Dict Text Raw) : Except SpecError ScalarSpec :=
  match raw.get "values".toList with
  | some (.list (v :: vs)) => do
    let cells ← (v :: vs).mapM (cellOf ph)
    if hne : cells ≠ [] then
      if hone : ∀ v ∈ cells, ∀ w ∈ cells, v.shape = w.shape then .ok (.categorical ⟨cells, hne, hone⟩)
      else .error (.mixed ph)
    else .error (.noValues ph)
  | _ => .error (.noValues ph)

def parseScalarSpec (ph : Text) : Raw → Except SpecError ScalarSpec
  | .dict raw =>
    match Dict.get raw "type".toList with
    | none => .error (.noType ph (.dict raw))
    | some (.str t) =>
      if t = "int".toList then parseInt ph raw
      else if t = "float".toList then parseFloat ph raw
      else if t = "date".toList then parseDates ph raw
      else if t = "categorical".toList then parseCategorical ph raw
      else .error (.unknownType ph (.str t))
    | some t => .error (.unknownType ph t)
  | raw => .error (.noType ph raw)

def nameOf : Raw → Option Text
  | .str s => some s
  | _ => none

/-- A row of a `tuples` group. -/
def parseRow (width : Nat) : Raw → Except GroupError (List Scalar)
  | .list r =>
    if r.length = width then r.mapM fun v => match scalarOf v with
      | some v => .ok v
      | none => .error (.cell v)
    else .error (.row (.list r))
  | r => .error (.row r)

def parseTuples (phs : List Text) (raw : Dict Text Raw) : Except GroupError GroupSpec :=
  match raw.get "values".toList with
  | some (.list (r :: rs)) => do
    let rows ← (r :: rs).mapM (parseRow phs.length)
    if h : rows ≠ [] ∧ ∀ r ∈ rows, r.length = phs.length then .ok (.tuples ⟨phs, rows, h.1, h.2⟩) else .error .noRows
  | _ => .error .noRows

def parseSample (phs : List Text) (raw : Dict Text Raw) : Except GroupError GroupSpec :=
  match raw.get "domain".toList with
  | some (.list (d :: ds)) => do
    let domain ← (d :: ds).mapM fun v => match scalarOf v with
      | some v => .ok v
      | none => .error (.domainValue v)
    match raw.getD "distinct".toList (.bool true) with
    | .bool distinct =>
      let domain := if distinct then firsts Scalar.key domain else domain
      if henough : distinct = true → phs.length ≤ domain.length then
        if h : domain ≠ [] ∧ (distinct = true → (domain.map Scalar.key).Nodup) then
          .ok (.sample ⟨phs, domain, distinct, h.1, henough, h.2⟩)
        else .error .noDomain
      else .error (.tooFew phs.length domain.length)
    | _ => .error .distinct
  | _ => .error .noDomain

def parseGroupSpec : Raw → Except GroupError GroupSpec
  | .dict raw =>
    match Dict.get raw "type".toList with
    | none => .error (.noType (.dict raw))
    | some t =>
      match Dict.get raw "placeholders".toList with
      | some (.list l) =>
        match l.mapM nameOf with
        | some (ph :: phs) =>
          match t with
          | .str s =>
            if s = "tuples".toList then parseTuples (ph :: phs) raw
            else if s = "sample".toList then parseSample (ph :: phs) raw
            else .error (.unknownType t)
          | _ => .error (.unknownType t)
        | _ => .error .placeholders
      | _ => .error .placeholders
  | raw => .error (.noType raw)

def sortNames (l : List Text) : List Text := (firsts id l).mergeSort fun a b => a ≤ b

/-- From the two checks on the names to the end. -/
def checkCovered (phs : List Text) (scalars : List (Text × ScalarSpec)) (groups : List GroupSpec) :
    Except SpecError Space :=
  let covered := scalars.map Prod.fst ++ groups.flatMap GroupSpec.placeholders
  let dupes := covered.filter fun p => 1 < covered.count p
  if dupes ≠ [] then .error (.covered (sortNames dupes))
  else
    let missing := phs.filter fun p => !covered.contains p
    let extra := covered.filter fun p => !phs.contains p
    if missing ≠ [] ∨ extra ≠ [] then .error (.mismatch (sortNames missing) (sortNames extra) phs)
    else .ok ⟨phs, phs.filterMap fun ph => (Dict.get scalars ph).map (Prod.mk ph), groups⟩

def parseParamSpace (rawParams rawGroups : Raw) (template : Text) : Except SpecError Space :=
  let phs := findPlaceholders template
  if phs = [] then
    if rawParams.truthy = true ∨ rawGroups.truthy = true then .error .noPlaceholders else .ok ⟨[], [], []⟩
  else
    match (if rawParams.truthy = true then rawParams else .dict []) with
    | .dict params =>
      match (if rawGroups.truthy = true then rawGroups else .list []) with
      | .list groups => do
        let scalars ← params.mapM fun p => (parseScalarSpec p.1 p.2).map (Prod.mk p.1)
        let groups ← groups.zipIdx.mapM fun g => (parseGroupSpec g.1).mapError (SpecError.group g.2)
        checkCovered phs scalars groups
      | _ => .error .notList
    | _ => .error .notObject

/-! ## Sampling -/

abbrev Rnd := Nat → Nat

/-- `rnd.randint(0, n)`. -/
def Rnd.randint (r : Rnd) (n : Nat) : Nat := r 0 % (n + 1)

/-- `rnd.choice(l)`. -/
def Rnd.choice {α : Type*} (r : Rnd) (l : List α) (h : l ≠ []) : α :=
  l.get ⟨r 0 % l.length, Nat.mod_lt _ (List.length_pos_iff.2 h)⟩

/-- `rnd.sample(l, k)`: by position. -/
def pick {α : Type*} : Nat → Rnd → List α → List α
  | 0, _, _ => []
  | _ + 1, _, [] => []
  | k + 1, r, x :: l =>
    let i := r 0 % (l.length + 1)
    ((x :: l)[i]?).toList ++ pick k (fun n => r (n + 1)) ((x :: l).eraseIdx i)

inductive Drawn where
  | int (n : Int)
  | decimal (d : Dec)
  | date (ord : Nat)
  | cell (c : Cell)

def IntSpec.sample (s : IntSpec) (r : Rnd) : Int := s.min + s.step * (r.randint ((s.max - s.min) / s.step).toNat : Nat)

/-- An infinite bound: `InvalidOperation`, or the `OverflowError` of `int(_)`. -/
def FloatSpec.sample (s : FloatSpec) (r : Rnd) : Option Dec :=
  match s.min.decimal, s.max.decimal, s.step.decimal with
  | some lo, some hi, some step => some (lo.add (step.mulInt (r.randint ((hi.sub lo).steps step) : Nat)))
  | _, _, _ => none

def DateSpec.sample (s : DateSpec) (r : Rnd) : Nat := s.min + r.randint (s.max - s.min)

def ScalarSpec.sample : ScalarSpec → Rnd → Option Drawn
  | .int s, r => some (.int (s.sample r))
  | .float s, r => (s.sample r).map .decimal
  | .date s, r => some (.date (s.sample r))
  | .categorical s, r => some (.cell (r.choice s.values s.nonempty))

/-- The values of a group, by its columns. -/
def GroupSpec.row : GroupSpec → Rnd → List Scalar
  | .tuples g, r => r.choice g.rows g.nonempty
  | .sample g, r =>
    if g.distinct = true then pick g.placeholders.length r g.domain
    else (List.range g.placeholders.length).map fun i => Rnd.choice (fun n => r (i + n)) g.domain g.nonempty

def Scalar.text : Scalar → Text
  | .str s => s
  | .num n => n.text

/-- A part of `_render_in_list`. -/
def Scalar.member : Scalar → Text
  | .str s => '\'' :: escapeQuotes s ++ ['\'']
  | .num n => n.text

/-- `coerce_for_engine`. -/
def Drawn.text : Drawn → Text
  | .int n => intText n
  | .decimal d => d.format
  | .date ord => isoformat ord
  | .cell (.scalar v) => v.text
  | .cell (.inList v vs) => '(' :: join ", ".toList ((v :: vs).map Scalar.member) ++ [')']

/-- `raw`, in the order in which it is filled. -/
def Space.items (sp : Space) (rnd : Text → Rnd) (rnd' : Nat → Rnd) : Option (List (Text × Drawn)) := do
  let scalars ← sp.scalars.mapM fun p => (p.2.sample (rnd p.1)).map (Prod.mk p.1)
  pure (scalars ++ sp.groups.zipIdx.flatMap fun g =>
    g.1.placeholders.zip ((g.1.row (rnd' g.2)).map fun v => .cell (.scalar v)))

def Space.sample (sp : Space) (rnd : Text → Rnd) (rnd' : Nat → Rnd) : Option (List (Text × Text)) := do
  let items ← sp.items rnd rnd'
  sp.order.mapM fun ph => ((Dict.ofItems items).get ph).map fun v => (ph, v.text)

/-! ## What the parser promises -/

section

variable {α κ : Type*} [DecidableEq κ] {key : α → κ}

theorem firsts_sublist (l : List α) : (firsts key l).Sublist l := by
  induction l with
  | nil => exact .slnil
  | cons x l ih => exact (List.filter_sublist.trans ih).cons_cons x

theorem firsts_nodup (l : List α) : ((firsts key l).map key).Nodup := by
  induction l with
  | nil => exact List.nodup_nil
  | cons x l ih =>
    rw [firsts, List.map_cons, List.nodup_cons]
    refine ⟨fun hmem => ?_, (List.filter_sublist.map key).nodup ih⟩
    obtain ⟨y, hy, heq⟩ := List.mem_map.1 hmem
    simpa [heq] using (List.mem_filter.1 hy).2

end

theorem findPlaceholders_nodup (sql : Text) : (findPlaceholders sql).Nodup := by
  have h := @firsts_nodup Text Text _ id (holes sql)
  rwa [List.map_id] at h

def Space.keys (sp : Space) : List Text := sp.scalars.map Prod.fst ++ sp.groups.flatMap GroupSpec.placeholders

/-- Every placeholder has a spec, and no other name has one. -/
structure Space.Covers (sp : Space) : Prop where
  keys : sp.keys.Perm sp.order
  nodup : sp.order.Nodup

theorem keys_filterMap (scalars : Dict Text ScalarSpec) (phs : List Text) :
    (phs.filterMap fun ph => (scalars.get ph).map (Prod.mk ph)).map Prod.fst =
      phs.filter fun ph => (scalars.get ph).isSome := by
  induction phs with
  | nil => rfl
  | cons ph phs ih =>
    cases hget : scalars.get ph with
    | none => simp [hget, ih]
    | some s => simp [hget, ih]

theorem get_isSome_iff (d : Dict Text ScalarSpec) (ph : Text) : (d.get ph).isSome = true ↔ ph ∈ d.map Prod.fst := by
  constructor
  · intro h
    obtain ⟨s, hs⟩ := Option.isSome_iff_exists.1 h
    exact List.mem_map.2 ⟨_, Dict.mem_of_get hs, rfl⟩
  · intro h
    obtain ⟨p, hp, rfl⟩ := List.mem_map.1 h
    exact Dict.get_isSome_of_mem hp

theorem ok_of_bind {ε α β : Type} {x : Except ε α} {f : α → Except ε β} {b : β} (h : (x >>= f) = .ok b) :
    ∃ a, x = .ok a ∧ f a = .ok b := by
  cases x with
  | error e => cases h
  | ok a => exact ⟨a, rfl, h⟩

theorem mem_of_missing_nil {l m : List Text} (h : (l.filter fun p => !m.contains p) = []) {p : Text} (hp : p ∈ l) :
    p ∈ m := by
  simpa using List.filter_eq_nil_iff.1 h p hp

theorem checkCovered_spec {phs : List Text} {scalars : List (Text × ScalarSpec)} {groups : List GroupSpec} {sp : Space}
    (hphs : phs.Nodup) (h : checkCovered phs scalars groups = .ok sp) : sp.order = phs ∧ sp.Covers := by
  unfold checkCovered at h
  dsimp only at h
  split at h
  · cases h
  · next hdupes =>
    split at h
    · cases h
    · next hnames =>
      cases h
      obtain ⟨hmissing, hextra⟩ := not_or.1 hnames
      have hcovered : (scalars.map Prod.fst ++ groups.flatMap GroupSpec.placeholders).Nodup := by
        refine List.nodup_iff_count_le_one.2 fun p => ?_
        by_cases hp : p ∈ scalars.map Prod.fst ++ groups.flatMap GroupSpec.placeholders
        · have := List.filter_eq_nil_iff.1 (not_not.1 hdupes) p hp
          simpa using this
        · rw [List.count_eq_zero_of_not_mem hp]
          exact Nat.zero_le 1
      have hmem : ∀ p, p ∈ scalars.map Prod.fst ++ groups.flatMap GroupSpec.placeholders ↔ p ∈ phs := by
        intro p
        constructor
        · exact mem_of_missing_nil (not_not.1 hextra)
        · exact mem_of_missing_nil (not_not.1 hmissing)
      refine ⟨rfl, ?_, hphs⟩
      obtain ⟨-, hgroups, hapart⟩ := List.nodup_append.1 hcovered
      have hkey : ∀ p, p ∈ phs.filter (fun ph => (Dict.get scalars ph).isSome) ↔ p ∈ scalars.map Prod.fst := by
        intro p
        rw [List.mem_filter, get_isSome_iff]
        exact ⟨fun h => h.2, fun h => ⟨(hmem p).1 (List.mem_append_left _ h), h⟩⟩
      rw [Space.keys, keys_filterMap]
      refine (List.perm_ext_iff_of_nodup ?_ hphs).2 fun p => ?_
      · refine List.nodup_append.2 ⟨hphs.filter _, hgroups, fun p hp q hq => ?_⟩
        exact hapart p ((hkey p).1 hp) q hq
      · rw [List.mem_append, hkey, ← hmem p, List.mem_append]

theorem parse_covers {params groups : Raw} {template : Text} {sp : Space}
    (h : parseParamSpace params groups template = .ok sp) : sp.order = findPlaceholders template ∧ sp.Covers := by
  unfold parseParamSpace at h
  dsimp only at h
  split at h
  · next hnil =>
    split at h
    · cases h
    · cases h
      exact ⟨hnil.symm, .nil, List.nodup_nil⟩
  · split at h
    · split at h
      · obtain ⟨scalars, -, h⟩ := ok_of_bind h
        obtain ⟨specs, -, h⟩ := ok_of_bind h
        exact checkCovered_spec (findPlaceholders_nodup _) h
      · cases h
    · cases h

/-! ## What is drawn -/

theorem choice_mem {α : Type*} (r : Rnd) {l : List α} (h : l ≠ []) : r.choice l h ∈ l := List.get_mem ..

theorem pick_subperm {α : Type*} (k : Nat) (r : Rnd) (l : List α) : (pick k r l).Subperm l := by
  induction k generalizing r l with
  | zero => exact List.nil_subperm
  | succ k ih =>
    cases l with
    | nil => exact List.nil_subperm
    | cons x l =>
      have hi : r 0 % (l.length + 1) < (x :: l).length := Nat.mod_lt _ (Nat.succ_pos _)
      rw [pick, List.getElem?_eq_getElem hi, Option.toList_some, List.singleton_append]
      exact ((List.subperm_cons _).2 (ih _ _)).trans (List.getElem_cons_eraseIdx_perm hi).subperm

theorem length_pick {α : Type*} {k : Nat} {l : List α} (r : Rnd) (h : k ≤ l.length) : (pick k r l).length = k := by
  induction k generalizing r l with
  | zero => rfl
  | succ k ih =>
    cases l with
    | nil => exact absurd h (Nat.not_succ_le_zero k)
    | cons x l =>
      have hi : r 0 % (l.length + 1) < (x :: l).length := Nat.mod_lt _ (Nat.succ_pos _)
      rw [pick, List.getElem?_eq_getElem hi, Option.toList_some, List.singleton_append, List.length_cons, ih]
      rw [List.length_eraseIdx_of_lt hi]
      simpa using h

/-- What a spec can give. -/
def ScalarSpec.Allows : ScalarSpec → Drawn → Prop
  | .int s, .int n => s.min ≤ n ∧ n ≤ s.max ∧ s.step ∣ n - s.min
  | .float s, .decimal d => ∃ lo hi step, s.min.decimal = some lo ∧ s.max.decimal = some hi ∧
      s.step.decimal = some step ∧ ∃ k ≤ (hi.sub lo).steps step, d = lo.add (step.mulInt (k : Nat))
  | .date s, .date n => s.min ≤ n ∧ n ≤ s.max
  | .categorical s, .cell c => c ∈ s.values
  | _, _ => False

def GroupSpec.Allows : GroupSpec → List Scalar → Prop
  | .tuples g, row => row ∈ g.rows
  | .sample g, row => row.length = g.placeholders.length ∧ (∀ v ∈ row, v ∈ g.domain) ∧
      (g.distinct = true → (row.map Scalar.key).Nodup)

def ScalarSpec.Finite : ScalarSpec → Prop
  | .float s => s.min.decimal.isSome = true ∧ s.max.decimal.isSome = true ∧ s.step.decimal.isSome = true
  | _ => True

theorem randint_le (r : Rnd) (n : Nat) : r.randint n ≤ n := Nat.le_of_lt_succ (Nat.mod_lt _ (Nat.succ_pos n))

theorem IntSpec.sample_mem (s : IntSpec) (r : Rnd) :
    s.min ≤ s.sample r ∧ s.sample r ≤ s.max ∧ s.step ∣ s.sample r - s.min := by
  have hnonneg : 0 ≤ (s.max - s.min) / s.step := Int.ediv_nonneg (by have := s.le; omega) s.pos.le
  have hk : ((r.randint ((s.max - s.min) / s.step).toNat : Nat) : Int) ≤ (s.max - s.min) / s.step := by
    have := randint_le r ((s.max - s.min) / s.step).toNat
    omega
  have hmul : s.step * ((r.randint ((s.max - s.min) / s.step).toNat : Nat) : Int) ≤ s.max - s.min :=
    (Int.mul_le_mul_of_nonneg_left hk s.pos.le).trans (Int.mul_ediv_self_le s.pos.ne')
  have hpos : 0 ≤ s.step * ((r.randint ((s.max - s.min) / s.step).toNat : Nat) : Int) :=
    Int.mul_nonneg s.pos.le (Int.natCast_nonneg _)
  rw [IntSpec.sample]
  refine ⟨by omega, by omega, ?_⟩
  rw [add_sub_cancel_left]
  exact Dvd.intro _ rfl

theorem ScalarSpec.sample_allows {s : ScalarSpec} {r : Rnd} {v : Drawn} (h : s.sample r = some v) : s.Allows v := by
  cases s with
  | int s =>
    cases h
    exact s.sample_mem r
  | float s =>
    obtain ⟨d, hd, rfl⟩ := Option.map_eq_some_iff.1 h
    unfold FloatSpec.sample at hd
    split at hd
    · next lo hi step hlo hhi hstep =>
      cases hd
      exact ⟨lo, hi, step, hlo, hhi, hstep, _, randint_le .., rfl⟩
    · cases hd
  | date s =>
    cases h
    have := randint_le r (s.max - s.min)
    have := s.le
    exact ⟨Nat.le_add_right .., by rw [DateSpec.sample]; omega⟩
  | categorical s =>
    cases h
    exact choice_mem r s.nonempty

theorem ScalarSpec.sample_isSome (s : ScalarSpec) (r : Rnd) : (s.sample r).isSome = true ↔ s.Finite := by
  cases s with
  | float s =>
    simp only [ScalarSpec.sample, Option.isSome_map, FloatSpec.sample, Finite]
    cases s.min.decimal <;> cases s.max.decimal <;> cases s.step.decimal <;> simp
  | _ => simp [ScalarSpec.sample, Finite]

theorem GroupSpec.row_allows (g : GroupSpec) (r : Rnd) : g.Allows (g.row r) := by
  cases g with
  | tuples g => exact choice_mem r g.nonempty
  | sample g =>
    rw [GroupSpec.row]
    split
    · next hdistinct =>
      have hsub := pick_subperm g.placeholders.length r g.domain
      refine ⟨length_pick r (g.enough hdistinct), fun v hv => hsub.subset hv, fun _ => ?_⟩
      obtain ⟨l, hperm, hsublist⟩ := hsub
      exact (hperm.map Scalar.key).nodup_iff.1 ((hsublist.map Scalar.key).nodup (g.apart hdistinct))
    · next hdistinct =>
      refine ⟨by simp, fun v hv => ?_, fun h => absurd h hdistinct⟩
      obtain ⟨i, -, rfl⟩ := List.mem_map.1 hv
      exact choice_mem _ g.nonempty

theorem GroupSpec.Allows.length {g : GroupSpec} {row : List Scalar} (h : g.Allows row) :
    row.length = g.placeholders.length := by
  cases g with
  | tuples g => exact g.wide _ h
  | sample g => exact h.1

/-! ## A sample -/

theorem isSome_mapM {α β : Type*} {f : α → Option β} {l : List α} :
    (l.mapM f).isSome = true ↔ ∀ x ∈ l, (f x).isSome = true := by
  induction l with
  | nil => simp
  | cons x l ih =>
    rw [List.mapM_cons, List.forall_mem_cons, ← ih]
    cases f x <;> cases l.mapM f <;> simp

theorem keys_mapM {α β γ : Type*} {f : α × β → Option γ} {l : List (α × β)} {ys : List (α × γ)}
    (h : l.mapM (fun p => (f p).map (Prod.mk p.1)) = some ys) : ys.map Prod.fst = l.map Prod.fst := by
  induction l generalizing ys with
  | nil =>
    cases h
    rfl
  | cons p l ih =>
    rw [List.mapM_cons] at h
    obtain ⟨y, hy, h⟩ := Option.bind_eq_some_iff.1 h
    obtain ⟨ys, hys, h⟩ := Option.bind_eq_some_iff.1 h
    obtain ⟨v, -, rfl⟩ := Option.map_eq_some_iff.1 hy
    cases h
    rw [List.map_cons, List.map_cons, ih hys]

section

variable {sp : Space} {rnd : Text → Rnd} {rnd' : Nat → Rnd} {its : List (Text × Drawn)}

theorem items_isSome : (sp.items rnd rnd').isSome = true ↔ ∀ p ∈ sp.scalars, p.2.Finite := by
  have hscalars : (sp.items rnd rnd').isSome =
      (sp.scalars.mapM fun p : Text × ScalarSpec => (p.2.sample (rnd p.1)).map (Prod.mk p.1)).isSome := by
    rw [Space.items]
    cases sp.scalars.mapM fun p : Text × ScalarSpec => (p.2.sample (rnd p.1)).map (Prod.mk p.1) <;> rfl
  rw [hscalars, isSome_mapM]
  simp only [Option.isSome_map, ScalarSpec.sample_isSome]

theorem items_keys (h : sp.items rnd rnd' = some its) : its.map Prod.fst = sp.keys := by
  obtain ⟨scalars, hs, h⟩ := Option.bind_eq_some_iff.1 h
  cases h
  have hcolumns : ∀ g : GroupSpec × Nat, (g.1.placeholders.zip
      ((g.1.row (rnd' g.2)).map fun v => Drawn.cell (.scalar v))).map Prod.fst = g.1.placeholders := by
    intro g
    refine List.map_fst_zip (le_of_eq ?_)
    rw [List.length_map, (g.1.row_allows _).length]
  rw [List.map_append, keys_mapM hs, List.map_flatMap, Space.keys]
  simp only [hcolumns]
  rw [← List.flatMap_map Prod.fst, List.zipIdx_map_fst]

theorem items_scalar (h : sp.items rnd rnd' = some its) {p : Text × ScalarSpec} (hp : p ∈ sp.scalars) :
    ∃ v, p.2.Allows v ∧ (p.1, v) ∈ its := by
  obtain ⟨scalars, hs, h⟩ := Option.bind_eq_some_iff.1 h
  cases h
  have hmem := List.mem_map_of_mem (f := fun p : Text × ScalarSpec => (p.2.sample (rnd p.1)).map (Prod.mk p.1)) hp
  rw [MapM.eq_some_iff.1 hs] at hmem
  obtain ⟨q, hq, heq⟩ := List.mem_map.1 hmem
  obtain ⟨v, hv, rfl⟩ := Option.map_eq_some_iff.1 heq.symm
  exact ⟨v, ScalarSpec.sample_allows hv, List.mem_append_left _ hq⟩

theorem items_group (h : sp.items rnd rnd' = some its) {g : GroupSpec} (hg : g ∈ sp.groups) :
    ∃ row, g.Allows row ∧ ∀ q ∈ g.placeholders.zip row, (q.1, Drawn.cell (.scalar q.2)) ∈ its := by
  obtain ⟨scalars, hs, h⟩ := Option.bind_eq_some_iff.1 h
  cases h
  have hindex : g ∈ sp.groups.zipIdx.map Prod.fst := by rwa [List.zipIdx_map_fst]
  obtain ⟨⟨_, n⟩, hn, rfl⟩ := List.mem_map.1 hindex
  refine ⟨_, GroupSpec.row_allows _ (rnd' n), fun q hq => ?_⟩
  refine List.mem_append_right _ (List.mem_flatMap.2 ⟨_, hn, ?_⟩)
  rw [List.zip_map_right]
  exact List.mem_map.2 ⟨q, hq, rfl⟩

/-- What is drawn for a name is found again under it. -/
theorem order_bound (hc : sp.Covers) (h : its.map Prod.fst = sp.keys) :
    ∃ out, (sp.order.mapM fun ph => ((Dict.ofItems its).get ph).map fun v => (ph, v.text)) = some out ∧
      out.map Prod.fst = sp.order ∧ ∀ q ∈ its, (q.1, q.2.text) ∈ out := by
  have hnodup : (its.map Prod.fst).Nodup := by
    rw [h]
    exact hc.keys.nodup_iff.2 hc.nodup
  have hget : ∀ q ∈ its, (Dict.ofItems its).get q.1 = some q.2 := fun q hq => Dict.get_ofItems hnodup hq
  refine ⟨sp.order.map fun ph => (ph, (((Dict.ofItems its).get ph).map Drawn.text).getD []), ?_, ?_, ?_⟩
  · refine MapM.eq_some_of_forall fun ph hph => ?_
    have hmem : ph ∈ its.map Prod.fst := by
      rw [h]
      exact hc.keys.mem_iff.2 hph
    obtain ⟨q, hq, rfl⟩ := List.mem_map.1 hmem
    rw [hget q hq]
    rfl
  · rw [List.map_map]
    exact List.map_id _
  · intro q hq
    have hmem : q.1 ∈ sp.order := hc.keys.mem_iff.1 (h ▸ List.mem_map_of_mem hq)
    exact List.mem_map.2 ⟨q.1, hmem, by rw [hget q hq]; rfl⟩

/-- Every name is bound as its spec was drawn. -/
theorem sample_mem (hc : sp.Covers) {out : List (Text × Text)} (hout : sp.sample rnd rnd' = some out) :
    out.map Prod.fst = sp.order ∧ (∀ p ∈ sp.scalars, ∃ v, p.2.Allows v ∧ (p.1, v.text) ∈ out) ∧
      ∀ g ∈ sp.groups, ∃ row, g.Allows row ∧ ∀ q ∈ g.placeholders.zip row, (q.1, q.2.text) ∈ out := by
  obtain ⟨its, hi, hout⟩ := Option.bind_eq_some_iff.1 hout
  obtain ⟨out', hout', hkeys, hmem⟩ := order_bound hc (items_keys hi)
  obtain rfl : out = out' := Option.some.inj (hout.symm.trans hout')
  refine ⟨hkeys, fun p hp => ?_, fun g hg => ?_⟩
  · obtain ⟨v, hv, hits⟩ := items_scalar hi hp
    exact ⟨v, hv, hmem _ hits⟩
  · obtain ⟨row, hrow, hits⟩ := items_group hi hg
    exact ⟨row, hrow, fun q hq => hmem _ (hits q hq)⟩

/-- **An accepted space binds the placeholders of its template**, each within its spec and a group by one row; it raises
only where a bound is infinite. -/
theorem sample_binds {params groups : Raw} {template : Text} (h : parseParamSpace params groups template = .ok sp)
    (rnd : Text → Rnd) (rnd' : Nat → Rnd) :
    ((sp.sample rnd rnd').isSome = true ↔ ∀ p ∈ sp.scalars, p.2.Finite) ∧
    ∀ out, sp.sample rnd rnd' = some out →
      out.map Prod.fst = findPlaceholders template ∧
      (∀ p ∈ sp.scalars, ∃ v, p.2.Allows v ∧ (p.1, v.text) ∈ out) ∧
      ∀ g ∈ sp.groups, ∃ row, g.Allows row ∧ ∀ q ∈ g.placeholders.zip row, (q.1, q.2.text) ∈ out := by
  obtain ⟨horder, hcovers⟩ := parse_covers h
  constructor
  · rw [← @items_isSome sp rnd rnd']
    cases hi : sp.items rnd rnd' with
    | none => simp [Space.sample, hi]
    | some its =>
      obtain ⟨out, hout, -⟩ := order_bound hcovers (items_keys hi)
      simp [Space.sample, hi, hout]
  · intro out hout
    obtain ⟨hkeys, hscalars, hgroups⟩ := sample_mem hcovers hout
    exact ⟨hkeys.trans horder, hscalars, hgroups⟩

end

def nations : Raw :=
  .list [.dict [("type".toList, .str "sample".toList), ("placeholders".toList, .list [.str ['N'], .str ['M']]),
    ("domain".toList, .list [.str "FR".toList, .str "DE".toList, .str "FR".toList])]]

def delta : Raw :=
  .dict [(['D'], .dict [("type".toList, .str "int".toList), ("min".toList, .int 60), ("max".toList, .int 120),
    ("step".toList, .int 7)])]

/-- `"[D] [N] [M]"` with `D` between 60 and 120 and two nations. -/
def nationSpace : Space where
  order := [['D'], ['N'], ['M']]
  scalars := [(['D'], .int ⟨60, 120, 7, by decide, by decide⟩)]
  groups := [.sample ⟨[['N'], ['M']], [.str "FR".toList, .str "DE".toList], true, by simp, by simp, by simp [Scalar.key]⟩]

theorem parse_nations : parseParamSpace delta nations "[D] [N] [M]".toList = .ok nationSpace := by
  rfl

theorem sample_binds_nations :
    ((nationSpace.sample (fun _ _ => 3) fun _ _ => 1).isSome = true ↔ ∀ p ∈ nationSpace.scalars, p.2.Finite) ∧
    ∀ out, nationSpace.sample (fun _ _ => 3) (fun _ _ => 1) = some out →
      out.map Prod.fst = findPlaceholders "[D] [N] [M]".toList ∧
      (∀ p ∈ nationSpace.scalars, ∃ v, p.2.Allows v ∧ (p.1, v.text) ∈ out) ∧
      ∀ g ∈ nationSpace.groups, ∃ row, g.Allows row ∧ ∀ q ∈ g.placeholders.zip row, (q.1, q.2.text) ∈ out :=
  sample_binds parse_nations _ _

/-! ## The grid of a float spec -/

/-- At the exponent of the finest of the three the bounds have 27 digits. -/
structure Grid (lo hi step : Dec) : Prop where
  le : lo.value ≤ hi.value
  pos : 0 < step.value
  low : (lo.atExp (min (min hi.exp lo.exp) step.exp)).natAbs < 10 ^ 27
  high : (hi.atExp (min (min hi.exp lo.exp) step.exp)).natAbs < 10 ^ 27

theorem value_le_iff {a b : Int} {e : Int} : (a : ℚ) * (10 : ℚ) ^ e ≤ b * (10 : ℚ) ^ e ↔ a ≤ b := by
  rw [mul_le_mul_iff_left₀ (zpow_pos (by norm_num) e), Int.cast_le]

theorem value_inj {a b : Int} {e : Int} (h : (a : ℚ) * (10 : ℚ) ^ e = b * (10 : ℚ) ^ e) : a = b := by
  exact_mod_cast mul_right_cancel₀ (zpow_ne_zero e (by norm_num : (10 : ℚ) ≠ 0)) h

/-- The difference of the bounds is exact, and kept at the exponent of the finer one. -/
theorem sub_grid {lo hi step : Dec} (h : Grid lo hi step) :
    (hi.sub lo).value = hi.value - lo.value ∧ (hi.sub lo).exp = min hi.exp lo.exp := by
  have hmin : min (min hi.exp lo.exp) step.exp ≤ min hi.exp lo.exp := min_le_left _ _
  obtain ⟨j, hj⟩ := Int.eq_ofNat_of_zero_le (Int.sub_nonneg_of_le hmin)
  -- the coefficient at the exponent of the finer bound is no longer than at the finest exponent
  have hscale : ∀ d : Dec, min hi.exp lo.exp ≤ d.exp →
      d.atExp (min (min hi.exp lo.exp) step.exp) = d.atExp (min hi.exp lo.exp) * 10 ^ j := by
    intro d hd
    have hexp : (d.exp - min (min hi.exp lo.exp) step.exp).toNat = (d.exp - min hi.exp lo.exp).toNat + j := by omega
    rw [Dec.atExp, Dec.atExp, hexp, pow_add, mul_assoc]
  have hlow := h.low
  have hhigh := h.high
  rw [hscale lo (min_le_right _ _), Int.natAbs_mul] at hlow
  rw [hscale hi (min_le_left _ _), Int.natAbs_mul] at hhigh
  have hten : 0 < ((10 : Int) ^ j).natAbs := Int.natAbs_pos.2 (pow_ne_zero j (by decide))
  have hlow' := (Nat.le_mul_of_pos_right _ hten).trans_lt hlow
  have hhigh' := (Nat.le_mul_of_pos_right _ hten).trans_lt hhigh
  have hsmall : (hi.atExp (min hi.exp lo.exp) - lo.atExp (min hi.exp lo.exp)).natAbs < Router.decimalPrec := by
    rw [Router.decimalPrec]
    omega
  have hround : hi.sub lo =
      ⟨hi.atExp (min hi.exp lo.exp) - lo.atExp (min hi.exp lo.exp), min hi.exp lo.exp⟩ := by
    rw [Dec.sub, Dec.round, if_pos hsmall]
  rw [hround]
  refine ⟨?_, rfl⟩
  rw [Dec.value]
  push_cast
  rw [sub_mul, Dec.value_atExp (min_le_left _ _), Dec.value_atExp (min_le_right _ _)]

/-- **Nothing leaves the range** of a float spec whose grid fits the context, and the grid is exact. -/
theorem float_within {s : FloatSpec} {lo hi step : Dec} (hlo : s.min.decimal = some lo) (hhi : s.max.decimal = some hi)
    (hstep : s.step.decimal = some step) (h : Grid lo hi step) {r : Rnd} {d : Dec} (hd : s.sample r = some d) :
    lo.value ≤ d.value ∧ d.value ≤ hi.value ∧ ∃ k : Nat, d.value = lo.value + k * step.value := by
  obtain ⟨hvalue, hexp⟩ := sub_grid h
  have hle := h.le
  have hpos := h.pos
  have hlow := h.low
  have hhigh := h.high
  rw [FloatSpec.sample, hlo, hhi, hstep] at hd
  obtain rfl := Option.some.inj hd
  have hk := randint_le r ((hi.sub lo).steps step)
  generalize r.randint ((hi.sub lo).steps step) = k at hk ⊢
  rw [Dec.steps, hexp] at hk
  have hsub := @Dec.value_atExp (hi.sub lo) (min (min hi.exp lo.exp) step.exp) (by rw [hexp]; exact min_le_left _ _)
  have hl := @Dec.value_atExp lo (min (min hi.exp lo.exp) step.exp) ((min_le_left _ _).trans (min_le_right _ _))
  have hh := @Dec.value_atExp hi (min (min hi.exp lo.exp) step.exp) ((min_le_left _ _).trans (min_le_left _ _))
  have hs := @Dec.value_atExp step (min (min hi.exp lo.exp) step.exp) (min_le_right _ _)
  generalize lo.atExp (min (min hi.exp lo.exp) step.exp) = L at hl hlow
  generalize hi.atExp (min (min hi.exp lo.exp) step.exp) = H at hh hhigh
  generalize step.atExp (min (min hi.exp lo.exp) step.exp) = S at hs hk
  generalize hD : (hi.sub lo).atExp (min (min hi.exp lo.exp) step.exp) = D at hsub hk
  generalize min (min hi.exp lo.exp) step.exp = e at hl hh hs hsub hD
  have hten : (0 : ℚ) < (10 : ℚ) ^ e := zpow_pos (by norm_num) e
  have hLH : L ≤ H := by
    rw [← hl, ← hh] at hle
    exact value_le_iff.1 hle
  have hS : 0 < S := by
    rw [← hs] at hpos
    exact_mod_cast (mul_pos_iff_of_pos_right hten).1 hpos
  have hDHL : D = H - L := by
    refine value_inj (e := e) ?_
    rw [hsub, hvalue, ← hl, ← hh]
    push_cast
    ring
  -- in units of the last digit, the steps stay below the difference
  have hunits : (k : Int) * S ≤ H - L := by
    by_cases hzero : (hi.sub lo).coeff = 0
    · rw [if_pos hzero] at hk
      obtain rfl := Nat.le_zero.1 hk
      simpa using hLH
    · rw [if_neg hzero] at hk
      have hDpos : D ≠ 0 := by
        rw [← hD, Dec.atExp]
        exact mul_ne_zero hzero (pow_ne_zero _ (by decide))
      have hquot := PyNumbers.quotient_le (show 0 < D.toNat by omega) (show 0 < S.toNat by omega)
        (show D.toNat < 2 * 10 ^ 27 by omega)
      have hmul := (Nat.mul_le_mul_right S.toNat hk).trans hquot
      have hcast : ((k * S.toNat : Nat) : Int) ≤ (D.toNat : Nat) := by exact_mod_cast hmul
      rw [Nat.cast_mul, Int.toNat_of_nonneg hS.le, Int.toNat_of_nonneg (by omega)] at hcast
      omega
  have hprod : (step.mulInt (k : Nat)).value = ((k : Int) : ℚ) * step.value := by
    refine Dec.value_mulInt ⟨k * S, e, by have := mul_nonneg (Int.natCast_nonneg k) hS.le; omega, ?_⟩
    rw [← hs]
    push_cast
    ring
  have hsum : lo.value + (step.mulInt (k : Nat)).value = ((L + k * S : Int) : ℚ) * (10 : ℚ) ^ e := by
    rw [hprod, ← hl, ← hs]
    push_cast
    ring
  have hnonneg := mul_nonneg (Int.natCast_nonneg k) hS.le
  have hd : (lo.add (step.mulInt (k : Nat))).value = ((L + k * S : Int) : ℚ) * (10 : ℚ) ^ e := by
    rw [← hsum]
    exact Dec.value_add ⟨_, e, by omega, hsum⟩
  refine ⟨?_, ?_, k, ?_⟩
  · rw [hd, ← hl]
    exact value_le_iff.2 (by omega)
  · rw [hd, ← hh]
    exact value_le_iff.2 (by omega)
  · rw [hd, ← hsum, hprod, Int.cast_natCast]

theorem one_bits : 2 ^ 52 < 2 ^ 53 := by decide

def quarter : PyFloat := .finite ⟨false, 2 ^ 52, -54, one_bits, by decide, .inl le_rfl⟩

def two : PyFloat := .finite ⟨false, 2 ^ 52, -51, one_bits, by decide, .inl le_rfl⟩

theorem quarter_decimal : quarter.decimal = some ⟨25, -2⟩ := by decide +kernel

theorem two_decimal : two.decimal = some ⟨20, -1⟩ := by decide +kernel

theorem quarters_grid : Grid ⟨25, -2⟩ ⟨20, -1⟩ ⟨25, -2⟩ where
  le := by norm_num [Dec.value]
  pos := by norm_num [Dec.value]
  low := by decide
  high := by decide

/-- `{"type": "float", "min": 0.25, "max": 2.0, "step": 0.25}`. -/
theorem float_within_quarters :
    (⟨25, -2⟩ : Dec).value ≤ (⟨100, -2⟩ : Dec).value ∧ (⟨100, -2⟩ : Dec).value ≤ (⟨20, -1⟩ : Dec).value ∧
      ∃ k : Nat, (⟨100, -2⟩ : Dec).value = (⟨25, -2⟩ : Dec).value + k * (⟨25, -2⟩ : Dec).value :=
  @float_within ⟨quarter, two, quarter⟩ _ _ _ quarter_decimal two_decimal quarter_decimal quarters_grid (fun _ => 3) _
    (by decide +kernel)

/-! ## The shape on the wire -/

section

open PyNumbers (natText zeros padded reprDigits)

theorem head_ne_paren {t : Text} (h : '(' ∉ t) : t.head? ≠ some '(' := fun hh => h (List.mem_of_head? hh)

theorem paren_natText (n : Nat) : '(' ∉ natText n := fun h => absurd (Digits.allDigits_toDigits n _ h) (by decide)

theorem paren_zeros (n : Nat) : '(' ∉ zeros n := fun h => absurd (List.eq_of_mem_replicate h) (by decide)

theorem paren_intText (n : Int) : '(' ∉ intText n := by
  unfold intText
  split <;> simp [paren_natText]

theorem paren_format (d : Dec) : '(' ∉ d.format := by
  have hfull : ∀ n, '(' ∉ zeros n ++ natText d.coeff.natAbs := by simp [paren_zeros, paren_natText]
  have htake : ∀ n m, '(' ∉ (zeros n ++ natText d.coeff.natAbs).take m := fun n m h => hfull n (List.mem_of_mem_take h)
  have hdrop : ∀ n m, '(' ∉ (zeros n ++ natText d.coeff.natAbs).drop m := fun n m h => hfull n (List.mem_of_mem_drop h)
  unfold Dec.format
  dsimp only
  split <;> split <;> try split
  all_goals simp [paren_zeros, paren_natText, htake, hdrop]

theorem paren_reprDigits (c : Nat) (e : Int) : '(' ∉ reprDigits c e := by
  have htake : ∀ m, '(' ∉ (natText c).take m := fun m h => paren_natText c (List.mem_of_mem_take h)
  have hdrop : ∀ m, '(' ∉ (natText c).drop m := fun m h => paren_natText c (List.mem_of_mem_drop h)
  have hexponent : ∀ n, '(' ∉ (if (natText n).length < 2 then '0' :: natText n else natText n) := by
    intro n
    split <;> simp [paren_natText]
  have hmantissa : '(' ∉
      (if (natText c).length = 1 then natText c else (natText c).take 1 ++ '.' :: (natText c).drop 1) := by
    have htail : '(' ∉ (natText c).tail := fun h => paren_natText c (List.mem_of_mem_tail h)
    split <;> simp [paren_natText, htake, htail]
  unfold reprDigits
  dsimp only
  split
  · split
    · simp [paren_zeros, paren_natText]
    · split <;> simp [paren_zeros, paren_natText, htake, hdrop]
  · rw [List.mem_append, List.mem_cons, List.mem_cons]
    refine not_or.2 ⟨hmantissa, not_or.2 ⟨by decide, not_or.2 ⟨?_, hexponent _⟩⟩⟩
    split <;> decide

theorem paren_numText (n : Num) : '(' ∉ n.text := by
  cases n with
  | int n => exact paren_intText n
  | float f =>
    cases f with
    | finite f =>
      rw [Num.text, PyFloat.repr, List.mem_append]
      exact not_or.2 ⟨by split <;> decide, paren_reprDigits _ _⟩
    | inf neg => cases neg <;> decide
    | nan => decide

theorem paren_isoformat (ord : Nat) : '(' ∉ isoformat ord := by
  simp [isoformat, padded, paren_zeros, paren_natText]

end

/-- No string that starts like a list. -/
def Scalar.Plain : Scalar → Prop
  | .str s => s.head? ≠ some '('
  | .num _ => True

def Cell.Plain : Cell → Prop
  | .scalar v => v.Plain
  | .inList _ _ => True

def ScalarSpec.Plain : ScalarSpec → Prop
  | .categorical s => ∀ c ∈ s.values, c.Plain
  | _ => True

def GroupSpec.Plain : GroupSpec → Prop
  | .tuples g => ∀ row ∈ g.rows, ∀ v ∈ row, v.Plain
  | .sample g => ∀ v ∈ g.domain, v.Plain

structure Space.Plain (sp : Space) : Prop where
  scalars : ∀ p ∈ sp.scalars, p.2.Plain
  groups : ∀ g ∈ sp.groups, g.Plain

/-- The spec of the name is a choice of lists. -/
def ScalarSpec.Listed : ScalarSpec → Prop
  | .categorical s => ∀ c ∈ s.values, c.shape = .inList
  | _ => False

def Space.Listed (sp : Space) (ph : Text) : Prop := ∃ p ∈ sp.scalars, p.1 = ph ∧ p.2.Listed

theorem Scalar.Plain.head {v : Scalar} (h : v.Plain) : v.text.head? ≠ some '(' := by
  cases v with
  | str s => exact h
  | num n => exact head_ne_paren (paren_numText n)

theorem ScalarSpec.Allows.head {s : ScalarSpec} {v : Drawn} (h : s.Allows v) (hplain : s.Plain) :
    v.text.head? = some '(' ↔ s.Listed := by
  cases s with
  | int s =>
    cases v with
    | int n => exact iff_of_false (head_ne_paren (paren_intText n)) id
    | _ => exact h.elim
  | float s =>
    cases v with
    | decimal d => exact iff_of_false (head_ne_paren (paren_format d)) id
    | _ => exact h.elim
  | date s =>
    cases v with
    | date ord => exact iff_of_false (head_ne_paren (paren_isoformat ord)) id
    | _ => exact h.elim
  | categorical s =>
    cases v with
    | cell c =>
      cases c with
      | scalar v =>
        refine iff_of_false (Scalar.Plain.head (hplain _ h)) fun hlisted => ?_
        cases hlisted _ h
      | inList v vs => exact iff_of_true rfl fun c hc => s.uniform c hc _ h
    | _ => exact h.elim

theorem GroupSpec.Allows.plain {g : GroupSpec} {row : List Scalar} (h : g.Allows row) (hplain : g.Plain) :
    ∀ v ∈ row, v.Plain := by
  cases g with
  | tuples g => exact hplain row h
  | sample g => exact fun v hv => hplain v (h.2.1 v hv)

/-- **A placeholder goes to the engine as a list or as a scalar, whatever is drawn**, if no string starts with `(`. -/
theorem one_shape {params groups : Raw} {template : Text} {sp : Space}
    (h : parseParamSpace params groups template = .ok sp) (hplain : sp.Plain) {rnd : Text → Rnd} {rnd' : Nat → Rnd}
    {out : List (Text × Text)} (hout : sp.sample rnd rnd' = some out) :
    ∀ q ∈ out, q.2.head? = some '(' ↔ sp.Listed q.1 := by
  obtain ⟨-, hcovers⟩ := parse_covers h
  obtain ⟨hkeys, hscalars, hgroups⟩ := sample_mem hcovers hout
  have hkeyed : Dict.Keyed out := by
    rw [Dict.Keyed, hkeys]
    exact hcovers.nodup
  have hone : ∀ {ph t t'}, (ph, t) ∈ out → (ph, t') ∈ out → t = t' := by
    intro ph t t' ht ht'
    exact Option.some.inj ((hkeyed.get_of_mem ht).symm.trans (hkeyed.get_of_mem ht'))
  rintro ⟨ph, text⟩ hq
  constructor
  · intro hhead
    have hmem : ph ∈ sp.keys := hcovers.keys.mem_iff.2 (hkeys ▸ List.mem_map_of_mem hq)
    rcases List.mem_append.1 hmem with hmem | hmem
    · obtain ⟨p, hp, rfl⟩ := List.mem_map.1 hmem
      obtain ⟨v, hv, hbound⟩ := hscalars p hp
      obtain rfl := hone hq hbound
      exact ⟨p, hp, rfl, (hv.head (hplain.scalars p hp)).1 hhead⟩
    · -- a column of a group is a scalar
      obtain ⟨g, hg, hcolumn⟩ := List.mem_flatMap.1 hmem
      obtain ⟨row, hrow, hbound⟩ := hgroups g hg
      rw [← List.map_fst_zip (le_of_eq hrow.length.symm)] at hcolumn
      obtain ⟨q, hq', rfl⟩ := List.mem_map.1 hcolumn
      obtain rfl := hone hq (hbound q hq')
      exact absurd hhead (Scalar.Plain.head (hrow.plain (hplain.groups g hg) _ (List.of_mem_zip hq').2))
  · rintro ⟨p, hp, rfl, hlisted⟩
    obtain ⟨v, hv, hbound⟩ := hscalars p hp
    obtain rfl := hone hq hbound
    exact (hv.head (hplain.scalars p hp)).2 hlisted

theorem nations_plain : nationSpace.Plain where
  scalars p hp := by
    obtain rfl := List.mem_singleton.1 hp
    trivial
  groups g hg := by
    obtain rfl := List.mem_singleton.1 hg
    intro v hv
    simp only [List.mem_cons, List.not_mem_nil, or_false] at hv
    rcases hv with rfl | rfl <;> simp [Scalar.Plain]

theorem nations_sample : nationSpace.sample (fun _ _ => 3) (fun _ _ => 1) =
    some [(['D'], "81".toList), (['N'], "DE".toList), (['M'], "FR".toList)] := by
  decide +kernel

theorem one_shape_nations : "DE".toList.head? = some '(' ↔ nationSpace.Listed ['N'] :=
  one_shape parse_nations nations_plain nations_sample (['N'], "DE".toList) (by simp)

/-- `["(x", "y"]` is accepted as one shape. -/
def twoShapes : CategoricalSpec where
  values := [.scalar (.str "(x".toList), .scalar (.str ['y'])]
  nonempty := by simp
  uniform := by simp [Cell.shape]

example : parseParamSpace (.dict [(['V'], .dict [("type".toList, .str "categorical".toList),
    ("values".toList, .list [.str "(x".toList, .str ['y']])])]) .null "[V]".toList =
      .ok ⟨[['V']], [(['V'], .categorical twoShapes)], []⟩ := by rfl

example : (⟨[['V']], [(['V'], .categorical twoShapes)], []⟩ : Space).sample (fun _ _ => 0) (fun _ _ => 0) =
      some [(['V'], "(x".toList)] ∧
    (⟨[['V']], [(['V'], .categorical twoShapes)], []⟩ : Space).sample (fun _ _ => 1) (fun _ _ => 0) =
      some [(['V'], ['y'])] := by
  decide +kernel

end SynnoDB.Workload.ParamSpace
