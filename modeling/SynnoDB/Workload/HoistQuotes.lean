import Mathlib.Data.List.Forall2
import Mathlib.Data.List.GetD
import SynnoDB.Lib.Dict
import SynnoDB.Lib.MapM
import SynnoDB.Lib.Opened

/-!
# Hoisting quotes into the template (`workloads/query_params.py:159-230`)

| here | there |
| --- | --- |
| `Value.other`          | a value that is not a string, by what `render_value` makes of it |
| `Heap`                 | the row lists by their addresses; `rows` and the result hold addresses |
| `hoistLiteralQuotes`   | `hoist_literal_quotes`, with the heap it leaves |
| `inspect`              | the checks of one column: whether it is hoisted, or what is raised |
| `assignment`           | `dict(zip(placeholders, row))`, by which a row is substituted |
| `hoistRows`, `Quiet`   | the loop on the rows themselves, and when it keeps the SQL; not in the source |

A text is the list of its characters. Substitution is one replacement after the other, so a value that is put in
may bring a hole of a placeholder that is still to come: **the quotes of that placeholder are then gone from the
value and not in the template** (`bracketed_value`).
-/

namespace SynnoDB.Workload.HoistQuotes

open Occurs

abbrev Text := List Char

inductive Value where
  | str (s : Text)
  | other (rendered : Text)
  deriving DecidableEq, Repr

/-- What a `ValueError` says, or an `IndexError` of a row that is too short. -/
inductive HoistError where
  | embedded (name : Text) (value : Value)
  | mixed (name : Text) (offenders : List Value)
  | absent (name : Text)
  | index
  deriving DecidableEq, Repr

def renderValue : Value → Text
  | .str s => s
  | .other rendered => rendered

/-- `f"[{name}]"`. -/
def hole (name : Text) : Text := '[' :: (name ++ [']'])

def substitute (template : Text) (assignment : Dict Text Value) : Text :=
  assignment.foldl (fun sql item => replaceAll (hole item.1) (renderValue item.2) 0 sql) template

def assignment (placeholders : List Text) (row : List Value) : Dict Text Value := Dict.ofItems (placeholders.zip row)

/-- `(?:[^']|'')*`. -/
def doubled : Text → Bool
  | [] => true
  | '\'' :: '\'' :: s => doubled s
  | '\'' :: _ => false
  | _ :: s => doubled s

def isQuotedLiteral : Value → Bool
  | .str ('\'' :: s) => s.getLast? == some '\'' && doubled s.dropLast
  | _ => false

/-- `v[1:-1]`. -/
def strip : Value → Value
  | .str s => .str (s.drop 1).dropLast
  | v => v

def hasEmbedded : Value → Bool
  | .str s => decide ('\'' ∈ (s.drop 1).dropLast)
  | _ => false

def inspect (template name : Text) (values : List Value) : Except HoistError Bool :=
  let quoted := values.filter isQuotedLiteral
  if quoted = [] then .ok false
  else match quoted.find? hasEmbedded with
    | some v => .error (.embedded name v)
    | none =>
      if quoted.length ≠ values.length then .error (.mixed name ((values.filter fun v => !isQuotedLiteral v).take 3))
      else if find (hole name) template = none then .error (.absent name)
      else .ok true

/-- `template.replace(f"[{name}]", f"'[{name}]'")`. -/
def quoteHole (template name : Text) : Text := replaceAll (hole name) ('\'' :: (hole name ++ ['\''])) 0 template

/-! ## The rows in memory -/

abbrev Heap := List (List Value)

def rowsAt (heap : Heap) (refs : List Nat) : List (List Value) := refs.map fun r => heap.getD r []

def column (heap : Heap) (refs : List Nat) (col : Nat) : Option (List Value) := refs.mapM fun r => (heap.getD r [])[col]?

/-- `for row in hoisted_rows: row[col] = row[col][1:-1]`. -/
def stripColumn (heap : Heap) (refs : List Nat) (col : Nat) : Heap :=
  refs.foldl (fun heap r => heap.set r ((heap.getD r []).modify col strip)) heap

/-- The loop over the placeholders. -/
def hoistLoop (refs : List Nat) : Nat → List Text → Text → Heap → Heap × Except HoistError Text
  | _, [], template, heap => (heap, .ok template)
  | col, name :: names, template, heap =>
    match column heap refs col with
    | none => (heap, .error .index)
    | some values => match inspect template name values with
      | .error e => (heap, .error e)
      | .ok false => hoistLoop refs (col + 1) names template heap
      | .ok true => hoistLoop refs (col + 1) names (quoteHole template name) (stripColumn heap refs col)

def hoistLiteralQuotes (template : Text) (placeholders : List Text) (heap : Heap) (rows : List Nat) :
    Heap × Except HoistError (Text × List Nat) :=
  let hoistedRows := List.range' heap.length rows.length
  let result := hoistLoop hoistedRows 0 placeholders template (heap ++ rowsAt heap rows)
  (result.1, result.2.map fun template => (template, hoistedRows))

/-! ## The rows themselves -/

/-- The loop on rows that nobody shares. -/
def hoistRows : Nat → List Text → Text → List (List Value) → Except HoistError (Text × List (List Value))
  | _, [], template, rows => .ok (template, rows)
  | col, name :: names, template, rows =>
    match rows.mapM fun row => row[col]? with
    | none => .error .index
    | some values => match inspect template name values with
      | .error e => .error e
      | .ok false => hoistRows (col + 1) names template rows
      | .ok true => hoistRows (col + 1) names (quoteHole template name) (rows.map fun row => row.modify col strip)

/-- Every row has a quoted literal in the column. -/
def uniform (rows : List (List Value)) (col : Nat) : Bool :=
  !rows.isEmpty && rows.all fun row => (row[col]?.map isQuotedLiteral).getD false

/-- No brackets in a name: the grammar of the names has none. -/
def bare (name : Text) : Bool := name.all fun c => c != '[' && c != ']'

/-- **The column of a placeholder may be hoisted**: no later column has its name, names have no brackets, and at
its turn every row has just the holes of it that the template has. -/
def Quiet (placeholders : List Text) (template : Text) (rows : List (List Value)) (col : Nat) (name : Text) : Prop :=
  (∀ k, col < k → placeholders[k]? ≠ some name) ∧ (∀ other ∈ placeholders, bare other = true) ∧
    ∀ row ∈ rows, ∀ before v rest, assignment placeholders row = before ++ (name, v) :: rest →
      count (hole name) 0 (substitute template before) = count (hole name) 0 template

/-! ## The heap -/
section
variable {heap : Heap} {refs : List Nat}

theorem column_eq (heap : Heap) (refs : List Nat) (col : Nat) :
    column heap refs col = (rowsAt heap refs).mapM fun row => row[col]? := by
  rw [column, rowsAt, List.mapM_map]
  rfl

/-- Stripping a column changes the rows at these addresses, each once, and nothing else. -/
theorem stripColumn_spec (col : Nat) : ∀ {refs : List Nat} {heap : Heap}, refs.Nodup → (∀ r ∈ refs, r < heap.length) →
    (stripColumn heap refs col).length = heap.length ∧
      (∀ i, i ∉ refs → (stripColumn heap refs col).getD i [] = heap.getD i []) ∧
      rowsAt (stripColumn heap refs col) refs = (rowsAt heap refs).map fun row => row.modify col strip
  | [], heap, _, _ => ⟨rfl, fun _ _ => rfl, rfl⟩
  | r :: refs, heap, hnodup, hlt => by
    rw [List.nodup_cons] at hnodup
    have hr := hlt r List.mem_cons_self
    have hlt' : ∀ q ∈ refs, q < (heap.set r ((heap.getD r []).modify col strip)).length := by
      intro q hq
      rw [List.length_set]
      exact hlt q (List.mem_cons_of_mem r hq)
    have hother : ∀ i, i ≠ r → (heap.set r ((heap.getD r []).modify col strip)).getD i [] = heap.getD i [] := by
      intro i hi
      rw [List.getD_eq_getElem?_getD, List.getElem?_set_ne (Ne.symm hi), ← List.getD_eq_getElem?_getD]
    have hself : (heap.set r ((heap.getD r []).modify col strip)).getD r [] = (heap.getD r []).modify col strip := by
      rw [List.getD_eq_getElem?_getD, List.getElem?_set_self hr]
      rfl
    obtain ⟨hlen, hframe, hrows⟩ := stripColumn_spec col hnodup.2 hlt'
    refine ⟨hlen.trans List.length_set, fun i hi => ?_, ?_⟩
    · rw [List.mem_cons, not_or] at hi
      exact (hframe i hi.2).trans (hother i hi.1)
    · show (stripColumn _ refs col).getD r [] :: rowsAt (stripColumn _ refs col) refs = _
      rw [hframe r hnodup.1, hself, hrows]
      refine congrArg _ (congrArg (List.map _) (List.map_congr_left fun q hq => hother q ?_))
      rintro rfl
      exact hnodup.1 hq

/-- **The loop works on its own rows**: it is the loop on the rows themselves, and leaves all other rows as they are. -/
theorem hoistLoop_spec (names : List Text) : ∀ {col : Nat} {template : Text} {heap : Heap}, refs.Nodup →
    (∀ r ∈ refs, r < heap.length) →
    (hoistLoop refs col names template heap).1.length = heap.length ∧
      (∀ i, i ∉ refs → (hoistLoop refs col names template heap).1.getD i [] = heap.getD i []) ∧
      hoistRows col names template (rowsAt heap refs) =
        (hoistLoop refs col names template heap).2.map fun template' =>
          (template', rowsAt (hoistLoop refs col names template heap).1 refs) := by
  induction names with
  | nil => exact fun _ _ => ⟨rfl, fun _ _ => rfl, rfl⟩
  | cons name names ih =>
    intro col template heap hnodup hlt
    rw [hoistLoop, hoistRows, column_eq]
    cases (rowsAt heap refs).mapM fun row => row[col]? with
    | none => exact ⟨rfl, fun _ _ => rfl, rfl⟩
    | some values =>
      dsimp only
      cases inspect template name values with
      | error e => exact ⟨rfl, fun _ _ => rfl, rfl⟩
      | ok hoisted =>
        cases hoisted with
        | false => exact ih hnodup hlt
        | true =>
          obtain ⟨hlen, hframe, hrows⟩ := stripColumn_spec col hnodup hlt
          have hlt' : ∀ r ∈ refs, r < (stripColumn heap refs col).length := fun r hr => hlen.symm ▸ hlt r hr
          obtain ⟨hlen', hframe', hrows'⟩ := @ih (col + 1) (quoteHole template name) _ hnodup hlt'
          exact ⟨hlen'.trans hlen, fun i hi => (hframe' i hi).trans (hframe i hi), hrows ▸ hrows'⟩

end

/-! ## Values -/

theorem quoted_shape {v : Value} (h : isQuotedLiteral v = true) :
    ∃ mid, v = .str ('\'' :: (mid ++ ['\''])) ∧ strip v = .str mid := by
  unfold isQuotedLiteral at h
  split at h
  · rename_i s
    rw [Bool.and_eq_true, beq_iff_eq] at h
    obtain ⟨mid, rfl⟩ := List.getLast?_eq_some_iff.1 h.1
    refine ⟨mid, rfl, ?_⟩
    rw [strip, List.drop_one, List.tail_cons, List.dropLast_concat]
  · cases h

theorem not_quoted {mid : Text} (h : '\'' ∉ mid) : isQuotedLiteral (.str mid) = false := by
  unfold isQuotedLiteral
  split
  · rename_i s heq
    cases heq
    exact absurd List.mem_cons_self h
  · rfl

theorem inspect_true {template name : Text} {values : List Value} (h : inspect template name values = .ok true) :
    values ≠ [] ∧ ∀ v ∈ values, isQuotedLiteral v = true ∧ hasEmbedded v = false := by
  unfold inspect at h
  dsimp only at h
  split at h
  · cases h
  rename_i hne
  split at h
  · cases h
  rename_i hfind
  split at h
  · cases h
  rename_i hlen
  have hall : ∀ v ∈ values, isQuotedLiteral v = true := List.length_filter_eq_length_iff.1 (not_not.1 hlen)
  refine ⟨?_, fun v hv => ⟨hall v hv, ?_⟩⟩
  · rintro rfl
    exact hne rfl
  · simpa using List.find?_eq_none.1 hfind v (List.mem_filter.2 ⟨hv, hall v hv⟩)

theorem inspect_false {template name : Text} {values : List Value} (h : inspect template name values = .ok false) :
    ∀ v ∈ values, isQuotedLiteral v = false := by
  unfold inspect at h
  dsimp only at h
  split at h
  · rename_i hnil
    intro v hv
    simpa using List.filter_eq_nil_iff.1 hnil v hv
  · split at h
    · cases h
    · (repeat' split at h) <;> cases h

theorem mem_column {col : Nat} : ∀ {rows : List (List Value)} {values : List Value},
    (rows.mapM fun row => row[col]?) = some values →
    (∀ row ∈ rows, ∃ v ∈ values, row[col]? = some v) ∧ (rows = [] → values = [])
  | [], values, h => by
    cases h
    exact ⟨fun row hrow => (by cases hrow), fun _ => rfl⟩
  | row :: rows, values, h => by
    rw [List.mapM_cons] at h
    obtain ⟨v, hv, h⟩ := Option.bind_eq_some_iff.1 h
    obtain ⟨vs, hvs, h⟩ := Option.bind_eq_some_iff.1 h
    cases h
    obtain ⟨hmem, -⟩ := mem_column hvs
    refine ⟨fun r hr => ?_, fun hnil => (by cases hnil)⟩
    rcases List.mem_cons.1 hr with rfl | hr
    · exact ⟨v, List.mem_cons_self, hv⟩
    · obtain ⟨u, hu, hru⟩ := hmem r hr
      exact ⟨u, List.mem_cons_of_mem _ hu, hru⟩

/-- Whether a column that is inspected is hoisted. -/
theorem inspect_uniform {template name : Text} {rows : List (List Value)} {values : List Value} {col : Nat}
    {hoisted : Bool}
    (hvalues : (rows.mapM fun row => row[col]?) = some values) (h : inspect template name values = .ok hoisted) :
    uniform rows col = hoisted := by
  obtain ⟨hmem, hnil⟩ := mem_column hvalues
  cases hoisted with
  | true =>
    obtain ⟨hne, hall⟩ := inspect_true h
    rw [uniform, Bool.and_eq_true, List.all_eq_true]
    refine ⟨?_, fun row hrow => ?_⟩
    · cases rows with
      | nil => exact absurd (hnil rfl) hne
      | cons => rfl
    · obtain ⟨v, hv, hcol⟩ := hmem row hrow
      rw [hcol]
      exact (hall v hv).1
  | false =>
    have hnone := inspect_false h
    cases rows with
    | nil => rfl
    | cons row rows =>
      obtain ⟨v, hv, hcol⟩ := hmem row List.mem_cons_self
      rw [uniform, List.all_cons, hcol]
      simp [hnone v hv]

/-! ## One row -/

theorem bare_iff {name : Text} : bare name = true ↔ '[' ∉ name ∧ ']' ∉ name := by
  simp only [bare, List.all_eq_true, Bool.and_eq_true, bne_iff_ne]
  constructor
  · exact fun h => ⟨fun hm => (h _ hm).1 rfl, fun hm => (h _ hm).2 rfl⟩
  · rintro ⟨hopen, hclose⟩ c hc
    exact ⟨fun heq => hopen (heq ▸ hc), fun heq => hclose (heq ▸ hc)⟩

theorem hole_opened {name : Text} (h : bare name = true) : Opened '[' (hole name) := by
  refine ⟨name ++ [']'], rfl, ?_⟩
  simp [(bare_iff.1 h).1]

theorem hole_apart {name other : Text} (h : bare name = true) (h' : bare other = true) (hne : name ≠ other) :
    Apart (hole name) (hole other) := by
  -- up to the closing bracket both names are the same
  have hhead : ∀ {p q : Text}, ']' ∉ p → ']' ∉ q → hole p <+: hole q → p = q := by
    intro p
    induction p with
    | nil =>
      intro q _ hq h
      cases q with
      | nil => rfl
      | cons c q =>
        rw [hole, hole, List.cons_prefix_cons, List.nil_append, List.cons_append, List.cons_prefix_cons] at h
        exact absurd (h.2.1 ▸ List.mem_cons_self) hq
    | cons c p ih =>
      intro q hp hq h
      rw [List.mem_cons, not_or] at hp
      cases q with
      | nil =>
        rw [hole, hole, List.cons_prefix_cons, List.nil_append, List.cons_append, List.cons_prefix_cons] at h
        exact absurd h.2.1.symm hp.1
      | cons d q =>
        rw [List.mem_cons, not_or] at hq
        rw [hole, hole, List.cons_prefix_cons, List.cons_append, List.cons_append, List.cons_prefix_cons] at h
        rw [h.2.1, ih hp.2 hq.2 (List.cons_prefix_cons.2 ⟨rfl, h.2.2⟩)]
  exact ⟨fun hp => hne (hhead (bare_iff.1 h).2 (bare_iff.1 h').2 hp),
    fun hp => hne (hhead (bare_iff.1 h').2 (bare_iff.1 h).2 hp).symm⟩

theorem hole_last (name : Text) : (hole name).getLast? ≠ some '\'' := by
  have hlast : (hole name).getLast? = some ']' := by
    rw [hole, ← List.cons_append, List.getLast?_concat]
  rw [hlast]
  decide

theorem quoteHole_eq (template name : Text) : quoteHole template name = wrap '\'' (hole name) template := rfl

/-- A row's items around the last column of a name. -/
theorem zip_column {placeholders : List Text} {row : List Value} {col : Nat} {name : Text} {v : Value}
    (hname : placeholders[col]? = some name) (hlast : ∀ k, col < k → placeholders[k]? ≠ some name)
      (hv : row[col]? = some v) :
    ∃ before rest, name ∉ rest.map Prod.fst ∧ placeholders.zip row = before ++ (name, v) :: rest ∧
      placeholders.zip (row.modify col strip) = before ++ (name, strip v) :: rest := by
  obtain ⟨hlt, hget⟩ := List.getElem?_eq_some_iff.1 hname
  obtain ⟨hlt', hget'⟩ := List.getElem?_eq_some_iff.1 hv
  have hp : placeholders = placeholders.take col ++ name :: placeholders.drop (col + 1) := by
    rw [← hget, List.getElem_cons_drop, List.take_append_drop]
  have hr : row = row.take col ++ v :: row.drop (col + 1) := by
    rw [← hget', List.getElem_cons_drop, List.take_append_drop]
  have hlength : (placeholders.take col).length = (row.take col).length := by
    rw [List.length_take, List.length_take]
    omega
  have hzip : ∀ u : Value, placeholders.zip (row.take col ++ u :: row.drop (col + 1)) =
      (placeholders.take col).zip (row.take col) ++ (name, u) :: (placeholders.drop (col + 1)).zip
        (row.drop (col + 1)) := by
    intro u
    conv_lhs => rw [hp]
    rw [List.zip_append hlength, List.zip_cons_cons]
  refine ⟨_, _, fun hmem => ?_, (congrArg placeholders.zip hr).trans (hzip v), ?_⟩
  · obtain ⟨item, hitem, rfl⟩ := List.mem_map.1 hmem
    obtain ⟨k, hk⟩ := List.getElem?_of_mem (List.of_mem_zip hitem).1
    rw [List.getElem?_drop] at hk
    exact hlast _ (by omega) hk
  · rw [List.modify_eq_take_cons_drop hlt', hget']
    exact hzip (strip v)

section
variable {placeholders : List Text} {row : List Value} {col : Nat} {name : Text} {v : Value}
  (hname : placeholders[col]? = some name) (hlast : ∀ k, col < k → placeholders[k]? ≠ some name)
    (hv : row[col]? = some v)

include hname hlast hv

/-- **A stripped column** changes the value of its name only. -/
theorem assignment_strip :
    assignment placeholders (row.modify col strip) = (assignment placeholders row).replace name (strip v) := by
  obtain ⟨before, rest, hnotin, hzip, hzip'⟩ := zip_column hname hlast hv
  have hset : Dict.replace (Dict.set (Dict.ofItems before) name v) name (strip v) =
    Dict.set (Dict.ofItems before) name (strip v) :=
    Dict.replace_set_self (Dict.keyed_ofItems _)
  rw [Dict.ofItems] at hset
  rw [assignment, assignment, hzip, hzip', Dict.ofItems, Dict.ofItems, List.foldl_append, List.foldl_append,
    List.foldl_cons,
    List.foldl_cons, Dict.replace_foldl_set hnotin, hset]

/-- The value of the name is that of its last column, and the name is there once. -/
theorem assignment_split : ∃ before rest, assignment placeholders row = before ++ (name, v) :: rest ∧
    name ∉ before.map Prod.fst ∧ name ∉ rest.map Prod.fst := by
  obtain ⟨before, rest, hnotin, hzip, -⟩ := zip_column hname hlast hv
  have hget : (assignment placeholders row).get name = some v := by
    rw [assignment, hzip, Dict.ofItems, List.foldl_append, List.foldl_cons, Dict.get_foldl_set_of_notMem hnotin,
      Dict.get_set,
      if_pos rfl]
  obtain ⟨before, rest, hsplit⟩ := List.append_of_mem (Dict.mem_of_get hget)
  have hkeyed : Dict.Keyed (assignment placeholders row) := Dict.keyed_ofItems _
  rw [hsplit, Dict.Keyed, List.map_append, List.map_cons, List.nodup_append, List.nodup_cons] at hkeyed
  exact ⟨before, rest, hsplit, fun hmem => hkeyed.2.2 name hmem name List.mem_cons_self rfl, hkeyed.2.1.1⟩

end

section
variable {name : Text} {template mid : Text} {before rest : Dict Text Value}

/-- Holes are not lost before their turn. -/
theorem count_le_substitute (hname : bare name = true) : ∀ {before : Dict Text Value} {template : Text},
    (∀ item ∈ before, bare item.1 = true ∧ item.1 ≠ name) →
    count (hole name) 0 template ≤ count (hole name) 0 (substitute template before)
  | [], _, _ => le_rfl
  | item :: before, template, h => by
    obtain ⟨hbare, hne⟩ := h item List.mem_cons_self
    have hstep := (hole_opened hname).count_le_replaceAll (hole_opened hbare) (hole_apart hname hbare (Ne.symm hne))
      (renderValue item.2) template
    exact hstep.trans (count_le_substitute hname fun i hi => h i (List.mem_cons_of_mem _ hi))

/-- **Before its turn** a placeholder's holes may be quoted first or last, if no value brings one. -/
theorem substitute_quoteHole (hname : bare name = true) : ∀ {before : Dict Text Value} {template : Text},
    (∀ item ∈ before, bare item.1 = true ∧ item.1 ≠ name) →
    count (hole name) 0 (substitute template before) = count (hole name) 0 template →
    substitute (quoteHole template name) before = quoteHole (substitute template before) name
  | [], _, _, _ => rfl
  | item :: before, template, h, hcount => by
    obtain ⟨hbare, hne⟩ := h item List.mem_cons_self
    have h' : ∀ i ∈ before, bare i.1 = true ∧ i.1 ≠ name := fun i hi => h i (List.mem_cons_of_mem _ hi)
    have hstep := (hole_opened hname).count_le_replaceAll (hole_opened hbare) (hole_apart hname hbare (Ne.symm hne))
      (renderValue item.2) template
    have hrest : count (hole name) 0 (replaceAll (hole item.1) (renderValue item.2) 0 template) ≤
        count (hole name) 0 (substitute template (item :: before)) := count_le_substitute hname h'
    have hcomm := (hole_opened hname).replaceAll_wrap_comm (w := '\'') (hole_opened hbare)
      (hole_apart hname hbare (Ne.symm hne))
      (hole_apart hbare hname hne) (by decide) (hole_last item.1) (renderValue item.2) template (by omega)
    show substitute (replaceAll (hole item.1) (renderValue item.2) 0 (quoteHole template name)) before = _
    rw [quoteHole_eq, hcomm]
    have hsame : count (hole name) 0 (substitute (replaceAll (hole item.1) (renderValue item.2) 0 template) before) =
        count (hole name) 0 (replaceAll (hole item.1) (renderValue item.2) 0 template) := by
      have : substitute (replaceAll (hole item.1) (renderValue item.2) 0 template) before =
        substitute template (item :: before) := rfl
      rw [this]
      omega
    exact substitute_quoteHole hname h' hsame

/-- **Quotes in the template or in the value**: the texts are the same from the turn of the placeholder on. -/
theorem substitute_hoisted (hname : bare name = true) (hbefore : ∀ item ∈ before, bare item.1 = true ∧ item.1 ≠ name)
    (hrest : name ∉ rest.map Prod.fst)
    (hcount : count (hole name) 0 (substitute template before) = count (hole name) 0 template) :
    substitute (quoteHole template name)
      (Dict.replace (before ++ (name, .str ('\'' :: (mid ++ ['\'']))) :: rest) name (.str mid)) =
      substitute template (before ++ (name, .str ('\'' :: (mid ++ ['\'']))) :: rest) := by
  have hnotin : name ∉ before.map Prod.fst := by
    intro hmem
    obtain ⟨item, hitem, heq⟩ := List.mem_map.1 hmem
    exact (hbefore item hitem).2 heq
  have hreplace : Dict.replace (before ++ (name, .str ('\'' :: (mid ++ ['\'']))) :: rest) name (.str mid) =
      before ++ (name, .str mid) :: rest := by
    have h1 := Dict.replace_of_notMem (v := Value.str mid) hnotin
    have h2 := Dict.replace_of_notMem (v := Value.str mid) hrest
    rw [Dict.replace] at h1 h2
    rw [Dict.replace, List.map_append, List.map_cons, h1, h2]
    rw [if_pos rfl]
  have hturn : replaceAll (hole name) mid 0 (substitute (quoteHole template name) before) =
      replaceAll (hole name) ('\'' :: (mid ++ ['\''])) 0 (substitute template before) := by
    rw [substitute_quoteHole hname hbefore hcount, quoteHole_eq]
    exact (hole_opened hname).replaceAll_wrap (by decide) (hole_last name) mid _
  rw [hreplace]
  have hsplit : ∀ (t : Text) (v : Value), substitute t (before ++ (name, v) :: rest) =
      substitute (replaceAll (hole name) (renderValue v) 0 (substitute t before)) rest := by
    intro t v
    rw [substitute, List.foldl_append, List.foldl_cons]
    rfl
  rw [hsplit, hsplit]
  exact congrArg (substitute · rest) hturn

end

/-! ## One column -/
section
variable {placeholders : List Text} {template name : Text} {rows : List (List Value)} {row : List Value}
  {col : Nat} {v : Value}

theorem mem_assignment {placeholders : List Text} {row : List Value} {item : Text × Value}
    (h : item ∈ assignment placeholders row) :
    item.1 ∈ placeholders := by
  rcases Dict.mem_keys_foldl_set (List.mem_map.2 ⟨item, h, rfl⟩) with hmem | hmem
  · cases hmem
  · obtain ⟨p, hp, heq⟩ := List.mem_map.1 hmem
    rw [← heq]
    exact (List.of_mem_zip hp).1

/-- **The SQL of a row** is the same with the column hoisted. -/
theorem Quiet.same_sql (h : Quiet placeholders template rows col name) (hname : placeholders[col]? = some name)
    (hrow : row ∈ rows)
    (hv : row[col]? = some v) (hquoted : isQuotedLiteral v = true) :
    substitute (quoteHole template name) (assignment placeholders (row.modify col strip)) =
      substitute template (assignment placeholders row) := by
  obtain ⟨hlast, hbare, hcount⟩ := h
  obtain ⟨before, rest, hsplit, hbefore, hrest⟩ := assignment_split hname hlast hv
  obtain ⟨mid, rfl, hstrip⟩ := quoted_shape hquoted
  have hmem : ∀ item ∈ before, bare item.1 = true ∧ item.1 ≠ name := by
    intro item hitem
    refine ⟨hbare _ (mem_assignment (hsplit ▸ List.mem_append_left _ hitem)), ?_⟩
    rintro rfl
    exact hbefore (List.mem_map.2 ⟨item, hitem, rfl⟩)
  rw [assignment_strip hname hlast hv, hstrip, hsplit]
  exact substitute_hoisted (hbare _ (List.mem_of_getElem? hname)) hmem hrest (hcount row hrow before _ rest hsplit)

theorem getElem?_strip (row : List Value) (col j : Nat) :
    (row.modify col strip)[j]? = if j = col then row[j]?.map strip else row[j]? := by
  rw [List.getElem?_modify]
  by_cases h : col = j
  · subst h
    simp
  · simp [h, Ne.symm h]

/-- **A column to come stays quiet** when another is hoisted. -/
theorem Quiet.hoisted (h : Quiet placeholders template rows col name) (hname : placeholders[col]? = some name)
    (hvalues : ∀ row ∈ rows, ∃ v, row[col]? = some v ∧ isQuotedLiteral v = true) {k : Nat} {other : Text} (hk : col < k)
    (hother : placeholders[k]? = some other) (h' : Quiet placeholders template rows k other) :
    Quiet placeholders (quoteHole template name) (rows.map fun row => row.modify col strip) k other := by
  obtain ⟨hlast, hbare, hcount⟩ := h
  obtain ⟨hlast', -, hcount'⟩ := h'
  refine ⟨hlast', hbare, fun row₁ hrow₁ before v rest hsplit => ?_⟩
  obtain ⟨row, hrow, rfl⟩ := List.mem_map.1 hrow₁
  obtain ⟨u, hu, hquoted⟩ := hvalues row hrow
  obtain ⟨mid, rfl, hstrip⟩ := quoted_shape hquoted
  have hne : other ≠ name := fun heq => hlast k hk (heq ▸ hother)
  have hname' : bare name = true := hbare _ (List.mem_of_getElem? hname)
  have hother' : bare other = true := hbare _ (List.mem_of_getElem? hother)
  -- the template has the same holes of the other name
  have htemplate : ∀ t : Text, count (hole other) 0 (quoteHole t name) = count (hole other) 0 t := fun t => by
    rw [quoteHole_eq]
    exact (hole_opened hother').count_wrap (hole_opened hname') (hole_apart hother' hname' hne) (by decide)
      (hole_last other) t
  rw [assignment_strip hname hlast hu, hstrip, Dict.replace, List.map_eq_append_iff] at hsplit
  obtain ⟨before₀, tail, hitems, rfl, htail⟩ := hsplit
  obtain ⟨item, rest₀, rfl, hitem, -⟩ := List.map_eq_cons_iff.1 htail
  have hitem' : item = (other, item.2) := by
    by_cases heq : item.1 = name
    · rw [if_pos heq] at hitem
      exact absurd (Prod.mk.inj hitem).1.symm hne
    · rw [if_neg heq] at hitem
      rw [hitem]
  rw [hitem'] at hitems
  have hsame := hcount' row hrow before₀ item.2 rest₀ hitems
  rw [htemplate, ← hsame]
  have hmembers : ∀ i ∈ assignment placeholders row, bare i.1 = true := fun i hi => hbare _ (mem_assignment hi)
  have hkeyed : Dict.Keyed (assignment placeholders row) := Dict.keyed_ofItems _
  by_cases hmem : name ∈ before₀.map Prod.fst
  · -- the turn of the hoisted name is over: the texts are the same
    obtain ⟨pair, hpair, rfl⟩ := List.mem_map.1 hmem
    obtain ⟨pre, post, hsplit, -, -⟩ := assignment_split hname hlast hu
    have hvalue : pair = (pair.1, .str ('\'' :: (mid ++ ['\'']))) := by
      have h1 := hkeyed.get_of_mem (k := pair.1) (v := pair.2) (hitems ▸ List.mem_append_left _ hpair)
      have h2 := hkeyed.get_of_mem (hsplit ▸ List.mem_append_right _ List.mem_cons_self)
      rw [h1] at h2
      exact Prod.ext rfl (Option.some.inj h2)
    obtain ⟨a, b, rfl⟩ := List.append_of_mem hpair
    have hturn : assignment placeholders row = a ++ (pair.1, pair.2) :: (b ++ (other, item.2) :: rest₀) := by
      rw [hitems, List.append_assoc, List.cons_append]
    have hnodup := hkeyed
    rw [hturn, Dict.Keyed, List.map_append, List.map_cons, List.nodup_append, List.nodup_cons,
      List.map_append] at hnodup
    have ha : ∀ i ∈ a, bare i.1 = true ∧ i.1 ≠ pair.1 := by
      intro i hi
      refine ⟨hmembers i (hturn ▸ List.mem_append_left _ hi), fun heq => ?_⟩
      exact hnodup.2.2 i.1 (List.mem_map.2 ⟨i, hi, rfl⟩) pair.1 List.mem_cons_self heq
    have hb : pair.1 ∉ b.map Prod.fst := fun hin => hnodup.2.1.1 (List.mem_append_left _ hin)
    have hfinal := @substitute_hoisted pair.1 template mid a b hname' ha hb (hcount row hrow a pair.2 _ hturn)
    rw [← hvalue] at hfinal
    exact congrArg (count (hole other) 0) hfinal
  · -- its turn is still to come: the text has quoted holes
    have hunchanged : before₀.map (fun p => if p.1 = name then (name, .str mid) else p) = before₀ :=
      Dict.replace_of_notMem hmem
    obtain ⟨pre, post, hsplit, hpre, hpost⟩ := assignment_split hname hlast hu
    obtain ⟨t, rfl⟩ : ∃ t, pre = before₀ ++ t := by
      rcases List.append_eq_append_iff.1 (hsplit.symm.trans hitems) with ⟨t, ht, heq⟩ | ⟨t, ht, -⟩
      · cases t with
        | nil => exact ⟨[], by rw [ht]; simp⟩
        | cons p t =>
          rw [List.cons_append, List.cons.injEq] at heq
          refine absurd (List.mem_map.2 ⟨p, ?_, by rw [← heq.1]⟩) hmem
          rw [ht]
          exact List.mem_append_right _ List.mem_cons_self
      · exact ⟨t, ht⟩
    have hb : ∀ i ∈ before₀ ++ t, bare i.1 = true ∧ i.1 ≠ name := by
      intro i hi
      refine ⟨hmembers i (hsplit ▸ List.mem_append_left _ hi), ?_⟩
      rintro rfl
      exact hpre (List.mem_map.2 ⟨i, hi, rfl⟩)
    have hb₀ : ∀ i ∈ before₀, bare i.1 = true ∧ i.1 ≠ name := fun i hi => hb i (List.mem_append_left _ hi)
    have hle : count (hole name) 0 template ≤ count (hole name) 0 (substitute template before₀) :=
      count_le_substitute hname' hb₀
    have hle' : count (hole name) 0 (substitute template before₀) ≤ count (hole name) 0
      (substitute template (before₀ ++ t)) := by
      have := @count_le_substitute name hname' t (substitute template before₀) fun i hi =>
        hb i (List.mem_append_right before₀ hi)
      rw [substitute, substitute, ← List.foldl_append] at this
      exact this
    have hend := hcount row hrow (before₀ ++ t) _ post hsplit
    rw [hunchanged, substitute_quoteHole hname' hb₀ (by omega), htemplate]

end

/-! ## The loop -/
section
variable {placeholders : List Text} {template template' : Text} {rows rows' : List (List Value)}

theorem uniform_strip {rows : List (List Value)} {col k : Nat} (h : k ≠ col) :
    uniform (rows.map fun row => row.modify col strip) k = uniform rows k := by
  rw [uniform, uniform, List.isEmpty_map, List.all_map]
  congr 2
  funext row
  rw [Function.comp_apply, getElem?_strip, if_neg h]

theorem quoted_of_uniform {rows : List (List Value)} {col : Nat} (h : uniform rows col = true) :
    ∀ row ∈ rows, ∃ v, row[col]? = some v ∧ isQuotedLiteral v = true := by
  intro row hrow
  rw [uniform, Bool.and_eq_true, List.all_eq_true] at h
  have := h.2 row hrow
  cases hcol : row[col]? with
  | none => rw [hcol] at this; cases this
  | some v =>
    rw [hcol] at this
    exact ⟨v, rfl, this⟩

/-- **The SQL of every row is kept**, if the columns that are hoisted are quiet. -/
theorem hoistRows_sql : ∀ {names : List Text} {col : Nat} {template : Text} {rows : List (List Value)},
    placeholders.drop col = names →
    (∀ k name, col ≤ k → placeholders[k]? = some name → uniform rows k = true →
      Quiet placeholders template rows k name) →
    hoistRows col names template rows = .ok (template', rows') →
    List.Forall₂ (fun row row' => substitute template' (assignment placeholders row') =
      substitute template (assignment placeholders row)) rows rows'
  | [], _, _, rows, _, _, h => by
    cases h
    exact List.forall₂_same.2 fun _ _ => rfl
  | name :: names, col, template, rows, hnames, hquiet, h => by
    have hname : placeholders[col]? = some name := by
      rw [← List.head?_drop, hnames]
      rfl
    have hnames' : placeholders.drop (col + 1) = names := by
      rw [← List.tail_drop, hnames]
      rfl
    rw [hoistRows] at h
    split at h
    · cases h
    rename_i values hvalues
    cases hinspect : inspect template name values with
    | error e => rw [hinspect] at h; cases h
    | ok hoisted =>
      rw [hinspect] at h
      have huniform := inspect_uniform hvalues hinspect
      cases hoisted with
      | false => exact hoistRows_sql hnames' (fun k n hk => hquiet k n (by omega)) h
      | true =>
        have hq := hquiet col name le_rfl hname huniform
        have hquoted := quoted_of_uniform huniform
        have hlater : ∀ k n, col + 1 ≤ k → placeholders[k]? = some n →
            uniform (rows.map fun row => row.modify col strip) k = true →
            Quiet placeholders (quoteHole template name) (rows.map fun row => row.modify col strip) k n := by
          intro k n hk hn hu
          rw [uniform_strip (by omega)] at hu
          exact hq.hoisted hname hquoted (by omega) hn (hquiet k n (by omega) hn hu)
        have hrest := hoistRows_sql hnames' hlater h
        rw [List.forall₂_map_left_iff, List.forall₂_iff_zip] at hrest
        refine List.forall₂_iff_zip.2 ⟨hrest.1, fun {row row'} hmem => ?_⟩
        have hrow := (List.of_mem_zip hmem).1
        obtain ⟨v, hv, hvq⟩ := hquoted row hrow
        exact (hrest.2 hmem).trans (hq.same_sql hname hrow hv hvq)

/-- What a later row holds comes from an earlier one. -/
theorem exists_earlier {R : List Value → List Value → Prop} {row' : List Value} (h : List.Forall₂ R rows rows')
    (hrow' : row' ∈ rows') :
    ∃ row ∈ rows, R row row' := by
  rw [List.forall₂_iff_get] at h
  obtain ⟨i, hi, rfl⟩ := List.getElem_of_mem hrow'
  exact ⟨_, List.get_mem rows ⟨i, h.1 ▸ hi⟩, h.2 i (h.1 ▸ hi) hi⟩

/-- The values of the columns from `col` on, once the loop is over. -/
theorem hoistRows_values : ∀ {names : List Text} {col : Nat} {template : Text} {rows : List (List Value)},
    hoistRows col names template rows = .ok (template', rows') →
    List.Forall₂ (fun row row' => ∀ k, row'[k]? =
      if (col ≤ k ∧ k < col + names.length) ∧ uniform rows k = true then row[k]?.map strip else row[k]?) rows rows' ∧
    ∀ k, col ≤ k → k < col + names.length → ∀ row' ∈ rows', ∃ v, row'[k]? = some v ∧ isQuotedLiteral v = false
  | [], col, _, rows, h => by
    cases h
    refine ⟨List.forall₂_same.2 fun row _ k => ?_, fun k hk hk' => ?_⟩
    · rw [if_neg]
      rintro ⟨⟨hk, hk'⟩, -⟩
      rw [List.length_nil] at hk'
      omega
    · rw [List.length_nil] at hk'
      omega
  | name :: names, col, template, rows, h => by
    rw [hoistRows] at h
    split at h
    · cases h
    rename_i values hvalues
    rw [List.length_cons]
    cases hinspect : inspect template name values with
    | error e => rw [hinspect] at h; cases h
    | ok hoisted =>
      rw [hinspect] at h
      have huniform := inspect_uniform hvalues hinspect
      obtain ⟨hmem, -⟩ := mem_column hvalues
      cases hoisted with
      | false =>
        obtain ⟨hforall, hnone⟩ := hoistRows_values h
        refine ⟨hforall.imp fun row row' hrow k => ?_, fun k hk hk' row' hrow' => ?_⟩
        · rw [hrow k]
          by_cases hk : k = col
          · rw [if_neg (by omega), hk, if_neg (by simp [huniform])]
          · exact if_congr (and_congr_left' ⟨fun _ => by omega, fun _ => by omega⟩) rfl rfl
        · by_cases hcol : k = col
          · obtain ⟨row, hrow, hvalue⟩ := exists_earlier hforall hrow'
            obtain ⟨v, hv, hget⟩ := hmem row hrow
            refine ⟨v, ?_, inspect_false hinspect v hv⟩
            rw [hvalue k, if_neg (by omega), hcol, hget]
          · exact hnone k (by omega) (by omega) row' hrow'
      | true =>
        obtain ⟨hforall, hnone⟩ := hoistRows_values h
        rw [List.forall₂_map_left_iff] at hforall
        refine ⟨hforall.imp fun row row' hrow k => ?_, fun k hk hk' row' hrow' => ?_⟩
        · rw [hrow k]
          by_cases hk : k = col
          · rw [if_neg (by omega), hk, if_pos ⟨by omega, huniform⟩, getElem?_strip, if_pos rfl]
          · rw [uniform_strip hk, getElem?_strip, if_neg hk]
            exact if_congr (and_congr_left' ⟨fun _ => by omega, fun _ => by omega⟩) rfl rfl
        · by_cases hcol : k = col
          · -- a quoted literal without quotes inside has lost the only two it had
            obtain ⟨row, hrow, hvalue⟩ := exists_earlier hforall hrow'
            obtain ⟨v, hv, hget⟩ := hmem row hrow
            obtain ⟨hquoted, hembedded⟩ := (inspect_true hinspect).2 v hv
            obtain ⟨mid, rfl, hstrip⟩ := quoted_shape hquoted
            refine ⟨.str mid, ?_, not_quoted ?_⟩
            · rw [hvalue k, if_neg (by omega), hcol, getElem?_strip, if_pos rfl, hget, Option.map_some, hstrip]
            · simpa [hasEmbedded] using hembedded
          · exact hnone k (by omega) (by omega) row' hrow'

/-- Nothing is left to hoist where no column has a quoted literal. -/
theorem hoistRows_again : ∀ {names : List Text} {col : Nat},
    (∀ k, col ≤ k → k < col + names.length → ∀ row ∈ rows, ∃ v, row[k]? = some v ∧ isQuotedLiteral v = false) →
    hoistRows col names template rows = .ok (template, rows)
  | [], _, _ => rfl
  | name :: names, col, h => by
    rw [List.length_cons] at h
    obtain ⟨values, hvalues, hbare⟩ := MapM.exists_of_forall (h col le_rfl (by omega))
    have hinspect : inspect template name values = .ok false := by
      have hnil : values.filter isQuotedLiteral = [] := by
        rw [List.filter_eq_nil_iff]
        intro v hv
        rw [hbare v hv]
        decide
      rw [inspect, hnil, if_pos rfl]
    rw [hoistRows, hvalues]
    dsimp only
    rw [hinspect]
    exact hoistRows_again fun k hk hk' => h k (by omega) (by omega)

end

/-! ## The function -/
section
variable (template : Text) (placeholders : List Text) (heap : Heap) (rows : List Nat)

/-- The call leaves the caller's rows as they are. What it returns gives every row the SQL it had; a hoisted column
has lost its quotes and nothing else is changed; and called again it changes nothing. -/
structure Keeps : Prop where
  unmodified : heap <+: (hoistLiteralQuotes template placeholders heap rows).1
  sql : ∀ template' rows', (hoistLiteralQuotes template placeholders heap rows).2 = .ok (template', rows') →
    List.Forall₂ (fun row row' => substitute template' (assignment placeholders row') = substitute template (assignment placeholders row))
      (rowsAt heap rows) (rowsAt (hoistLiteralQuotes template placeholders heap rows).1 rows')
  values : ∀ template' rows', (hoistLiteralQuotes template placeholders heap rows).2 = .ok (template', rows') →
    List.Forall₂ (fun row row' => ∀ k, row'[k]? =
      if k < placeholders.length ∧ uniform (rowsAt heap rows) k = true then row[k]?.map strip else row[k]?)
      (rowsAt heap rows) (rowsAt (hoistLiteralQuotes template placeholders heap rows).1 rows')
  again : ∀ template' rows' heap', hoistLiteralQuotes template placeholders heap rows = (heap', .ok (template', rows')) →
    ∃ rows'', (hoistLiteralQuotes template' placeholders heap' rows').2 = .ok (template', rows'') ∧
      rowsAt (hoistLiteralQuotes template' placeholders heap' rows').1 rows'' = rowsAt heap' rows'

theorem rowsAt_fresh : rowsAt (heap ++ rowsAt heap rows) (List.range' heap.length rows.length) = rowsAt heap rows := by
  have hlength : (rowsAt heap rows).length = rows.length := List.length_map _
  rw [← hlength, rowsAt, List.range'_eq_map_range, List.map_map]
  refine List.ext_getElem (by simp) fun i _ hi => ?_
  rw [List.getElem_map, List.getElem_range, Function.comp_apply, List.getD_eq_getElem?_getD,
    List.getElem?_append_right (by omega),
    Nat.add_sub_cancel_left, List.getElem?_eq_getElem hi, Option.getD_some]

/-- **The function on the rows themselves**: what the caller holds is not touched, and the new rows are those of
the loop. -/
theorem hoistLiteralQuotes_spec :
    heap <+: (hoistLiteralQuotes template placeholders heap rows).1 ∧
      hoistRows 0 placeholders template (rowsAt heap rows) =
        (hoistLiteralQuotes template placeholders heap rows).2.map fun result =>
        (result.1, rowsAt (hoistLiteralQuotes template placeholders heap rows).1 result.2) := by
  have hlt : ∀ r ∈ List.range' heap.length rows.length, r < (heap ++ rowsAt heap rows).length := by
    intro r hr
    rw [List.mem_range'_1] at hr
    rw [List.length_append, rowsAt, List.length_map]
    exact hr.2
  obtain ⟨hlen, hframe, hrows⟩ := @hoistLoop_spec _ placeholders 0 template _ List.nodup_range' hlt
  rw [rowsAt_fresh] at hrows
  refine ⟨List.prefix_iff_getElem?.2 fun i hi => ?_, ?_⟩
  · have hi' : i < (heap ++ rowsAt heap rows).length := by
      rw [List.length_append]
      omega
    have hget := hframe i fun hmem => by
      have := (List.mem_range'_1.1 hmem).1
      omega
    rw [List.getD_eq_getElem _ _ (hlen.symm ▸ hi'), List.getD_eq_getElem _ _ hi', List.getElem_append_left hi] at hget
    rw [← hget]
    exact List.getElem?_eq_getElem _
  · rw [hrows, hoistLiteralQuotes]
    dsimp only
    cases (hoistLoop (List.range' heap.length rows.length) 0 placeholders template (heap ++ rowsAt heap rows)).2 <;> rfl

/-- **Hoisting keeps the SQL**, if every column that is hoisted is quiet. -/
theorem hoist_keeps (hquiet : ∀ col name, placeholders[col]? = some name → uniform (rowsAt heap rows) col = true →
    Quiet placeholders template (rowsAt heap rows) col name) : Keeps template placeholders heap rows := by
  obtain ⟨hhead, hrows⟩ := hoistLiteralQuotes_spec template placeholders heap rows
  have hok : ∀ {template' rows'}, (hoistLiteralQuotes template placeholders heap rows).2 = .ok (template', rows') →
      hoistRows 0 placeholders template (rowsAt heap rows) =
        .ok (template', rowsAt (hoistLiteralQuotes template placeholders heap rows).1 rows') := by
    intro template' rows' h
    rw [hrows, h]
    rfl
  constructor
  case unmodified => exact hhead
  case sql =>
    intro template' rows' h
    exact hoistRows_sql List.drop_zero (fun col name _ => hquiet col name) (hok h)
  case values =>
    intro template' rows' h
    refine (hoistRows_values (hok h)).1.imp fun row row' hrow k => ?_
    rw [hrow k]
    exact if_congr (and_congr_left' (by omega)) rfl rfl
  case again =>
    intro template' rows' heap' h
    have hagain : hoistRows 0 placeholders template' _ = _ := hoistRows_again (hoistRows_values (hok (congrArg Prod.snd h))).2
    rw [h] at hagain
    obtain ⟨-, hrows'⟩ := hoistLiteralQuotes_spec template' placeholders heap' rows'
    rw [hagain] at hrows'
    cases hresult : (hoistLiteralQuotes template' placeholders heap' rows').2 with
    | error e => rw [hresult] at hrows'; cases hrows'
    | ok result =>
      rw [hresult] at hrows'
      have := Prod.mk.inj (Except.ok.inj hrows')
      exact ⟨result.2, by rw [this.1], this.2.symm⟩

end

private def twice : List Text := ["A".toList, "B".toList]

private def plain : Heap := [[.str "'x'".toList, .other "7".toList], [.str "'[A]'".toList, .other "8".toList]]

theorem plain_quiet : ∀ col name, twice[col]? = some name → uniform (rowsAt plain [0, 1]) col = true →
    Quiet twice "a = [A] AND b = [B] OR c = '[A]'".toList (rowsAt plain [0, 1]) col name := by
  intro col name hname huniform
  match col, hname, huniform with
  | 0, hname, _ =>
    cases hname
    refine ⟨fun k hk hsome => ?_, by decide +kernel, fun row hrow before v rest hsplit => ?_⟩
    · match k, hk, hsome with
      | 1, _, hsome => exact absurd hsome (by decide +kernel)
    · -- the name is the first one of the row: nothing is put in before it
      have hfirst : ∀ row ∈ rowsAt plain [0, 1], ((assignment twice row).drop 1).map Prod.fst = ["B".toList] := by
        decide +kernel
      cases before with
      | nil => rfl
      | cons item before =>
        have hkeys := hfirst row hrow
        rw [hsplit, List.cons_append, List.drop_one, List.tail_cons, List.map_append, List.map_cons] at hkeys
        have hmem : "A".toList ∈ ["B".toList] := hkeys ▸ List.mem_append_right _ List.mem_cons_self
        exact absurd hmem (by decide +kernel)
  | 1, _, huniform => exact absurd huniform (by decide +kernel)

theorem hoist_keeps_twice : Keeps "a = [A] AND b = [B] OR c = '[A]'".toList twice plain [0, 1] :=
  hoist_keeps _ _ _ _ plain_quiet

/-- **A value with a later hole in it**: its quotes are doubled before, and gone after. -/
theorem bracketed_value :
    ¬ Keeps "[A] [B]".toList twice [[.str "'[B]'".toList, .str "'x'".toList]] [0] := by
  intro h
  have hresult : (hoistLiteralQuotes "[A] [B]".toList twice [[.str "'[B]'".toList, .str "'x'".toList]] [0]).2 =
      .ok ("'[A]' '[B]'".toList, [1]) := by decide +kernel
  have hsql := h.sql _ _ hresult
  rw [List.forall₂_iff_zip] at hsql
  have hrow : substitute "'[A]' '[B]'".toList (assignment twice [.str "[B]".toList, .str "x".toList]) =
      substitute "[A] [B]".toList (assignment twice [.str "'[B]'".toList, .str "'x'".toList]) := hsql.2 (by decide +kernel)
  exact absurd hrow (by decide +kernel)

/-- A value may bring a hole and the texts still agree, when the value of a third placeholder brings the quotes back. -/
example : (hoistRows 0 ["A".toList, "K".toList, "M".toList] "[A] [K] [M]".toList
      [[.str "[[K]]".toList, .str "'M'".toList, .str "['M']".toList]]).map
        (fun r => r.2.map fun row => substitute r.1 (assignment ["A".toList, "K".toList, "M".toList] row)) =
    .ok [substitute "[A] [K] [M]".toList (assignment ["A".toList, "K".toList, "M".toList]
      [.str "[[K]]".toList, .str "'M'".toList, .str "['M']".toList])] := by decide +kernel

end SynnoDB.Workload.HoistQuotes
