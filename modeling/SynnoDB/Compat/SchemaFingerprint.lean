import Mathlib.Data.List.Sort
import SynnoDB.Lib.Separated

/-!
# The schema fingerprint (`duckdb_compat/connection.py:505-544`, `router/guards.py:114-130`)

| here | there |
| --- | --- |
| `State`       | the catalog (tables and views of every database and schema) and the session of a connection |
| `DuckDb`      | `str.lower`, the `lower` of SQL, and the locations where DuckDB looks an unqualified name up |
| `resolve`     | what DuckDB finds there: the columns of the first table of that name |
| `digest`      | `hashlib.sha256(...).hexdigest()[:16]` |

The fingerprint collects the columns of every table of a name, wherever it is, and the lookup takes the first on
the path. **The two agree while each name has one home** (`Plain`, `schema_fingerprint_plain`); a table that leaves
the path takes its fingerprint along (`resolve_relocate`).
-/

namespace SynnoDB.Compat.SchemaFingerprint

open Separated

abbrev Text := List Char

structure Column where
  name : Text
  dataType : Text
  deriving DecidableEq, Repr

/-- A table or a view: DuckDB makes none without columns. -/
structure Table where
  database : Text
  schema : Text
  name : Text
  columns : List Column
  columns_ne : columns ≠ []
  deriving DecidableEq

structure Settings where
  currentDatabase : Text
  searchPath : Text
  defaultNullOrder : Text
  timeZone : Text
  calendar : Text
  deriving DecidableEq, Repr

/-- The case that DuckDB's catalog ignores is that of ASCII letters. -/
def fold (t : Text) : Text := t.map Char.toLower

def Table.place (t : Table) : Text × Text × Text := (fold t.database, fold t.schema, fold t.name)

structure State where
  tables : List Table
  distinct : (tables.map Table.place).Nodup
  settings : Settings
  /-- The query of the session context raises. -/
  sessionFails : Bool := false
  /-- The query of the columns raises. -/
  columnsFail : Text → Bool := fun _ => false

structure DuckDb where
  pyLower : Text → Text
  sqlLower : Text → Text
  /-- Database and schema, in the order of the search. -/
  locations : Settings → List (Text × Text)

section
variable (db : DuckDb) (s : State)

def State.tableAt (loc : Text × Text) (n : Text) : Option Table :=
  s.tables.find? fun t => t.place = (fold loc.1, fold loc.2, fold n)

def resolve (n : Text) : Option (List Column) :=
  (db.locations s.settings).findSome? fun loc => (s.tableAt loc n).map Table.columns

/-! ## The fingerprint -/

/-- `sorted` of strings: by code points. -/
def textLe : Text → Text → Bool
  | [], _ => true
  | _ :: _, [] => false
  | a :: as, b :: bs => a.toNat < b.toNat || a == b && textLe as bs

def Settings.text (st : Settings) : Text :=
  [','].intercalate [st.currentDatabase, st.searchPath, st.defaultNullOrder, st.timeZone, st.calendar]

def State.sessionText : Text :=
  "session(".toList ++ ((if s.sessionFails then "<unavailable>".toList else s.settings.text) ++ [')'])

/-- The rows of `information_schema.columns` by `ordinal_position`; SQL leaves the order of equal ones open. -/
def columnRows (table : Text) : List Column :=
  if s.columnsFail table then []
  else
    let found := s.tables.filter fun t => db.sqlLower t.name = table
    ((found.flatMap fun t => t.columns.zipIdx).insertionSort fun a b => a.2 ≤ b.2).map Prod.fst

def Column.text (c : Column) : Text := c.name ++ ':' :: c.dataType

def columnsText (table : Text) : Text :=
  match columnRows db s table with
  | [] => "<missing>".toList
  | rows => [','].intercalate (rows.map Column.text)

def tableText (table : Text) : Text := (table ++ ['(']) ++ (columnsText db s table ++ [')'])

def sortedNames (tables : List Text) : List Text :=
  (tables.map db.pyLower).insertionSort fun a b => textLe a b = true

def fingerprintText (tables : List Text) : Text :=
  ['|'].intercalate (s.sessionText :: (sortedNames db tables).map (tableText db s))

variable (digest : Text → Text)

def schemaFingerprint (tables : List Text) : Text := digest (fingerprintText db s tables)

structure EngineBinding where
  tables : List Text
  schemaFingerprint : Text

/-- `live` is `conn.schema_fingerprint`, if there is one; an error is the exception's text. -/
def schemaMatchGuard (live : Option (List Text → Except String Text)) (b : EngineBinding) : Bool × String :=
  match live with
  | none => (true, "schema check not enforced (no live fingerprint)")
  | some live =>
    match live b.tables with
    | .error exc => (false, "schema introspection failed: " ++ exc)
    | .ok current =>
      if current ≠ b.schemaFingerprint then (false, "schema or session context changed since engine build")
      else (true, "schema matches")

/-- The method of the connection, which catches what the queries raise. -/
def State.live : Option (List Text → Except String Text) := some fun tables => .ok (schemaFingerprint db s digest tables)

/-- The session settings that the fingerprint records. -/
def State.recorded : Option Settings := if s.sessionFails then none else some s.settings

end

/-- What the claim asks for: the statement means the same. -/
structure Same (db : DuckDb) (s s' : State) (tables : List Text) : Prop where
  settings : s.recorded = s'.recorded
  resolves : ∀ n ∈ tables, resolve db s n = resolve db s' n

/-! ## States that the fingerprint tells apart -/

structure Column.Clean (c : Column) : Prop where
  name_colon : ':' ∉ c.name
  name_comma : ',' ∉ c.name
  name_bar : '|' ∉ c.name
  type_colon : ':' ∉ c.dataType
  type_bar : '|' ∉ c.dataType

/-- Only the search path may have commas. -/
structure Settings.Clean (st : Settings) : Prop where
  database : ',' ∉ st.currentDatabase
  nullOrder : ',' ∉ st.defaultNullOrder
  timeZone : ',' ∉ st.timeZone
  calendar : ',' ∉ st.calendar
  bars : '|' ∉ st.text

/-- The queries answer, and the tables of each name are one, on the path, under both lower cases and without
separators. -/
structure Plain (db : DuckDb) (s : State) (tables : List Text) : Prop where
  session : s.sessionFails = false
  answers : ∀ n ∈ tables, s.columnsFail (db.pyLower n) = false
  settings : s.settings.Clean
  lower : ∀ n ∈ tables, ∀ t ∈ s.tables, db.sqlLower t.name = db.pyLower n ↔ fold t.name = fold n
  onPath : ∀ n ∈ tables, ∀ t ∈ s.tables, fold t.name = fold n →
    ∃ loc ∈ db.locations s.settings, t.place = (fold loc.1, fold loc.2, fold n)
  one : ∀ n ∈ tables, ∀ t ∈ s.tables, ∀ t' ∈ s.tables, fold t.name = fold n → fold t'.name = fold n → t' = t
  columns : ∀ n ∈ tables, ∀ t ∈ s.tables, fold t.name = fold n → ∀ c ∈ t.columns, c.Clean

section
variable {db : DuckDb} {s s' : State} {tables : List Text} {n : Text} {t : Table}

theorem Settings.text_eq (st : Settings) : st.text = st.currentDatabase ++ ',' ::
    (((st.searchPath ++ ',' :: st.defaultNullOrder) ++ ',' :: st.timeZone) ++ ',' :: st.calendar) := by
  simp [Settings.text]

theorem Settings.text_inj {st st' : Settings} (h : st.Clean) (h' : st'.Clean) (heq : st.text = st'.text) :
    st = st' := by
  rw [Settings.text_eq, Settings.text_eq] at heq
  obtain ⟨hdb, heq⟩ := cut_first h.database h'.database heq
  obtain ⟨heq, hcal⟩ := cut_last h.calendar h'.calendar heq
  obtain ⟨heq, hzone⟩ := cut_last h.timeZone h'.timeZone heq
  obtain ⟨hpath, hnull⟩ := cut_last h.nullOrder h'.nullOrder heq
  cases st
  cases st'
  simp only at hdb hcal hzone hpath hnull
  rw [hdb, hcal, hzone, hpath, hnull]

/-- The columns after the first one's name. -/
def afterName (c : Column) : List Column → Text
  | [] => c.dataType
  | d :: ds => c.dataType ++ ',' :: [','].intercalate ((d :: ds).map Column.text)

theorem columns_text_cons (c : Column) (cs : List Column) :
    [','].intercalate ((c :: cs).map Column.text) = c.name ++ ':' :: afterName c cs := by
  cases cs <;> simp [afterName, Column.text]

theorem afterName_cons (c d : Column) (ds : List Column) :
    afterName c (d :: ds) = c.dataType ++ ',' :: (d.name ++ ':' :: afterName d ds) := by
  rw [afterName, columns_text_cons]

theorem colon_mem_columns (c : Column) (cs : List Column) : ':' ∈ [','].intercalate ((c :: cs).map Column.text) := by
  rw [columns_text_cons]
  simp

theorem columns_text_inj : ∀ {cs cs' : List Column}, (∀ c ∈ cs, c.Clean) → (∀ c ∈ cs', c.Clean) →
    [','].intercalate (cs.map Column.text) = [','].intercalate (cs'.map Column.text) → cs = cs'
  | [], [], _, _, _ => rfl
  | [], c' :: cs', _, _, h => absurd (colon_mem_columns c' cs') (by rw [← h]; simp)
  | c :: cs, [], _, _, h => absurd (colon_mem_columns c cs) (by rw [h]; simp)
  | c :: cs, c' :: cs', hcs, hcs', h => by
    obtain ⟨hc, hcs⟩ := List.forall_mem_cons.mp hcs
    obtain ⟨hc', hcs'⟩ := List.forall_mem_cons.mp hcs'
    rw [columns_text_cons, columns_text_cons] at h
    obtain ⟨hname, htail⟩ := cut_first hc.name_colon hc'.name_colon h
    suffices hrest : c.dataType = c'.dataType ∧ cs = cs' by
      obtain ⟨htype, rfl⟩ := hrest
      cases c
      cases c'
      simp only at hname htype
      rw [hname, htype]
    cases cs with
    | nil =>
      cases cs' with
      | nil => exact ⟨htail, rfl⟩
      | cons d' ds' =>
        refine absurd (colon_mem_columns d' ds') fun hmem => hc.type_colon ?_
        rw [show c.dataType = _ from htail]
        exact List.mem_append_right _ (.tail _ hmem)
    | cons d ds =>
      cases cs' with
      | nil =>
        refine absurd (colon_mem_columns d ds) fun hmem => hc'.type_colon ?_
        rw [show c'.dataType = _ from htail.symm]
        exact List.mem_append_right _ (.tail _ hmem)
      | cons d' ds' =>
        have hd := (List.forall_mem_cons.mp hcs).1
        have hd' := (List.forall_mem_cons.mp hcs').1
        -- the next colon is the one after the next name, and the comma before it the last
        have hnext : (c.dataType ++ ',' :: d.name) ++ ':' :: afterName d ds =
            (c'.dataType ++ ',' :: d'.name) ++ ':' :: afterName d' ds' := by
          rw [afterName_cons, afterName_cons] at htail
          simpa using htail
        obtain ⟨hcomma, hafter⟩ := cut_first (by simp [hc.type_colon, hd.name_colon])
          (by simp [hc'.type_colon, hd'.name_colon]) hnext
        obtain ⟨htype, hdname⟩ := cut_last hd.name_comma hd'.name_comma hcomma
        refine ⟨htype, columns_text_inj hcs hcs' ?_⟩
        rw [columns_text_cons, columns_text_cons, hdname, hafter]

theorem bar_notMem_columns : ∀ {cs : List Column}, (∀ c ∈ cs, c.Clean) → '|' ∉ [','].intercalate (cs.map Column.text)
  | [], _ => by simp
  | [c], h => by
    have hc := h c List.mem_cons_self
    simp [Column.text, hc.name_bar, hc.type_bar]
  | c :: d :: ds, h => by
    obtain ⟨hc, hds⟩ := List.forall_mem_cons.mp h
    have ih := bar_notMem_columns hds
    rw [columns_text_cons, afterName]
    simp only [List.mem_append, List.mem_cons, not_or]
    exact ⟨hc.name_bar, by decide, hc.type_bar, by decide, ih⟩

/-! ## One home -/

theorem columnRows_of_nil (hnone : ∀ t ∈ s.tables, db.sqlLower t.name ≠ n) : columnRows db s n = [] := by
  unfold columnRows
  rw [List.filter_eq_nil_iff.mpr fun t ht => by simpa using hnone t ht]
  simp

theorem filter_eq_singleton {p : Table → Bool} {l : List Table} (hl : l.Nodup) (ht : t ∈ l)
    (hp : ∀ u ∈ l, p u = true ↔ u = t) : l.filter p = [t] := by
  induction l with
  | nil => exact absurd ht List.not_mem_nil
  | cons u l ih =>
    obtain ⟨hu, hl⟩ := List.nodup_cons.mp hl
    by_cases hut : u = t
    · subst hut
      have hnone : l.filter p = [] := List.filter_eq_nil_iff.mpr fun v hv hpv =>
        hu ((hp v (.tail _ hv)).mp hpv ▸ hv)
      rw [List.filter_cons_of_pos ((hp u List.mem_cons_self).mpr rfl), hnone]
    · rw [List.filter_cons_of_neg fun hpu => hut ((hp u List.mem_cons_self).mp hpu)]
      exact ih hl ((List.mem_cons.mp ht).resolve_left (Ne.symm hut)) fun v hv => hp v (.tail _ hv)

theorem zipIdx_sorted (cs : List Column) : cs.zipIdx.Pairwise fun a b => a.2 ≤ b.2 := by
  have h : (cs.zipIdx.map Prod.snd).Pairwise (· ≤ ·) := by
    rw [List.zipIdx_map_snd]
    exact List.pairwise_le_range' 1
  exact List.pairwise_map.mp h

theorem columnRows_of_one (hanswers : s.columnsFail n = false) (ht : t ∈ s.tables)
    (hone : ∀ u ∈ s.tables, db.sqlLower u.name = n ↔ u = t) : columnRows db s n = t.columns := by
  have hfound : (s.tables.filter fun u => decide (db.sqlLower u.name = n)) = [t] :=
    filter_eq_singleton (.of_map _ s.distinct) ht fun u hu => by simpa using hone u hu
  simp only [columnRows, hanswers, Bool.false_eq_true, if_false, hfound, List.flatMap_cons, List.flatMap_nil,
    List.append_nil]
  rw [(zipIdx_sorted t.columns).insertionSort_eq, List.zipIdx_map_fst]

theorem resolve_of_nil (hnone : ∀ t ∈ s.tables, fold t.name ≠ fold n) : resolve db s n = none := by
  refine List.findSome?_eq_none_iff.mpr fun loc _ => ?_
  rw [Option.map_eq_none_iff]
  refine List.find?_eq_none.mpr fun t ht heq => hnone t ht ?_
  exact congrArg (fun p => p.2.2) (of_decide_eq_true heq)

theorem Plain.resolve_of_one (h : Plain db s tables) (hn : n ∈ tables) (ht : t ∈ s.tables)
    (hname : fold t.name = fold n) :
    resolve db s n = some t.columns := by
  obtain ⟨loc, hloc, hplace⟩ := h.onPath n hn t ht hname
  have hfound : ∀ {l u}, s.tableAt l n = some u → u = t := by
    intro l u hu
    unfold State.tableAt at hu
    have hfind := List.find?_some hu
    have hu' : u.place = (fold l.1, fold l.2, fold n) := of_decide_eq_true hfind
    exact h.one n hn t ht u (List.mem_of_find?_eq_some hu) hname (congrArg (fun p => p.2.2) hu')
  cases hr : resolve db s n with
  | none =>
    have hno := List.findSome?_eq_none_iff.mp hr loc hloc
    exact absurd (decide_eq_true hplace) (List.find?_eq_none.mp (Option.map_eq_none_iff.mp hno) t ht)
  | some cs =>
    obtain ⟨l, _, hl⟩ := List.exists_of_findSome?_eq_some hr
    obtain ⟨u, hu, rfl⟩ := Option.map_eq_some_iff.mp hl
    rw [hfound hu]

/-- What the fingerprint collects is what the name resolves to. -/
theorem Plain.rows (h : Plain db s tables) (hn : n ∈ tables) :
    (resolve db s n = none ∧ columnRows db s (db.pyLower n) = []) ∨
      ∃ c cs, resolve db s n = some (c :: cs) ∧ columnRows db s (db.pyLower n) = c :: cs ∧ ∀ d ∈ c :: cs, d.Clean := by
  by_cases hex : ∃ t ∈ s.tables, fold t.name = fold n
  · obtain ⟨t, ht, hname⟩ := hex
    have hrows : columnRows db s (db.pyLower n) = t.columns :=
      columnRows_of_one (h.answers n hn) ht fun u hu => by
        rw [h.lower n hn u hu]
        exact ⟨fun hu' => h.one n hn t ht u hu hname hu', fun hut => hut ▸ hname⟩
    obtain ⟨c, cs, hcs⟩ := List.exists_cons_of_ne_nil t.columns_ne
    refine Or.inr ⟨c, cs, ?_, hrows.trans hcs, hcs ▸ h.columns n hn t ht hname⟩
    rw [h.resolve_of_one hn ht hname, hcs]
  · have hnone : ∀ t ∈ s.tables, fold t.name ≠ fold n := fun t ht hname => hex ⟨t, ht, hname⟩
    exact Or.inl ⟨resolve_of_nil hnone, columnRows_of_nil fun t ht hlow => hnone t ht ((h.lower n hn t ht).mp hlow)⟩

theorem colon_notMem_missing : ':' ∉ "<missing>".toList := by decide

theorem Plain.columnsText_iff (h : Plain db s tables) (h' : Plain db s' tables) (hn : n ∈ tables) :
    columnsText db s (db.pyLower n) = columnsText db s' (db.pyLower n) ↔ resolve db s n = resolve db s' n := by
  unfold columnsText
  rcases h.rows hn with ⟨hr, hrows⟩ | ⟨c, cs, hr, hrows, hclean⟩ <;>
    rcases h'.rows hn with ⟨hr', hrows'⟩ | ⟨c', cs', hr', hrows', hclean'⟩ <;>
      rw [hr, hr', hrows, hrows']
  · simp
  · refine iff_of_false (fun heq => colon_notMem_missing ?_) (by simp)
    rw [show "<missing>".toList = _ from heq]
    exact colon_mem_columns c' cs'
  · refine iff_of_false (fun heq => colon_notMem_missing ?_) (by simp)
    rw [show "<missing>".toList = _ from heq.symm]
    exact colon_mem_columns c cs
  · rw [Option.some_inj]
    exact ⟨columns_text_inj hclean hclean', fun heq => heq ▸ rfl⟩

theorem Plain.bar_notMem_columnsText (h : Plain db s tables) (hn : n ∈ tables) :
    '|' ∉ columnsText db s (db.pyLower n) := by
  unfold columnsText
  rcases h.rows hn with ⟨_, hrows⟩ | ⟨c, cs, _, hrows, hclean⟩
  · rw [hrows]
    decide
  · rw [hrows]
    exact bar_notMem_columns hclean

theorem Plain.sessionText (h : Plain db s tables) : s.sessionText = "session(".toList ++ (s.settings.text ++ [')']) :=
  congrArg (fun t => "session(".toList ++ (t ++ [')'])) (if_neg (h.session ▸ Bool.false_ne_true))

theorem mem_sortedNames {m : Text} : m ∈ sortedNames db tables ↔ ∃ n ∈ tables, db.pyLower n = m := by
  rw [sortedNames, List.mem_insertionSort, List.mem_map]

/-- How a part begins, and what follows: the session's part, and those of the names. -/
def known : Option Text → Text
  | none => "session(".toList
  | some table => table ++ ['(']

def body (db : DuckDb) (s : State) : Option Text → Text
  | none => s.settings.text ++ [')']
  | some table => columnsText db s table ++ [')']

theorem Plain.fingerprintText (h : Plain db s tables) : fingerprintText db s tables =
    ['|'].intercalate ((none :: (sortedNames db tables).map some).map fun part => known part ++ body db s part) := by
  rw [SchemaFingerprint.fingerprintText, h.sessionText, List.map_cons, List.map_map]
  rfl

theorem Plain.bar_notMem_body (h : Plain db s tables) :
    ∀ part ∈ none :: (sortedNames db tables).map some, '|' ∉ body db s part := by
  refine List.forall_mem_cons.mpr ⟨?_, fun part hpart => ?_⟩
  · simp [body, h.settings.bars]
  · obtain ⟨m, hm, rfl⟩ := List.mem_map.mp hpart
    obtain ⟨n, hn, rfl⟩ := mem_sortedNames.mp hm
    simp [body, h.bar_notMem_columnsText hn]

theorem Plain.recorded (h : Plain db s tables) : s.recorded = some s.settings := by
  simp [State.recorded, h.session]

/-- Two plain states have one text iff the names mean the same in both. -/
theorem Plain.fingerprintText_iff (h : Plain db s tables) (h' : Plain db s' tables) :
    SchemaFingerprint.fingerprintText db s tables = SchemaFingerprint.fingerprintText db s' tables ↔
      Same db s s' tables := by
  constructor
  · intro heq
    rw [h.fingerprintText, h'.fingerprintText] at heq
    have hparts := intercalate_inj h.bar_notMem_body h'.bar_notMem_body heq
    have hsettings : s.settings.text = s'.settings.text :=
      List.append_cancel_right (hparts none List.mem_cons_self)
    refine ⟨?_, fun n hn => (h.columnsText_iff h' hn).mp ?_⟩
    · rw [h.recorded, h'.recorded, Settings.text_inj h.settings h'.settings hsettings]
    · have hm : db.pyLower n ∈ sortedNames db tables := mem_sortedNames.mpr ⟨n, hn, rfl⟩
      exact List.append_cancel_right (hparts (some (db.pyLower n)) (.tail _ (List.mem_map_of_mem hm)))
  · intro hsame
    have hsettings : s.settings = s'.settings := by simpa [h.recorded, h'.recorded] using hsame.settings
    have hsession : s.sessionText = s'.sessionText := by rw [h.sessionText, h'.sessionText, hsettings]
    have htables : (sortedNames db tables).map (tableText db s) = (sortedNames db tables).map (tableText db s') := by
      refine List.map_congr_left fun m hm => ?_
      obtain ⟨n, hn, rfl⟩ := mem_sortedNames.mp hm
      rw [tableText, tableText, (h.columnsText_iff h' hn).mpr (hsame.resolves n hn)]
    rw [SchemaFingerprint.fingerprintText, SchemaFingerprint.fingerprintText, hsession, htables]

/-! ## Tables that leave the path -/

/-- The same tables in schemas whose names begin with `pad`. -/
def Table.relocate (pad : Text) (t : Table) : Table := { t with schema := pad ++ t.schema }

theorem relocate_place {pad : Text} {t u : Table} (h : (t.relocate pad).place = (u.relocate pad).place) :
    t.place = u.place := by
  simp only [Table.place, Table.relocate, fold, List.map_append, Prod.mk.injEq, List.append_cancel_left_eq] at h ⊢
  exact h

theorem relocate_distinct (s : State) (pad : Text) : ((s.tables.map (Table.relocate pad)).map Table.place).Nodup := by
  have h : s.tables.Pairwise fun t u => t.place ≠ u.place := List.pairwise_map.mp s.distinct
  rw [List.map_map]
  exact List.pairwise_map.mpr (h.imp fun hne heq => hne (relocate_place heq))

def State.relocate (s : State) (pad : Text) : State :=
  { s with tables := s.tables.map (Table.relocate pad), distinct := relocate_distinct s pad }

theorem columnRows_relocate (s : State) (pad table : Text) :
    columnRows db (s.relocate pad) table = columnRows db s table := by
  simp only [columnRows, State.relocate, List.filter_map, List.flatMap_map]
  rfl

theorem fingerprintText_relocate (s : State) (pad : Text) (tables : List Text) :
    SchemaFingerprint.fingerprintText db (s.relocate pad) tables = SchemaFingerprint.fingerprintText db s tables := by
  have htable : tableText db (s.relocate pad) = tableText db s := by
    funext table
    rw [tableText, tableText, columnsText, columnsText, columnRows_relocate]
  rw [SchemaFingerprint.fingerprintText, SchemaFingerprint.fingerprintText, htable]
  rfl

theorem resolve_relocate {pad : Text} (hpad : ∀ loc ∈ db.locations s.settings, loc.2.length < pad.length) (n : Text) :
    resolve db (s.relocate pad) n = none := by
  refine List.findSome?_eq_none_iff.mpr fun loc hloc => ?_
  rw [Option.map_eq_none_iff]
  refine List.find?_eq_none.mpr fun t ht heq => ?_
  obtain ⟨u, _, rfl⟩ := List.mem_map.mp ht
  have hschema : fold (pad ++ u.schema) = fold loc.2 := congrArg (fun p => p.2.1) (of_decide_eq_true heq)
  have hlen := congrArg List.length hschema
  simp only [fold, List.length_map, List.length_append] at hlen
  have := hpad loc hloc
  omega

theorem exists_pad (locs : List (Text × Text)) : ∃ pad : Text, ∀ loc ∈ locs, loc.2.length < pad.length := by
  induction locs with
  | nil => exact ⟨[], fun loc hloc => absurd hloc List.not_mem_nil⟩
  | cons first locs ih =>
    obtain ⟨pad, hpad⟩ := ih
    refine ⟨'x' :: (first.2 ++ pad), List.forall_mem_cons.mpr ⟨?_, fun loc hloc => ?_⟩⟩
    · rw [List.length_cons, List.length_append]
      omega
    · have := hpad loc hloc
      rw [List.length_cons, List.length_append]
      omega

/-- The guard lets a statement pass iff the fingerprint is the one of the engine's registration. -/
theorem guard_live {digest : Text → Text} (b : EngineBinding) :
    (schemaMatchGuard (s.live db digest) b).1 = true ↔ schemaFingerprint db s digest b.tables =
      b.schemaFingerprint := by
  simp only [schemaMatchGuard, State.live]
  split
  · next hne => exact iff_of_false Bool.false_ne_true hne
  · next heq => exact iff_of_true rfl (not_not.mp heq)

end

/-- **Equal fingerprints of plain states mean equal names and settings**, and only plain states: to each state in
which some name resolves there is one with its fingerprint in which none does. -/
theorem schema_fingerprint_plain (db : DuckDb) (digest : Text → Text) (hdigest : Function.Injective digest) :
    (∀ (s s' : State) (tables : List Text), Plain db s tables → Plain db s' tables →
      (schemaFingerprint db s digest tables = schemaFingerprint db s' digest tables ↔ Same db s s' tables)) ∧
    (∀ (s s' : State) (b : EngineBinding), b.schemaFingerprint = schemaFingerprint db s digest b.tables →
      Plain db s b.tables → Plain db s' b.tables →
      ((schemaMatchGuard (s'.live db digest) b).1 = true ↔ Same db s s' b.tables)) ∧
    ∀ (s : State) (tables : List Text) (n : Text), n ∈ tables → (resolve db s n).isSome →
      ∃ s' : State, schemaFingerprint db s' digest tables = schemaFingerprint db s digest tables ∧ ¬Same db s s' tables := by
  have hplain : ∀ (s s' : State) (tables : List Text), Plain db s tables → Plain db s' tables →
      (schemaFingerprint db s digest tables = schemaFingerprint db s' digest tables ↔ Same db s s' tables) :=
    fun s s' tables h h' => hdigest.eq_iff.trans (h.fingerprintText_iff h')
  refine ⟨hplain, fun s s' b hb h h' => ?_, fun s tables n hn hsome => ?_⟩
  · rw [guard_live, hb, eq_comm]
    exact hplain s s' b.tables h h'
  · obtain ⟨pad, hpad⟩ := exists_pad (db.locations s.settings)
    refine ⟨s.relocate pad, congrArg digest (fingerprintText_relocate s pad tables), fun hsame => ?_⟩
    rw [hsame.resolves n hn, resolve_relocate hpad n] at hsome
    cases hsome

/-! ## A table that is moved -/

/-- The `main` schema of the current database is searched, as DuckDB does where no path is set. -/
def mainOnly : DuckDb where
  pyLower := fold
  sqlLower := fold
  locations := fun st => [(st.currentDatabase, "main".toList)]

def memorySettings : Settings where
  currentDatabase := "memory".toList
  searchPath := []
  defaultNullOrder := "NULLS_LAST".toList
  timeZone := "UTC".toList
  calendar := "gregorian".toList

theorem memorySettings_clean : memorySettings.Clean := ⟨by decide, by decide, by decide, by decide, by decide⟩

def integer (name : Text) : Column := ⟨name, "INTEGER".toList⟩

/-- One table `t`. -/
def tableIn (schema : Text) (first : Column) (rest : List Column) : State where
  tables := [⟨"memory".toList, schema, ['t'], first :: rest, List.cons_ne_nil _ _⟩]
  distinct := List.nodup_singleton _
  settings := memorySettings

theorem tableIn_plain (first : Column) (rest : List Column) (h : ∀ c ∈ first :: rest, c.Clean) :
    Plain mainOnly (tableIn "main".toList first rest) [['t']] where
  session := rfl
  answers := fun _ _ => rfl
  settings := memorySettings_clean
  lower := fun _ _ _ _ => Iff.rfl
  onPath := by
    intro n hn t ht hname
    obtain rfl := List.mem_singleton.mp ht
    exact ⟨_, List.mem_singleton_self _, by rw [← hname]; rfl⟩
  one := fun _ _ t ht t' ht' _ _ => (List.mem_singleton.mp ht').trans (List.mem_singleton.mp ht).symm
  columns := by
    intro n hn t ht hname
    obtain rfl := List.mem_singleton.mp ht
    exact h

theorem integer_clean : ∀ c ∈ [integer ['a']], c.Clean := by
  intro c hc
  obtain rfl := List.mem_singleton.mp hc
  exact ⟨by decide, by decide, by decide, by decide, by decide⟩

theorem schema_fingerprint_plain_t :
    Same mainOnly (tableIn "main".toList (integer ['a']) []) (tableIn "main".toList (integer ['a']) []) [['t']] ∧
    ∃ s' : State, schemaFingerprint mainOnly s' id [['t']] =
      schemaFingerprint mainOnly (tableIn "main".toList (integer ['a']) []) id [['t']] ∧
      ¬Same mainOnly (tableIn "main".toList (integer ['a']) []) s' [['t']] := by
  have hplain := tableIn_plain (integer ['a']) [] integer_clean
  obtain ⟨hsame, _, hmoved⟩ := schema_fingerprint_plain mainOnly id Function.injective_id
  exact ⟨(hsame _ _ [['t']] hplain hplain).mp rfl, hmoved _ [['t']] ['t'] List.mem_cons_self (by decide)⟩

/-- After `CREATE SCHEMA old` and a move of `t` there, and where a column's name looks like two columns. -/
theorem moved_table :
    (¬∀ (s s' : State) (tables : List Text),
      schemaFingerprint mainOnly s id tables = schemaFingerprint mainOnly s' id tables → Same mainOnly s s' tables) ∧
    schemaFingerprint mainOnly (tableIn "main".toList (integer "a:INTEGER,b".toList) []) id [['t']] =
      schemaFingerprint mainOnly (tableIn "main".toList (integer ['a']) [integer ['b']]) id [['t']] := by
  refine ⟨fun h => ?_, by decide⟩
  have hsame := h (tableIn "main".toList (integer ['a']) []) (tableIn "old".toList (integer ['a']) []) [['t']] (by decide)
  exact absurd (hsame.resolves ['t'] List.mem_cons_self) (by decide)

end SynnoDB.Compat.SchemaFingerprint
