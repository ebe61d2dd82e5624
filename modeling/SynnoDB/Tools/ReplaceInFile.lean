import SynnoDB.Lib.Occurs

/-!
# `replace_in_file` (`workspace_editor.py:748-866`, `:981-1018`)

| here | there |
| --- | --- |
| `Request`           | the arguments, with what `_relative_path` and `_readonly_files` say of the path |
| `universalNewlines` | `read_text`, which gives `\n` for `\r\n` and for `\r`; `write_text` writes `\n` as it is |
| `replaceInFile`     | `_replace_in_file_impl`: the file it leaves, and its result with the summary of a failure; `none` is no file |
| `Result.completed`  | with the number of occurrences replaced; the other texts of a result are left out |

The exact search, the search up to the style of the quotes and `count` have three notions of a match: **`count`
finds no occurrence that overlaps the last, and none with other quotes than the first match has**
(`overlapping_replaced`).
-/

namespace SynnoDB.Tools.ReplaceInFile

open Occurs

/-- `_QUOTE_NORMALIZATION`. -/
def normalizeQuote : Char → Char
  | '‘' | '’' => '\''
  | '“' | '”' => '"'
  | c => c

def normalizeQuotes (text : List Char) : List Char := text.map normalizeQuote

/-- `_find_actual_string`. -/
def findActualString (fileContent search : List Char) : Option (List Char) :=
  if (find search fileContent).isSome then some search
  else (find (normalizeQuotes search) (normalizeQuotes fileContent)).map fun idx => (fileContent.drop idx).take search.length

def universalNewlines : List Char → List Char
  | '\r' :: '\n' :: cs => '\n' :: universalNewlines cs
  | '\r' :: cs => '\n' :: universalNewlines cs
  | c :: cs => c :: universalNewlines cs
  | [] => []

/-- A suffix, in any case of its letters. -/
def isMarkdown (path : String) : Bool :=
  let path := path.toList.map Char.toLower
  ".md".toList.isSuffixOf path || ".mdx".toList.isSuffixOf path

/-- `_strip_trailing_whitespace`; `blanks` are those that stand before the text. -/
def stripTrailingFrom (blanks : List Char) : List Char → List Char
  | [] => []
  | c :: cs =>
    if c = ' ' ∨ c = '\t' then stripTrailingFrom (blanks ++ [c]) cs
    else if c = '\n' then c :: stripTrailingFrom [] cs
    else blanks ++ c :: stripTrailingFrom [] cs

def stripTrailingWhitespace (text : List Char) : List Char := stripTrailingFrom [] text

inductive Result where
  | completed (occurrences : Nat)
  | failed (summary : String)
  deriving DecidableEq, Repr

structure Request where
  relative : String
  readonly : Bool := false
  old : List Char
  new : List Char
  replaceAll : Bool := false
  deriving DecidableEq, Repr

/-- What is written for `old_string`. -/
def Request.newFinal (r : Request) : List Char := if isMarkdown r.relative then r.new else stripTrailingWhitespace r.new

def replaceInFile (r : Request) (file : Option (List Char)) : Option (List Char) × Result :=
  if r.readonly then (file, .failed "read-only")
  else if r.old = [] then (file, .failed "empty old_string")
  else if r.old = r.new then (file, .failed "no-op")
  else match file with
    | none => (file, .failed "missing file")
    | some content =>
      let original := universalNewlines content
      match findActualString original r.old with
      | none => (file, .failed "string not found")
      | some actual =>
        let found := count actual 0 original
        if 1 < found ∧ r.replaceAll = false then (file, .failed (toString found ++ " matches, replace_all=false"))
        else
          let patched :=
            if r.replaceAll then Occurs.replaceAll actual r.newFinal 0 original
            else (find actual original).elim original fun i => splice original i actual.length r.newFinal
          if patched = original then (file, .failed "no change")
          else (some patched, .completed (if r.replaceAll then found else 1))

/-! ## An unambiguous location -/

/-- The text is at this index only, exactly or, if it is nowhere exactly, up to the style of its quotes. -/
def Unambiguous (content old : List Char) (i : Nat) : Prop :=
  (∀ j, At old content j ↔ j = i) ∨
    (∀ j, ¬At old content j) ∧ ∀ j, At (normalizeQuotes old) (normalizeQuotes content) j ↔ j = i

/-- **The edit is at an unambiguous location**, or the file is left alone. -/
def EditsUnambiguous (r : Request) (file : Option (List Char)) : Prop :=
  match replaceInFile r file with
  | (file', .completed _) => ∃ content i, file = some content ∧ Unambiguous content r.old i ∧
      file' = some (splice content i r.old.length r.newFinal)
  | (file', .failed _) => file' = file

/-- A check before the search, or nothing to be found or changed. -/
def Refused (r : Request) (file : Option (List Char)) : Prop :=
  r.readonly = true ∨ r.old = [] ∨ r.old = r.new ∨ file = none ∨
    ∃ content, file = some content ∧ (findActualString (universalNewlines content) r.old = none ∨
      findActualString (universalNewlines content) r.old = some r.newFinal)

/-- The text of the first match is found again after its end. -/
def Repeated (r : Request) (content : List Char) : Prop :=
  ∃ actual i j, findActualString (universalNewlines content) r.old = some actual ∧ At actual (universalNewlines content) i ∧
    At actual (universalNewlines content) j ∧ i + actual.length ≤ j

/-- What the search looks for, exactly or up to the style of quotes. -/
def Matches (content old : List Char) (j : Nat) : Prop :=
  At old content j ∨ (∀ k, ¬At old content k) ∧ At (normalizeQuotes old) (normalizeQuotes content) j

/-- **The condition**: the edit is refused, or the match found first is repeated as it stands and after its end, or
there is no other match and the file has no carriage return. -/
def Clear (r : Request) (file : Option (List Char)) : Prop :=
  Refused r file ∨ ∃ content, file = some content ∧
    (Repeated r content ∨ '\r' ∉ content ∧ ∀ j k, Matches content r.old j → Matches content r.old k → j = k)

/-! ## Newlines -/

theorem universalNewlines_of_notMem {text : List Char} (h : '\r' ∉ text) : universalNewlines text = text := by
  fun_induction universalNewlines text with
  | case1 cs ih => exact absurd List.mem_cons_self h
  | case2 cs hcs ih => exact absurd List.mem_cons_self h
  | case3 c cs hcs hcs' ih => rw [ih fun hmem => h (List.mem_cons_of_mem _ hmem)]
  | case4 => rfl

theorem notMem_universalNewlines (text : List Char) : '\r' ∉ universalNewlines text := by
  fun_induction universalNewlines text with
  | case1 cs ih => simp [ih]
  | case2 cs h ih => simp [ih]
  | case3 c cs h h' ih =>
    rw [List.mem_cons, not_or]
    refine ⟨?_, ih⟩
    rintro rfl
    exact h' rfl
  | case4 => simp

theorem normalizeQuote_cr {c : Char} : normalizeQuote c = '\r' ↔ c = '\r' := by
  unfold normalizeQuote
  split <;> simp_all

theorem mem_normalizeQuotes {text : List Char} : '\r' ∈ normalizeQuotes text ↔ '\r' ∈ text := by
  simp [normalizeQuotes, normalizeQuote_cr]

/-! ## The search -/
section
variable {text old actual : List Char}

/-- What is found stands in the text, where the pattern matches; the search is exact where it can be. -/
theorem findActualString_spec (hold : old ≠ []) (h : findActualString text old = some actual) :
    actual ≠ [] ∧ actual.length = old.length ∧ normalizeQuotes actual = normalizeQuotes old ∧ (∃ i, At actual text i) ∧
      (actual = old ∨ ∀ k, ¬At old text k) := by
  unfold findActualString at h
  split at h
  · rename_i hsome
    cases h
    obtain ⟨i, hi⟩ := Option.isSome_iff_exists.1 hsome
    exact ⟨hold, rfl, rfl, ⟨i, ((find_eq_some hold).1 hi).1⟩, .inl rfl⟩
  · rename_i hnone
    obtain ⟨i, hi, rfl⟩ := Option.map_eq_some_iff.1 h
    have hnorm : normalizeQuotes old ≠ [] := fun hnil => hold (List.map_eq_nil_iff.1 hnil)
    have hat := ((find_eq_some hnorm).1 hi).1
    obtain ⟨hactual, hsame⟩ := At.actual hat
    have hlength : ((text.drop i).take old.length).length = old.length := by
      have hle := hat.length_le hnorm
      simp only [normalizeQuotes, List.length_map] at hle
      rw [List.length_take, List.length_drop]
      omega
    refine ⟨?_, hlength, hsame, ⟨i, hactual⟩, .inr ?_⟩
    · intro hnil
      rw [hnil] at hlength
      exact hold (List.length_eq_zero_iff.1 hlength.symm)
    · exact (find_eq_none hold).1 (Option.not_isSome_iff_eq_none.1 hnone)

/-- The text that is found matches wherever it stands. -/
theorem matches_actual (hold : old ≠ []) (h : findActualString text old = some actual) {i : Nat}
    (hi : At actual text i) :
    Matches text old i := by
  obtain ⟨-, -, hnorm, -, rfl | hnone⟩ := findActualString_spec hold h
  · exact .inl hi
  · have hmap : At (normalizeQuotes actual) (normalizeQuotes text) i := hi.map normalizeQuote
    rw [hnorm] at hmap
    exact .inr ⟨hnone, hmap⟩

/-- A pattern that matches at one place only is there unambiguously. -/
theorem unambiguous_iff (i : Nat) (hi : Matches text old i) :
    Unambiguous text old i ↔ ∀ j k, Matches text old j → Matches text old k → j = k := by
  constructor
  · rintro (hexact | ⟨hnone, hnorm⟩)
    · have hone : ∀ j, Matches text old j → j = i := by
        rintro j (hj | ⟨hno, -⟩)
        · exact (hexact j).1 hj
        · exact absurd ((hexact i).2 rfl) (hno i)
      exact fun j k hj hk => (hone j hj).trans (hone k hk).symm
    · have hone : ∀ j, Matches text old j → j = i := by
        rintro j (hj | ⟨-, hj⟩)
        · exact absurd hj (hnone j)
        · exact (hnorm j).1 hj
      exact fun j k hj hk => (hone j hj).trans (hone k hk).symm
  · intro hone
    rcases hi with hi | ⟨hno, hi⟩
    · refine .inl fun j => ⟨fun hj => hone j i (.inl hj) (.inl hi), ?_⟩
      rintro rfl
      exact hi
    · refine .inr ⟨hno, fun j => ⟨fun hj => hone j i (.inr ⟨hno, hj⟩) (.inr ⟨hno, hi⟩), ?_⟩⟩
      rintro rfl
      exact hi

theorem Unambiguous.matches {i : Nat} (h : Unambiguous text old i) : Matches text old i := by
  rcases h with hexact | ⟨hnone, hnorm⟩
  · exact .inl ((hexact i).2 rfl)
  · exact .inr ⟨hnone, (hnorm i).2 rfl⟩

/-- A pattern with a carriage return is not found in a text that was read. -/
theorem notMem_old (hold : old ≠ []) (h : findActualString (universalNewlines text) old = some actual) :
    '\r' ∉ old := by
  obtain ⟨-, -, hnorm, ⟨i, hi⟩, -⟩ := findActualString_spec hold h
  intro hmem
  have hactual : '\r' ∈ actual := by
    rw [← mem_normalizeQuotes, hnorm, mem_normalizeQuotes]
    exact hmem
  refine notMem_universalNewlines text ?_
  rw [hi.split]
  simp [hactual]

/-- A text with a carriage return that is read is not the text with one place replaced. -/
theorem notMem_of_splice {new : List Char} {i j n : Nat} (hold : old ≠ [])
    (h : findActualString (universalNewlines text) old = some actual) (hj : Matches text old j)
    (heq : splice (universalNewlines text) i n new = splice text j old.length new) : '\r' ∉ text := by
  have hread : ∀ cs : List Char, cs ⊆ universalNewlines text → cs.count '\r' = 0 := fun cs hsub =>
    List.count_eq_zero.2 fun hmem => notMem_universalNewlines text (hsub hmem)
  have hcount := congrArg (List.count '\r') heq
  simp only [splice, List.count_append, hread _ (List.take_subset _ _), hread _ (List.drop_subset _ _)] at hcount
  have hbefore : '\r' ∉ text.take j := List.count_eq_zero.1 (by omega)
  have hafter : '\r' ∉ text.drop (j + old.length) := List.count_eq_zero.1 (by omega)
  have hnorm : At (normalizeQuotes old) (normalizeQuotes text) j := by
    rcases hj with hj | ⟨-, hj⟩
    · exact hj.map normalizeQuote
    · exact hj
  obtain ⟨hat, hsame⟩ := At.actual hnorm
  have hlength : ((text.drop j).take old.length).length = old.length := by
    simpa using congrArg List.length hsame
  intro hmem
  rw [hat.split, hlength] at hmem
  simp only [List.mem_append, hbefore, hafter, false_or, or_false] at hmem
  rw [← mem_normalizeQuotes, normalizeQuotes, hsame] at hmem
  exact notMem_old hold h (mem_normalizeQuotes.1 hmem)

end

/-! ## The edit -/
section
variable {r : Request} {content actual : List Char}

/-- An edit that is not refused and whose match is not repeated is done at the first place where the match stands. -/
theorem replaceInFile_done (hall : r.replaceAll = false) (hr : ¬Refused r (some content))
    (ha : findActualString (universalNewlines content) r.old = some actual) (hrep : ¬Repeated r content) :
    ∃ i, At actual (universalNewlines content) i ∧
      replaceInFile r (some content) =
        (some (splice (universalNewlines content) i actual.length r.newFinal), .completed 1) := by
  simp only [Refused, not_or, not_exists, not_and, Bool.not_eq_true] at hr
  obtain ⟨hreadonly, hold, hsame, -, hfound⟩ := hr
  obtain ⟨-, hchange⟩ := hfound content rfl
  obtain ⟨hne, -, -, ⟨k, hk⟩, -⟩ := findActualString_spec hold ha
  have hcount : ¬1 < count actual 0 (universalNewlines content) := by
    rw [one_lt_count hne]
    rintro ⟨i, j, -, hi, hj, hij⟩
    exact hrep ⟨actual, i, j, ha, hi, hj, hij⟩
  obtain ⟨i, hi⟩ : ∃ i, find actual (universalNewlines content) = some i := by
    cases hfind : find actual (universalNewlines content) with
    | none => exact absurd hk ((find_eq_none hne).1 hfind k)
    | some i => exact ⟨i, rfl⟩
  have hat := ((find_eq_some hne).1 hi).1
  refine ⟨i, hat, ?_⟩
  have hpatched : splice (universalNewlines content) i actual.length r.newFinal ≠ universalNewlines content := by
    rw [ne_eq, splice_eq_self hat]
    rintro hnew
    exact hchange (ha.trans (congrArg some hnew.symm))
  unfold replaceInFile
  simp only [hreadonly, Bool.false_eq_true, if_false, hold, hsame, ha, hall, hcount, false_and, hi,
    Option.elim_some, hpatched]

/-- What is refused, and what is repeated, is left alone. -/
theorem replaceInFile_left (hall : r.replaceAll = false) {file : Option (List Char)}
    (h : Refused r file ∨ ∃ content, file = some content ∧ Repeated r content) :
    ∃ summary, replaceInFile r file = (file, .failed summary) := by
  unfold replaceInFile
  by_cases hreadonly : r.readonly = true
  · exact ⟨_, by rw [if_pos hreadonly]⟩
  by_cases hold : r.old = []
  · exact ⟨_, by rw [if_neg hreadonly, if_pos hold]⟩
  by_cases hsame : r.old = r.new
  · exact ⟨_, by rw [if_neg hreadonly, if_neg hold, if_pos hsame]⟩
  rw [if_neg hreadonly, if_neg hold, if_neg hsame]
  cases file with
  | none => exact ⟨_, rfl⟩
  | some content =>
    dsimp only
    cases ha : findActualString (universalNewlines content) r.old with
    | none => exact ⟨_, rfl⟩
    | some actual =>
      obtain ⟨hne, -, -, ⟨k, hk⟩, -⟩ := findActualString_spec hold ha
      dsimp only
      split
      · exact ⟨_, rfl⟩
      · rename_i hcount
        have hkept : r.newFinal = actual := by
          simp only [hall, and_true, one_lt_count hne] at hcount
          rcases h with hr | ⟨_, hfile, actual', i, j, ha', hi, hj, hij⟩
          · simp only [Refused, hreadonly, hold, hsame, reduceCtorEq, false_or] at hr
            obtain ⟨_, hfile, hnone | hsome⟩ := hr <;> cases hfile
            · rw [ha] at hnone
              cases hnone
            · exact (Option.some.inj (ha.symm.trans hsome)).symm
          · cases hfile
            cases ha'.symm.trans ha
            exact absurd ⟨i, j, Nat.zero_le _, hi, hj, hij⟩ hcount
        have hpatched : (find actual (universalNewlines content)).elim (universalNewlines content)
            (fun i => splice (universalNewlines content) i actual.length r.newFinal) = universalNewlines content := by
          cases hfind : find actual (universalNewlines content) with
          | none => rfl
          | some i => exact (splice_eq_self ((find_eq_some hne).1 hfind).1).2 hkept
        refine ⟨"no change", ?_⟩
        rw [hall, if_neg Bool.false_ne_true, if_pos hpatched]

/-- **An edit is at an unambiguous location exactly when** the search is, or a check stops it. -/
theorem edits_unambiguous_iff (r : Request) (hall : r.replaceAll = false) (file : Option (List Char)) :
    EditsUnambiguous r file ↔ Clear r file := by
  by_cases hleft : Refused r file ∨ ∃ content, file = some content ∧ Repeated r content
  · obtain ⟨summary, hrun⟩ := replaceInFile_left hall hleft
    refine iff_of_true ?_ ?_
    · rw [EditsUnambiguous, hrun]
    · rcases hleft with hr | ⟨content, hfile, hrep⟩
      · exact .inl hr
      · exact .inr ⟨content, hfile, .inl hrep⟩
  · rw [not_or] at hleft
    obtain ⟨hr, hrep⟩ := hleft
    cases file with
    | none => exact absurd (.inr (.inr (.inr (.inl rfl)))) hr
    | some content =>
      replace hrep : ¬Repeated r content := fun h => hrep ⟨content, rfl, h⟩
      have hguards := hr
      simp only [Refused, not_or, not_exists, not_and] at hguards
      obtain ⟨-, hold, -, -, hfound⟩ := hguards
      cases ha : findActualString (universalNewlines content) r.old with
      | none => exact absurd ha (hfound content rfl).1
      | some actual =>
        obtain ⟨i, hi, hrun⟩ := replaceInFile_done hall hr ha hrep
        obtain ⟨-, hlength, -⟩ := findActualString_spec hold ha
        have hclear : Clear r (some content) ↔
            '\r' ∉ content ∧ ∀ j k, Matches content r.old j → Matches content r.old k → j = k := by
          constructor
          · rintro (h | ⟨_, hfile, h⟩)
            · exact absurd h hr
            · cases hfile
              exact h.resolve_left hrep
          · exact fun h => .inr ⟨content, rfl, .inr h⟩
        have hedits : EditsUnambiguous r (some content) ↔ ∃ j, Unambiguous content r.old j ∧
            splice (universalNewlines content) i actual.length r.newFinal = splice content j r.old.length r.newFinal := by
          rw [EditsUnambiguous, hrun]
          constructor
          · rintro ⟨_, j, hfile, hun, heq⟩
            cases hfile
            exact ⟨j, hun, Option.some.inj heq⟩
          · rintro ⟨j, hun, heq⟩
            exact ⟨content, j, rfl, hun, congrArg some heq⟩
        rw [hclear, hedits]
        constructor
        · rintro ⟨j, hun, heq⟩
          exact ⟨notMem_of_splice hold ha hun.matches heq, (unambiguous_iff j hun.matches).1 hun⟩
        · rintro ⟨hcr, hone⟩
          have htext := universalNewlines_of_notMem hcr
          rw [htext] at hi ha ⊢
          have hmatch := matches_actual hold ha hi
          exact ⟨i, (unambiguous_iff i hmatch).2 hone, by rw [hlength]⟩

end

/-! ## Two edits -/

/-- The quotes are found in the style of the file. -/
theorem edits_unambiguous_quotes :
    replaceInFile ⟨"a.cpp", false, "x = \"a\"".toList, "y".toList, false⟩ (some "int x = “a”;".toList) = (some "int y;".toList, .completed 1) ∧
      EditsUnambiguous ⟨"a.cpp", false, "x = \"a\"".toList, "y".toList, false⟩ (some "int x = “a”;".toList) := by
  refine ⟨by decide +kernel, (edits_unambiguous_iff _ rfl _).2 (.inr ⟨_, rfl, .inr ⟨by decide +kernel, ?_⟩⟩)⟩
  have hone : ∀ j, Matches "int x = “a”;".toList "x = \"a\"".toList j → j = 4 := by
    have hin : ∀ j < 13, At (normalizeQuotes "x = \"a\"".toList) (normalizeQuotes "int x = “a”;".toList) j → j = 4 := by
      decide +kernel
    intro j hj
    have hat : At (normalizeQuotes "x = \"a\"".toList) (normalizeQuotes "int x = “a”;".toList) j := by
      rcases hj with hj | ⟨-, hj⟩
      · exact hj.map normalizeQuote
      · exact hj
    have hle := hat.length_le (by decide)
    exact hin j (by simp [normalizeQuotes] at hle; omega) hat
  exact fun j k hj hk => (hone j hj).trans (hone k hk).symm

/-- Of two occurrences that overlap the first is replaced. -/
theorem overlapping_replaced :
    replaceInFile ⟨"a.cpp", false, "aa".toList, "b".toList, false⟩ (some "aaa".toList) = (some "ba".toList, .completed 1) ∧
      ¬EditsUnambiguous ⟨"a.cpp", false, "aa".toList, "b".toList, false⟩ (some "aaa".toList) := by
  have hrun : replaceInFile ⟨"a.cpp", false, "aa".toList, "b".toList, false⟩ (some "aaa".toList) =
      (some "ba".toList, .completed 1) := by decide +kernel
  refine ⟨hrun, ?_⟩
  rw [EditsUnambiguous, hrun]
  rintro ⟨_, i, hfile, hun, -⟩
  cases hfile
  have h0 : At "aa".toList "aaa".toList 0 := ⟨"a".toList, by decide⟩
  have h1 : At "aa".toList "aaa".toList 1 := ⟨[], by decide⟩
  rcases hun with hexact | ⟨hnone, -⟩
  · exact absurd (((hexact 0).1 h0).trans ((hexact 1).1 h1).symm) (by decide)
  · exact hnone 0 h0

end SynnoDB.Tools.ReplaceInFile
