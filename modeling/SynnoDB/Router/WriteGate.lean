import Mathlib

/-!
# The write gate (`router/normalize.py:65-162`)

| here | there |
| --- | --- |
| `scanWord`, `leadingKeyword` | the match of `_LEADING_WORD` with its backtracking, `_leading_keyword` |
| `Script`, `Piece`            | a text: statements with what stands before them, joined by `;` |
| `Lead`                       | white space, line comments, and block comments, which nest for DuckDB |
| `Stmt`                       | the grammar; `other` is DML, DDL, `COPY`, `SET`, a transaction, … under its keyword |
| `parse`                      | `sqlglot.parse`; `parse_one` is its first statement |

The scan ends a block comment at the first `*/`, a single statement is not parsed when it starts with a read
keyword, and a text that starts otherwise is judged by its first statement alone.
-/

namespace SynnoDB.Router

abbrev SqlText := List Char

/-! ## `_leading_keyword` -/

/-- `\s`. -/
def pyWhitespace (c : Char) : Bool :=
  (9 ≤ c.toNat ∧ c.toNat ≤ 13) ∨ (28 ≤ c.toNat ∧ c.toNat ≤ 32) ∨ (8192 ≤ c.toNat ∧ c.toNat ≤ 8202) ∨
    c.toNat ∈ [133, 160, 5760, 8232, 8233, 8239, 8287, 12288]

/-- `[A-Za-z_]`. -/
def wordChar (c : Char) : Bool := c.isAlpha || c = '_'

/-- `[^\n]*\n`: what comes after. -/
def afterNewline : SqlText → Option SqlText
  | [] => none
  | c :: t => if c = '\n' then some t else afterNewline t

/-- `.*?\*/`: what comes after, for each of its matches, the shortest first. -/
def commentEnds : SqlText → List SqlText
  | '*' :: '/' :: t => t :: commentEnds ('/' :: t)
  | _ :: t => commentEnds t
  | [] => []

/-- The group of `_LEADING_WORD` and the word after it: a comment that leads to no word is tried longer. -/
def scanWord : Nat → SqlText → Option SqlText
  | 0, _ => none
  | fuel + 1, t => match t with
    | '-' :: '-' :: r => (afterNewline r).bind (scanWord fuel)
    | '/' :: '*' :: r => (commentEnds r).findSome? (scanWord fuel)
    | c :: r =>
      if pyWhitespace c then scanWord fuel r
      else if wordChar c then some ((c :: r).takeWhile wordChar) else none
    | [] => none

/-- The `\s*` before the group matches nothing that the group does not. -/
def leadingKeyword (sql : SqlText) : Option String :=
  (scanWord (sql.length + 1) sql).map fun w => String.ofList (w.map Char.toLower)

def readKeywords : List String :=
  ["select", "with", "explain", "describe", "desc", "show", "summarize", "values", "pragma", "table", "from"]

def writeKeywords : List String :=
  ["insert", "update", "delete", "merge", "create", "drop", "alter", "truncate", "replace", "attach", "detach", "copy",
    "import", "export", "set", "begin", "commit", "rollback", "checkpoint", "vacuum", "call", "use", "load", "install"]

inductive StatementKind where
  | read | write | unknown
deriving DecidableEq, Repr

def statementKind (sql : SqlText) : StatementKind :=
  match leadingKeyword sql with
  | none => .unknown
  | some kw => if kw ∈ writeKeywords then .write else if kw ∈ readKeywords then .read else .unknown

/-! ## Statements -/

inductive Stmt where
  /-- `SELECT …`, `FROM …`, a set operation, any of these in parentheses. -/
  | select
  | withSelect
  /-- `DESCRIBE`, `SHOW`, `SUMMARIZE`, `VALUES`, `TABLE`. -/
  | introspect (keyword : String)
  | withDml
  | explain (analyze : Bool) (s : Stmt)
  | pragma (assignment : Bool)
  | other (keyword : String)
deriving DecidableEq, Repr

namespace Stmt

/-- The statement changes neither data nor catalog nor session; `EXPLAIN ANALYZE` runs what it explains. -/
def harmless : Stmt → Bool
  | .select | .withSelect | .introspect _ => true
  | .explain analyze s => !analyze || s.harmless
  | .pragma assignment => !assignment
  | .withDml | .other _ => false

/-- `isinstance(inner, (exp.Select, exp.Union, exp.Subquery))`. -/
def isSelectFamily : Stmt → Bool
  | .select | .withSelect => true
  | _ => false

/-- The words, in lower case, that the statement may start with. -/
def keywords : Stmt → List String
  | .select => ["select", "from"]
  | .withSelect | .withDml => ["with"]
  | .introspect keyword => if keyword ∈ ["describe", "desc", "show", "summarize", "values", "table"] then [keyword] else []
  | .explain _ _ => ["explain"]
  | .pragma _ => ["pragma"]
  | .other keyword => if keyword ∈ readKeywords then [] else [keyword]

/-- A text of the statement: its keyword in any letter case and the rest, or a parenthesis. -/
def Spells (s : Stmt) (t : SqlText) : Prop :=
  (∃ word tail, t = word ++ tail ∧ String.ofList (word.map Char.toLower) ∈ s.keywords ∧
    (∀ c ∈ word, wordChar c = true) ∧ word ≠ [] ∧ tail.head?.all fun c => !wordChar c) ∨
  s = .select ∧ ∃ tail, t = '(' :: tail

theorem harmless_of_select {s : Stmt} (h : s.isSelectFamily = true) : s.harmless = true := by
  cases s with
  | select => rfl
  | withSelect => rfl
  | _ => cases h

end Stmt

/-! ## The gate -/

section
variable (parse : SqlText → Option (List (Option Stmt)))

/-- `is_select`: `parse_one` is the first statement. -/
def isSelect (sql : SqlText) : Bool :=
  match parse sql with
  | some (some s :: _) => s.isSelectFamily
  | _ => false

/-- `_all_statements_are_select`. -/
def allStatementsAreSelect (sql : SqlText) : Bool :=
  match parse sql with
  | none => false
  | some statements => !statements.isEmpty && statements.all fun s => s.all Stmt.isSelectFamily

def strip (t : SqlText) : SqlText := ((t.dropWhile pyWhitespace).reverse.dropWhile pyWhitespace).reverse

/-- `_has_multiple_statements`. -/
def hasMultipleStatements (sql : SqlText) : Bool :=
  let s := strip sql
  let s := if s.getLast? = some ';' then s.dropLast else s
  ';' ∈ s

def isReadOnlyQuery (sql : SqlText) : Bool :=
  match statementKind sql with
  | .write => false
  | .read =>
    if leadingKeyword sql = some "with" || hasMultipleStatements sql then allStatementsAreSelect parse sql else true
  | .unknown => isSelect parse sql

end

/-! ## Texts -/

/-- Where the nested block comments that are open end. -/
def blockRest : Nat → SqlText → Option SqlText
  | d, '*' :: '/' :: t => if d ≤ 1 then some t else blockRest (d - 1) t
  | d, '/' :: '*' :: t => blockRest (d + 1) t
  | d, _ :: t => blockRest d t
  | _, [] => none

inductive Lead where
  | space (c : Char)
  | line (body : SqlText) (newline : Char)
  | block (body : SqlText)

namespace Lead

def text : Lead → SqlText
  | .space c => [c]
  | .line body newline => '-' :: '-' :: (body ++ [newline])
  | .block body => '/' :: '*' :: (body ++ ['*', '/'])

/-- DuckDB skips it: a line comment ends at a line feed or a carriage return, a block comment where its nesting does. -/
def Ok : Lead → Prop
  | .space c => c ∈ [' ', '\t', '\n', '\x0b', '\x0c', '\r']
  | .line body newline => newline ∈ ['\n', '\r'] ∧ '\n' ∉ body ∧ '\r' ∉ body
  | .block body => blockRest 1 (body ++ ['*', '/']) = some []

/-- Python's scan skips it too: the first line feed ends the line comment, the first `*/` the block comment. -/
def Flat : Lead → Prop
  | .space _ => True
  | .line _ newline => newline = '\n'
  | .block body => commentEnds body = []

end Lead

def leadText (lead : List Lead) : SqlText := (lead.map Lead.text).flatten

/-- One statement, or nothing, with what stands before it. -/
structure Piece where
  lead : List Lead
  lead_ok : ∀ l ∈ lead, l.Ok
  stmt : Option Stmt
  body : SqlText
  body_ok : match stmt with
    | none => body = []
    | some s => s.Spells body

def Piece.text (p : Piece) : SqlText := leadText p.lead ++ p.body

structure Script where
  first : Piece
  rest : List Piece

namespace Script

variable (sc : Script)

def pieces : List Piece := sc.first :: sc.rest

def joined : List Piece → SqlText
  | [] => []
  | [p] => p.text
  | p :: q :: ps => p.text ++ ';' :: joined (q :: ps)

def text : SqlText := joined sc.pieces

def statements : List Stmt := sc.pieces.filterMap Piece.stmt

/-- What `sqlglot.parse` returns of it: nothing for the end of a text after its last `;`. -/
def chunks : List (Option Stmt) :=
  let stmts := sc.pieces.map Piece.stmt
  if stmts.getLast? = some none && 1 < stmts.length then stmts.dropLast else stmts

end Script

/-! ## More than one statement -/

variable {parse : SqlText → Option (List (Option Stmt))} {t u v : SqlText} {s : Stmt} {p : Piece} {sc : Script}

theorem dropWhile_append_of_mem {x : Char} (hx : x ∈ v) (hw : pyWhitespace x = false) (u : SqlText) :
    ∃ b, b ≠ [] ∧ (v ++ u).dropWhile pyWhitespace = b ++ u := by
  induction v with
  | nil => cases hx
  | cons c v ih =>
    rw [List.cons_append, List.dropWhile_cons]
    split
    · rename_i hc
      rcases List.mem_cons.1 hx with rfl | hx
      · rw [hw] at hc
        cases hc
      · exact ih hx
    · exact ⟨c :: v, List.cons_ne_nil _ _, rfl⟩

/-- Stripping keeps a semicolon that something comes after. -/
theorem strip_semicolon {x : Char} (hx : x ∈ v) (hw : pyWhitespace x = false) :
    ∃ a b, b ≠ [] ∧ strip (u ++ ';' :: v) = a ++ ';' :: b := by
  have hsemi : pyWhitespace ';' = false := by decide
  have hleft : ∃ a, (u ++ ';' :: v).dropWhile pyWhitespace = a ++ ';' :: v := by
    induction u with
    | nil =>
      refine ⟨[], ?_⟩
      rw [List.nil_append, List.dropWhile_cons, hsemi]
      rfl
    | cons c u ih =>
      rw [List.cons_append, List.dropWhile_cons]
      split
      · exact ih
      · exact ⟨c :: u, rfl⟩
  obtain ⟨a, ha⟩ := hleft
  have hmem : x ∈ v.reverse := List.mem_reverse.2 hx
  obtain ⟨b, hb, hdrop⟩ := dropWhile_append_of_mem hmem hw (';' :: a.reverse)
  refine ⟨a, b.reverse, by simpa using hb, ?_⟩
  rw [strip, ha, List.reverse_append, List.reverse_cons, List.append_assoc, List.singleton_append, hdrop]
  simp

theorem hasMultiple_of_semicolon {x : Char} (hx : x ∈ v) (hw : pyWhitespace x = false) :
    hasMultipleStatements (u ++ ';' :: v) = true := by
  obtain ⟨a, b, hb, hstrip⟩ := @strip_semicolon u v x hx hw
  unfold hasMultipleStatements
  rw [hstrip]
  dsimp only
  split
  · rw [decide_eq_true_eq, List.dropLast_append_of_ne_nil (List.cons_ne_nil _ _), List.dropLast_cons_of_ne_nil hb]
    simp
  · simp

theorem pyWhitespace_of_wordChar {c : Char} (h : wordChar c = true) : pyWhitespace c = false := by
  have hrange : (65 ≤ c.toNat ∧ c.toNat ≤ 90) ∨ (97 ≤ c.toNat ∧ c.toNat ≤ 122) ∨ c.toNat = 95 := by
    simp only [wordChar, Char.isAlpha, Char.isUpper, Char.isLower, Bool.or_eq_true, Bool.and_eq_true,
      decide_eq_true_eq, UInt32.le_iff_toNat_le, ge_iff_le] at h
    rcases h with (h | h) | rfl
    · exact .inl h
    · exact .inr (.inl h)
    · exact .inr (.inr rfl)
  simp only [pyWhitespace, List.mem_cons, List.not_mem_nil, or_false, decide_eq_false_iff_not]
  omega

/-- A statement shows: its text has a character that is not white space. -/
theorem Piece.visible (h : p.stmt = some s) : ∃ x ∈ p.text, pyWhitespace x = false := by
  have hspells : s.Spells p.body := by
    have := p.body_ok
    rw [h] at this
    exact this
  have hbody : ∃ x ∈ p.body, pyWhitespace x = false := by
    rcases hspells with ⟨word, tail, hbody, -, hword, hne, -⟩ | ⟨-, tail, hbody⟩
    · obtain ⟨c, w, rfl⟩ := List.exists_cons_of_ne_nil hne
      refine ⟨c, by rw [hbody]; exact List.mem_cons_self, ?_⟩
      exact pyWhitespace_of_wordChar (hword c List.mem_cons_self)
    · exact ⟨'(', by rw [hbody]; exact List.mem_cons_self, by decide⟩
  obtain ⟨x, hx, hw⟩ := hbody
  exact ⟨x, List.mem_append_right _ hx, hw⟩

theorem visible_joined : ∀ {ps : List Piece}, p ∈ ps → p.stmt = some s →
    ∃ x ∈ Script.joined ps, pyWhitespace x = false
  | [q], hp, hs => by
    rw [List.mem_singleton.1 hp] at hs
    exact Piece.visible hs
  | q :: r :: ps, hp, hs => by
    rw [Script.joined]
    rcases List.mem_cons.1 hp with rfl | hp
    · obtain ⟨x, hx, hw⟩ := Piece.visible hs
      exact ⟨x, List.mem_append_left _ hx, hw⟩
    · obtain ⟨x, hx, hw⟩ := visible_joined hp hs
      exact ⟨x, List.mem_append_right _ (List.mem_cons_of_mem _ hx), hw⟩

/-- Two statements are seen to be more than one. -/
theorem hasMultiple_joined : ∀ {ps : List Piece}, 1 < (ps.filterMap Piece.stmt).length →
    ∃ u v, Script.joined ps = u ++ ';' :: v ∧ ∃ x ∈ v, pyWhitespace x = false
  | [], h => by simp at h
  | [q], h => by
    cases hq : q.stmt <;> simp [hq] at h
  | q :: r :: ps, h => by
    rw [Script.joined]
    have hsome : 0 < ((r :: ps).filterMap Piece.stmt).length := by
      rw [List.filterMap_cons] at h
      split at h
      · omega
      · simp only [List.length_cons] at h
        omega
    obtain ⟨s, hs⟩ := List.exists_mem_of_length_pos hsome
    obtain ⟨p, hp, hps⟩ := List.mem_filterMap.1 hs
    exact ⟨_, _, rfl, visible_joined hp hps⟩

/-- **A text that shows no second statement has at most one.** -/
theorem statements_of_single (h : hasMultipleStatements sc.text = false) : sc.statements.length ≤ 1 := by
  by_contra hlt
  have hmany : 1 < (sc.pieces.filterMap Piece.stmt).length := by
    unfold Script.statements at hlt
    omega
  obtain ⟨u, v, htext, x, hx, hw⟩ := hasMultiple_joined hmany
  rw [Script.text, htext, hasMultiple_of_semicolon hx hw] at h
  cases h

/-! ## What the scan sees -/

theorem afterNewline_append (h : '\n' ∉ u) : afterNewline (u ++ '\n' :: t) = some t := by
  induction u with
  | nil => simp [afterNewline]
  | cons c u ih =>
    rw [List.mem_cons, not_or] at h
    rw [List.cons_append, afterNewline, if_neg (Ne.symm h.1), ih h.2]

theorem commentEnds_cons {c : Char} (h : ¬ (c = '*' ∧ t.head? = some '/')) : commentEnds (c :: t) = commentEnds t := by
  rw [commentEnds]
  rintro r rfl rfl
  exact h ⟨rfl, rfl⟩

theorem commentEnds_append (h : commentEnds u = []) : ∃ more, commentEnds (u ++ '*' :: '/' :: t) = t :: more := by
  induction u with
  | nil => exact ⟨_, by rw [List.nil_append, commentEnds]⟩
  | cons c u ih =>
    have hinner : ¬ (c = '*' ∧ u.head? = some '/') := by
      rintro ⟨rfl, hu⟩
      obtain ⟨r, rfl⟩ := List.head?_eq_some_iff.1 hu
      rw [commentEnds] at h
      cases h
    have houter : ¬ (c = '*' ∧ (u ++ '*' :: '/' :: t).head? = some '/') := by
      cases u with
      | nil => simp
      | cons d u => exact hinner
    rw [commentEnds_cons hinner] at h
    obtain ⟨more, hmore⟩ := ih h
    exact ⟨more, by rw [List.cons_append, commentEnds_cons houter, hmore]⟩

theorem scanWord_word {c : Char} (hc : wordChar c = true) (n : Nat) :
    scanWord (n + 1) (c :: t) = some ((c :: t).takeWhile wordChar) := by
  have hspace := pyWhitespace_of_wordChar hc
  unfold scanWord
  split
  · rename_i r heq
    rw [(List.cons.inj heq).1] at hc
    cases hc
  · rename_i r heq
    rw [(List.cons.inj heq).1] at hc
    cases hc
  · rename_i c' r _ _ heq
    obtain ⟨rfl, rfl⟩ := List.cons.inj heq
    rw [hspace, if_neg Bool.false_ne_true, if_pos hc]
  · rename_i heq
    cases heq

/-- What is flat is skipped, up to a word. -/
theorem scanWord_lead {lead : List Lead} (hok : ∀ l ∈ lead, l.Ok) (hflat : ∀ l ∈ lead, l.Flat) {c : Char}
    (hc : wordChar c = true) (n : Nat) :
    scanWord (lead.length + n + 1) (leadText lead ++ c :: t) = some ((c :: t).takeWhile wordChar) := by
  induction lead with
  | nil => exact scanWord_word hc _
  | cons l lead ih =>
    have ih := ih (fun l hl => hok l (List.mem_cons_of_mem _ hl)) fun l hl => hflat l (List.mem_cons_of_mem _ hl)
    have hl := hok l List.mem_cons_self
    have hf := hflat l List.mem_cons_self
    have htext : leadText (l :: lead) ++ c :: t = l.text ++ (leadText lead ++ c :: t) := by simp [leadText]
    have hfuel : (l :: lead).length + n + 1 = (lead.length + n + 1) + 1 := by simp only [List.length_cons]; omega
    rw [htext, hfuel]
    cases l with
    | space d =>
      simp only [Lead.Ok, List.mem_cons, List.not_mem_nil, or_false] at hl
      rcases hl with rfl | rfl | rfl | rfl | rfl | rfl <;>
        · rw [Lead.text, List.singleton_append, scanWord, if_pos (by decide)]
          · exact ih
          all_goals nofun
    | line body newline =>
      obtain ⟨-, hbody, -⟩ := hl
      cases (show newline = '\n' from hf)
      simp only [Lead.text, List.cons_append, List.append_assoc, List.nil_append]
      rw [scanWord, afterNewline_append hbody, Option.bind_some, ih]
    | block body =>
      obtain ⟨more, hmore⟩ := commentEnds_append (t := leadText lead ++ c :: t) (u := body) hf
      simp only [Lead.text, List.cons_append, List.append_assoc, List.nil_append]
      rw [scanWord, hmore, List.findSome?_cons, ih]

/-- **In a flat text the scan sees the keyword of the first statement**, unless it stands in parentheses. -/
theorem leadingKeyword_flat (hflat : ∀ l ∈ sc.first.lead, l.Flat) (hs : sc.first.stmt = some s)
    (hparen : sc.first.body.head? ≠ some '(') : ∃ kw ∈ s.keywords, leadingKeyword sc.text = some kw := by
  have hspells : s.Spells sc.first.body := by
    have := sc.first.body_ok
    rw [hs] at this
    exact this
  rcases hspells with ⟨word, tail, hbody, hkw, hword, hne, htail⟩ | ⟨-, tail, hbody⟩
  · refine ⟨_, hkw, ?_⟩
    obtain ⟨c, w, rfl⟩ := List.exists_cons_of_ne_nil hne
    have hjoined : ∃ more, sc.text = leadText sc.first.lead ++ (c :: w ++ (tail ++ more)) ∧
        (tail ++ more).head?.all fun c => !wordChar c := by
      unfold Script.text Script.pieces
      cases sc.rest with
      | nil =>
        refine ⟨[], ?_, ?_⟩
        · rw [Script.joined, Piece.text, hbody, List.append_nil]
        · rw [List.append_nil]
          exact htail
      | cons q ps =>
        refine ⟨';' :: Script.joined (q :: ps), ?_, ?_⟩
        · rw [Script.joined, Piece.text, hbody]
          simp
        · cases tail with
          | nil => exact (by decide : (!wordChar ';') = true)
          | cons d tail => exact htail
    obtain ⟨more, htext, hend⟩ := hjoined
    have hlen : sc.first.lead.length ≤ sc.text.length := by
      rw [htext, List.length_append]
      have hone : ∀ lead : List Lead, lead.length ≤ (leadText lead).length := by
        intro lead
        induction lead with
        | nil => exact Nat.zero_le _
        | cons l lead ih =>
          have hl : 1 ≤ l.text.length := by cases l <;> simp [Lead.text]
          simp only [leadText, List.map_cons, List.flatten_cons, List.length_append, List.length_cons] at ih ⊢
          omega
      have := hone sc.first.lead
      omega
    obtain ⟨n, hn⟩ := Nat.exists_eq_add_of_le hlen
    have hscan := scanWord_lead (t := w ++ (tail ++ more)) sc.first.lead_ok hflat (hword c List.mem_cons_self) n
    rw [← hn, ← List.cons_append, ← htext] at hscan
    have htake : (c :: w ++ (tail ++ more)).takeWhile wordChar = c :: w := by
      rw [List.takeWhile_append_of_pos hword]
      cases hrest : tail ++ more with
      | nil => simp
      | cons d r =>
        rw [hrest] at hend
        have hd : wordChar d = false := by simpa using hend
        rw [List.takeWhile_cons, hd]
        simp
    rw [leadingKeyword, hscan, htake, Option.map_some]
  · rw [hbody] at hparen
    exact absurd rfl hparen

/-! ## What the gate lets through -/

/-- A text that is taken for a read without being parsed holds no statement that does harm, and so does one whose first
statement alone is parsed, when it is a query. -/
structure Script.Judged (sc : Script) : Prop where
  unparsed : statementKind sc.text = .read → leadingKeyword sc.text ≠ some "with" → hasMultipleStatements sc.text = false →
    ∀ s ∈ sc.statements, s.harmless = true
  firstOnly : statementKind sc.text = .unknown → ∀ s, sc.chunks.head? = some (some s) → s.isSelectFamily = true →
    ∀ s ∈ sc.statements, s.harmless = true

theorem mem_chunks (h : s ∈ sc.statements) : some s ∈ sc.chunks := by
  obtain ⟨p, hp, hps⟩ := List.mem_filterMap.1 h
  have hmem : some s ∈ sc.pieces.map Piece.stmt := hps ▸ List.mem_map_of_mem hp
  unfold Script.chunks
  dsimp only
  split
  · rename_i hlast
    rw [Bool.and_eq_true, decide_eq_true_eq] at hlast
    have hsplit := List.dropLast_append_getLast? none (Option.mem_def.2 hlast.1)
    rw [← hsplit] at hmem
    rcases List.mem_append.1 hmem with h | h
    · exact h
    · cases List.mem_singleton.1 h
  · exact hmem

/-- **The gate lets nothing harmful through** exactly when the two kinds of text that it does not parse whole hold
nothing harmful. -/
theorem isReadOnly_sound_iff (hparse : parse sc.text = some sc.chunks) :
    (isReadOnlyQuery parse sc.text = true → ∀ s ∈ sc.statements, s.harmless = true) ↔ sc.Judged := by
  have hall : allStatementsAreSelect parse sc.text = true → ∀ s ∈ sc.statements, s.harmless = true := by
    intro h s hs
    unfold allStatementsAreSelect at h
    rw [hparse] at h
    exact Stmt.harmless_of_select ((List.all_eq_true.1 (Bool.and_eq_true_iff.1 h).2) _ (mem_chunks hs))
  constructor
  · intro hgate
    refine ⟨fun hread hwith hsingle => hgate ?_, fun hunknown s hs hselect => hgate ?_⟩
    · unfold isReadOnlyQuery
      rw [hread, hsingle, Bool.or_false]
      simp [hwith]
    · obtain ⟨more, hmore⟩ := List.head?_eq_some_iff.1 hs
      unfold isReadOnlyQuery isSelect
      rw [hunknown, hparse, hmore]
      exact hselect
  · intro hjudged hgate
    unfold isReadOnlyQuery at hgate
    split at hgate
    · cases hgate
    · rename_i hread
      split at hgate
      · exact hall hgate
      · rename_i hno
        rw [Bool.or_eq_true, not_or, decide_eq_true_eq, Bool.not_eq_true] at hno
        exact hjudged.unparsed hread hno.1 hno.2
    · rename_i hunknown
      unfold isSelect at hgate
      rw [hparse] at hgate
      split at hgate
      · rename_i s more hchunks
        refine hjudged.firstOnly hunknown s ?_ hgate
        rw [Option.some.inj hchunks]
        rfl
      · cases hgate

/-- `EXPLAIN` and `PRAGMA`: a read by their keyword, whatever they do. -/
def Stmt.wrapper : Stmt → Bool
  | .explain _ _ | .pragma _ => true
  | _ => false

/-- In a flat text that begins with a keyword, only a wrapper that stands alone gets past. -/
theorem judged_flat_iff (hflat : ∀ l ∈ sc.first.lead, l.Flat) (hs : sc.first.stmt = some s)
    (hparen : sc.first.body.head? ≠ some '(') :
    sc.Judged ↔ (s.wrapper = true → hasMultipleStatements sc.text = false → s.harmless = true) := by
  obtain ⟨kw, hkw, hkey⟩ := leadingKeyword_flat hflat hs hparen
  have hmem : s ∈ sc.statements := List.mem_filterMap.2 ⟨sc.first, List.mem_cons_self, hs⟩
  have hkind : statementKind sc.text = if kw ∈ writeKeywords then .write else if kw ∈ readKeywords then
    .read else .unknown := by
    unfold statementKind
    rw [hkey]
  constructor
  · intro hjudged hwrapper hsingle
    have hkw' : kw = "explain" ∨ kw = "pragma" := by
      cases s with
      | explain => exact .inl (List.mem_singleton.1 hkw)
      | pragma => exact .inr (List.mem_singleton.1 hkw)
      | _ => cases hwrapper
    refine hjudged.unparsed ?_ ?_ hsingle s hmem
    · rw [hkind]
      rcases hkw' with rfl | rfl <;> decide
    · rw [hkey]
      rcases hkw' with rfl | rfl <;> decide
  · intro hwrapper
    refine ⟨fun hread hwith hsingle => ?_, fun hunknown s' hs' hselect => ?_⟩
    · have honly : ∀ s' ∈ sc.statements, s' = s := by
        intro s' hs'
        have hlen := statements_of_single hsingle
        obtain ⟨x, hx⟩ := List.length_eq_one_iff.1 (Nat.le_antisymm hlen (List.length_pos_of_mem hmem))
        rw [hx] at hmem hs'
        rw [List.mem_singleton.1 hmem, List.mem_singleton.1 hs']
      intro s' hs'
      rw [honly s' hs']
      rw [hkey] at hwith
      cases s with
      | explain => exact hwrapper rfl hsingle
      | pragma => exact hwrapper rfl hsingle
      | withDml => exact absurd (congrArg some (List.mem_singleton.1 hkw)) hwith
      | other keyword =>
        simp only [Stmt.keywords] at hkw
        split at hkw
        · cases hkw
        · rename_i hnot
          rw [← List.mem_singleton.1 hkw] at hnot
          rw [hkind, if_neg hnot] at hread
          split at hread <;> cases hread
      | select => rfl
      | withSelect => rfl
      | introspect => rfl
    · have hfirst : sc.chunks.head? = some (some s) := by
        unfold Script.chunks Script.pieces
        dsimp only
        rw [List.map_cons, hs]
        split
        · rename_i hlast
          cases hrest : sc.rest.map Piece.stmt with
          | nil => simp [hrest] at hlast
          | cons q ps => rfl
        · rfl
      rw [hfirst] at hs'
      cases hs'
      have hread : kw ∈ readKeywords := by
        cases s with
        | select => exact (by decide : ∀ k ∈ ["select", "from"], k ∈ readKeywords) kw hkw
        | withSelect => exact (by decide : ∀ k ∈ ["with"], k ∈ readKeywords) kw hkw
        | _ => cases hselect
      rw [hkind] at hunknown
      rw [if_pos hread] at hunknown
      split at hunknown <;> cases hunknown

end SynnoDB.Router
