import SynnoDB.Lib.Digits
import SynnoDB.Tools.DiffRepair
import SynnoDB.Workload.EmbeddedParameters

/-!
# Rewriting outside of quotes (`router/normalize.py:642-709`, `workloads/engine_publish.py:129-149`)

| here | there |
| --- | --- |
| `scanStringLiterals`         | `scan_string_literals` (EmbeddedParameters.lean) |
| `segments`                   | the slices `sql[last:open_i]` and `sql[open_i : close_i + 1]` of both loops |
| `nameAnonymousPlaceholders`  | `_name_anonymous_placeholders`; `rewriteOutside` is its inner function |
| `castAt`, `subCasts`         | a match of `_POSTFIX_CAST`, and `_POSTFIX_CAST.sub` |
| `rewritePostfixCasts`        | `_rewrite_postfix_casts` |
| `Sql`                        | the lexical grammar: a text and its pieces |

The scanner knows no comments, so that an apostrophe in one opens a literal and a question mark in one is a placeholder.
**The two rewriters and the scanner agree with the grammar exactly if no comment has a quote or a question mark**
(`rewriters_right_iff`); every text has pieces (`exists_pieces`).
-/

namespace SynnoDB.Workload.EnginePublish

/-- Each slice outside of the literals with the literal after it, and the last slice. -/
def segments (sql : Text) : Nat → List Literal → List (Text × Text) × Text
  | last, [] => ([], sql.drop last)
  | last, ℓ :: ℓs =>
    (((sql.take ℓ.start).drop last, (sql.take (ℓ.close + 1)).drop ℓ.start) :: (segments sql (ℓ.close + 1) ℓs).1,
      (segments sql (ℓ.close + 1) ℓs).2)

/-! ## Names for placeholders -/

structure Naming where
  out : Text := []
  mapping : Dict Text Text := []
  pi : Nat := 0

def synp (i : Nat) : Text := "synp".toList ++ Nat.toDigits 10 i

/-- A placeholder, and the piece that stands behind it. -/
def Naming.placeholder (names : List Text) (st : Naming) (piece : Text) : Naming where
  out := st.out ++ ':' :: synp st.pi ++ piece
  mapping := match names[st.pi]? with
    | some name => st.mapping.set (synp st.pi) name
    | none => st.mapping
  pi := st.pi + 1

def rewriteOutside (names : List Text) (st : Naming) (segment : Text) : Naming :=
  match segment.splitOn '?' with
  | [] => st
  | piece :: pieces => pieces.foldl (Naming.placeholder names) { st with out := st.out ++ piece }

def nameAnonymousPlaceholders (sql : Text) (names : List Text) : Option Text × Dict Text Text :=
  let cut := segments sql 0 (scanStringLiterals sql)
  let st := cut.1.foldl (fun st slice =>
    let st := rewriteOutside names st slice.1
    { st with out := st.out ++ slice.2 }) {}
  let st := rewriteOutside names st cut.2
  if st.pi = names.length then (some st.out, st.mapping) else (none, [])

/-! ## Postfix casts -/

/-- `\w`: of the characters that are not ASCII, `letter` says which. -/
def isWord (letter : Char → Bool) (c : Char) : Bool := if c.toNat < 128 then c.isAlphanum || c = '_' else letter c

section
variable (letter : Char → Bool)

/-- The type of the cast that the text starts with, and what stands behind it. -/
def castAt : Text → Option (Text × Text)
  | '?' :: cs =>
    match cs.dropWhile Tools.DiffRepair.isSpace with
    | ':' :: ':' :: ds =>
      let rest := ds.dropWhile Tools.DiffRepair.isSpace
      let word := rest.takeWhile (isWord letter)
      if word = [] then none else some (word, rest.dropWhile (isWord letter))
    | _ => none
  | _ => none

def castText (word : Text) : Text := "CAST(? AS ".toList ++ word ++ ")".toList

/-- `skip` characters belong to a match. -/
def subCasts : Nat → Text → Text
  | _, [] => []
  | skip + 1, _ :: cs => subCasts skip cs
  | 0, c :: cs =>
    match castAt letter (c :: cs) with
    | some (word, rest) => castText word ++ subCasts (cs.length - rest.length) cs
    | none => c :: subCasts 0 cs

def rewritePostfixCasts (sql : Text) : Text :=
  if '?' ∉ sql ∨ ¬ "::".toList <:+: sql then sql
  else
    let cut := segments sql 0 (scanStringLiterals sql)
    cut.1.flatMap (fun slice => subCasts letter 0 slice.1 ++ slice.2) ++ subCasts letter 0 cut.2

end

/-! ## The lexical grammar -/

/-- How much of the text behind a `/*` belongs to the comment; comments nest. -/
def blockLength : Nat → Text → Nat
  | _, [] => 0
  | 0, '*' :: '/' :: _ => 2
  | depth + 1, '*' :: '/' :: cs => 2 + blockLength depth cs
  | depth, '/' :: '*' :: cs => 2 + blockLength (depth + 1) cs
  | depth, _ :: cs => 1 + blockLength depth cs

/-- The length of the comment that the text starts with, or 0. -/
def commentLength : Text → Nat
  | '-' :: '-' :: cs => 2 + (cs.takeWhile (· ≠ '\n')).length
  | '/' :: '*' :: cs => 2 + blockLength 0 cs
  | _ => 0

inductive Piece where
  | other (c : Char)
  | literal (text inner : Text) (closed : Bool)
  | comment (text : Text)

/-- A text and its pieces. -/
inductive Sql : Text → List Piece → Prop
  | nil : Sql [] []
  | other {c : Char} {rest : Text} {ps : List Piece} (hq : isQuote c = false) (hc : commentLength (c :: rest) = 0)
      (h : Sql rest ps) : Sql (c :: rest) (.other c :: ps)
  | literal {q : Char} {raw inner rest : Text} {ps : List Piece} (hq : isQuote q = true) (hraw : Quoted q raw inner)
      (hrest : rest.head? ≠ some q) (h : Sql rest ps) :
      Sql (q :: raw ++ q :: rest) (.literal (q :: raw ++ [q]) inner true :: ps)
  | unclosed {q : Char} {raw inner : Text} (hq : isQuote q = true) (hraw : Quoted q raw inner) :
      Sql (q :: raw) [.literal (q :: raw) inner false]
  | comment {text rest : Text} {ps : List Piece} (hne : text ≠ []) (hc : commentLength (text ++ rest) = text.length)
      (h : Sql rest ps) : Sql (text ++ rest) (.comment text :: ps)

/-! ## What the claims ask -/

/-- The literals of the pieces; one that is not closed has its second quote behind the text. -/
def literalsFrom : Nat → List Piece → List Literal
  | _, [] => []
  | i, .other _ :: ps => literalsFrom (i + 1) ps
  | i, .literal text inner closed :: ps =>
    { start := i, close := if closed then i + text.length - 1 else i + text.length, inner } :: literalsFrom (i + text.length) ps
  | i, .comment text :: ps => literalsFrom (i + text.length) ps

def placeholders : List Piece → Nat
  | [] => 0
  | .other c :: ps => (if c = '?' then 1 else 0) + placeholders ps
  | _ :: ps => placeholders ps

/-- The `i`-th placeholder is the first. -/
def namedFrom : Nat → List Piece → Text
  | _, [] => []
  | i, .other c :: ps => if c = '?' then ':' :: synp i ++ namedFrom (i + 1) ps else c :: namedFrom i ps
  | i, .literal text _ _ :: ps => text ++ namedFrom i ps
  | i, .comment text :: ps => text ++ namedFrom i ps

/-- The text with its placeholders named, if the numbers agree. -/
def named (ps : List Piece) (names : List Text) : Option Text × Dict Text Text :=
  if placeholders ps = names.length then (some (namedFrom 0 ps), names.mapIdx fun i name => (synp i, name)) else (none, [])

/-- What stands before the next literal or comment. -/
def leading : List Piece → Text
  | .other c :: ps => c :: leading ps
  | _ => []

/-- Casts are looked for between literals and comments. -/
def castFrom (letter : Char → Bool) : Nat → List Piece → Text
  | _, [] => []
  | skip + 1, _ :: ps => castFrom letter skip ps
  | 0, .other c :: ps =>
    match castAt letter (c :: leading ps) with
    | some (word, rest) => castText word ++ castFrom letter ((leading ps).length - rest.length) ps
    | none => c :: castFrom letter 0 ps
  | 0, .literal text _ _ :: ps => text ++ castFrom letter 0 ps
  | 0, .comment text :: ps => text ++ castFrom letter 0 ps

/-- **The three agree with the grammar.** -/
structure Right (letter : Char → Bool) (sql : Text) (ps : List Piece) : Prop where
  named : ∀ names, nameAnonymousPlaceholders sql names = named ps names
  casts : rewritePostfixCasts letter sql = castFrom letter 0 ps
  literals : scanStringLiterals sql = literalsFrom 0 ps

/-- **The condition**: comments have no quotes and no question marks. -/
def Harmless (ps : List Piece) : Prop := ∀ text, .comment text ∈ ps → ∀ c ∈ text, isQuote c = false ∧ c ≠ '?'

/-! ## Every text has pieces -/

section
variable {text rest : Text} {c q : Char}

theorem blockLength_le : ∀ (depth : Nat) (text : Text), blockLength depth text ≤ text.length := by
  intro depth text
  fun_induction blockLength depth text with
  | case1 => exact Nat.le_refl _
  | case2 => simp only [List.length_cons]; omega
  | case3 depth cs ih => simp only [List.length_cons]; omega
  | case4 depth cs ih => simp only [List.length_cons]; omega
  | case5 depth c cs _ _ ih => simp only [List.length_cons]; omega

theorem commentLength_le (text : Text) : commentLength text ≤ text.length := by
  fun_cases commentLength text with
  | case1 cs =>
    have hle := (List.takeWhile_sublist (fun c => decide (c ≠ '\n')) (l := cs)).length_le
    simp only [List.length_cons]
    omega
  | case2 cs =>
    have hle := blockLength_le 0 cs
    simp only [List.length_cons]
    omega
  | case3 => exact Nat.zero_le _

/-- A comment starts with a dash or a slash. -/
theorem comment_head (h : commentLength (c :: rest) ≠ 0) : c = '-' ∨ c = '/' := by
  unfold commentLength at h
  split at h
  · rename_i cs heq
    exact .inl (List.cons.inj heq).1
  · rename_i cs heq
    exact .inr (List.cons.inj heq).1
  · exact absurd rfl h

/-- What stands between the quotes of a literal, if it is closed. -/
theorem exists_quoted (q : Char) : ∀ text : Text, ∃ raw inner post, text = raw ++ post ∧ Quoted q raw inner ∧
    (post = [] ∨ ∃ post', post = q :: post' ∧ post'.head? ≠ some q)
  | [] => ⟨[], [], [], rfl, .nil, .inl rfl⟩
  | [c] => by
    by_cases h : c = q
    · exact ⟨[], [], [c], rfl, .nil, .inr ⟨[], by rw [h], by simp⟩⟩
    · exact ⟨[c], [c], [], rfl, .char h .nil, .inl rfl⟩
  | c :: d :: cs => by
    by_cases h : c = q
    · by_cases hd : d = q
      · obtain ⟨raw, inner, post, htext, hquoted, hpost⟩ := exists_quoted q cs
        exact ⟨q :: q :: raw, q :: inner, post, by rw [h, hd, htext]; rfl, .escape hquoted, hpost⟩
      · exact ⟨[], [], c :: d :: cs, rfl, .nil, .inr ⟨d :: cs, by rw [h], by simpa using hd⟩⟩
    · obtain ⟨raw, inner, post, htext, hquoted, hpost⟩ := exists_quoted q (d :: cs)
      exact ⟨c :: raw, c :: inner, post, by rw [htext]; rfl, .char h hquoted, hpost⟩

/-- **Every text has pieces.** -/
theorem exists_pieces (sql : Text) : ∃ ps, Sql sql ps := by
  induction hn : sql.length using Nat.strong_induction_on generalizing sql with
  | _ n ih =>
    cases sql with
    | nil => exact ⟨[], .nil⟩
    | cons c cs =>
      rw [List.length_cons] at hn
      cases hq : isQuote c with
      | true =>
        obtain ⟨raw, inner, post, rfl, hquoted, rfl | ⟨post', rfl, hrest⟩⟩ := exists_quoted c cs
        · rw [List.append_nil]
          exact ⟨_, .unclosed hq hquoted⟩
        · rw [List.length_append, List.length_cons] at hn
          obtain ⟨ps, hps⟩ := ih post'.length (by omega) post' rfl
          exact ⟨_, .literal hq hquoted hrest hps⟩
      | false =>
        by_cases hc : commentLength (c :: cs) = 0
        · obtain ⟨ps, hps⟩ := ih cs.length (by omega) cs rfl
          exact ⟨_, .other hq hc hps⟩
        · have hle := commentLength_le (c :: cs)
          have hsplit := List.take_append_drop (commentLength (c :: cs)) (c :: cs)
          have htake : ((c :: cs).take (commentLength (c :: cs))).length = commentLength (c :: cs) :=
            List.length_take_of_le hle
          have hlen : ((c :: cs).drop (commentLength (c :: cs))).length < n := by
            rw [List.length_drop, List.length_cons]
            omega
          obtain ⟨ps, hps⟩ := ih _ hlen _ rfl
          refine ⟨.comment ((c :: cs).take (commentLength (c :: cs))) :: ps, ?_⟩
          have hne : (c :: cs).take (commentLength (c :: cs)) ≠ [] := by
            intro hnil
            rw [hnil] at htake
            exact hc htake.symm
          have hsql := Sql.comment hne (by rw [hsplit, htake]) hps
          rw [hsplit] at hsql
          exact hsql

/-! ## The scanner -/

/-- The scanner reads a literal to its end. -/
theorem readLiteral_quoted {raw inner : Text} (h : Quoted q raw inner) {post : Text}
    (hpost : post = [] ∨ ∃ post', post = q :: post' ∧ post'.head? ≠ some q) :
    readLiteral q (raw ++ post) = (inner, raw.length) := by
  induction h with
  | nil =>
    rcases hpost with rfl | ⟨post', rfl, hrest⟩
    · rfl
    · cases post' with
      | nil => simp [readLiteral]
      | cons d ds =>
        have hd : d ≠ q := by simpa using hrest
        simp [readLiteral, hd]
  | @char c raw inner hc h ih =>
    cases htail : raw ++ post with
    | nil =>
      rw [htail] at ih
      obtain ⟨rfl, rfl⟩ := List.append_eq_nil_iff.mp htail
      have hinner : ([], 0) = (inner, 0) := ih
      rw [← (Prod.mk.inj hinner).1, List.cons_append, List.nil_append, readLiteral, if_neg hc]
      rfl
    | cons d ds =>
      rw [htail] at ih
      rw [List.cons_append, htail, readLiteral, if_neg hc, ih]
      rfl
  | @escape raw inner h ih =>
    rw [List.cons_append, List.cons_append, readLiteral, if_pos rfl, if_pos rfl, ih]
    rfl

theorem scanFrom_skip (a rest : Text) (i : Nat) : scanFrom a.length i (a ++ rest) = scanFrom 0 (i + a.length) rest := by
  induction a generalizing i with
  | nil => rfl
  | cons c a ih =>
    rw [List.length_cons, List.cons_append, scanFrom, ih]
    congr 1
    omega

theorem scanFrom_plain {a : Text} (h : ∀ c ∈ a, isQuote c = false) (rest : Text) (i : Nat) :
    scanFrom 0 i (a ++ rest) = scanFrom 0 (i + a.length) rest := by
  induction a generalizing i with
  | nil => rfl
  | cons c a ih =>
    have hc := h c List.mem_cons_self
    rw [List.cons_append, scanFrom, hc, if_neg (by simp), ih fun d hd =>
      h d (List.mem_cons_of_mem _ hd), List.length_cons]
    congr 1
    omega

theorem scanFrom_literal {raw inner : Text} (hq : isQuote q = true) (hraw : Quoted q raw inner)
    (hrest : rest.head? ≠ some q)
    (i : Nat) : scanFrom 0 i (q :: raw ++ q :: rest) =
      { start := i, close := i + 1 + raw.length, inner } :: scanFrom 0 (i + 1 + raw.length + 1) rest := by
  have hread : readLiteral q (raw ++ q :: rest) = (inner, raw.length) :=
    readLiteral_quoted hraw (.inr ⟨rest, rfl, hrest⟩)
  have hskip := scanFrom_skip (raw ++ [q]) rest (i + 1)
  rw [List.length_append, List.length_singleton, List.append_assoc, List.singleton_append] at hskip
  rw [List.cons_append, scanFrom, if_pos hq, hread, hskip]
  rfl

theorem scanFrom_unclosed {raw inner : Text} (hq : isQuote q = true) (hraw : Quoted q raw inner) (i : Nat) :
    scanFrom 0 i (q :: raw) = [{ start := i, close := i + 1 + raw.length, inner }] := by
  have hread := readLiteral_quoted hraw (.inl rfl)
  rw [List.append_nil] at hread
  have hnil : ∀ (raw : Text) skip i, raw.length ≤ skip → scanFrom skip i raw = [] := by
    intro raw
    induction raw with
    | nil => exact fun _ _ _ => rfl
    | cons c raw ih =>
      intro skip i hle
      rw [List.length_cons] at hle
      obtain ⟨k, rfl⟩ : ∃ k, skip = k + 1 := ⟨skip - 1, by omega⟩
      rw [scanFrom]
      exact ih k (i + 1) (by omega)
  rw [scanFrom, if_pos hq, hread, hnil raw _ _ (Nat.le_succ _)]

theorem le_start_of_mem {ℓ : Literal} : ∀ {ps : List Piece} {i : Nat}, ℓ ∈ literalsFrom i ps → i ≤ ℓ.start
  | .other _ :: ps, i, h => Nat.le_of_succ_le (le_start_of_mem (show ℓ ∈ literalsFrom (i + 1) ps from h))
  | .literal text inner closed :: ps, i, h => by
    rcases List.mem_cons.mp h with rfl | h
    · exact Nat.le_refl _
    · exact Nat.le_trans (Nat.le_add_right _ _) (le_start_of_mem h)
  | .comment text :: ps, i, h =>
    Nat.le_trans (Nat.le_add_right _ _) (le_start_of_mem (show ℓ ∈ literalsFrom (i + text.length) ps from h))

/-- Comments without quotes. -/
def Unquoted (ps : List Piece) : Prop := ∀ text, .comment text ∈ ps → ∀ c ∈ text, isQuote c = false

theorem unquoted_cons {p : Piece} {ps : List Piece} (hp : ∀ text, p ≠ .comment text) :
    Unquoted (p :: ps) ↔ Unquoted ps := by
  constructor
  · exact fun h text hmem => h text (List.mem_cons_of_mem _ hmem)
  · intro h text hmem
    rcases List.mem_cons.mp hmem with heq | hmem
    · exact absurd heq.symm (hp text)
    · exact h text hmem

/-- **The scanner finds the literals** exactly if no comment has a quote. -/
theorem scan_iff {sql : Text} {ps : List Piece} (h : Sql sql ps) (i : Nat) :
    scanFrom 0 i sql = literalsFrom i ps ↔ Unquoted ps := by
  induction h generalizing i with
  | nil => exact iff_of_true rfl fun _ hmem => nomatch hmem
  | @other c rest ps hq hc h ih =>
    rw [unquoted_cons (fun _ => Piece.noConfusion), ← ih (i + 1), literalsFrom]
    have hplain : scanFrom 0 i (c :: rest) = scanFrom 0 (i + 1) rest :=
      scanFrom_plain (a := [c]) (fun d hd => List.mem_singleton.mp hd ▸ hq) rest i
    rw [hplain]
  | @literal q raw inner rest ps hq hraw hrest h ih =>
    rw [unquoted_cons (fun _ => Piece.noConfusion), ← ih (i + 1 + raw.length + 1),
      scanFrom_literal hq hraw hrest, literalsFrom]
    have hlen : i + (q :: raw ++ [q]).length = i + 1 + raw.length + 1 := by
      rw [List.length_append, List.length_cons, List.length_singleton]
      omega
    rw [hlen, if_pos rfl, Nat.add_sub_cancel, List.cons.injEq]
    exact and_iff_right rfl
  | @unclosed q raw inner hq hraw =>
    rw [unquoted_cons (fun _ => Piece.noConfusion), scanFrom_unclosed hq hraw, literalsFrom]
    have hlen : i + (q :: raw).length = i + 1 + raw.length := by
      rw [List.length_cons]
      omega
    rw [hlen, if_neg (by simp)]
    exact iff_of_true rfl fun _ hmem => nomatch hmem
  | @comment text rest ps hne hc h ih =>
    rw [literalsFrom]
    by_cases hplain : ∀ c ∈ text, isQuote c = false
    · rw [scanFrom_plain hplain, ih]
      constructor
      · intro hps text' hmem
        rcases List.mem_cons.mp hmem with heq | hmem
        · rw [Piece.comment.inj heq]
          exact hplain
        · exact hps text' hmem
      · exact fun hps text' hmem => hps text' (List.mem_cons_of_mem _ hmem)
    · refine iff_of_false (fun heq => ?_) fun hall => hplain (hall text List.mem_cons_self)
      -- a literal that is read in the comment
      obtain ⟨before, q, after, htext, hq, hbefore⟩ : ∃ before q after, text = before ++ q :: after ∧ isQuote q = true ∧
          ∀ c ∈ before, isQuote c = false := by
        have hne' : text.dropWhile (!isQuote ·) ≠ [] := by
          intro hnil
          exact hplain fun c hc => by simpa using List.dropWhile_eq_nil_iff.mp hnil c hc
        have hhead := List.head_dropWhile_not (!isQuote ·) hne'
        refine ⟨text.takeWhile (!isQuote ·), (text.dropWhile (!isQuote ·)).head hne',
          (text.dropWhile (!isQuote ·)).tail, ?_,
          by simpa using hhead, fun c hc => by simpa using List.mem_takeWhile_imp hc⟩
        rw [List.cons_head_tail]
        exact (List.takeWhile_append_dropWhile ..).symm
      rw [htext, List.append_assoc, scanFrom_plain hbefore, List.cons_append, scanFrom, if_pos hq] at heq
      have hmem := heq ▸ List.mem_cons_self
      have hle := le_start_of_mem hmem
      simp only [List.length_append, List.length_cons] at hle
      omega

end

/-! ## The slices -/

/-- Text before the first slice. -/
def ahead (t : Text) : List (Text × Text) × Text → List (Text × Text) × Text
  | ([], tail) => ([], t ++ tail)
  | ((outside, literal) :: rest, tail) => ((t ++ outside, literal) :: rest, tail)

/-- The slices of pieces. -/
def slices : List Piece → List (Text × Text) × Text
  | [] => ([], [])
  | .other c :: ps => ahead [c] (slices ps)
  | .literal text _ _ :: ps => (([], text) :: (slices ps).1, (slices ps).2)
  | .comment text :: ps => ahead text (slices ps)

theorem ahead_append (a b : Text) (x : List (Text × Text) × Text) : ahead a (ahead b x) = ahead (a ++ b) x := by
  obtain ⟨_ | ⟨⟨outside, literal⟩, rest⟩, tail⟩ := x
  · simp only [ahead, List.append_assoc]
  · simp only [ahead, List.append_assoc]

theorem ahead_nil (x : List (Text × Text) × Text) : ahead [] x = x := by
  obtain ⟨_ | ⟨⟨outside, literal⟩, rest⟩, tail⟩ := x <;> rfl

/-- A literal that starts behind `a` and `o` is cut out. -/
theorem segments_literal (a o text rest : Text) (ℓ : Literal) (ℓs : List Literal)
    (hstart : ℓ.start = a.length + o.length)
    (hclose : (a ++ (o ++ (text ++ rest))).take (ℓ.close + 1) = a ++ o ++ text) :
    segments (a ++ (o ++ (text ++ rest))) a.length (ℓ :: ℓs) =
      ((o, text) :: (segments (a ++ (o ++ (text ++ rest))) (ℓ.close + 1) ℓs).1,
        (segments (a ++ (o ++ (text ++ rest))) (ℓ.close + 1) ℓs).2) := by
  have hout : ((a ++ (o ++ (text ++ rest))).take ℓ.start).drop a.length = o := by
    have hlen : a.length + o.length = (a ++ o).length := List.length_append.symm
    rw [hstart, ← List.append_assoc, hlen, List.take_left, List.drop_left]
  have hlit : ((a ++ (o ++ (text ++ rest))).take (ℓ.close + 1)).drop ℓ.start = text := by
    rw [hclose, hstart, ← List.length_append, List.drop_left]
  rw [segments, hout, hlit]

theorem segments_eq {rest : Text} {ps : List Piece} (h : Sql rest ps) (a o : Text) :
    segments (a ++ (o ++ rest)) a.length (literalsFrom (a.length + o.length) ps) = ahead o (slices ps) := by
  induction h generalizing a o with
  | nil =>
    rw [literalsFrom, segments, List.drop_left]
    rfl
  | @other c rest ps hq hc h ih =>
    have heq := ih a (o ++ [c])
    rw [List.length_append, List.length_singleton, List.append_assoc, List.singleton_append] at heq
    rw [literalsFrom, slices, ahead_append, ← heq]
    rfl
  | @literal q raw inner rest ps hq hraw hrest h ih =>
    have htext : q :: raw ++ q :: rest = (q :: raw ++ [q]) ++ rest := by simp
    have hpos : 0 < (q :: raw ++ [q]).length := by simp
    rw [htext, literalsFrom, if_pos rfl, slices]
    generalize q :: raw ++ [q] = text at hpos ⊢
    have hend : a.length + o.length + text.length - 1 + 1 = (a ++ o ++ text).length := by
      rw [List.length_append, List.length_append]
      omega
    have hsql : a ++ (o ++ (text ++ rest)) = a ++ o ++ text ++ ([] ++ rest) := by simp
    have heq := ih (a ++ o ++ text) []
    rw [ahead_nil, ← hsql, List.length_nil, Nat.add_zero, List.length_append, List.length_append] at heq
    rw [segments_literal a o text rest _ _ rfl]
    · simp only [hend, List.length_append, heq]
      rw [ahead, List.append_nil]
    · simp only [hend]
      rw [hsql, List.take_left]
  | @unclosed q raw inner hq hraw =>
    generalize q :: raw = text
    have hsql : a ++ (o ++ text) = a ++ (o ++ (text ++ [])) := by simp
    have hlen : (a ++ (o ++ (text ++ []))).length ≤ a.length + o.length + text.length + 1 := by
      simp only [List.length_append, List.length_nil]
      omega
    rw [hsql, literalsFrom, if_neg (by simp), slices, segments_literal a o text [] _ _ rfl]
    · simp only [literalsFrom, segments, List.drop_eq_nil_of_le hlen]
      rw [slices, ahead, List.append_nil]
    · simp only [List.take_of_length_le hlen]
      simp
  | @comment text rest ps hne hc h ih =>
    have heq := ih a (o ++ text)
    rw [List.length_append, List.append_assoc, ← Nat.add_assoc] at heq
    rw [literalsFrom, slices, ahead_append, ← heq]

/-- What both rewriters go through. -/
theorem segments_scan {sql : Text} {ps : List Piece} (h : Sql sql ps) (hu : Unquoted ps) :
    segments sql 0 (scanStringLiterals sql) = slices ps := by
  have heq := segments_eq h [] []
  rw [ahead_nil] at heq
  rw [scanStringLiterals, (scan_iff h 0).mpr hu]
  exact heq

/-! ## Naming -/

section
variable {names : List Text} {st : Naming} {ps : List Piece}

def Naming.add (st : Naming) (text : Text) : Naming := { st with out := st.out ++ text }

/-- A character outside of the literals. -/
def Naming.char (names : List Text) (st : Naming) (c : Char) : Naming :=
  if c = '?' then st.placeholder names [] else st.add [c]

theorem add_add (a b : Text) : (st.add a).add b = st.add (a ++ b) := by
  simp only [Naming.add, List.append_assoc]

theorem add_nil : st.add [] = st := by
  simp only [Naming.add, List.append_nil]

theorem placeholder_eq (piece : Text) : st.placeholder names piece = (st.placeholder names []).add piece := by
  simp only [Naming.placeholder, Naming.add, List.append_nil]

/-- **Splitting at the question marks** is going through the characters. -/
theorem rewriteOutside_eq (segment : Text) : rewriteOutside names st segment =
    segment.foldl (Naming.char names) st := by
  induction segment generalizing st with
  | nil => exact add_nil
  | cons c segment ih =>
    have hsplit : (c :: segment).splitOn '?' =
        if c == '?' then [] :: segment.splitOn '?' else (segment.splitOn '?').modifyHead (List.cons c) :=
      List.splitOnP_cons_eq_if_modifyHead c segment
    obtain ⟨piece, pieces, hpieces⟩ := List.exists_cons_of_ne_nil (List.splitOnP_ne_nil (· == '?') segment)
    have hpieces' : segment.splitOn '?' = piece :: pieces := hpieces
    have htail := @ih (Naming.char names st c)
    unfold rewriteOutside at htail ⊢
    rw [hpieces'] at htail
    rw [hsplit, hpieces', List.foldl_cons, ← htail]
    by_cases hc : c = '?'
    · simp only [hc, beq_self_eq_true, ↓reduceIte, List.foldl_cons, Naming.char]
      rw [placeholder_eq]
      congr 1
      exact congrArg (Naming.add · piece) (congrArg (Naming.placeholder names · []) add_nil)
    · have hc' : (c == '?') = false := beq_false_of_ne hc
      simp only [hc', Bool.false_eq_true, ↓reduceIte, List.modifyHead_cons, Naming.char, hc]
      congr 1
      exact (add_add [c] piece).symm

/-- The loop over the slices. -/
def Naming.slices (names : List Text) (st : Naming) (cut : List (Text × Text) × Text) : Naming :=
  rewriteOutside names (cut.1.foldl (fun st slice => (rewriteOutside names st slice.1).add slice.2) st) cut.2

def Naming.piece (names : List Text) (st : Naming) : Piece → Naming
  | .other c => st.char names c
  | .literal text _ _ => st.add text
  | .comment text => text.foldl (Naming.char names) st

theorem slices_ahead (text : Text) (cut : List (Text × Text) × Text) :
    st.slices names (ahead text cut) = (text.foldl (Naming.char names) st).slices names cut := by
  obtain ⟨_ | ⟨⟨outside, literal⟩, rest⟩, tail⟩ := cut
  · simp only [ahead, Naming.slices, List.foldl_nil, rewriteOutside_eq, List.foldl_append]
  · simp only [ahead, Naming.slices, List.foldl_cons, rewriteOutside_eq, List.foldl_append]

theorem slices_slices : st.slices names (slices ps) = ps.foldl (Naming.piece names) st := by
  induction ps generalizing st with
  | nil => exact rewriteOutside_eq []
  | cons p ps ih =>
    cases p with
    | other c =>
      rw [slices, slices_ahead, List.foldl_cons, ih]
      rfl
    | literal text inner closed =>
      rw [List.foldl_cons, ← ih, slices]
      simp only [Naming.slices, List.foldl_cons, rewriteOutside_eq, List.foldl_nil, Naming.piece]
    | comment text =>
      rw [slices, slices_ahead, List.foldl_cons, ih]
      rfl

theorem nameAnonymousPlaceholders_eq {sql : Text} (h : Sql sql ps) (hu : Unquoted ps) (names : List Text) :
    nameAnonymousPlaceholders sql names =
      if (ps.foldl (Naming.piece names) {}).pi = names.length then
        (some (ps.foldl (Naming.piece names) {}).out, (ps.foldl (Naming.piece names) {}).mapping)
      else (none, []) := by
  rw [← slices_slices, ← segments_scan h hu]
  rfl

/-- The question marks that the code counts: those of comments too. -/
def questionMarks : List Piece → Nat
  | [] => 0
  | .other c :: ps => (if c = '?' then 1 else 0) + questionMarks ps
  | .literal _ _ _ :: ps => questionMarks ps
  | .comment text :: ps => text.count '?' + questionMarks ps

theorem char_pi (c : Char) : (st.char names c).pi = st.pi + if c = '?' then 1 else 0 := by
  unfold Naming.char
  split
  · rfl
  · rfl

theorem foldl_char_pi (text : Text) : (text.foldl (Naming.char names) st).pi = st.pi + text.count '?' := by
  induction text generalizing st with
  | nil => rfl
  | cons c text ih =>
    rw [List.foldl_cons, ih, char_pi, List.count_cons]
    simp only [beq_iff_eq]
    omega

theorem foldl_piece_pi : (ps.foldl (Naming.piece names) st).pi = st.pi + questionMarks ps := by
  induction ps generalizing st with
  | nil => rfl
  | cons p ps ih =>
    rw [List.foldl_cons, ih]
    cases p with
    | other c =>
      simp only [Naming.piece, char_pi, questionMarks]
      omega
    | literal text inner closed => rfl
    | comment text =>
      simp only [Naming.piece, foldl_char_pi, questionMarks]
      omega

theorem placeholders_le (ps : List Piece) : placeholders ps ≤ questionMarks ps := by
  induction ps with
  | nil => exact Nat.le_refl _
  | cons p ps ih =>
    cases p with
    | other c => exact Nat.add_le_add_left ih _
    | literal text inner closed => exact ih
    | comment text => exact Nat.le_trans ih (Nat.le_add_left _ _)

theorem questionMarks_iff : questionMarks ps = placeholders ps ↔ ∀ text, .comment text ∈ ps → '?' ∉ text := by
  induction ps with
  | nil => exact iff_of_true rfl fun _ hmem => nomatch hmem
  | cons p ps ih =>
    cases p with
    | other c =>
      simp only [questionMarks, placeholders, Nat.add_left_cancel_iff, ih, List.mem_cons, reduceCtorEq, false_or]
    | literal text inner closed =>
      simp only [questionMarks, placeholders, ih, List.mem_cons, reduceCtorEq, false_or]
    | comment text =>
      have hle := placeholders_le ps
      have hsum : questionMarks (.comment text :: ps) = placeholders (.comment text :: ps) ↔
          text.count '?' = 0 ∧ questionMarks ps = placeholders ps := by
        simp only [questionMarks, placeholders]
        omega
      rw [hsum, List.count_eq_zero, ih]
      simp only [List.mem_cons, Piece.comment.injEq, forall_eq_or_imp]

/-! ## The names -/

/-- `{synp0: names[0], synp1: names[1], ...}`. -/
def table (names : List Text) : Dict Text Text := names.mapIdx fun i name => (synp i, name)

theorem synp_inj {i j : Nat} (h : synp i = synp j) : i = j := by
  have hdigits := List.append_cancel_left h
  rw [← Digits.value_toDigits i, ← Digits.value_toDigits j, hdigits]

theorem table_take_succ {i : Nat} {name : Text} (h : names[i]? = some name) :
    (table (names.take i)).set (synp i) name = table (names.take (i + 1)) := by
  have hlt := (List.getElem?_eq_some_iff.mp h).1
  have htake : names.take (i + 1) = names.take i ++ [name] := by
    rw [List.take_add_one, h]
    rfl
  have hlen : (names.take i).length = i := List.length_take_of_le (Nat.le_of_lt hlt)
  rw [Dict.set_of_notMem, htake]
  · unfold table
    rw [List.mapIdx_concat, hlen]
  · intro hmem
    obtain ⟨p, hp, heq⟩ := List.mem_map.mp hmem
    obtain ⟨j, hj, rfl⟩ := List.mem_mapIdx.mp hp
    rw [hlen] at hj
    exact Nat.ne_of_lt hj (synp_inj heq)

/-- The state with the placeholders up to now named. -/
structure Naming.At (names : List Text) (st : Naming) : Prop where
  le : st.pi ≤ names.length
  mapping : st.mapping = table (names.take st.pi)

theorem Naming.At.placeholder (h : st.At names) (hlt : st.pi < names.length) : (st.placeholder names []).At names := by
  refine ⟨hlt, ?_⟩
  have hname : names[st.pi]? = some names[st.pi] := List.getElem?_eq_getElem hlt
  simp only [Naming.placeholder, hname, h.mapping]
  exact table_take_succ hname

theorem foldl_char_plain {text : Text} (h : '?' ∉ text) : text.foldl (Naming.char names) st = st.add text := by
  induction text generalizing st with
  | nil => exact add_nil.symm
  | cons c text ih =>
    rw [List.mem_cons, not_or] at h
    rw [List.foldl_cons, ih h.2, Naming.char, if_neg (Ne.symm h.1), add_add]
    rfl

/-- **Naming the pieces**, if comments have no question marks. -/
theorem foldl_piece (hs : st.At names) (hcomments : ∀ text, .comment text ∈ ps → '?' ∉ text)
    (hle : st.pi + placeholders ps ≤ names.length) :
    (ps.foldl (Naming.piece names) st).out = st.out ++ namedFrom st.pi ps ∧
      (ps.foldl (Naming.piece names) st).At names := by
  induction ps generalizing st with
  | nil => exact ⟨(List.append_nil _).symm, hs⟩
  | cons p ps ih =>
    have hcomments' : ∀ text, .comment text ∈ ps → '?' ∉ text :=
      fun text hmem => hcomments text (List.mem_cons_of_mem _ hmem)
    rw [List.foldl_cons]
    cases p with
    | other c =>
      by_cases hc : c = '?'
      · subst hc
        simp only [placeholders, ↓reduceIte] at hle
        have hlt : st.pi < names.length := by omega
        have hpiece : st.piece names (.other '?') = st.placeholder names [] := rfl
        have hpi : (st.placeholder names []).pi = st.pi + 1 := rfl
        obtain ⟨hout, hat⟩ := ih (hs.placeholder hlt) hcomments' (by rw [hpi]; omega)
        rw [hpiece]
        refine ⟨?_, hat⟩
        rw [hout, hpi]
        simp [Naming.placeholder, namedFrom]
      · have hpiece : st.piece names (.other c) = st.add [c] := if_neg hc
        simp only [placeholders, hc, ↓reduceIte] at hle
        obtain ⟨hout, hat⟩ := ih (show (st.add [c]).At names from ⟨hs.le, hs.mapping⟩) hcomments'
          (by rw [Nat.zero_add] at hle; exact hle)
        rw [hpiece]
        refine ⟨?_, hat⟩
        rw [hout]
        simp [Naming.add, namedFrom, hc]
    | literal text inner closed =>
      obtain ⟨hout, hat⟩ := ih (show (st.add text).At names from ⟨hs.le, hs.mapping⟩) hcomments' hle
      refine ⟨?_, hat⟩
      have hpiece : st.piece names (.literal text inner closed) = st.add text := rfl
      rw [hpiece, hout]
      simp [Naming.add, namedFrom]
    | comment text =>
      have hpiece : st.piece names (.comment text) = st.add text := foldl_char_plain (hcomments text List.mem_cons_self)
      obtain ⟨hout, hat⟩ := ih (show (st.add text).At names from ⟨hs.le, hs.mapping⟩) hcomments' hle
      rw [hpiece]
      refine ⟨?_, hat⟩
      rw [hout]
      simp [Naming.add, namedFrom]

/-- **Naming is right for all names** exactly if no comment has a question mark. -/
theorem named_iff {sql : Text} (h : Sql sql ps) (hu : Unquoted ps) :
    (∀ names, nameAnonymousPlaceholders sql names = named ps names) ↔ ∀ text, .comment text ∈ ps → '?' ∉ text := by
  constructor
  · intro hall
    have heq := hall (List.replicate (placeholders ps) [])
    rw [nameAnonymousPlaceholders_eq h hu, foldl_piece_pi, named, List.length_replicate, if_pos rfl] at heq
    rw [← questionMarks_iff]
    by_contra hne
    have hpi : ({} : Naming).pi = 0 := rfl
    rw [hpi, Nat.zero_add, if_neg hne] at heq
    cases (Prod.mk.inj heq).1
  · intro hcomments names
    have hpi : ({} : Naming).pi = 0 := rfl
    rw [nameAnonymousPlaceholders_eq h hu, foldl_piece_pi, hpi, Nat.zero_add, questionMarks_iff.mpr hcomments, named]
    by_cases hlen : placeholders ps = names.length
    · have hat : ({} : Naming).At names := ⟨Nat.zero_le _, rfl⟩
      obtain ⟨hout, hle, hmapping⟩ := foldl_piece hat hcomments (by rw [hpi, Nat.zero_add]; exact hlen.le)
      rw [foldl_piece_pi, hpi, Nat.zero_add, questionMarks_iff.mpr hcomments, hlen, List.take_length] at hmapping
      rw [if_pos hlen, if_pos hlen, hout, hmapping]
      rfl
    · rw [if_neg hlen, if_neg hlen]

end

/-! ## Casts -/

section
variable {letter : Char → Bool} {ps : List Piece} {word rest more text : Text}

/-- The end of the text, or a character at which neither blanks nor a word go on. -/
def Stops (p : Char → Bool) (more : Text) : Prop := ∀ c ∈ more.head?, p c = false

theorem dropWhile_stops {p : Char → Bool} (h : Stops p more) (text : Text) :
    (text ++ more).dropWhile p = text.dropWhile p ++ more := by
  have hmore : more.dropWhile p = more := by
    cases more with
    | nil => rfl
    | cons c cs => exact List.dropWhile_cons_of_neg (Bool.eq_false_iff.mp (h c rfl))
  induction text with
  | nil => exact hmore
  | cons c text ih =>
    rw [List.cons_append, List.dropWhile_cons, List.dropWhile_cons, ih]
    split
    · rfl
    · rfl

theorem takeWhile_stops {p : Char → Bool} (h : Stops p more) (text : Text) :
    (text ++ more).takeWhile p = text.takeWhile p := by
  have hmore : more.takeWhile p = [] := by
    cases more with
    | nil => rfl
    | cons c cs => exact List.takeWhile_cons_of_neg (Bool.eq_false_iff.mp (h c rfl))
  induction text with
  | nil => exact hmore
  | cons c text ih =>
    rw [List.cons_append, List.takeWhile_cons, List.takeWhile_cons, ih]

/-- What a comment starts with, or nothing. -/
def Commented (more : Text) : Prop := ∀ c ∈ more.head?, c = '-' ∨ c = '/'

theorem Commented.stops (h : Commented more) : Stops Tools.DiffRepair.isSpace more ∧
    Stops (isWord letter) more ∧ Stops (· = ':') more := by
  refine ⟨fun c hc => ?_, fun c hc => ?_, fun c hc => ?_⟩
  · rcases h c hc with rfl | rfl <;> decide
  · rcases h c hc with rfl | rfl <;> rfl
  · rcases h c hc with rfl | rfl <;> decide

/-- A cast does not reach into a comment. -/
theorem castAt_append (letter : Char → Bool) (h : Commented more) (text : Text) (hne : text ≠ []) :
    castAt letter (text ++ more) = (castAt letter text).map fun m => (m.1, m.2 ++ more) := by
  obtain ⟨hspace, hword, hcolon⟩ := @Commented.stops letter more h
  obtain ⟨c, cs, rfl⟩ := List.exists_cons_of_ne_nil hne
  by_cases hc : c = '?'
  · subst hc
    simp only [List.cons_append, castAt, dropWhile_stops hspace]
    cases hD : cs.dropWhile Tools.DiffRepair.isSpace with
    | nil =>
      cases more with
      | nil => rfl
      | cons d ds =>
        have hd : d ≠ ':' := by simpa using hcolon d rfl
        simp [hd]
    | cons a as =>
      by_cases ha : a = ':'
      · subst ha
        cases as with
        | nil =>
          cases more with
          | nil => rfl
          | cons d ds =>
            have hd : d ≠ ':' := by simpa using hcolon d rfl
            simp [hd]
        | cons b bs =>
          by_cases hb : b = ':'
          · subst hb
            simp only [List.cons_append, dropWhile_stops hspace, takeWhile_stops hword, dropWhile_stops hword]
            split
            · rfl
            · rfl
          · simp [hb]
      · simp [ha]
  · simp [castAt, hc]

theorem castAt_some (h : castAt letter text = some (word, rest)) : '?' ∈ text ∧ "::".toList <:+: text := by
  unfold castAt at h
  split at h
  · rename_i cs
    refine ⟨List.mem_cons_self, ?_⟩
    split at h
    · rename_i ds hds
      have hsuffix : ':' :: ':' :: ds <:+ cs := hds ▸ List.dropWhile_suffix Tools.DiffRepair.isSpace
      have hcolons : "::".toList <+: ':' :: ':' :: ds := ⟨ds, rfl⟩
      exact (hcolons.isInfix.trans hsuffix.isInfix).trans (List.suffix_cons '?' cs).isInfix
    · cases h
  · cases h

/-- The slice before the first literal. -/
def front : List Piece → Text
  | .other c :: ps => c :: front ps
  | .comment text :: ps => text ++ front ps
  | _ => []

def subSlices (letter : Char → Bool) (cut : List (Text × Text) × Text) : Text :=
  cut.1.flatMap (fun slice => subCasts letter 0 slice.1 ++ slice.2) ++ subCasts letter 0 cut.2

/-- What comes after the first slice. -/
def afterFront (letter : Char → Bool) : List Piece → Text
  | .other _ :: ps => afterFront letter ps
  | .comment _ :: ps => afterFront letter ps
  | .literal text _ _ :: ps => text ++ subSlices letter (slices ps)
  | [] => []

theorem subSlices_ahead (letter : Char → Bool) (ps : List Piece) (o : Text) :
    subSlices letter (ahead o (slices ps)) = subCasts letter 0 (o ++ front ps) ++ afterFront letter ps := by
  induction ps generalizing o with
  | nil =>
    simp [slices, ahead, subSlices, front, afterFront]
  | cons p ps ih =>
    cases p with
    | other c =>
      rw [slices, ahead_append, ih, List.append_assoc]
      rfl
    | literal text inner closed =>
      simp [slices, ahead, subSlices, front, afterFront]
    | comment text =>
      rw [slices, ahead_append, ih, List.append_assoc]
      rfl

/-- What stands between two literals starts with a run that only a comment ends. -/
theorem front_eq {sql : Text} (h : Sql sql ps) : ∃ more, front ps = leading ps ++ more ∧ Commented more := by
  induction h with
  | nil => exact ⟨[], rfl, fun _ hc => nomatch hc⟩
  | other hq hc h ih =>
    obtain ⟨more, hfront, hmore⟩ := ih
    exact ⟨more, by rw [front, leading, hfront]; rfl, hmore⟩
  | literal hq hraw hrest h ih => exact ⟨[], rfl, fun _ hc => nomatch hc⟩
  | unclosed hq hraw => exact ⟨[], rfl, fun _ hc => nomatch hc⟩
  | @comment text rest ps hne hc h ih =>
    refine ⟨text ++ front ps, rfl, fun c hmem => ?_⟩
    obtain ⟨d, ds, rfl⟩ := List.exists_cons_of_ne_nil hne
    obtain rfl : d = c := by simpa using hmem
    refine @comment_head (ds ++ rest) d ?_
    rw [← List.cons_append, hc, List.length_cons]
    exact Nat.succ_ne_zero _

theorem subCasts_plain (h : '?' ∉ text) (rest : Text) : subCasts letter 0 (text ++ rest) =
    text ++ subCasts letter 0 rest := by
  induction text with
  | nil => rfl
  | cons c text ih =>
    rw [List.mem_cons, not_or] at h
    have hnone : castAt letter (c :: (text ++ rest)) = none := by simp [castAt, Ne.symm h.1]
    rw [List.cons_append, subCasts, hnone, ih h.2]
    rfl

/-- **The slices are rewritten between comments**, if those have no question marks. -/
theorem subCasts_front {sql : Text} (h : Sql sql ps) (hcomments : ∀ text, .comment text ∈ ps → '?' ∉ text) {skip : Nat}
    (hskip : skip ≤ (leading ps).length) :
    subCasts letter skip (front ps) ++ afterFront letter ps = castFrom letter skip ps := by
  induction h generalizing skip with
  | nil =>
    cases skip with
    | zero => rfl
    | succ skip => rfl
  | @other c rest ps hq hc h ih =>
    have hcomments' : ∀ text, .comment text ∈ ps → '?' ∉ text :=
      fun text hmem => hcomments text (List.mem_cons_of_mem _ hmem)
    cases skip with
    | succ skip =>
      rw [leading, List.length_cons] at hskip
      exact ih hcomments' (Nat.le_of_succ_le_succ hskip)
    | zero =>
      obtain ⟨more, hfront, hmore⟩ := front_eq h
      have hcast := castAt_append letter hmore (c :: leading ps) (List.cons_ne_nil _ _)
      rw [List.cons_append, ← hfront] at hcast
      rw [front, afterFront, subCasts, castFrom, hcast]
      cases hmatch : castAt letter (c :: leading ps) with
      | none =>
        simp only [Option.map_none]
        exact congrArg (c :: ·) (ih hcomments' (Nat.zero_le _))
      | some m =>
        obtain ⟨word, rest'⟩ := m
        have hlen : (front ps).length - (rest' ++ more).length = (leading ps).length - rest'.length := by
          rw [hfront, List.length_append, List.length_append]
          omega
        simp only [Option.map_some]
        rw [List.append_assoc, hlen, ih hcomments' (Nat.sub_le _ _)]
  | @literal q raw inner rest ps hq hraw hrest h ih =>
    have hcomments' : ∀ text, .comment text ∈ ps → '?' ∉ text :=
      fun text hmem => hcomments text (List.mem_cons_of_mem _ hmem)
    obtain rfl : skip = 0 := Nat.le_zero.mp hskip
    have hslices := subSlices_ahead letter ps []
    rw [ahead_nil, List.nil_append, ih hcomments' (Nat.zero_le _)] at hslices
    rw [afterFront, hslices, castFrom]
    rfl
  | @unclosed q raw inner hq hraw =>
    obtain rfl : skip = 0 := Nat.le_zero.mp hskip
    rfl
  | @comment text rest ps hne hc h ih =>
    have hcomments' : ∀ text, .comment text ∈ ps → '?' ∉ text :=
      fun text hmem => hcomments text (List.mem_cons_of_mem _ hmem)
    obtain rfl : skip = 0 := Nat.le_zero.mp hskip
    rw [front, afterFront, subCasts_plain (hcomments text List.mem_cons_self), List.append_assoc,
      ih hcomments' (Nat.zero_le _), castFrom]

theorem leading_start {sql : Text} (h : Sql sql ps) : leading ps <+: sql := by
  induction h with
  | nil => exact List.prefix_rfl
  | other hq hc h ih => exact List.cons_prefix_cons.mpr ⟨rfl, ih⟩
  | literal hq hraw hrest h ih => exact List.nil_prefix
  | unclosed hq hraw => exact List.nil_prefix
  | comment hne hc h ih => exact List.nil_prefix

/-- Without a question mark or two colons there are no casts. -/
theorem castFrom_none {sql : Text} (h : Sql sql ps) (hno : '?' ∉ sql ∨ ¬ "::".toList <:+: sql) :
    castFrom letter 0 ps = sql := by
  have hsub : ∀ {a b : Text}, a <:+: b → ('?' ∉ b ∨ ¬ "::".toList <:+: b) → '?' ∉ a ∨ ¬ "::".toList <:+: a :=
    fun hab => Or.imp (fun hb ha => hb (hab.subset ha)) fun hb ha => hb (ha.trans hab)
  induction h with
  | nil => rfl
  | @other c rest ps hq hc h ih =>
    have hlead : c :: leading ps <:+: c :: rest := (List.cons_prefix_cons.mpr ⟨rfl, leading_start h⟩).isInfix
    have hnone : castAt letter (c :: leading ps) = none := by
      cases hmatch : castAt letter (c :: leading ps) with
      | none => rfl
      | some m =>
        obtain ⟨hmark, hcolons⟩ := castAt_some hmatch
        exact absurd (hsub hlead hno) (by rw [not_or, not_not, not_not]; exact ⟨hmark, hcolons⟩)
    rw [castFrom, hnone]
    exact congrArg (c :: ·) (ih (hsub (List.suffix_cons c rest).isInfix hno))
  | @literal q raw inner rest ps hq hraw hrest h ih =>
    have hrest' : rest <:+: q :: raw ++ q :: rest := ((List.suffix_cons q rest).trans (List.suffix_append _ _)).isInfix
    rw [castFrom, ih (hsub hrest' hno)]
    simp
  | @unclosed q raw inner hq hraw => exact List.append_nil _
  | @comment text rest ps hne hc h ih =>
    rw [castFrom, ih (hsub (List.suffix_append text rest).isInfix hno)]

theorem rewritePostfixCasts_eq {sql : Text} (h : Sql sql ps) (hu : Unquoted ps)
    (hcomments : ∀ text, .comment text ∈ ps → '?' ∉ text) : rewritePostfixCasts letter sql = castFrom letter 0 ps := by
  unfold rewritePostfixCasts
  split
  · rename_i hno
    exact (castFrom_none h hno).symm
  · have hslices := subSlices_ahead letter ps []
    rw [ahead_nil, List.nil_append, subCasts_front h hcomments (Nat.zero_le _), ← segments_scan h hu] at hslices
    exact hslices

end

/-- **The scanner and the two rewriters are right exactly if comments have no quotes and no question marks.** -/
theorem rewriters_right_iff (letter : Char → Bool) (sql : Text) (ps : List Piece) (h : Sql sql ps) :
    Right letter sql ps ↔ Harmless ps := by
  constructor
  · rintro ⟨hnamed, -, hliterals⟩ text hmem c hc
    have hu : Unquoted ps := (scan_iff h 0).mp hliterals
    refine ⟨hu text hmem c hc, ?_⟩
    rintro rfl
    exact (named_iff h hu).mp hnamed text hmem hc
  · intro hh
    have hu : Unquoted ps := fun text hmem c hc => (hh text hmem c hc).1
    have hcomments : ∀ text, .comment text ∈ ps → '?' ∉ text := fun text hmem hc => (hh text hmem '?' hc).2 rfl
    exact ⟨(named_iff h hu).mpr hcomments, rewritePostfixCasts_eq h hu hcomments, (scan_iff h 0).mpr hu⟩

/-- A placeholder, and a question mark in a literal. -/
theorem rewriters_right_literal : Right (fun _ => false) "?'?'".toList [.other '?', .literal "'?'".toList "?".toList true] := by
  have hquoted : Quoted '\'' ['?'] ['?'] := .char (by decide) .nil
  have hsql : Sql "?'?'".toList [.other '?', .literal "'?'".toList "?".toList true] :=
    .other rfl rfl (.literal rfl hquoted (by decide) .nil)
  refine (rewriters_right_iff _ _ _ hsql).mpr fun text hmem => ?_
  simp at hmem

/-- A comment with an apostrophe, and a placeholder on the next line. -/
def apostrophe : List Piece := [.comment "--'".toList, .other '\n', .other '?']

/-- **The apostrophe hides the placeholder**: it opens a literal; and a question mark in a comment is rewritten. -/
theorem apostrophe_in_comment :
    Sql "--'\n?".toList apostrophe ∧
    nameAnonymousPlaceholders "--'\n?".toList ["A".toList] = (none, []) ∧
    named apostrophe ["A".toList] = (some "--'\n:synp0".toList, [("synp0".toList, "A".toList)]) ∧
    scanStringLiterals "--'\n?".toList = [⟨2, 5, "\n?".toList⟩] ∧ literalsFrom 0 apostrophe = [] ∧
    rewritePostfixCasts (fun _ => false) "--?::int".toList = "--CAST(? AS int)".toList := by
  have hsql : Sql ("--'".toList ++ "\n?".toList) apostrophe := .comment (by decide) rfl (.other rfl rfl (.other rfl rfl .nil))
  refine ⟨hsql, ?_⟩
  decide +kernel

end SynnoDB.Workload.EnginePublish
