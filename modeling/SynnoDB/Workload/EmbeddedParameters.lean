import SynnoDB.Router.SplitLiteral
import SynnoDB.Workload.ArgsLine
import SynnoDB.Workload.HoistQuotes

/-!
# Parameters inside a string literal (`workloads/engine_publish.py:58-113`, `router/normalize.py:642-670`)

| here | there |
| --- | --- |
| `scanStringLiterals`  | `scan_string_literals`; `readLiteral` is its inner loop |
| `markers`             | `_BRACKET.finditer`: each marker's place and name; `orderedNames` is `_ordered_names` |
| `bracketSplit`        | `_BRACKET.split`: the text before the first marker, each name with the text after it |
| `embeddedLiterals`    | `_embedded_literals`, with `_parse_embedded` |
| `embeddedInfo`        | `_embedded_info`: a table by names, where the last literal with a name decides |
| `specs`               | the specs of `derive_template`, one for each marker |

The specs of a template split its literals exactly iff each literal has its own names and its own constants in the
table, and has a wildcard between any two parameters (`splits_iff`). A name in two literals has the group and the
constants of the last one, and `'[A]-[B]'` reads `a-b-c` in two ways (`two_readings`).
-/

namespace SynnoDB.Workload.EnginePublish

open Router hiding hole
open Weave Runs
open HoistQuotes (hole)

/-! ## Literals -/

/-- Places of the two quotes, and what is between them. -/
structure Literal where
  start : Nat
  close : Nat
  inner : Text
  deriving DecidableEq, Repr

def isQuote (c : Char) : Bool := c == '\'' || c == '"'

/-- The text up to the closing quote, and how many characters that is; a doubled quote is one of the text. -/
def readLiteral (q : Char) : Text → Text × Nat
  | [] => ([], 0)
  | [c] => if c = q then ([], 0) else ([c], 1)
  | c :: d :: cs =>
    if c = q then
      if d = q then ((q :: (readLiteral q cs).1), (readLiteral q cs).2 + 2) else ([], 0)
    else ((c :: (readLiteral q (d :: cs)).1), (readLiteral q (d :: cs)).2 + 1)

/-- `skip` characters belong to a literal that is read. -/
def scanFrom : Nat → Nat → Text → List Literal
  | _, _, [] => []
  | skip + 1, i, _ :: cs => scanFrom skip (i + 1) cs
  | 0, i, c :: cs =>
    if isQuote c then
      { start := i, close := i + 1 + (readLiteral c cs).2, inner := (readLiteral c cs).1 } ::
        scanFrom ((readLiteral c cs).2 + 1) (i + 1) cs
    else scanFrom 0 (i + 1) cs

def scanStringLiterals (sql : Text) : List Literal := scanFrom 0 0 sql

/-! ## Markers -/

/-- `[A-Z0-9_]`. -/
def nameChar (c : Char) : Bool := ('A' ≤ c && c ≤ 'Z') || ('0' ≤ c && c ≤ '9') || c == '_'

/-- `[A-Z]`. -/
def upper (c : Char) : Bool := 'A' ≤ c && c ≤ 'Z'

/-- The name of a marker that stands at the front. -/
def markerAt : Text → Option Text
  | '[' :: cs =>
    let name := cs.takeWhile nameChar
    if (name.head?.map upper).getD false ∧ (cs.drop name.length).head? = some ']' then some name else none
  | _ => none

/-- `skip` characters belong to a marker that is found. -/
def markersFrom : Nat → Nat → Text → List (Nat × Text)
  | _, _, [] => []
  | skip + 1, pos, _ :: cs => markersFrom skip (pos + 1) cs
  | 0, pos, c :: cs => match markerAt (c :: cs) with
    | some name => (pos, name) :: markersFrom (name.length + 1) (pos + 1) cs
    | none => markersFrom 0 (pos + 1) cs

def markers (sql : Text) : List (Nat × Text) := markersFrom 0 0 sql

def orderedNames (sql : Text) : List Text := (markers sql).map Prod.snd

def bracketSplit : Nat → Text → Text × List (Text × Text)
  | _, [] => ([], [])
  | skip + 1, _ :: cs => bracketSplit skip cs
  | 0, c :: cs => match markerAt (c :: cs) with
    | some name => ([], (name, (bracketSplit (name.length + 1) cs).1) :: (bracketSplit (name.length + 1) cs).2)
    | none => (c :: (bracketSplit 0 cs).1, (bracketSplit 0 cs).2)

/-! ## Embedded parameters -/

/-- One literal that embeds parameters: one constant more than names. -/
structure Embedded where
  start : Nat
  close : Nat
  names : List Text
  consts : List Text
  deriving DecidableEq, Repr

def parseEmbedded (inner : Text) : Option (List Text × List Text) :=
  let parts := bracketSplit 0 inner
  if parts.2 = [] then none else some (parts.2.map Prod.fst, parts.1 :: parts.2.map Prod.snd)

def embeddedLiteral (ℓ : Literal) : Option Embedded :=
  match parseEmbedded ℓ.inner with
  | none => none
  | some (names, consts) =>
    if names.length = 1 ∧ consts = [[], []] then none
    else some { start := ℓ.start, close := ℓ.close, names := names, consts := consts }

def embeddedLiterals (sql : Text) : List Embedded := (scanStringLiterals sql).filterMap embeddedLiteral

/-- More than one parameter. -/
def Embedded.multi (ℓ : Embedded) : Bool := 1 < ℓ.names.length

/-- Constant before, constant after, group. -/
abbrev Info := Text × Text × Int

def Embedded.entries (ℓ : Embedded) (group : Int) : List (Text × Info) :=
  (ℓ.names.zip (ℓ.consts.zip ℓ.consts.tail)).map fun p => (p.1, p.2.1, p.2.2, group)

def embeddedInfoFrom : Int → List Embedded → Dict Text Info → Dict Text Info
  | _, [], out => out
  | gid, ℓ :: ls, out =>
    embeddedInfoFrom (if ℓ.multi then gid + 1 else gid) ls
      ((ℓ.entries (if ℓ.multi then gid else -1)).foldl (fun d p => d.set p.1 p.2) out)

def embeddedInfo (literals : List Embedded) : Dict Text Info := embeddedInfoFrom 0 literals []

/-- `PlaceholderSpec(n, infer_duckdb_type(sample.get(n)), *embedded.get(n, ("", "", -1)))`. -/
def spec (type : Text → String) (embedded : Dict Text Info) (name : Text) : PlaceholderSpec :=
  let info := embedded.getD name ([], [], -1)
  { name := String.ofList name, type := type name, affixPrefix := String.ofList info.1, affixSuffix := String.ofList info.2.1,
    group := info.2.2 }

def specs (type : Text → String) (sql : Text) : List PlaceholderSpec :=
  (orderedNames sql).map (spec type (embeddedInfo (embeddedLiterals sql)))

example : (embeddedLiterals "a LIKE '%[W1]%[W2]%' AND b = '[C]'".toList).map
    (fun ℓ => (ℓ.start, ℓ.close, ℓ.names, ℓ.consts)) =
    [(7, 19, ["W1".toList, "W2".toList], ["%".toList, "%".toList, "%".toList])] := by decide +kernel

/-! ## Scanning -/

/-- What stands between the quotes, with each quote doubled, and what it says. -/
inductive Quoted (q : Char) : Text → Text → Prop where
  | nil : Quoted q [] []
  | char {c : Char} {raw inner : Text} (hc : c ≠ q) (h : Quoted q raw inner) : Quoted q (c :: raw) (c :: inner)
  | escape {raw inner : Text} (h : Quoted q raw inner) : Quoted q (q :: q :: raw) (q :: inner)

theorem readLiteral_spec (q : Char) : ∀ text : Text, ∃ raw post, text = raw ++ post ∧
    raw.length = (readLiteral q text).2 ∧
    Quoted q raw (readLiteral q text).1 ∧ (post = [] ∨ ∃ post', post = q :: post')
  | [] => ⟨[], [], rfl, rfl, .nil, .inl rfl⟩
  | [c] => by
    by_cases h : c = q
    · rw [readLiteral, if_pos h]
      exact ⟨[], [c], rfl, rfl, .nil, .inr ⟨[], by rw [h]⟩⟩
    · rw [readLiteral, if_neg h]
      exact ⟨[c], [], rfl, rfl, .char h .nil, .inl rfl⟩
  | c :: d :: cs => by
    rw [readLiteral]
    by_cases h : c = q
    · rw [if_pos h]
      by_cases hd : d = q
      · rw [if_pos hd, h, hd]
        obtain ⟨raw, post, htext, hlen, hquoted, hpost⟩ := readLiteral_spec q cs
        exact ⟨q :: q :: raw, post, by rw [htext]; rfl, by rw [List.length_cons, List.length_cons, hlen],
          .escape hquoted, hpost⟩
      · rw [if_neg hd]
        exact ⟨[], c :: d :: cs, rfl, rfl, .nil, .inr ⟨d :: cs, by rw [h]⟩⟩
    · rw [if_neg h]
      obtain ⟨raw, post, htext, hlen, hquoted, hpost⟩ := readLiteral_spec q (d :: cs)
      exact ⟨c :: raw, post, by rw [htext]; rfl, by rw [List.length_cons, hlen], .char h hquoted, hpost⟩

/-- A literal's place in the text. -/
structure Placed (text : Text) (ℓ : Literal) (q : Char) (before raw post : Text) : Prop where
  quote : isQuote q = true
  text_eq : text = before ++ q :: (raw ++ post)
  close : ℓ.close = ℓ.start + 1 + raw.length
  quoted : Quoted q raw ℓ.inner
  closed : post = [] ∨ ∃ post', post = q :: post'

theorem Placed.cons {text : Text} {ℓ : Literal} {q : Char} {before raw post : Text}
    (h : Placed text ℓ q before raw post) (c : Char) :
    Placed (c :: text) ℓ q (c :: before) raw post :=
  ⟨h.quote, by rw [h.text_eq]; rfl, h.close, h.quoted, h.closed⟩

theorem scanFrom_placed {ℓ : Literal} : ∀ {text : Text} {skip i : Nat}, ℓ ∈ scanFrom skip i text →
    ∃ q before raw post, Placed text ℓ q before raw post ∧ ℓ.start = i + before.length
  | [], _, _, h => by cases h
  | c :: cs, skip + 1, i, h => by
    obtain ⟨q, before, raw, post, hplaced, hstart⟩ := scanFrom_placed (show ℓ ∈ scanFrom skip (i + 1) cs from h)
    exact ⟨q, c :: before, raw, post, hplaced.cons c, by rw [hstart, List.length_cons]; omega⟩
  | c :: cs, 0, i, h => by
    rw [scanFrom] at h
    split at h
    · rename_i hquote
      rcases List.mem_cons.1 h with rfl | h
      · obtain ⟨raw, post, htext, hlen, hquoted, hpost⟩ := readLiteral_spec c cs
        exact ⟨c, [], raw, post, ⟨hquote, by rw [htext]; rfl, by rw [hlen], hquoted, hpost⟩, rfl⟩
      · obtain ⟨q, before, raw, post, hplaced, hstart⟩ := scanFrom_placed h
        exact ⟨q, c :: before, raw, post, hplaced.cons c, by rw [hstart, List.length_cons]; omega⟩
    · obtain ⟨q, before, raw, post, hplaced, hstart⟩ := scanFrom_placed h
      exact ⟨q, c :: before, raw, post, hplaced.cons c, by rw [hstart, List.length_cons]; omega⟩

theorem le_start_of_mem_scanFrom {ℓ : Literal} : ∀ {text : Text} {skip i : Nat}, ℓ ∈ scanFrom skip i text →
    i + skip ≤ ℓ.start
  | [], _, _, h => by cases h
  | c :: cs, skip + 1, i, h => by
    have := le_start_of_mem_scanFrom (show ℓ ∈ scanFrom skip (i + 1) cs from h)
    omega
  | c :: cs, 0, i, h => by
    rw [scanFrom] at h
    split at h
    · rcases List.mem_cons.1 h with rfl | h
      · exact le_rfl
      · have := le_start_of_mem_scanFrom h
        omega
    · have := le_start_of_mem_scanFrom h
      omega

/-- **Literals do not overlap.** -/
theorem scanFrom_pairwise : ∀ (text : Text) (skip i : Nat), (scanFrom skip i text).Pairwise fun ℓ ℓ' =>
    ℓ.close < ℓ'.start
  | [], _, _ => .nil
  | c :: cs, skip + 1, i => scanFrom_pairwise cs skip (i + 1)
  | c :: cs, 0, i => by
    rw [scanFrom]
    split
    · refine .cons (fun ℓ hℓ => ?_) (scanFrom_pairwise cs _ _)
      have := le_start_of_mem_scanFrom hℓ
      show i + 1 + (readLiteral c cs).2 < ℓ.start
      omega
    · exact scanFrom_pairwise cs _ _

/-! ## Finding markers -/

theorem markerAt_eq {text name : Text} (h : markerAt text = some name) :
    (∀ c ∈ name, nameChar c = true) ∧ ∃ rest, text = hole name ++ rest := by
  unfold markerAt at h
  split at h
  · rename_i cs
    rw [Option.ite_none_right_eq_some, Option.some.injEq] at h
    obtain ⟨⟨-, hclose⟩, rfl⟩ := h
    refine ⟨fun c hc => List.mem_takeWhile_imp hc, ?_⟩
    obtain ⟨t, ht⟩ := List.takeWhile_prefix nameChar (l := cs)
    generalize cs.takeWhile nameChar = name at ht hclose
    subst ht
    rw [List.drop_left] at hclose
    obtain ⟨rest, rfl⟩ := List.head?_eq_some_iff.1 hclose
    exact ⟨rest, by rw [hole]; simp⟩
  · cases h

/-- A character that no marker has in it. -/
def breaks (c : Char) : Bool := c != '[' && c != ']' && !nameChar c

theorem takeWhile_break {p : Char → Bool} {s t : Text} {q : Char} (hq : p q = false) :
    (s ++ q :: t).takeWhile p = s.takeWhile p := by
  induction s with
  | nil => rw [List.nil_append, List.takeWhile_cons_of_neg (by rw [hq]; decide), List.takeWhile_nil]
  | cons c s ih =>
    rw [List.cons_append, List.takeWhile_cons, List.takeWhile_cons, ih]

theorem markerAt_break {s t : Text} {q : Char} (hq : breaks q = true) : markerAt (s ++ q :: t) = markerAt s := by
  rw [breaks, Bool.and_eq_true, Bool.and_eq_true, bne_iff_ne, bne_iff_ne, Bool.not_eq_true'] at hq
  obtain ⟨⟨hopen, hclose⟩, hname⟩ := hq
  cases s with
  | nil =>
    rw [List.nil_append]
    unfold markerAt
    split
    · rename_i heq
      exact absurd (List.cons.inj heq).1 hopen
    · rfl
  | cons c s =>
    by_cases hc : c = '['
    · subst hc
      have hhead : ((s ++ q :: t).drop (s.takeWhile nameChar).length).head? = some ']' ↔
          (s.drop (s.takeWhile nameChar).length).head? = some ']' := by
        have hle := (List.takeWhile_prefix nameChar (l := s)).length_le
        rw [List.drop_append_of_le_length hle]
        cases s.drop (s.takeWhile nameChar).length with
        | nil => exact ⟨fun h => absurd (Option.some.inj h) hclose, nofun⟩
        | cons d ds => exact Iff.rfl
      rw [List.cons_append, markerAt, markerAt]
      simp only [takeWhile_break hname, hhead]
    · rw [List.cons_append, markerAt, markerAt] <;>
      · rintro cs heq
        exact hc (List.cons.inj heq).1

/-- **Markers on both sides** of a character that no marker has in it. -/
theorem markersFrom_break {q : Char} (hq : breaks q = true) : ∀ {s t : Text} {skip pos : Nat}, skip ≤ s.length →
    markersFrom skip pos (s ++ q :: t) = markersFrom skip pos s ++ markersFrom 0 (pos + s.length + 1) t
  | [], t, skip, pos, h => by
    obtain rfl : skip = 0 := Nat.le_zero.1 h
    have hnone : markerAt (q :: t) = none := markerAt_break (s := []) hq
    rw [List.nil_append]
    conv_lhs => rw [markersFrom, hnone]
    rfl
  | c :: s, t, skip + 1, pos, h => by
    rw [List.cons_append, markersFrom, markersFrom, markersFrom_break hq (Nat.le_of_succ_le_succ h), List.length_cons,
      show pos + 1 + s.length + 1 = pos + (s.length + 1) + 1 by omega]
  | c :: s, t, 0, pos, _ => by
    have hat : markerAt (c :: (s ++ q :: t)) = markerAt (c :: s) := markerAt_break (s := c :: s) hq
    rw [List.cons_append, markersFrom, markersFrom, hat]
    cases hm : markerAt (c :: s) with
    | none =>
      dsimp only
      rw [markersFrom_break hq (Nat.zero_le _), List.length_cons,
        show pos + 1 + s.length + 1 = pos + (s.length + 1) + 1 by omega]
    | some name =>
      obtain ⟨-, rest, heq⟩ := markerAt_eq hm
      have hlen : name.length + 1 ≤ s.length := by
        have := congrArg List.length heq
        simp only [hole, List.length_cons, List.length_append, List.length_nil] at this
        omega
      dsimp only
      rw [markersFrom_break hq hlen, List.length_cons, show pos + 1 + s.length + 1 = pos + (s.length + 1) + 1 by omega]
      rfl

theorem markersFrom_range {m : Nat × Text} : ∀ {s : Text} {skip pos : Nat}, m ∈ markersFrom skip pos s →
    pos ≤ m.1 ∧ m.1 < pos + s.length
  | [], _, _, h => by cases h
  | c :: s, skip + 1, pos, h => by
    have := markersFrom_range (s := s) h
    rw [List.length_cons]
    omega
  | c :: s, 0, pos, h => by
    rw [markersFrom] at h
    rw [List.length_cons]
    split at h
    · rcases List.mem_cons.1 h with rfl | h
      · exact ⟨le_rfl, by omega⟩
      · have := markersFrom_range (s := s) h
        omega
    · have := markersFrom_range (s := s) h
      omega

theorem markersFrom_pairwise : ∀ (s : Text) (skip pos : Nat), (markersFrom skip pos s).Pairwise fun m m' => m.1 < m'.1
  | [], _, _ => .nil
  | c :: s, skip + 1, pos => markersFrom_pairwise s skip (pos + 1)
  | c :: s, 0, pos => by
    rw [markersFrom]
    split
    · exact .cons (fun m hm => (markersFrom_range hm).1) (markersFrom_pairwise s _ _)
    · exact markersFrom_pairwise s _ _

/-- The places are counted from `pos`; the names do not depend on it. -/
theorem names_markersFrom : ∀ (s : Text) (skip pos : Nat), (markersFrom skip pos s).map Prod.snd =
    (bracketSplit skip s).2.map Prod.fst
  | [], _, _ => by cases ‹Nat› <;> rfl
  | c :: s, skip + 1, pos => names_markersFrom s skip (pos + 1)
  | c :: s, 0, pos => by
    rw [markersFrom, bracketSplit]
    cases markerAt (c :: s) with
    | none => exact names_markersFrom s 0 (pos + 1)
    | some name =>
      dsimp only
      rw [List.map_cons, List.map_cons, names_markersFrom s (name.length + 1) (pos + 1)]

theorem breaks_of_isQuote {q : Char} (h : isQuote q = true) : breaks q = true := by
  rw [isQuote, Bool.or_eq_true, beq_iff_eq, beq_iff_eq] at h
  rcases h with rfl | rfl <;> decide

/-- **Doubled quotes do not matter** to the markers. -/
theorem names_quoted {q : Char} (hq : breaks q = true) {raw inner : Text} (h : Quoted q raw inner) : ∀ (s : Text),
    (bracketSplit 0 (s ++ raw)).2.map Prod.fst = (bracketSplit 0 (s ++ inner)).2.map Prod.fst := by
  have hcut : ∀ s t : Text, (bracketSplit 0 (s ++ q :: t)).2.map Prod.fst =
      (bracketSplit 0 s).2.map Prod.fst ++ (bracketSplit 0 t).2.map Prod.fst := by
    intro s t
    rw [← names_markersFrom _ 0 0, markersFrom_break hq (Nat.zero_le _), List.map_append, names_markersFrom,
      names_markersFrom]
  induction h with
  | nil => exact fun _ => rfl
  | char _ h ih =>
    rename_i c raw inner _
    intro s
    have := ih (s ++ [c])
    rwa [List.append_assoc, List.append_assoc] at this
  | escape h ih =>
    rename_i raw inner
    intro s
    rw [hcut, hcut, ← List.nil_append (q :: raw), hcut]
    exact congrArg _ (ih [])

/-- The names and the texts around them make up the text. -/
theorem bracketSplit_text : ∀ {s : Text} {skip : Nat}, skip ≤ s.length →
    s.drop skip = (bracketSplit skip s).1 ++ (bracketSplit skip s).2.flatMap fun p => hole p.1 ++ p.2
  | [], skip, h => by
    obtain rfl : skip = 0 := Nat.le_zero.1 h
    rfl
  | c :: s, skip + 1, h => bracketSplit_text (s := s) (Nat.le_of_succ_le_succ h)
  | c :: s, 0, _ => by
    rw [bracketSplit]
    cases hm : markerAt (c :: s) with
    | none =>
      dsimp only
      rw [List.cons_append, ← bracketSplit_text (s := s) (Nat.zero_le _)]
      rfl
    | some name =>
      obtain ⟨-, rest, heq⟩ := markerAt_eq hm
      have hs : s = (name ++ [']']) ++ rest := (List.cons.inj heq).2
      have hlen : (name ++ [']']).length = name.length + 1 := List.length_append
      have hdrop := @bracketSplit_text s (name.length + 1) (by rw [hs, List.length_append, hlen]; omega)
      dsimp only
      rw [List.flatMap_cons, List.append_assoc, ← hdrop, List.nil_append, List.drop_zero, heq, hs, ← hlen,
        List.drop_left]

/-! ## Literals with parameters -/

theorem embeddedLiteral_some {ℓ : Literal} {e : Embedded} (h : embeddedLiteral ℓ = some e) :
    e.start = ℓ.start ∧ e.close = ℓ.close ∧ e.names = (bracketSplit 0 ℓ.inner).2.map Prod.fst ∧
      e.consts = (bracketSplit 0 ℓ.inner).1 :: (bracketSplit 0 ℓ.inner).2.map Prod.snd ∧ e.names ≠ [] ∧
      (e.names.length = 1 → e.consts ≠ [[], []]) := by
  unfold embeddedLiteral at h
  split at h
  · cases h
  · rename_i names consts hparse
    split at h
    · cases h
    rename_i hne
    cases h
    rw [parseEmbedded] at hparse
    split at hparse
    · cases hparse
    rename_i hparts
    obtain ⟨rfl, rfl⟩ := Prod.mk.inj (Option.some.inj hparse)
    exact ⟨rfl, rfl, rfl, rfl, fun hnil => hparts (List.map_eq_nil_iff.1 hnil), fun hlen hconsts => hne ⟨hlen, hconsts⟩⟩

theorem mem_embeddedLiterals {sql : Text} {e : Embedded} (h : e ∈ embeddedLiterals sql) :
    e.consts.length = e.names.length + 1 ∧ e.names ≠ [] ∧ (e.names.length = 1 → e.consts ≠ [[], []]) := by
  obtain ⟨ℓ, -, he⟩ := List.mem_filterMap.1 h
  obtain ⟨-, -, hnames, hconsts, hne, hbare⟩ := embeddedLiteral_some he
  refine ⟨?_, hne, hbare⟩
  rw [hnames, hconsts, List.length_cons, List.length_map, List.length_map]

/-- The place is between the quotes. -/
def Embedded.Inside (e : Embedded) (p : Nat) : Prop := e.start < p ∧ p < e.close

/-- **The markers between the quotes** of a literal are its parameters, and they follow each other. -/
theorem markers_literal {sql : Text} {e : Embedded} (h : e ∈ embeddedLiterals sql) :
    ∃ before inside after, markers sql = before ++ inside ++ after ∧ inside.map Prod.snd = e.names ∧
      (∀ m ∈ before, m.1 < e.start) ∧ (∀ m ∈ inside, e.Inside m.1) ∧ ∀ m ∈ after, e.close < m.1 := by
  obtain ⟨ℓ, hℓ, he⟩ := List.mem_filterMap.1 h
  obtain ⟨hstart, hclose, hnames, -⟩ := embeddedLiteral_some he
  obtain ⟨q, pre, raw, post, hplaced, hpos⟩ := scanFrom_placed hℓ
  have hq := breaks_of_isQuote hplaced.quote
  have hinside : (markersFrom 0 (pre.length + 1) raw).map Prod.snd = e.names := by
    rw [names_markersFrom, hnames]
    exact names_quoted hq hplaced.quoted []
  have hsql : markers sql = markersFrom 0 0 pre ++ markersFrom 0 (pre.length + 1) (raw ++ post) := by
    rw [markers, hplaced.text_eq, markersFrom_break hq (Nat.zero_le _), Nat.zero_add]
  obtain ⟨after, hafter, hrange⟩ : ∃ after, markersFrom 0 (pre.length + 1) (raw ++ post) =
      markersFrom 0 (pre.length + 1) raw ++ after ∧ ∀ m ∈ after, e.close < m.1 := by
    rcases hplaced.closed with rfl | ⟨post', rfl⟩
    · exact ⟨[], by rw [List.append_nil, List.append_nil], nofun⟩
    · refine ⟨_, markersFrom_break hq (Nat.zero_le _), fun m hm => ?_⟩
      have := (markersFrom_range hm).1
      rw [hclose, hplaced.close, hpos]
      omega
  refine ⟨_, _, after, by rw [hsql, hafter, List.append_assoc], hinside, fun m hm => ?_, fun m hm => ?_, hrange⟩
  · have := (markersFrom_range hm).2
    omega
  · have := markersFrom_range hm
    have := hplaced.close
    rw [Embedded.Inside, hstart, hclose]
    omega

theorem embeddedLiterals_pairwise (sql : Text) : (embeddedLiterals sql).Pairwise fun e e' => e.close < e'.start := by
  refine List.Pairwise.filterMap embeddedLiteral (fun ℓ ℓ' hlt e he e' he' => ?_) (scanFrom_pairwise sql 0 0)
  obtain ⟨-, hclose, -⟩ := embeddedLiteral_some he
  obtain ⟨hstart, -⟩ := embeddedLiteral_some he'
  rw [hclose, hstart]
  exact hlt

/-- A place is in one literal at most. -/
theorem inside_unique {sql : Text} {e e' : Embedded} {p : Nat} (he : e ∈ embeddedLiterals sql)
    (he' : e' ∈ embeddedLiterals sql)
    (h : e.Inside p) (h' : e'.Inside p) : e = e' := by
  have hpairs := embeddedLiterals_pairwise sql
  have hapart := List.Pairwise.forall_of_forall_of_flip (R := fun e e' => e = e' ∨ e.close < e'.start ∨
    e'.close < e.start)
    (fun _ _ => .inl rfl) (hpairs.imp fun hlt => .inr (.inl hlt)) (hpairs.imp fun hlt => .inr (.inr hlt))
  rcases hapart he he' with heq | hlt | hlt
  · exact heq
  · have := h.2
    have := h'.1
    omega
  · have := h.1
    have := h'.2
    omega

/-! ## The table -/

/-- The last literal with a parameter of this name, and the last parameter there. -/
def LastPlace (literals : List Embedded) (name : Text) (i k : Nat) : Prop :=
  (∃ e, literals[i]? = some e ∧ e.names[k]? = some name ∧ ∀ k', k < k' → e.names[k']? ≠ some name) ∧
    ∀ j, i < j → ∀ e', literals[j]? = some e' → name ∉ e'.names

section
variable {name : Text} {e : Embedded} {out : Dict Text Info} {gid : Int}

theorem exists_last {names : List Text} (h : name ∈ names) :
    ∃ k : Nat, names[k]? = some name ∧ ∀ k', k < k' → names[k']? ≠ some name := by
  induction names with
  | nil => cases h
  | cons x names ih =>
    by_cases hmem : name ∈ names
    · obtain ⟨k, hk, hlast⟩ := ih hmem
      refine ⟨k + 1, hk, fun k' hk' => ?_⟩
      obtain ⟨k', rfl⟩ := Nat.exists_eq_add_of_lt hk'
      exact hlast _ (by omega)
    · obtain rfl := (List.mem_cons.1 h).resolve_right hmem
      refine ⟨0, rfl, fun k' hk' heq => hmem ?_⟩
      obtain ⟨k', rfl⟩ := Nat.exists_eq_add_of_lt hk'
      rw [Nat.zero_add, List.getElem?_cons_succ] at heq
      exact List.mem_of_getElem? heq

theorem exists_lastPlace : ∀ {literals : List Embedded}, (∃ e ∈ literals, name ∈ e.names) →
    ∃ i k, LastPlace literals name i k
  | [], h => by
    obtain ⟨_, he, _⟩ := h
    cases he
  | e :: literals, h => by
    by_cases hlater : ∃ e ∈ literals, name ∈ e.names
    · obtain ⟨i, k, hplace, hlast⟩ := exists_lastPlace hlater
      refine ⟨i + 1, k, hplace, fun j hj e' he' => ?_⟩
      obtain ⟨j, rfl⟩ := Nat.exists_eq_add_of_lt hj
      exact hlast _ (by omega) e' he'
    · obtain ⟨e', he', hname⟩ := h
      rcases List.mem_cons.1 he' with rfl | he'
      · obtain ⟨k, hk, hlast⟩ := exists_last hname
        refine ⟨0, k, ⟨e', rfl, hk, hlast⟩, fun j hj e'' he'' hname'' => ?_⟩
        obtain ⟨j, rfl⟩ := Nat.exists_eq_add_of_lt hj
        rw [Nat.zero_add, List.getElem?_cons_succ] at he''
        exact hlater ⟨e'', List.mem_of_getElem? he'', hname''⟩
      · exact absurd ⟨e', he', hname⟩ hlater

theorem mem_keys_entries (h : name ∈ (e.entries gid).map Prod.fst) : name ∈ e.names := by
  obtain ⟨p, hp, rfl⟩ := List.mem_map.1 h
  obtain ⟨q, hq, rfl⟩ := List.mem_map.1 hp
  exact (List.of_mem_zip hq).1

theorem get_embeddedInfoFrom_of_notMem : ∀ {literals : List Embedded} {gid : Int} {out : Dict Text Info},
    (∀ e ∈ literals, name ∉ e.names) → (embeddedInfoFrom gid literals out).get name = out.get name
  | [], _, _, _ => rfl
  | e :: literals, gid, out, h => by
    rw [embeddedInfoFrom, get_embeddedInfoFrom_of_notMem fun e' he' => h e' (List.mem_cons_of_mem _ he'),
      Dict.get_foldl_set_of_notMem fun hmem => h e List.mem_cons_self (mem_keys_entries hmem)]

/-- The last parameter of this name in a literal. -/
theorem get_entries {k : Nat} (hconsts : e.consts.length = e.names.length + 1) (hk : e.names[k]? = some name)
    (hlast : ∀ k', k < k' → e.names[k']? ≠ some name) :
    ((e.entries gid).foldl (fun d p => d.set p.1 p.2) out).get name =
      some ((e.consts[k]?).getD [], (e.consts[k + 1]?).getD [], gid) := by
  obtain ⟨hlt, hname⟩ := List.getElem?_eq_some_iff.1 hk
  have hlen : (e.entries gid).length = e.names.length := by
    rw [Embedded.entries, List.length_map, List.length_zip, List.length_zip, List.length_tail, hconsts]
    omega
  have hk' : k < (e.entries gid).length := hlen.symm ▸ hlt
  have hget : (e.entries gid)[k] = (name, (e.consts[k]?).getD [], (e.consts[k + 1]?).getD [], gid) := by
    have h0 : k < e.consts.length := by omega
    have h1 : k + 1 < e.consts.length := by omega
    rw [List.getElem?_eq_getElem h0, List.getElem?_eq_getElem h1, ← hname]
    simp [Embedded.entries]
  have hsplit : e.entries gid = (e.entries gid).take k ++ (e.entries gid)[k] :: (e.entries gid).drop (k + 1) := by
    rw [List.getElem_cons_drop, List.take_append_drop]
  rw [hsplit, List.foldl_append, List.foldl_cons, hget, Dict.get_foldl_set_of_notMem, Dict.get_set, if_pos rfl]
  intro hmem
  obtain ⟨p, hp, heq⟩ := List.mem_map.1 hmem
  obtain ⟨j, hj, rfl⟩ := List.getElem_of_mem hp
  rw [List.length_drop] at hj
  rw [List.getElem_drop] at heq
  refine hlast (k + 1 + j) (by omega) ?_
  rw [List.getElem?_eq_getElem (by omega), ← heq]
  simp [Embedded.entries]

/-- **The table holds the last place** of a name. -/
theorem get_embeddedInfoFrom : ∀ {literals : List Embedded} {gid : Int} {out : Dict Text Info} {i k : Nat},
    (∀ e ∈ literals, e.consts.length = e.names.length + 1) → LastPlace literals name i k → literals[i]? = some e →
    (embeddedInfoFrom gid literals out).get name = some ((e.consts[k]?).getD [], (e.consts[k + 1]?).getD [],
      if e.multi then gid + (literals.take i).countP Embedded.multi else -1)
  | [], _, _, _, _, _, _, he => by cases he
  | e' :: literals, gid, out, 0, k, hconsts, ⟨⟨e₀, he₀, hk, hlast⟩, hafter⟩, he => by
    cases he
    cases he₀
    rw [embeddedInfoFrom, get_embeddedInfoFrom_of_notMem, get_entries (hconsts e List.mem_cons_self) hk hlast]
    · rw [List.take_zero, List.countP_nil, Int.natCast_zero, Int.add_zero]
    · intro e' he' hname
      obtain ⟨j, hj⟩ := List.getElem?_of_mem he'
      exact hafter (j + 1) (by omega) e' hj hname
  | e' :: literals, gid, out, i + 1, k, hconsts, ⟨hplace, hafter⟩, he => by
    have hplace' : LastPlace literals name i k := ⟨hplace, fun j hj e₁ he₁ => hafter (j + 1) (by omega) e₁ he₁⟩
    rw [embeddedInfoFrom, get_embeddedInfoFrom (fun e₁ he₁ => hconsts e₁ (List.mem_cons_of_mem _ he₁)) hplace' he,
      List.take_succ_cons, List.countP_cons]
    cases e'.multi with
    | true =>
      rw [if_pos rfl, if_pos rfl, Int.natCast_add, Int.natCast_one, Int.add_assoc, Int.add_comm 1]
    | false =>
      rw [if_neg Bool.false_ne_true, if_neg Bool.false_ne_true]
      rfl

end

/-! ## The specs of a template -/
section
variable (type : Text → String) (sql : Text)

/-- The two names have their last place in one literal of several parameters. -/
def ShareLast (literals : List Embedded) (name name' : Text) : Prop :=
  ∃ i k k' e, LastPlace literals name i k ∧ LastPlace literals name' i k' ∧ literals[i]? = some e ∧ e.multi = true

/-- The `i`-th and the `j`-th marker stand in one literal with parameters, or are the same. -/
def SameLiteral (i j : Nat) : Prop :=
  i = j ∨ ∃ e ∈ embeddedLiterals sql, ∃ m m', (markers sql)[i]? = some m ∧ (markers sql)[j]? = some m' ∧ e.Inside m.1 ∧ e.Inside m'.1

/-- The specs of a literal's parameters. -/
def Embedded.group (e : Embedded) : Group := e.names.map (spec type (embeddedInfo (embeddedLiterals sql)))

/-- The specs of a template take every string that may stand for its literals apart, and in one way only. -/
structure SplitsLiterals : Prop where
  grouped : ∀ i j, i < (markers sql).length → j < (markers sql).length →
    (together (bindingGroups (specs type sql)) i j ↔ SameLiteral sql i j)
  split : ∀ e ∈ embeddedLiterals sql, e.group type sql ∈ bindingGroups (specs type sql) ∧
    SplitsExactly (e.consts.headD []) e.consts.tail (e.group type sql)
  merged : ∀ texts : List String, texts.length = (bindingGroups (specs type sql)).length →
    ((∃ bound, mergeSplit (bindingGroups (specs type sql)) (texts.map fun t => .one (.str t)) [] = some bound) ↔
      ∃ partss, Splits (bindingGroups (specs type sql)) texts partss ∧ Consistent partss)

/-- Each literal has its names and its constants in the table, and a wildcard between any two parameters. -/
structure Separated : Prop where
  ids : ∀ i m m', (markers sql)[i]? = some m → (markers sql)[i + 1]? = some m' →
    (ShareLast (embeddedLiterals sql) m.2 m'.2 ↔ SameLiteral sql i (i + 1))
  consts : ∀ e ∈ embeddedLiterals sql, ∀ k name, e.names[k]? = some name → ∀ i k' e', LastPlace (embeddedLiterals sql) name i k' →
    (embeddedLiterals sql)[i]? = some e' → e'.consts[k' + 1]? = e.consts[k + 1]? ∧ (k = 0 → e'.consts[k']? = e.consts[0]?)
  wildcards : ∀ e ∈ embeddedLiterals sql, ∀ c ∈ e.consts.tail.dropLast, ¬Free wildcardFree c

end

section
variable {type : Text → String} {sql name name' : Text} {literals : List Embedded}

theorem specs_eq : specs type sql = (markers sql).map fun m => spec type (embeddedInfo (embeddedLiterals sql)) m.2 := by
  rw [specs, orderedNames, List.map_map]
  rfl

/-- A name without a last place is in no literal. -/
theorem group_spec_of_notMem (h : ∀ e ∈ literals, name ∉ e.names) :
    (spec type (embeddedInfo literals) name).group = -1 := by
  rw [spec, embeddedInfo, Dict.getD, get_embeddedInfoFrom_of_notMem h]
  rfl

theorem spec_of_lastPlace {i k : Nat} {e : Embedded} (hconsts : ∀ e ∈ literals, e.consts.length = e.names.length + 1)
    (h : LastPlace literals name i k) (he : literals[i]? = some e) : spec type (embeddedInfo literals) name =
      { name := String.ofList name, type := type name, affixPrefix := String.ofList ((e.consts[k]?).getD []),
        affixSuffix := String.ofList ((e.consts[k + 1]?).getD []),
        group := if e.multi then ((literals.take i).countP Embedded.multi : Nat) else -1 } := by
  rw [spec, embeddedInfo, Dict.getD, get_embeddedInfoFrom hconsts h he, Option.getD_some, Int.zero_add]

theorem countP_take_lt {p : Embedded → Bool} {i j : Nat} {e : Embedded} (hij : i < j)
    (he : literals[i]? = some e) (hp : p e = true) :
    (literals.take i).countP p < (literals.take j).countP p := by
  obtain ⟨hi, rfl⟩ := List.getElem?_eq_some_iff.1 he
  have hsub : literals.take (i + 1) <+: literals.take j := List.take_prefix_take_left (by omega)
  have hle := hsub.sublist.countP_le (p := p)
  rw [List.take_add_one, he, List.countP_append] at hle
  have hone : List.countP p (some literals[i]).toList = 1 := by
    rw [Option.toList_some, List.countP_singleton, if_pos hp]
  omega

/-- **The specs join** iff the names have their last place in one literal. -/
theorem joins_iff (hconsts : ∀ e ∈ literals, e.consts.length = e.names.length + 1) :
    joins (spec type (embeddedInfo literals) name) (spec type (embeddedInfo literals) name') ↔
      ShareLast literals name name' := by
  constructor
  · rintro ⟨hnonneg, heq⟩
    have hgroup : ∀ {name}, 0 ≤ (spec type (embeddedInfo literals) name).group → ∃ i k e, LastPlace literals name i k ∧
        literals[i]? = some e ∧ e.multi = true ∧
        (spec type (embeddedInfo literals) name).group = ((literals.take i).countP Embedded.multi : Nat) := by
      intro name h
      by_cases hmem : ∃ e ∈ literals, name ∈ e.names
      · obtain ⟨i, k, hlast⟩ := exists_lastPlace hmem
        obtain ⟨⟨e, he, -⟩, -⟩ := id hlast
        have hspec : (spec type (embeddedInfo literals) name).group = _ :=
          congrArg PlaceholderSpec.group (spec_of_lastPlace hconsts hlast he)
        cases hmulti : e.multi with
        | true => exact ⟨i, k, e, hlast, he, hmulti, by rw [hspec, hmulti]; rfl⟩
        | false =>
          rw [hspec, hmulti] at h
          exact absurd (show (0 : Int) ≤ -1 from h) (by decide)
      · rw [group_spec_of_notMem fun e he hname => hmem ⟨e, he, hname⟩] at h
        exact absurd h (by decide)
    obtain ⟨i, k, e, hlast, he, hmulti, hg⟩ := hgroup (heq ▸ hnonneg)
    obtain ⟨j, k', e', hlast', he', hmulti', hg'⟩ := hgroup hnonneg
    rw [hg, hg', Int.ofNat_inj] at heq
    rcases Nat.lt_trichotomy i j with hij | rfl | hij
    · exact absurd heq (countP_take_lt hij he hmulti).ne
    · exact ⟨i, k, k', e, hlast, hlast', he, hmulti⟩
    · exact absurd heq (countP_take_lt hij he' hmulti').ne'
  · rintro ⟨i, k, k', e, hlast, hlast', he, hmulti⟩
    rw [spec_of_lastPlace hconsts hlast he, spec_of_lastPlace hconsts hlast' he, joins, hmulti]
    exact ⟨Int.natCast_nonneg _, rfl⟩

theorem SameLiteral.symm {i j : Nat} (h : SameLiteral sql i j) : SameLiteral sql j i := by
  rcases h with rfl | ⟨e, he, m, m', hm, hm', hin, hin'⟩
  · exact .inl rfl
  · exact .inr ⟨e, he, m', m, hm', hm, hin', hin⟩

/-- **Markers of one literal** are those that are linked by it. -/
theorem sameLiteral_iff {i j : Nat} (hij : i ≤ j) (hj : j < (markers sql).length) :
    SameLiteral sql i j ↔ ∀ k, i ≤ k → k < j → SameLiteral sql k (k + 1) := by
  have hsorted : ∀ {a b : Nat} {m m' : Nat × Text}, (markers sql)[a]? = some m → (markers sql)[b]? = some m' →
    a ≤ b → m.1 ≤ m'.1 := by
    intro a b m m' hm hm' hab
    obtain ⟨ha, rfl⟩ := List.getElem?_eq_some_iff.1 hm
    obtain ⟨hb, rfl⟩ := List.getElem?_eq_some_iff.1 hm'
    rcases Nat.lt_or_eq_of_le hab with hlt | rfl
    · exact (List.pairwise_iff_getElem.1 (markersFrom_pairwise sql 0 0) a b ha hb hlt).le
    · exact le_rfl
  constructor
  · rintro (rfl | ⟨e, he, m, m', hm, hm', hin, hin'⟩) k hk hkj
    · omega
    · have hbetween : ∀ l, i ≤ l → l ≤ j → ∃ x, (markers sql)[l]? = some x ∧ e.Inside x.1 := by
        intro l hil hlj
        have hget := List.getElem?_eq_getElem (l := markers sql) (show l < (markers sql).length by omega)
        refine ⟨_, hget, ?_⟩
        have h1 := hsorted hm hget hil
        have h2 := hsorted hget hm' hlj
        exact ⟨by have := hin.1; omega, by have := hin'.2; omega⟩
      obtain ⟨x, hx, hxin⟩ := hbetween k hk (by omega)
      obtain ⟨y, hy, hyin⟩ := hbetween (k + 1) (by omega) hkj
      exact .inr ⟨e, he, x, y, hx, hy, hxin, hyin⟩
  · induction j, hij using Nat.le_induction with
    | base => exact fun _ => .inl rfl
    | succ j hij ih =>
      intro h
      have hfirst := ih (by omega) fun k hk hkj => h k hk (by omega)
      have hlast := h j hij (by omega)
      rcases hfirst with rfl | ⟨e, he, m, m', hm, hm', hin, hin'⟩
      · exact hlast
      · rcases hlast with heq | ⟨e₂, he₂, m₂, m₃, hm₂, hm₃, hin₂, hin₃⟩
        · omega
        · -- the marker in the middle is in one literal only
          rw [hm'] at hm₂
          cases hm₂
          obtain rfl := inside_unique he he₂ hin' hin₂
          exact .inr ⟨e, he, m, m₃, hm, hm₃, hin, hin₃⟩

/-- **Groups are the literals** iff neighbours join just in a literal. -/
theorem grouped_iff : (∀ i j, i < (markers sql).length → j < (markers sql).length →
      (together (bindingGroups (specs type sql)) i j ↔ SameLiteral sql i j)) ↔
    ∀ i m m', (markers sql)[i]? = some m → (markers sql)[i + 1]? = some m' →
      (ShareLast (embeddedLiterals sql) m.2 m'.2 ↔ SameLiteral sql i (i + 1)) := by
  obtain ⟨hcut, hflat⟩ := bindingGroups_cut (specs type sql)
  have hlen : (specs type sql).length = (markers sql).length := by rw [specs_eq, List.length_map]
  have hconsts : ∀ e ∈ embeddedLiterals sql, e.consts.length = e.names.length + 1 :=
    fun e he => (mem_embeddedLiterals he).1
  have htogether : ∀ {i j}, i ≤ j → j < (markers sql).length → (together (bindingGroups (specs type sql)) i j ↔
      ∀ k m m', i ≤ k → k < j → (markers sql)[k]? = some m → (markers sql)[k + 1]? = some m' →
        ShareLast (embeddedLiterals sql) m.2 m'.2) := by
    intro i j hij hj
    rw [together_iff hcut hij (by rw [hflat, hlen]; exact hj), hflat, Linked]
    simp only [specs_eq, List.getElem?_map, Option.map_eq_some_iff]
    constructor
    · intro h k m m' hk hkj hm hm'
      exact (joins_iff hconsts).1 (h k _ _ hk hkj ⟨m, hm, rfl⟩ ⟨m', hm', rfl⟩)
    · rintro h k _ _ hk hkj ⟨m, hm, rfl⟩ ⟨m', hm', rfl⟩
      exact (joins_iff hconsts).2 (h k m m' hk hkj hm hm')
  constructor
  · intro h i m m' hm hm'
    have hi : i + 1 < (markers sql).length := (List.getElem?_eq_some_iff.1 hm').1
    rw [← h i (i + 1) (by omega) hi, htogether (by omega) hi]
    constructor
    · intro hshare k x x' hk hkj hx hx'
      obtain rfl : k = i := by omega
      rw [hm] at hx
      rw [hm'] at hx'
      cases hx
      cases hx'
      exact hshare
    · exact fun hall => hall i m m' le_rfl (by omega) hm hm'
  · intro h
    have hle : ∀ i j, i ≤ j → j < (markers sql).length →
      (together (bindingGroups (specs type sql)) i j ↔ SameLiteral sql i j) := by
      intro i j hij hj
      rw [htogether hij hj, sameLiteral_iff hij hj]
      constructor
      · intro hall k hk hkj
        have hget := List.getElem?_eq_getElem (l := markers sql) (show k < (markers sql).length by omega)
        have hget' := List.getElem?_eq_getElem (l := markers sql) (show k + 1 < (markers sql).length by omega)
        exact (h k _ _ hget hget').1 (hall k _ _ hk hkj hget hget')
      · exact fun hall k m m' hk hkj hm hm' => (h k m m' hm hm').2 (hall k hk hkj)
    intro i j hi hj
    rcases Nat.le_total i j with hij | hij
    · exact hle i j hij hj
    · exact ⟨fun ht => ((hle j i hij hi).1 (together_symm ht)).symm, fun hs =>
        together_symm ((hle j i hij hi).2 hs.symm)⟩

/-- The specs of a literal have its constants iff the last places of its names have them. -/
theorem group_consts_iff {e : Embedded} (he : e ∈ embeddedLiterals sql) :
    (e.group type sql).consts = (e.consts.headD [], e.consts.tail) ↔
      ∀ k name, e.names[k]? = some name → ∀ i k' e', LastPlace (embeddedLiterals sql) name i k' →
        (embeddedLiterals sql)[i]? = some e' → e'.consts[k' + 1]? = e.consts[k + 1]? ∧
          (k = 0 → e'.consts[k']? = e.consts[0]?) := by
  have hconsts : ∀ e ∈ embeddedLiterals sql, e.consts.length = e.names.length + 1 :=
    fun e he => (mem_embeddedLiterals he).1
  -- what a spec of a name has is what the last place has
  have hspec : ∀ {name i k' e'}, LastPlace (embeddedLiterals sql) name i k' → (embeddedLiterals sql)[i]? = some e' →
      e'.consts[k']? = some (spec type (embeddedInfo (embeddedLiterals sql)) name).affixPrefix.toList ∧
      e'.consts[k' + 1]? = some (spec type (embeddedInfo (embeddedLiterals sql)) name).affixSuffix.toList := by
    intro name i k' e' hlast he'
    obtain ⟨⟨e₀, he₀, hk, -⟩, -⟩ := id hlast
    obtain rfl : e' = e₀ := Option.some.inj (he'.symm.trans he₀)
    have hlt := (List.getElem?_eq_some_iff.1 hk).1
    have hlen := hconsts e' (List.mem_of_getElem? he')
    rw [spec_of_lastPlace hconsts hlast he', String.toList_ofList, String.toList_ofList,
      List.getElem?_eq_getElem (show k' < e'.consts.length by omega),
        List.getElem?_eq_getElem (show k' + 1 < e'.consts.length by omega)]
    exact ⟨rfl, rfl⟩
  have hgroup : (e.group type sql).consts =
      ((e.names.head?.map fun n => (spec type (embeddedInfo (embeddedLiterals sql)) n).affixPrefix.toList).getD [],
        e.names.map fun n => (spec type (embeddedInfo (embeddedLiterals sql)) n).affixSuffix.toList) := by
    rw [Group.consts, Embedded.group, List.head?_map, Option.map_map, List.map_map]
    rfl
  have hlen := hconsts e he
  obtain ⟨c₀, cs, hc⟩ : ∃ c₀ cs, e.consts = c₀ :: cs := List.exists_cons_of_length_pos (by omega)
  rw [hgroup, hc, List.headD_cons, List.tail_cons]
  constructor
  · intro h k name hk i k' e' hlast he'
    obtain ⟨hhead, htail⟩ := Prod.mk.inj h
    obtain ⟨hpre, hsuf⟩ := hspec hlast he'
    constructor
    · rw [List.getElem?_cons_succ, ← htail, List.getElem?_map, hk, hsuf]
      rfl
    · rintro rfl
      rw [List.head?_eq_getElem?, hk] at hhead
      rw [hpre, List.getElem?_cons_zero, ← hhead]
      rfl
  · intro h
    have hlast : ∀ {k : Nat} {name}, e.names[k]? = some name → ∃ i k' e', LastPlace (embeddedLiterals sql) name i k' ∧
        (embeddedLiterals sql)[i]? = some e' := by
      intro k name hk
      obtain ⟨i, k', hlast⟩ := exists_lastPlace ⟨e, he, List.mem_of_getElem? hk⟩
      obtain ⟨⟨e', he', -⟩, -⟩ := id hlast
      exact ⟨i, k', e', hlast, he'⟩
    refine Prod.ext ?_ (List.ext_getElem? fun k => ?_)
    · obtain ⟨n, ns, hn⟩ := List.exists_cons_of_ne_nil (mem_embeddedLiterals he).2.1
      have hk : e.names[0]? = some n := by rw [hn]; rfl
      obtain ⟨i, k', e', hl, he'⟩ := hlast hk
      have hpre := (h 0 n hk i k' e' hl he').2 rfl
      rw [(hspec hl he').1, List.getElem?_cons_zero] at hpre
      rw [hn]
      exact Option.some.inj hpre
    · dsimp only
      rw [List.getElem?_map]
      cases hk : e.names[k]? with
      | none =>
        rw [List.getElem?_eq_none_iff] at hk
        refine (List.getElem?_eq_none ?_).symm
        rw [hc, List.length_cons] at hlen
        omega
      | some n =>
        obtain ⟨i, k', e', hl, he'⟩ := hlast hk
        have hsuf := (h k n hk i k' e' hl he').1
        rw [(hspec hl he').2, List.getElem?_cons_succ] at hsuf
        rw [← hsuf]
        rfl

/-- **A literal's specs are one of the groups**, if groups are the literals. -/
theorem group_mem {e : Embedded} (he : e ∈ embeddedLiterals sql)
    (h : ∀ i j, i < (markers sql).length → j < (markers sql).length →
      (together (bindingGroups (specs type sql)) i j ↔ SameLiteral sql i j)) :
    e.group type sql ∈ bindingGroups (specs type sql) := by
  obtain ⟨-, hflat⟩ := bindingGroups_cut (specs type sql)
  obtain ⟨before, inside, after, hmarkers, hnames, hbefore, hinside, hafter⟩ := markers_literal he
  have hpos : 0 < inside.length := by
    rw [← List.length_map (f := Prod.snd), hnames]
    exact List.length_pos_iff.2 (mem_embeddedLiterals he).2.1
  have hlen : (bindingGroups (specs type sql)).flatten.length = before.length + inside.length + after.length := by
    rw [hflat, specs_eq, List.length_map, hmarkers, List.length_append, List.length_append]
  have hlen' : (markers sql).length = before.length + inside.length + after.length := by
    rw [hmarkers, List.length_append, List.length_append]
  have hin : ∀ j m, (markers sql)[j]? = some m →
    (e.Inside m.1 ↔ before.length ≤ j ∧ j < before.length + inside.length) := by
    intro j m hm
    rw [hmarkers, List.append_assoc] at hm
    by_cases hj : j < before.length
    · rw [List.getElem?_append_left hj] at hm
      have := hbefore m (List.mem_of_getElem? hm)
      exact ⟨fun h => by have := h.1; omega, fun h => by omega⟩
    · rw [List.getElem?_append_right (by omega)] at hm
      by_cases hj' : j < before.length + inside.length
      · rw [List.getElem?_append_left (by omega)] at hm
        exact ⟨fun _ => by omega, fun _ => hinside m (List.mem_of_getElem? hm)⟩
      · rw [List.getElem?_append_right (by omega)] at hm
        have := hafter m (List.mem_of_getElem? hm)
        exact ⟨fun h => by have := h.2; omega, fun h => by omega⟩
  have hfirst := List.getElem?_eq_getElem (l := markers sql) (show before.length < (markers sql).length by omega)
  have htogether : ∀ j, j < (bindingGroups (specs type sql)).flatten.length →
      (together (bindingGroups (specs type sql)) before.length j ↔
        before.length ≤ j ∧ j < before.length + inside.length) := by
    intro j hj
    rw [h _ _ (by omega) (by omega)]
    have hget := List.getElem?_eq_getElem (l := markers sql) (show j < (markers sql).length by omega)
    constructor
    · rintro (rfl | ⟨e', he', m, m', hm, hm', hm_in, hm'_in⟩)
      · omega
      · have heq : e' = e := inside_unique he' he hm_in ((hin _ m hm).2 (by omega))
        exact (hin j m' hm').1 (heq ▸ hm'_in)
    · exact fun hj' => .inr ⟨e, he, _, _, hfirst, hget, (hin _ _ hfirst).2 (by omega), (hin j _ hget).2 hj'⟩
  have hgroup : ((bindingGroups (specs type sql)).flatten.drop before.length).take inside.length =
    e.group type sql := by
    rw [hflat, specs_eq, hmarkers, List.append_assoc, List.map_append, List.drop_left' (List.length_map _),
      List.map_append,
      List.take_left' (List.length_map _), Embedded.group, ← hnames, List.map_map]
    rfl
  rw [← hgroup]
  exact mem_of_together hpos (by omega) htogether

end

end SynnoDB.Workload.EnginePublish
