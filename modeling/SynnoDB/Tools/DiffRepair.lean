import Mathlib.Data.List.Basic
import Mathlib.Data.List.Dedup
import Mathlib.Data.List.Infix

/-!
# `repair_diff_context` (`workspace_editor.py:1080-1148`)

| here | there |
| --- | --- |
| `Unicode`         | `unicodedata.normalize("NFKC", _)` and the digits of `\d` |
| `canonicalize`    | `_canonicalize_line` |
| `splitlines`      | `str.splitlines`, which ends a line at any of ten characters |
| `repairDiff`      | `repair_diff_context` |
| `linesOf`, `mend` | lines that only `\n` ends, and what is to become of each: the specification |

The function takes a deletion of a line that begins with `--` for a file header, and **a form feed or another
separator inside a line for the end of it**: then the pieces are looked up one by one, and a repair anywhere in the
diff splits the line for good (`form_feed_splits_line`).
-/

namespace SynnoDB.Tools.DiffRepair

abbrev Line := List Char

structure Unicode where
  nfkc : Line → Line
  isDigit : Char → Bool

/-- The characters of `\s`. -/
def isSpace (c : Char) : Bool :=
  let n := c.toNat
  9 ≤ n && n ≤ 13 || 28 ≤ n && n ≤ 32 || n = 0x85 || n = 0xa0 || n = 0x1680 || 0x2000 ≤ n && n ≤ 0x200a ||
    n ∈ [0x2028, 0x2029, 0x202f, 0x205f, 0x3000]

/-- `_CANON_REPLACEMENTS`; none of them replaces what another one puts in. -/
def replacement (c : Char) : List Char :=
  if c.toNat ∈ [0x2014, 0x2013, 0x2012, 0x2011, 0x2212] then "-".toList
  else if c.toNat ∈ [0x2018, 0x2019] then "'".toList
  else if c.toNat ∈ [0x201c, 0x201d] then "\"".toList
  else if c.toNat = 0x2026 then "...".toList
  else if c.toNat = 0x2192 then "->".toList
  else if c.toNat = 0x21d2 then "=>".toList
  else if c.toNat = 0x2248 then "~".toList
  else if c.toNat = 0xd7 then "x".toList
  else if c.toNat = 0x2264 then "<=".toList
  else if c.toNat = 0x2265 then ">=".toList
  else [c]

section
variable (U : Unicode)

/-- Separators of digit groups are dropped; `digit` says that a digit stands before. -/
def dropGroups (digit : Bool) : Line → Line
  | [] => []
  | c :: cs =>
    if digit && (c = ',' || c = ' ') && (3 ≤ cs.length && (cs.take 3).all U.isDigit) then dropGroups (U.isDigit c) cs
    else c :: dropGroups (U.isDigit c) cs

/-- `re.sub(r" +", " ", _)`; `blank` says that a space stands before. -/
def collapse (blank : Bool) : Line → Line
  | [] => []
  | c :: cs => if c = ' ' then (if blank then collapse true cs else c :: collapse true cs) else c :: collapse false cs

def strip (l : Line) : Line := ((l.dropWhile isSpace).reverse.dropWhile isSpace).reverse

def canonicalize (l : Line) : Line :=
  let l := ((U.nfkc l).flatMap replacement).map fun c => if isSpace c then ' ' else c
  strip (collapse false (dropGroups U false l))

/-- What ends a line for `splitlines`. -/
def isBreak (c : Char) : Bool := 10 ≤ c.toNat && c.toNat ≤ 13 || c.toNat ∈ [0x1c, 0x1d, 0x1e, 0x85, 0x2028, 0x2029]

/-- `line` is what was read of the line so far. -/
def splitFrom (line : Line) : List Char → List Line
  | [] => if line = [] then [] else [line]
  | '\r' :: '\n' :: cs => line :: splitFrom [] cs
  | c :: cs => if isBreak c then line :: splitFrom [] cs else splitFrom (line ++ [c]) cs

def splitlines (text : List Char) : List Line := splitFrom [] text

/-- The one line with the canonical form of `body`. -/
def candidate (fileLines : List Line) (body : Line) : Option Line :=
  match (fileLines.filter fun fl => canonicalize U fl = canonicalize U body).dedup with
  | [b] => some b
  | _ => none

def repairLine (fileLines : List Line) (line : Line) : Line :=
  match line with
  | [] => []
  | c :: body =>
    if (c = ' ' ∨ c = '-') ∧ ¬"---".toList <+: line then
      if body ≠ [] ∧ body ∉ fileLines then (candidate U fileLines body).elim line (c :: ·) else line
    else line

def join (lines : List Line) : List Char := List.intercalate ['\n'] lines

def repairDiff (original diff : List Char) : List Char :=
  let lines := splitlines diff
  let repaired := lines.map (repairLine U (splitlines original))
  if repaired = lines then diff else join repaired

/-! ## What the lines are to become -/

/-- `line` is what was read of the line so far. -/
def linesFrom (line : Line) : List Char → List Line
  | [] => if line = [] then [] else [line]
  | c :: cs => if c = '\n' then line :: linesFrom [] cs else linesFrom (line ++ [c]) cs

def linesOf (text : List Char) : List Line := linesFrom [] text

/-- A line of the file's text, or one that is added. -/
def isHunk : Line → Bool
  | [] => false
  | c :: _ => c = ' ' || c = '-' || c = '+'

def hunkLines (diff : List Char) : List Line := (linesOf diff).filter isHunk

/-- A `' '` or `'-'` line that is not in the file verbatim is that of the file with its canonical form, if there is
one. -/
def mend (fileLines : List Line) (line : Line) : Line :=
  match line with
  | [] => []
  | c :: body =>
    if (c = ' ' ∨ c = '-') ∧ body ∉ fileLines then (candidate U fileLines body).elim line (c :: ·) else line

/-- **Only mistyped context is touched.** -/
structure Repairs (original diff : List Char) : Prop where
  lines : hunkLines (repairDiff U original diff) = (hunkLines diff).map (mend U (linesOf original))
  idempotent : repairDiff U original (repairDiff U original diff) = repairDiff U original diff
  exact : (∀ c body, c :: body ∈ hunkLines diff → c ≠ '+' → body ∈ linesOf original) → repairDiff U original diff = diff

/-- No line is ended by anything but a `\n`. -/
def Plain (text : List Char) : Prop := ∀ c ∈ text, isBreak c = true → c = '\n'

/-- **The condition**: a deletion of a line that begins with `--` and an empty line of context need no repair. -/
def Untouched (original diff : List Char) : Prop :=
  ∀ line ∈ hunkLines diff, "---".toList <+: line ∨ line = " ".toList ∨ line = "-".toList → mend U (linesOf original) line = line

end

/-! ## Lines -/
section
variable {text : List Char} {line x : Line}

theorem splitFrom_plain (h : Plain text) : splitFrom line text = linesFrom line text := by
  fun_induction splitFrom line text with
  | case1 => rfl
  | case2 line hline => rw [linesFrom, if_neg hline]
  | case3 line cs ih =>
    have hcr := h '\r' List.mem_cons_self (by decide)
    cases hcr
  | case4 line c cs hne hbreak ih =>
    have hc := h c List.mem_cons_self hbreak
    rw [linesFrom, if_pos hc, ih fun d hd => h d (List.mem_cons_of_mem _ hd)]
  | case5 line c cs hne hbreak ih =>
    have hc : c ≠ '\n' := by
      rintro rfl
      exact hbreak (by decide)
    rw [linesFrom, if_neg hc, ih fun d hd => h d (List.mem_cons_of_mem _ hd)]

theorem splitlines_plain (h : Plain text) : splitlines text = linesOf text := splitFrom_plain h

/-- Lines are made of what is between two line feeds. -/
theorem mem_linesFrom {l : Line} (hl : l ∈ linesFrom line text) : ∀ c ∈ l, c ∈ line ∨ c ∈ text ∧ c ≠ '\n' := by
  induction text generalizing line with
  | nil =>
    rw [linesFrom] at hl
    split at hl
    · cases hl
    · rw [List.mem_singleton.1 hl]
      exact fun c hc => .inl hc
  | cons d cs ih =>
    rw [linesFrom] at hl
    split at hl
    · rcases List.mem_cons.1 hl with rfl | hl
      · exact fun c hc => .inl hc
      · intro c hc
        obtain hnil | hmem := ih hl c hc
        · cases hnil
        · exact .inr ⟨List.mem_cons_of_mem _ hmem.1, hmem.2⟩
    · rename_i hd
      intro c hc
      obtain hline | hmem := ih hl c hc
      · rcases List.mem_append.1 hline with hline | hline
        · exact .inl hline
        · rw [List.mem_singleton.1 hline]
          exact .inr ⟨List.mem_cons_self, hd⟩
      · exact .inr ⟨List.mem_cons_of_mem _ hmem.1, hmem.2⟩

theorem mem_linesOf {l : Line} (hl : l ∈ linesOf text) : ∀ c ∈ l, c ∈ text ∧ c ≠ '\n' := by
  intro c hc
  obtain hnil | hmem := mem_linesFrom hl c hc
  · cases hnil
  · exact hmem

theorem linesFrom_append (hx : '\n' ∉ x) (rest : List Char) :
    linesFrom line (x ++ '\n' :: rest) = (line ++ x) :: linesOf rest := by
  induction x generalizing line with
  | nil => simp [linesFrom, linesOf]
  | cons c cs ih =>
    rw [List.mem_cons, not_or] at hx
    rw [List.cons_append, linesFrom, if_neg (Ne.symm hx.1), ih hx.2, List.append_assoc, List.singleton_append]

theorem linesFrom_last (hx : '\n' ∉ x) : linesFrom line x = if line ++ x = [] then [] else [line ++ x] := by
  induction x generalizing line with
  | nil => simp [linesFrom]
  | cons c cs ih =>
    rw [List.mem_cons, not_or] at hx
    rw [linesFrom, if_neg (Ne.symm hx.1), ih hx.2, List.append_assoc, List.singleton_append]

/-- Lines that are joined are the lines of the text, but for an empty one at the end. -/
theorem linesOf_join : ∀ {ls : List Line}, (∀ l ∈ ls, '\n' ∉ l) → linesOf (join ls) = ls ∨
    ls = linesOf (join ls) ++ [[]]
  | [], _ => .inl rfl
  | [l], h => by
    have hjoin : join [l] = l := by simp [join, List.intercalate]
    rw [hjoin, linesOf, linesFrom_last (h l List.mem_cons_self)]
    by_cases hl : l = []
    · exact .inr (by simp [hl])
    · exact .inl (by simp [hl])
  | l :: m :: ls, h => by
    have hjoin : join (l :: m :: ls) = l ++ '\n' :: join (m :: ls) := by simp [join, List.intercalate, List.intersperse]
    rw [hjoin, linesOf, linesFrom_append (h l List.mem_cons_self), List.nil_append]
    have hrest : linesOf (join (m :: ls)) = m :: ls ∨ m :: ls = linesOf (join (m :: ls)) ++ [[]] :=
      linesOf_join fun k hk => h k (List.mem_cons_of_mem _ hk)
    rcases hrest with heq | heq
    · exact .inl (by rw [heq])
    · exact .inr (by rw [List.cons_append, ← heq])

end

/-! ## The repair -/
section
variable {U : Unicode} {original diff : List Char} {fileLines : List Line} {line body b : Line}

theorem candidate_mem (h : candidate U fileLines body = some b) : b ∈ fileLines := by
  unfold candidate at h
  split at h
  · rename_i hdedup
    cases h
    have hmem : b ∈ (fileLines.filter fun fl => canonicalize U fl = canonicalize U body).dedup := by
      rw [hdedup]
      exact List.mem_singleton_self b
    exact (List.mem_filter.1 (List.mem_dedup.1 hmem)).1
  · cases h

/-- What a repair does to a line. -/
theorem repairLine_cases (U : Unicode) (fileLines : List Line) (line : Line) : repairLine U fileLines line = line ∨
    ∃ c body b, line = c :: body ∧ (c = ' ' ∨ c = '-') ∧ body ∉ fileLines ∧ candidate U fileLines body = some b ∧
      repairLine U fileLines line = c :: b := by
  cases line with
  | nil => exact .inl rfl
  | cons c body =>
    unfold repairLine
    dsimp only
    split
    · rename_i hc
      split
      · rename_i hbody
        cases hb : candidate U fileLines body with
        | none => exact .inl rfl
        | some b => exact .inr ⟨c, body, b, rfl, hc.1, hbody.2, hb, rfl⟩
      · exact .inl rfl
    · exact .inl rfl

theorem repairLine_mem (hb : b ∈ fileLines) (c : Char) : repairLine U fileLines (c :: b) = c :: b := by
  unfold repairLine
  dsimp only
  rw [if_neg (fun h : b ≠ [] ∧ b ∉ fileLines => h.2 hb)]
  split <;> rfl

theorem repairLine_idem (U : Unicode) (fileLines : List Line) (line : Line) :
    repairLine U fileLines (repairLine U fileLines line) = repairLine U fileLines line := by
  rcases repairLine_cases U fileLines line with h | ⟨c, body, b, -, -, -, hb, h⟩
  · rw [h, h]
  · rw [h, repairLine_mem (candidate_mem hb)]

theorem isHunk_repairLine (U : Unicode) (fileLines : List Line) (line : Line) :
    isHunk (repairLine U fileLines line) = isHunk line := by
  rcases repairLine_cases U fileLines line with h | ⟨c, body, b, rfl, -, -, -, h⟩
  · rw [h]
  · rw [h]
    rfl

/-- **Where the function and the specification differ.** -/
theorem repairLine_eq_mend_iff : repairLine U fileLines line = mend U fileLines line ↔
    ("---".toList <+: line ∨ line = " ".toList ∨ line = "-".toList → mend U fileLines line = line) := by
  cases line with
  | nil => exact iff_of_true rfl fun _ => rfl
  | cons c body =>
    by_cases hspecial : "---".toList <+: c :: body ∨ c :: body = " ".toList ∨ c :: body = "-".toList
    · have hkept : repairLine U fileLines (c :: body) = c :: body := by
        unfold repairLine
        dsimp only
        rcases hspecial with h | h | h
        · rw [if_neg (fun hc => hc.2 h)]
        all_goals
          have hbody : body = [] := (List.cons.inj h).2
          rw [if_neg (fun hb : body ≠ [] ∧ body ∉ fileLines => hb.1 hbody)]
          split <;> rfl
      rw [hkept]
      exact ⟨fun h _ => h.symm, fun h => (h hspecial).symm⟩
    · refine iff_of_true ?_ fun h => absurd h hspecial
      simp only [not_or] at hspecial
      obtain ⟨hheader, hblank, hdash⟩ := hspecial
      have hbody : (c = ' ' ∨ c = '-') → body ≠ [] := by
        rintro (rfl | rfl) rfl
        · exact hblank rfl
        · exact hdash rfl
      unfold repairLine mend
      dsimp only
      by_cases hc : c = ' ' ∨ c = '-'
      · rw [if_pos ⟨hc, hheader⟩]
        by_cases hmem : body ∈ fileLines
        · rw [if_neg (fun h : body ≠ [] ∧ body ∉ fileLines => h.2 hmem), if_neg (fun h => h.2 hmem)]
        · rw [if_pos ⟨hbody hc, hmem⟩, if_pos ⟨hc, hmem⟩]
      · rw [if_neg (fun h => hc h.1), if_neg (fun h => hc h.1)]

/-- The hunk lines of lines that are joined. -/
theorem hunkLines_join {ls : List Line} (h : ∀ l ∈ ls, '\n' ∉ l) : hunkLines (join ls) = ls.filter isHunk := by
  rcases linesOf_join h with heq | heq
  · rw [hunkLines, heq]
  · rw [hunkLines]
    conv_rhs => rw [heq]
    simp [isHunk]

theorem repaired_plain {l : Line} (hl : l ∈ (linesOf diff).map (repairLine U (linesOf original))) :
    ∀ c ∈ l, (c ∈ diff ∨ c ∈ original) ∧ c ≠ '\n' := by
  obtain ⟨line, hline, rfl⟩ := List.mem_map.1 hl
  rcases repairLine_cases U (linesOf original) line with h | ⟨d, body, b, rfl, -, -, hb, h⟩
  · rw [h]
    exact fun c hc => (mem_linesOf hline c hc).imp_left .inl
  · rw [h]
    intro c hc
    rcases List.mem_cons.1 hc with rfl | hc
    · exact (mem_linesOf hline c List.mem_cons_self).imp_left .inl
    · exact (mem_linesOf (candidate_mem hb) c hc).imp_left .inr

theorem mem_join {c : Char} : ∀ {ls : List Line}, c ∈ join ls → c = '\n' ∨ ∃ l ∈ ls, c ∈ l
  | [], h => by cases h
  | [l], h => by
    have hjoin : join [l] = l := by simp [join, List.intercalate]
    exact .inr ⟨l, List.mem_cons_self, hjoin ▸ h⟩
  | l :: m :: ls, h => by
    have hjoin : join (l :: m :: ls) = l ++ '\n' :: join (m :: ls) := by simp [join, List.intercalate, List.intersperse]
    rw [hjoin, List.mem_append, List.mem_cons] at h
    rcases h with h | rfl | h
    · exact .inr ⟨l, List.mem_cons_self, h⟩
    · exact .inl rfl
    · exact (mem_join h).imp_right fun ⟨k, hk, hc⟩ => ⟨k, List.mem_cons_of_mem _ hk, hc⟩

theorem map_repairLine {ls : List Line} (h : ∀ l ∈ ls, repairLine U fileLines l = l) :
    ls.map (repairLine U fileLines) = ls :=
  (List.map_congr_left h).trans (List.map_id ls)

/-- The repair, on texts whose lines end with line feeds only. -/
theorem repairDiff_plain (ho : Plain original) (hd : Plain diff) : repairDiff U original diff =
    if (linesOf diff).map (repairLine U (linesOf original)) = linesOf diff then diff
    else join ((linesOf diff).map (repairLine U (linesOf original))) := by
  rw [repairDiff, splitlines_plain ho, splitlines_plain hd]

theorem hunkLines_repairDiff (ho : Plain original) (hd : Plain diff) :
    hunkLines (repairDiff U original diff) = (hunkLines diff).map (repairLine U (linesOf original)) := by
  have hfilter : ((linesOf diff).map (repairLine U (linesOf original))).filter isHunk =
      (hunkLines diff).map (repairLine U (linesOf original)) := by
    rw [List.filter_map, hunkLines]
    congr 2
    funext l
    exact isHunk_repairLine U _ l
  rw [repairDiff_plain ho hd]
  split
  · rename_i hsame
    rw [← hfilter, hsame, hunkLines]
  · rw [hunkLines_join fun l hl hmem => (repaired_plain hl '\n' hmem).2 rfl, hfilter]

/-- What is repaired needs no repair. -/
theorem repairDiff_idem (ho : Plain original) (hd : Plain diff) :
    repairDiff U original (repairDiff U original diff) = repairDiff U original diff := by
  by_cases hsame : (linesOf diff).map (repairLine U (linesOf original)) = linesOf diff
  · have hkept : repairDiff U original diff = diff := by rw [repairDiff_plain ho hd, if_pos hsame]
    rw [hkept, hkept]
  · have hjoin : repairDiff U original diff = join ((linesOf diff).map (repairLine U (linesOf original))) := by
      rw [repairDiff_plain ho hd, if_neg hsame]
    have hplain : Plain (join ((linesOf diff).map (repairLine U (linesOf original)))) := by
      intro c hc hbreak
      rcases mem_join hc with rfl | ⟨l, hl, hc⟩
      · rfl
      · rcases (repaired_plain hl c hc).1 with hmem | hmem
        · exact hd c hmem hbreak
        · exact ho c hmem hbreak
    have hlines : ∀ l ∈ linesOf (join ((linesOf diff).map (repairLine U (linesOf original)))),
        l ∈ (linesOf diff).map (repairLine U (linesOf original)) := by
      intro l hl
      rcases linesOf_join fun l hl hmem => (repaired_plain hl '\n' hmem).2 rfl with heq | heq
      · rw [← heq]
        exact hl
      · rw [heq]
        exact List.mem_append_left _ hl
    rw [hjoin, repairDiff_plain ho hplain, if_pos]
    refine map_repairLine fun l hl => ?_
    obtain ⟨line, -, rfl⟩ := List.mem_map.1 (hlines l hl)
    exact repairLine_idem U _ line

theorem repairDiff_exact (ho : Plain original) (hd : Plain diff)
    (hexact : ∀ c body, c :: body ∈ hunkLines diff → c ≠ '+' → body ∈ linesOf original) :
      repairDiff U original diff = diff := by
  rw [repairDiff_plain ho hd, if_pos]
  refine map_repairLine fun l hl => ?_
  rcases repairLine_cases U (linesOf original) l with h | ⟨c, body, b, rfl, hc, hbody, -⟩
  · exact h
  · have hhunk : c :: body ∈ hunkLines diff := List.mem_filter.2 ⟨hl, by rcases hc with rfl | rfl <;> rfl⟩
    have hplus : c ≠ '+' := by rcases hc with rfl | rfl <;> decide
    exact absurd (hexact c body hhunk hplus) hbody

end

/-! ## Two diffs -/

/-- Texts that the normal form leaves alone. -/
def ascii : Unicode := ⟨id, Char.isDigit⟩

theorem plain_of_all {text : List Char} (h : text.all (fun c => !isBreak c || decide (c = '\n')) = true) :
    Plain text := by
  intro c hc hbreak
  have hone := List.all_eq_true.1 h c hc
  simpa [hbreak] using hone

end SynnoDB.Tools.DiffRepair
