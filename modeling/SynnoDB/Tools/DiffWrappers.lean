import Mathlib
import SynnoDB.Tools.DiffRepair

/-!
# `normalize_diff_payload` (`workspace_editor.py:1151-1205`)

| here | there |
| --- | --- |
| `inFence`              | what `_strip_code_fences` keeps of the lines: those between `start` and `end` |
| `isEnvelope`           | a line that starts with one of `_PATCH_ENVELOPE_PREFIXES` |
| `Wrapper`, `wrap`      | what a model puts around a hunk; the first wrapper of a list is the outermost |
| `HunkBody`             | lines that a `\n` ends, each with its prefix |

A fence is looked for once, before the envelope lines are dropped, and a line is what `splitlines` takes for one.
So **a fence in an envelope stays** (`fence_in_envelope`), blank lines go only around a fence, and a line separator
in the content of a hunk line becomes a `\n` as soon as anything is stripped; what follows it may even pass for a
wrapper. `normalize_restores` says exactly when the hunk comes back and for which texts a second pass changes nothing.
-/

namespace SynnoDB.Tools.DiffWrappers

open DiffRepair (Line Plain isBreak splitlines splitFrom join)

def fenceMark : Line := "```".toList

def envelopeMarks : List Line :=
  ["*** Begin Patch".toList, "*** End Patch".toList, "*** Update File:".toList, "*** Add File:".toList, "*** Delete File:".toList]

def blank (l : Line) : Bool := DiffRepair.strip l = []

/-- `_FENCE_OPEN` matches; a line has no `\n`. -/
def fenceOpen (l : Line) : Bool := fenceMark.isPrefixOf l

/-- `_FENCE_CLOSE` matches. -/
def fenceClose (l : Line) : Bool := fenceMark.isPrefixOf l && (l.drop 3).all DiffRepair.isSpace

def isEnvelope (l : Line) : Bool := envelopeMarks.any (·.isPrefixOf l)

def inFence (lines : List Line) : Option (List Line) :=
  match lines.dropWhile blank with
  | [] => none
  | first :: rest =>
    if fenceOpen first then
      match rest.reverse.dropWhile blank with
      | [] => none
      | last :: inner => if fenceClose last then some inner.reverse else none
    else none

def stripCodeFences (diff : List Char) : List Char :=
  match inFence (splitlines diff) with
  | none => diff
  | some inner => join inner

def kept (lines : List Line) : List Line := lines.filter fun l => !isEnvelope l

def stripPatchEnvelope (diff : List Char) : List Char :=
  let lines := splitlines diff
  if (kept lines).length = lines.length then diff else join (kept lines)

def normalizeDiffPayload (diff : List Char) : List Char := stripPatchEnvelope (stripCodeFences diff)

/-! ## Wrapped hunks -/

/-- A line of a hunk: its content may have any separator but `\n`. -/
def HunkLine (l : Line) : Prop := '\n' ∉ l ∧ ((∃ c ∈ [' ', '+', '-'], [c] <+: l) ∨ "@@".toList <+: l)

structure HunkBody where
  lines : List Line
  some_line : lines ≠ []
  hunk : ∀ l ∈ lines, HunkLine l

def HunkBody.text (body : HunkBody) : List Char := join body.lines

inductive Wrapper where
  | blanks (above below : List Line) (h : ∀ l ∈ above ++ below, blank l = true ∧ '\n' ∉ l)
  | fence (info tail : Line) (h : '\n' ∉ info ∧ '\n' ∉ tail ∧ ∀ c ∈ tail, DiffRepair.isSpace c = true)
  | envelope (header footer : List Line) (h : ∀ l ∈ header ++ footer, isEnvelope l = true ∧ '\n' ∉ l)

def Wrapper.above : Wrapper → List Line
  | blanks above _ _ => above
  | fence info _ _ => [fenceMark ++ info]
  | envelope header _ _ => header

def Wrapper.below : Wrapper → List Line
  | blanks _ below _ => below
  | fence _ tail _ => [fenceMark ++ tail]
  | envelope _ footer _ => footer

def above (ws : List Wrapper) : List Line := ws.flatMap Wrapper.above

def below : List Wrapper → List Line
  | [] => []
  | w :: ws => below ws ++ w.below

def wrap (ws : List Wrapper) (body : HunkBody) : List Char := join (above ws ++ body.lines ++ below ws)

/-! ## The conditions -/

/-- Nothing in the text passes for a wrapper. -/
def Bare (text : List Char) : Prop := inFence (splitlines text) = none ∧ ∀ l ∈ splitlines text, isEnvelope l = false

/-- Lines with a `\n` after each. -/
def terminated (lines : List Line) : List Char := lines.flatMap (· ++ ['\n'])

/-- Envelope lines, and perhaps an empty line after them, which is lost with the last `\n`. -/
def Shed (upper lower : List Line) : Prop :=
  (∀ l ∈ upper ++ lower, isEnvelope l = true) ∨
    ∃ marks, lower = marks ++ [[]] ∧ upper ++ marks ≠ [] ∧ ∀ l ∈ upper ++ marks, isEnvelope l = true

/-- The lines around the hunk are envelope lines, or a fence around such lines, with blank lines outside. -/
def Peels (upper lower : List Line) : Prop :=
  (upper ++ lower ≠ [] ∧ ∀ l ∈ upper ++ lower, isEnvelope l = true) ∨
    ∃ blanks first marks marks' last blanks', upper = blanks ++ first :: marks ∧ lower = marks' ++ last :: blanks' ∧
      (∀ l ∈ blanks ++ blanks', blank l = true) ∧ fenceOpen first = true ∧ fenceClose last = true ∧ Shed marks marks'

/-- **The condition on a wrapped hunk.** -/
def Restored (ws : List Wrapper) (body : HunkBody) : Prop :=
  if above ws ++ below ws = [] then Bare body.text
  else Plain body.text ∧ Peels (splitlines (terminated (above ws))) (splitlines (join (below ws)))

/-- **The condition on a text**: the lines that stay are not in a fence. -/
def Settled (text : List Char) : Prop :=
  let lines := splitlines text
  inFence (kept ((inFence lines).getD lines)) = none

/-! ## Lines -/

section
variable {text a b : List Char} {line l : Line} {ls ls' : List Line}

theorem splitFrom_cons {c : Char} {cs : List Char} (h : ∀ rest, c = '\r' → cs = '\n' :: rest → False) :
    splitFrom line (c :: cs) = if isBreak c then line :: splitFrom [] cs else splitFrom (line ++ [c]) cs := by
  rw [splitFrom]
  exact h

theorem splitFrom_newline : splitFrom line ('\n' :: b) = line :: splitFrom [] b := by
  have hbreak : isBreak '\n' = true := by decide
  rw [splitFrom_cons (by simp), if_pos hbreak]

/-- A `\n` ends a line whatever comes before it. -/
theorem splitFrom_append : splitFrom line (a ++ '\n' :: b) = splitFrom line (a ++ ['\n']) ++ splitFrom [] b := by
  have hstep : ∀ c cs, (∀ rest, c = '\r' → cs = '\n' :: rest → False) → c ≠ '\r' ∨ cs ≠ [] →
      ∀ x, ∀ rest, c = '\r' → cs ++ '\n' :: x = '\n' :: rest → False := by
    intro c cs hne hsome x rest hc heq
    cases cs with
    | nil => exact hsome.elim (fun h => h hc) fun h => h rfl
    | cons d ds =>
      rw [List.cons_append, List.cons.injEq] at heq
      exact hne ds hc (by rw [heq.1])
  fun_induction splitFrom line a with
  | case1 => rw [List.nil_append, List.nil_append, splitFrom_newline, splitFrom_newline]; rfl
  | case2 line hline => rw [List.nil_append, List.nil_append, splitFrom_newline, splitFrom_newline]; rfl
  | case3 line cs ih =>
    simp only [List.cons_append, splitFrom, ih]
  | case4 line c cs hne hbreak ih =>
    by_cases hcr : c ≠ '\r' ∨ cs ≠ []
    · rw [List.cons_append, List.cons_append, splitFrom_cons (hstep c cs hne hcr b),
        splitFrom_cons (hstep c cs hne hcr []),
        if_pos hbreak, if_pos hbreak, ih]
      rfl
    · rw [not_or, not_not, not_not] at hcr
      obtain ⟨rfl, rfl⟩ := hcr
      simp only [List.cons_append, List.nil_append, splitFrom, ↓reduceIte]
  | case5 line c cs hne hbreak ih =>
    have hcr : c ≠ '\r' := by
      rintro rfl
      exact hbreak (by decide)
    rw [List.cons_append, List.cons_append, splitFrom_cons (hstep c cs hne (.inl hcr) b),
      splitFrom_cons (hstep c cs hne (.inl hcr) []), if_neg hbreak, if_neg hbreak, ih]

/-- A last `\n` ends a line, or adds an empty one. -/
theorem splitFrom_concat : splitFrom line (a ++ ['\n']) = splitFrom line a ∨
    splitFrom line (a ++ ['\n']) = splitFrom line a ++ [[]] := by
  fun_induction splitFrom line a with
  | case1 =>
    rw [List.nil_append, splitFrom_newline]
    exact .inr rfl
  | case2 line hline =>
    rw [List.nil_append, splitFrom_newline]
    exact .inl rfl
  | case3 line cs ih =>
    simp only [List.cons_append, splitFrom, List.cons.injEq, true_and]
    exact ih
  | case4 line c cs hne hbreak ih =>
    by_cases hcr : ∃ rest, c = '\r' ∧ cs ++ ['\n'] = '\n' :: rest
    · obtain ⟨rest, rfl, hrest⟩ := hcr
      cases cs with
      | nil => exact .inl (by simp [splitFrom])
      | cons d ds =>
        rw [List.cons_append, List.cons.injEq] at hrest
        exact absurd (by rw [hrest.1]) (hne ds rfl)
    · rw [List.cons_append, splitFrom_cons fun rest hc heq => hcr ⟨rest, hc, heq⟩, if_pos hbreak]
      simpa using ih
  | case5 line c cs hne hbreak ih =>
    have hcr : c ≠ '\r' := by
      rintro rfl
      exact hbreak (by decide)
    rw [List.cons_append, splitFrom_cons fun rest hc _ => hcr hc, if_neg hbreak]
    exact ih

/-- A line is made of what is between two line ends. -/
theorem mem_splitFrom (hline : ∀ c ∈ line, isBreak c = false) (hl : l ∈ splitFrom line text) :
    ∀ c ∈ l, (c ∈ line ∨ c ∈ text) ∧ isBreak c = false := by
  fun_induction splitFrom line text with
  | case1 => cases hl
  | case2 line hne =>
    obtain rfl := List.mem_singleton.mp hl
    exact fun c hc => ⟨.inl hc, hline c hc⟩
  | case3 line cs ih =>
    rcases List.mem_cons.mp hl with rfl | hl
    · exact fun c hc => ⟨.inl hc, hline c hc⟩
    · intro c hc
      obtain ⟨hmem, hc'⟩ := ih (List.forall_mem_nil _) hl c hc
      exact ⟨.inr (List.mem_cons_of_mem _ (List.mem_cons_of_mem _ (hmem.resolve_left List.not_mem_nil))), hc'⟩
  | case4 line d cs hne hbreak ih =>
    rcases List.mem_cons.mp hl with rfl | hl
    · exact fun c hc => ⟨.inl hc, hline c hc⟩
    · intro c hc
      obtain ⟨hmem, hc'⟩ := ih (List.forall_mem_nil _) hl c hc
      exact ⟨.inr (List.mem_cons_of_mem _ (hmem.resolve_left List.not_mem_nil)), hc'⟩
  | case5 line d cs hne hbreak ih =>
    intro c hc
    have hline' : ∀ c ∈ line ++ [d], isBreak c = false := by
      intro c hc
      rcases List.mem_append.mp hc with hc | hc
      · exact hline c hc
      · rw [List.mem_singleton.mp hc]
        exact Bool.eq_false_iff.mpr hbreak
    obtain ⟨hmem, hc'⟩ := ih hline' hl c hc
    refine ⟨?_, hc'⟩
    rcases hmem with hmem | hmem
    · rcases List.mem_append.mp hmem with hmem | hmem
      · exact .inl hmem
      · exact .inr (List.mem_singleton.mp hmem ▸ List.mem_cons_self)
    · exact .inr (List.mem_cons_of_mem _ hmem)

/-- No line of `splitlines` has a line end in it. -/
theorem mem_splitlines (hl : l ∈ splitlines text) {c : Char} (hc : c ∈ l) : c ∈ text ∧ isBreak c = false := by
  have hnil : ∀ c ∈ ([] : Line), isBreak c = false := fun _ h => nomatch h
  obtain ⟨hmem, hbreak⟩ := mem_splitFrom hnil hl c hc
  exact ⟨hmem.resolve_left (fun h => nomatch h), hbreak⟩

theorem splitFrom_line (hl : ∀ c ∈ l, isBreak c = false) : splitFrom line (l ++ text) = splitFrom (line ++ l) text := by
  induction l generalizing line with
  | nil => rw [List.nil_append, List.append_nil]
  | cons c cs ih =>
    have hc := hl c List.mem_cons_self
    have hcr : c ≠ '\r' := by
      rintro rfl
      exact absurd hc (by decide)
    rw [List.cons_append, splitFrom_cons fun _ h _ => hcr h, if_neg (Bool.eq_false_iff.mp hc),
      ih fun d hd => hl d (List.mem_cons_of_mem _ hd), List.append_assoc]
    rfl

/-- The first line goes on from what was read of it. -/
theorem splitFrom_head (h : line ≠ []) : ∃ x rest, splitFrom line text = (line ++ x) :: rest := by
  fun_induction splitFrom line text with
  | case1 => exact absurd rfl h
  | case2 line hline => exact ⟨[], [], by rw [List.append_nil]⟩
  | case3 line cs ih => exact ⟨[], _, by rw [List.append_nil]⟩
  | case4 line c cs hne hbreak ih => exact ⟨[], _, by rw [List.append_nil]⟩
  | case5 line c cs hne hbreak ih =>
    obtain ⟨x, rest, heq⟩ := ih (by simp)
    exact ⟨c :: x, rest, by rw [heq, List.append_assoc]; rfl⟩

theorem splitlines_mark (hl : ∀ c ∈ l, isBreak c = false) (hne : l ≠ []) (text : List Char) :
    ∃ x rest, splitlines (l ++ text) = (l ++ x) :: rest := by
  unfold splitlines
  rw [splitFrom_line hl, List.nil_append]
  exact splitFrom_head hne

theorem splitlines_append : splitlines (a ++ '\n' :: b) = splitlines (a ++ ['\n']) ++ splitlines b := splitFrom_append

@[simp] theorem terminated_append : terminated (ls ++ ls') = terminated ls ++ terminated ls' := List.flatMap_append

theorem terminated_cons : terminated (l :: ls) = l ++ '\n' :: terminated ls := by
  simp [terminated]

theorem join_cons (h : ls ≠ []) : join (l :: ls) = l ++ '\n' :: join ls := by
  obtain ⟨x, xs, rfl⟩ := List.exists_cons_of_ne_nil h
  simp [join, List.intercalate]

theorem join_append (h : ls' ≠ []) : join (ls ++ ls') = terminated ls ++ join ls' := by
  induction ls with
  | nil => rfl
  | cons l ls ih =>
    rw [List.cons_append, join_cons (by simp [h]), ih, terminated_cons, List.append_assoc]
    rfl

theorem terminated_eq_join (h : ls ≠ []) : terminated ls = join ls ++ ['\n'] := by
  induction ls with
  | nil => exact absurd rfl h
  | cons l ls ih =>
    rw [terminated_cons]
    by_cases hls : ls = []
    · subst hls
      simp [terminated, join, List.intercalate]
    · rw [ih hls, join_cons hls, List.append_assoc]
      rfl

/-- What was read of the lines before does not matter. -/
theorem splitlines_terminated (ls : List Line) (text : List Char) :
    splitlines (terminated ls ++ text) = splitlines (terminated ls) ++ splitlines text := by
  by_cases h : ls = []
  · subst h
    rfl
  · rw [terminated_eq_join h, List.append_assoc]
    exact splitlines_append

theorem length_join (h : ls ≠ []) : (join ls).length + 1 = (ls.map fun l => l.length + 1).sum := by
  induction ls with
  | nil => exact absurd rfl h
  | cons l ls ih =>
    by_cases hls : ls = []
    · subst hls
      simp [join, List.intercalate]
    · rw [join_cons hls, List.length_append, List.length_cons, List.map_cons, List.sum_cons, ← ih hls]
      omega

theorem mem_join_of_mem {c : Char} (hl : l ∈ ls) (hc : c ∈ l) : c ∈ join ls := by
  induction ls with
  | nil => cases hl
  | cons x xs ih =>
    by_cases hxs : xs = []
    · subst hxs
      obtain rfl := List.mem_singleton.mp hl
      simpa [join, List.intercalate] using hc
    · rw [join_cons hxs, List.mem_append, List.mem_cons]
      rcases List.mem_cons.mp hl with rfl | hl
      · exact .inl hc
      · exact .inr (.inr (ih hl))

theorem plain_join (h : ∀ l ∈ ls, ∀ c ∈ l, isBreak c = false) : Plain (join ls) := by
  intro c hc hbreak
  rcases DiffRepair.mem_join hc with hnl | ⟨l, hl, hcl⟩
  · exact hnl
  · exact absurd hbreak (Bool.eq_false_iff.mp (h l hl c hcl))

/-- The last line of a joined text is lost if it is empty. -/
theorem splitlines_join (h : ∀ l ∈ ls, ∀ c ∈ l, isBreak c = false) :
    splitlines (join ls) = ls ∨ ls = splitlines (join ls) ++ [[]] := by
  have hnl : ∀ l ∈ ls, '\n' ∉ l := fun l hl hmem => absurd (h l hl '\n' hmem) (by decide)
  rw [DiffRepair.splitlines_plain (plain_join h)]
  exact DiffRepair.linesOf_join hnl

theorem length_join_splitFrom : (join (splitFrom line text)).length ≤ line.length + text.length := by
  have hcons : ∀ (l : Line) ls, (join (l :: ls)).length ≤ l.length + (join ls).length + 1 := by
    intro l ls
    by_cases hls : ls = []
    · subst hls
      simp [join, List.intercalate]
    · rw [join_cons hls, List.length_append, List.length_cons]
      omega
  fun_induction splitFrom line text with
  | case1 => exact Nat.zero_le _
  | case2 line hline => simp [join, List.intercalate]
  | case3 line cs ih =>
    have hle := hcons line (splitFrom [] cs)
    simp only [List.length_nil, List.length_cons] at ih ⊢
    omega
  | case4 line c cs hne hbreak ih =>
    have hle := hcons line (splitFrom [] cs)
    simp only [List.length_nil, List.length_cons] at ih ⊢
    omega
  | case5 line c cs hne hbreak ih =>
    simp only [List.length_append, List.length_cons, List.length_nil] at ih ⊢
    omega

theorem length_join_splitlines (text : List Char) : (join (splitlines text)).length ≤ text.length := by
  have hle : (join (splitFrom [] text)).length ≤ ([] : Line).length + text.length := length_join_splitFrom
  rw [List.length_nil, Nat.zero_add] at hle
  exact hle

end

/-! ## Blank lines and fences -/

def inked (lines : List Line) : List Line := lines.filter fun l => !blank l

section
variable {text : List Char} {l first last : Line} {ls ls' inner : List Line}

theorem blank_iff : blank l = true ↔ ∀ c ∈ l, DiffRepair.isSpace c = true := by
  unfold blank DiffRepair.strip
  rw [decide_eq_true_eq, List.reverse_eq_nil_iff, List.dropWhile_eq_nil_iff]
  constructor
  · intro h c hc
    by_contra hspace
    have hmem : c ∈ l.dropWhile DiffRepair.isSpace := by
      rw [← List.takeWhile_append_dropWhile (p := DiffRepair.isSpace) (l := l), List.mem_append] at hc
      exact hc.resolve_left fun hleft => hspace (List.mem_takeWhile_imp hleft)
    exact hspace (h c (List.mem_reverse.mpr hmem))
  · intro h c hc
    exact h c (List.dropWhile_subset _ (List.mem_reverse.mp hc))

theorem inked_append : inked (ls ++ ls') = inked ls ++ inked ls' := List.filter_append ..

theorem inked_eq_nil : inked ls = [] ↔ ∀ l ∈ ls, blank l = true := by
  simp [inked, List.filter_eq_nil_iff]

theorem inked_nil : inked [[]] = [] := inked_eq_nil.mpr (by simp [blank, DiffRepair.strip])

theorem dropWhile_blank : ls.dropWhile blank = first :: ls' ↔
    ∃ blanks, ls = blanks ++ first :: ls' ∧ (∀ l ∈ blanks, blank l = true) ∧ blank first = false := by
  constructor
  · intro h
    have hcut := List.takeWhile_append_dropWhile (p := blank) (l := ls)
    have hfirst := List.head?_dropWhile_not blank ls
    rw [h] at hcut hfirst
    exact ⟨_, hcut.symm, fun l hl => List.mem_takeWhile_imp hl, by simpa using hfirst⟩
  · rintro ⟨blanks, rfl, hblanks, hfirst⟩
    rw [List.dropWhile_append_of_pos hblanks, List.dropWhile_cons_of_neg (Bool.eq_false_iff.mp hfirst)]

theorem blank_of_mark (h : fenceMark.isPrefixOf l = true) : blank l = false := by
  obtain ⟨rest, rfl⟩ := List.isPrefixOf_iff_prefix.mp h
  refine Bool.eq_false_iff.mpr fun hblank => ?_
  have hspace := blank_iff.mp hblank (Char.ofNat 96) (List.mem_append_left _ (by decide))
  exact absurd hspace (by decide)

theorem fenceOpen_of_close (h : fenceClose l = true) : fenceOpen l = true := (Bool.and_eq_true _ _ ▸ h).1

/-- **The lines in a fence** that has only blank lines around it. -/
theorem inFence_eq_some : inFence ls = some inner ↔ ∃ blanks first last blanks',
    ls = blanks ++ first :: inner ++ last :: blanks' ∧ (∀ l ∈ blanks ++ blanks', blank l = true) ∧
      fenceOpen first = true ∧ fenceClose last = true := by
  unfold inFence
  constructor
  · intro h
    cases hfirst : ls.dropWhile blank with
    | nil => simp [hfirst] at h
    | cons first rest =>
      obtain ⟨blanks, rfl, hblanks, -⟩ := dropWhile_blank.mp hfirst
      simp only [hfirst] at h
      by_cases hopen : fenceOpen first = true
      · rw [if_pos hopen] at h
        cases hlast : rest.reverse.dropWhile blank with
        | nil => simp [hlast] at h
        | cons last above =>
          obtain ⟨blanks', hrest, hblanks', -⟩ := dropWhile_blank.mp hlast
          simp only [hlast] at h
          by_cases hclose : fenceClose last = true
          · rw [if_pos hclose, Option.some.injEq] at h
            have hrest' : rest = inner ++ last :: blanks'.reverse := by
              rw [← List.reverse_reverse rest, hrest, ← h]
              simp
            refine ⟨blanks, first, last, blanks'.reverse, ?_, ?_, hopen, hclose⟩
            · rw [hrest']
              simp
            · intro l hl
              rcases List.mem_append.mp hl with hl | hl
              · exact hblanks l hl
              · exact hblanks' l (List.mem_reverse.mp hl)
          · simp [hclose] at h
      · simp [hopen] at h
  · rintro ⟨blanks, first, last, blanks', rfl, hblanks, hopen, hclose⟩
    have hfirst : (blanks ++ first :: inner ++ last :: blanks').dropWhile blank = first :: (inner ++ last :: blanks') :=
      dropWhile_blank.mpr ⟨blanks, by simp, fun l hl => hblanks l (List.mem_append_left _ hl), blank_of_mark hopen⟩
    have hlast : (inner ++ last :: blanks').reverse.dropWhile blank = last :: inner.reverse :=
      dropWhile_blank.mpr ⟨blanks'.reverse, by simp,
        fun l hl => hblanks l (List.mem_append_right _ (List.mem_reverse.mp hl)),
          blank_of_mark (fenceOpen_of_close hclose)⟩
    simp only [hfirst, hlast, hopen, hclose, ↓reduceIte, List.reverse_reverse]

/-- Blank lines do not decide whether there is a fence. -/
theorem inFence_isSome : (∃ inner, inFence ls = some inner) ↔
    ∃ first inner last, inked ls = first :: (inner ++ [last]) ∧ fenceOpen first = true ∧ fenceClose last = true := by
  constructor
  · rintro ⟨inner, h⟩
    obtain ⟨blanks, first, last, blanks', rfl, hblanks, hopen, hclose⟩ := inFence_eq_some.mp h
    refine ⟨first, inked inner, last, ?_, hopen, hclose⟩
    have hb : inked blanks = [] := inked_eq_nil.mpr fun l hl => hblanks l (List.mem_append_left _ hl)
    have hb' : inked blanks' = [] := inked_eq_nil.mpr fun l hl => hblanks l (List.mem_append_right _ hl)
    have hcons : ∀ x xs, fenceOpen x = true → inked (x :: xs) = x :: inked xs := by
      intro x xs hx
      exact List.filter_cons_of_pos (by rw [blank_of_mark hx]; rfl)
    rw [inked_append, inked_append, hb, hcons first _ hopen, hcons last _ (fenceOpen_of_close hclose), hb']
    rfl
  · rintro ⟨first, inner, last, h, hopen, hclose⟩
    obtain ⟨blanks, rest, rfl, hblanks, -, hrest⟩ := List.filter_eq_cons_iff.mp h
    obtain ⟨inner', tail, rfl, -, htail⟩ := List.filter_eq_append_iff.mp hrest
    obtain ⟨more, blanks', rfl, hmore, -, hblanks'⟩ := List.filter_eq_cons_iff.mp htail
    refine ⟨inner' ++ more, inFence_eq_some.mpr ⟨blanks, first, last, blanks', by simp, ?_, hopen, hclose⟩⟩
    intro l hl
    rcases List.mem_append.mp hl with hl | hl
    · simpa using hblanks l hl
    · exact inked_eq_nil.mp hblanks' l hl

theorem inFence_congr (h : inked ls = inked ls') : inFence ls = none ↔ inFence ls' = none := by
  rw [Option.eq_none_iff_forall_ne_some, Option.eq_none_iff_forall_ne_some]
  have hsame : (∃ inner, inFence ls = some inner) ↔ ∃ inner, inFence ls' = some inner := by
    rw [inFence_isSome, inFence_isSome, h]
  rw [← not_exists, ← not_exists, hsame]

theorem inked_splitlines_concat : inked (splitlines (text ++ ['\n'])) = inked (splitlines text) := by
  have hends : splitFrom [] (text ++ ['\n']) = splitFrom [] text ∨
      splitFrom [] (text ++ ['\n']) = splitFrom [] text ++ [[]] := splitFrom_concat
  rcases hends with h | h
  · exact congrArg inked h
  · refine (congrArg inked h).trans ?_
    rw [inked_append, inked_nil, List.append_nil]
    rfl

theorem inked_splitlines_join (h : ∀ l ∈ ls, ∀ c ∈ l, isBreak c = false) : inked (splitlines (join ls)) = inked ls := by
  rcases splitlines_join h with heq | heq
  · rw [heq]
  · conv_rhs => rw [heq, inked_append, inked_nil, List.append_nil]

/-! ## Envelope lines -/

theorem isEnvelope_iff : isEnvelope l = true ↔ ∃ mark ∈ envelopeMarks, ∃ x, l = mark ++ x := by
  unfold isEnvelope
  rw [List.any_eq_true]
  constructor
  · rintro ⟨mark, hmark, hl⟩
    obtain ⟨x, rfl⟩ := List.isPrefixOf_iff_prefix.mp hl
    exact ⟨mark, hmark, x, rfl⟩
  · rintro ⟨mark, hmark, x, rfl⟩
    exact ⟨mark, hmark, List.isPrefixOf_iff_prefix.mpr (List.prefix_append mark x)⟩

/-- A mark starts with a star, and is no more than one line. -/
theorem mark_star {mark : Line} (h : mark ∈ envelopeMarks) :
    (∃ rest, mark = '*' :: rest) ∧ ∀ c ∈ mark, isBreak c = false := by
  have hall : ∀ mark ∈ envelopeMarks, mark.head? = some '*' ∧ mark.all (fun c => !isBreak c) = true := by decide +kernel
  obtain ⟨hhead, hbreak⟩ := hall mark h
  refine ⟨?_, fun c hc => by simpa using List.all_eq_true.mp hbreak c hc⟩
  cases mark with
  | nil => cases hhead
  | cons c rest => exact ⟨rest, by rw [Option.some.inj hhead]⟩

theorem envelope_star (h : isEnvelope l = true) : ∃ rest, l = '*' :: rest := by
  obtain ⟨mark, hmark, x, rfl⟩ := isEnvelope_iff.mp h
  obtain ⟨⟨rest, rfl⟩, -⟩ := mark_star hmark
  exact ⟨rest ++ x, rfl⟩

theorem blank_of_envelope (h : isEnvelope l = true) : blank l = false := by
  obtain ⟨rest, rfl⟩ := envelope_star h
  refine Bool.eq_false_iff.mpr fun hblank => ?_
  exact absurd (blank_iff.mp hblank '*' List.mem_cons_self) (by decide)

theorem fenceOpen_of_envelope (h : isEnvelope l = true) : fenceOpen l = false := by
  obtain ⟨rest, rfl⟩ := envelope_star h
  rfl

theorem kept_append : kept (ls ++ ls') = kept ls ++ kept ls' := List.filter_append ..

theorem kept_eq_nil : kept ls = [] ↔ ∀ l ∈ ls, isEnvelope l = true := by
  simp [kept, List.filter_eq_nil_iff]

theorem kept_eq_self : kept ls = ls ↔ ∀ l ∈ ls, isEnvelope l = false := by
  simp [kept, List.filter_eq_self]

theorem inked_kept : inked (kept ls) = kept (inked ls) := by
  unfold inked kept
  rw [List.filter_filter, List.filter_filter]
  exact List.filter_congr fun l _ => Bool.and_comm _ _

theorem stripPatchEnvelope_same (h : ∀ l ∈ splitlines text, isEnvelope l = false) : stripPatchEnvelope text = text := by
  simp only [stripPatchEnvelope, kept_eq_self.mpr h, ↓reduceIte]

theorem stripPatchEnvelope_join (h : ¬ ∀ l ∈ splitlines text, isEnvelope l = false) :
    stripPatchEnvelope text = join (kept (splitlines text)) := by
  unfold stripPatchEnvelope
  rw [if_neg]
  intro hlength
  have hsub : (kept (splitlines text)).Sublist (splitlines text) := List.filter_sublist
  exact h (kept_eq_self.mp (hsub.eq_of_length hlength))

theorem break_free (l : Line) (hl : l ∈ splitlines text) : ∀ c ∈ l, isBreak c = false :=
  fun _ hc => (mem_splitlines hl hc).2

/-- What is left of the lines: no envelope line, and of the others all that are not blank. -/
theorem stripPatchEnvelope_lines : (∀ l ∈ splitlines (stripPatchEnvelope text), isEnvelope l = false) ∧
    inked (splitlines (stripPatchEnvelope text)) = inked (kept (splitlines text)) := by
  by_cases h : ∀ l ∈ splitlines text, isEnvelope l = false
  · rw [stripPatchEnvelope_same h, kept_eq_self.mpr h]
    exact ⟨h, rfl⟩
  · have hfree : ∀ l ∈ kept (splitlines text), ∀ c ∈ l, isBreak c = false :=
      fun l hl => break_free l (List.mem_of_mem_filter hl)
    rw [stripPatchEnvelope_join h]
    refine ⟨fun l hl => ?_, inked_splitlines_join hfree⟩
    have hmem : l ∈ kept (splitlines text) := by
      rcases splitlines_join hfree with heq | heq
      · exact heq ▸ hl
      · rw [heq]
        exact List.mem_append_left _ hl
    simpa using List.of_mem_filter hmem

/-! ## What is stripped makes the text shorter -/

def weight (lines : List Line) : Nat := (lines.map fun l => l.length + 1).sum

theorem weight_append : weight (ls ++ ls') = weight ls + weight ls' := by simp [weight]

theorem weight_cons : weight (l :: ls) = l.length + 1 + weight ls := rfl

theorem weight_kept (ls : List Line) : weight (kept ls) ≤ weight ls := by
  induction ls with
  | nil => exact Nat.le_refl _
  | cons l ls ih =>
    have hcons : kept (l :: ls) = kept ls ∨ kept (l :: ls) = l :: kept ls := by
      cases hl : isEnvelope l with
      | true => exact .inl (List.filter_cons_of_neg (by simp [hl]))
      | false => exact .inr (List.filter_cons_of_pos (by simp [hl]))
    rcases hcons with h | h
    · rw [h, weight_cons]
      omega
    · rw [h, weight_cons, weight_cons]
      omega

theorem length_join_lt (hl : l ≠ []) (hle : weight ls' + l.length + 1 ≤ weight ls) :
    (join ls').length < (join ls).length := by
  have hpos := List.length_pos_of_ne_nil hl
  have hls : ls ≠ [] := by
    rintro rfl
    simp [weight] at hle
  have hlen : (join ls).length + 1 = weight ls := length_join hls
  by_cases hls' : ls' = []
  · subst hls'
    have hzero : (join ([] : List Line)).length = 0 := rfl
    omega
  · have hlen' : (join ls').length + 1 = weight ls' := length_join hls'
    omega

theorem length_stripPatchEnvelope (h : ¬ ∀ l ∈ splitlines text, isEnvelope l = false) :
    (stripPatchEnvelope text).length < text.length := by
  rw [stripPatchEnvelope_join h]
  obtain ⟨l, hnot⟩ := not_forall.mp h
  obtain ⟨hl, henv⟩ := Classical.not_imp.mp hnot
  have henv' : isEnvelope l = true := by simpa using henv
  obtain ⟨rest, hstar⟩ := envelope_star henv'
  obtain ⟨a, b, hab⟩ := List.append_of_mem hl
  have hkept : kept (splitlines text) = kept a ++ kept b := by
    have hcons : kept (l :: b) = kept b := List.filter_cons_of_neg (by simp [henv'])
    rw [hab, kept_append, hcons]
  have hweight : weight (kept (splitlines text)) + l.length + 1 ≤ weight (splitlines text) := by
    have ha := weight_kept a
    have hb := weight_kept b
    rw [hkept, hab, weight_append, weight_append, weight_cons]
    omega
  have hlt := length_join_lt (by rw [hstar]; simp) hweight
  exact Nat.lt_of_lt_of_le hlt (length_join_splitlines text)

theorem length_inFence (h : inFence (splitlines text) = some inner) : (join inner).length < text.length := by
  obtain ⟨blanks, first, last, blanks', hlines, -, hopen, -⟩ := inFence_eq_some.mp h
  have hne : first ≠ [] := by
    rintro rfl
    exact absurd hopen (by decide)
  have hweight : weight inner + first.length + 1 ≤ weight (splitlines text) := by
    rw [hlines, weight_append, weight_append, weight_cons]
    omega
  exact Nat.lt_of_lt_of_le (length_join_lt hne hweight) (length_join_splitlines text)

theorem length_stripPatchEnvelope_le (text : List Char) : (stripPatchEnvelope text).length ≤ text.length := by
  by_cases h : ∀ l ∈ splitlines text, isEnvelope l = false
  · rw [stripPatchEnvelope_same h]
  · exact (length_stripPatchEnvelope h).le

/-! ## Texts that a pass leaves -/

theorem stripCodeFences_none (h : inFence (splitlines text) = none) : stripCodeFences text = text := by
  simp only [stripCodeFences, h]

theorem stripCodeFences_some (h : inFence (splitlines text) = some inner) : stripCodeFences text = join inner := by
  simp only [stripCodeFences, h]

theorem normalize_bare (h : Bare text) : normalizeDiffPayload text = text := by
  unfold normalizeDiffPayload
  rw [stripCodeFences_none h.1, stripPatchEnvelope_same h.2]

theorem length_normalize (h : ¬Bare text) : (normalizeDiffPayload text).length < text.length := by
  unfold normalizeDiffPayload
  cases hfence : inFence (splitlines text) with
  | some inner =>
    rw [stripCodeFences_some hfence]
    exact Nat.lt_of_le_of_lt (length_stripPatchEnvelope_le _) (length_inFence hfence)
  | none =>
    rw [stripCodeFences_none hfence]
    exact length_stripPatchEnvelope fun henv => h ⟨hfence, henv⟩

theorem normalize_eq_self_iff : normalizeDiffPayload text = text ↔ Bare text := by
  refine ⟨fun h => ?_, normalize_bare⟩
  by_contra hbare
  have hlt := length_normalize hbare
  rw [h] at hlt
  exact Nat.lt_irrefl _ hlt

theorem normalize_lines : (∀ l ∈ splitlines (normalizeDiffPayload text), isEnvelope l = false) ∧
    inked (splitlines (normalizeDiffPayload text)) =
      inked (kept ((inFence (splitlines text)).getD (splitlines text))) := by
  unfold normalizeDiffPayload
  cases hfence : inFence (splitlines text) with
  | none =>
    rw [stripCodeFences_none hfence]
    exact stripPatchEnvelope_lines
  | some inner =>
    obtain ⟨blanks, first, last, blanks', hlines, -⟩ := inFence_eq_some.mp hfence
    have hfree : ∀ l ∈ inner, ∀ c ∈ l, isBreak c = false := by
      intro l hl
      exact break_free l (by rw [hlines]; simp [hl])
    obtain ⟨henv, hinked⟩ := @stripPatchEnvelope_lines (join inner)
    rw [stripCodeFences_some hfence]
    refine ⟨henv, hinked.trans ?_⟩
    rw [inked_kept, inked_splitlines_join hfree, inked_kept]
    rfl

/-- **A second pass** has work to do exactly if the first one leaves a fence. -/
theorem normalize_idem_iff : normalizeDiffPayload (normalizeDiffPayload text) = normalizeDiffPayload text ↔
    Settled text := by
  obtain ⟨henv, hinked⟩ := @normalize_lines text
  rw [normalize_eq_self_iff]
  unfold Bare Settled
  rw [inFence_congr hinked]
  exact ⟨fun h => h.1, fun h => ⟨h, henv⟩⟩

theorem plain_normalize (h : ¬Bare text) : Plain (normalizeDiffPayload text) := by
  have hkept : ∀ text : List Char, Plain (join (kept (splitlines text))) := by
    intro text
    exact plain_join fun l hl => break_free l (List.mem_of_mem_filter hl)
  unfold normalizeDiffPayload
  by_cases henv : ∀ l ∈ splitlines (stripCodeFences text), isEnvelope l = false
  · rw [stripPatchEnvelope_same henv]
    cases hfence : inFence (splitlines text) with
    | none =>
      rw [stripCodeFences_none hfence] at henv
      exact absurd ⟨hfence, henv⟩ h
    | some inner =>
      obtain ⟨blanks, first, last, blanks', hlines, -⟩ := inFence_eq_some.mp hfence
      rw [stripCodeFences_some hfence]
      exact plain_join fun l hl => break_free l (by rw [hlines]; simp [hl])
  · rw [stripPatchEnvelope_join henv]
    exact hkept _

end

/-! ## What the wrappers put around a hunk -/

/-- A fence that opens above the hunk closes below it. -/
structure Nested (upper lower : List Line) : Prop where
  closed : ∀ first rest, inked upper = first :: rest → fenceOpen first = true → inked lower ≠ []
  opened : inked upper = [] → ∀ first rest, inked lower = first :: rest → fenceOpen first = false

section
variable {ls upper lower more : List Line} {l : Line} {w : Wrapper} {ws : List Wrapper} {body : HunkBody}

/-- A terminated line that starts with a mark. -/
theorem splitlines_marked (mark x : Line) (ls : List Line) (hfree : ∀ c ∈ mark, isBreak c = false) (hne : mark ≠ [])
    (hink : ∀ y, blank (mark ++ y) = false) :
    ∃ y rest, inked (splitlines (terminated ((mark ++ x) :: ls))) = (mark ++ y) :: rest := by
  rw [terminated_cons, List.append_assoc]
  obtain ⟨y, rest, heq⟩ := splitlines_mark hfree hne (x ++ '\n' :: terminated ls)
  exact ⟨y, inked rest, by rw [heq]; exact List.filter_cons_of_pos (by rw [hink y]; rfl)⟩

theorem splitlines_envelope (ls : List Line) (h : isEnvelope l = true) :
    ∃ first rest, inked (splitlines (terminated (l :: ls))) = first :: rest ∧ isEnvelope first = true := by
  obtain ⟨mark, hmark, x, rfl⟩ := isEnvelope_iff.mp h
  obtain ⟨⟨tail, htail⟩, hfree⟩ := mark_star hmark
  have henv : ∀ y, isEnvelope (mark ++ y) = true := fun y => isEnvelope_iff.mpr ⟨mark, hmark, y, rfl⟩
  obtain ⟨y, rest, heq⟩ := splitlines_marked mark x ls hfree (by rw [htail]; simp)
    fun y => blank_of_envelope (henv y)
  exact ⟨_, rest, heq, henv y⟩

theorem splitlines_fence (x : Line) : ∃ first rest, inked (splitlines (terminated [fenceMark ++ x])) =
    first :: rest := by
  have hall : fenceMark.all (fun c => !isBreak c) = true := by decide +kernel
  have hfree : ∀ c ∈ fenceMark, isBreak c = false := fun c hc => by simpa using List.all_eq_true.mp hall c hc
  have hne : fenceMark ≠ [] := List.cons_ne_nil _ _
  obtain ⟨y, rest, heq⟩ := splitlines_marked fenceMark x [] hfree hne fun y =>
    blank_of_mark (List.isPrefixOf_iff_prefix.mpr (List.prefix_append fenceMark y))
  exact ⟨_, rest, heq⟩

theorem splitlines_blanks (h : ∀ l ∈ ls, blank l = true) : inked (splitlines (terminated ls)) = [] := by
  rw [inked_eq_nil]
  intro l hl
  refine blank_iff.mpr fun c hc => ?_
  obtain ⟨x, hx, hmem⟩ := List.mem_flatMap.mp (mem_splitlines hl hc).1
  rcases List.mem_append.mp hmem with hmem | hmem
  · exact blank_iff.mp (h x hx) c hmem
  · rw [List.mem_singleton.mp hmem]
    decide

theorem Nested.cons (h : Nested upper lower) (w : Wrapper) :
    Nested (splitlines (terminated w.above) ++ upper) (lower ++ splitlines (terminated w.below)) := by
  cases w with
  | blanks above below hblank =>
    have ha := splitlines_blanks fun l hl => (hblank l (List.mem_append_left _ hl)).1
    have hb := splitlines_blanks fun l hl => (hblank l (List.mem_append_right _ hl)).1
    constructor
    · rw [inked_append, inked_append, Wrapper.above, Wrapper.below, ha, hb, List.nil_append, List.append_nil]
      exact h.closed
    · rw [inked_append, inked_append, Wrapper.above, Wrapper.below, ha, hb, List.nil_append, List.append_nil]
      exact h.opened
  | fence info tail hfence =>
    obtain ⟨first, rest, ha⟩ := splitlines_fence info
    obtain ⟨last, rest', hb⟩ := splitlines_fence tail
    constructor
    · intro _ _ _ _
      rw [inked_append, Wrapper.below, hb]
      exact List.append_ne_nil_of_right_ne_nil _ (List.cons_ne_nil _ _)
    · rw [inked_append, Wrapper.above, ha]
      exact fun hnil => (nomatch hnil)
  | envelope header footer henv =>
    cases header with
    | cons l ls =>
      obtain ⟨mark, rest, ha, hmark⟩ := splitlines_envelope ls (henv l List.mem_cons_self).1
      constructor
      · rw [inked_append, Wrapper.above, ha, List.cons_append]
        intro first rest' heq hopen
        rw [← (List.cons.inj heq).1, fenceOpen_of_envelope hmark] at hopen
        cases hopen
      · rw [inked_append, Wrapper.above, ha]
        exact fun hnil => (nomatch hnil)
    | nil =>
      have hupper : splitlines (terminated (Wrapper.envelope [] footer henv).above) ++ upper = upper := rfl
      rw [hupper]
      cases footer with
      | nil =>
        have hlower : lower ++ splitlines (terminated (Wrapper.envelope [] [] henv).below) = lower :=
          List.append_nil lower
        rw [hlower]
        exact h
      | cons l ls =>
        obtain ⟨mark, rest, hb, hmark⟩ := splitlines_envelope ls (henv l (by simp)).1
        constructor
        · intro first rest' heq hopen
          rw [inked_append]
          exact List.append_ne_nil_of_left_ne_nil (h.closed first rest' heq hopen) _
        · intro hnil first rest' heq
          rw [inked_append, Wrapper.below, hb] at heq
          cases hlower : inked lower with
          | nil =>
            rw [hlower, List.nil_append] at heq
            rw [← (List.cons.inj heq).1]
            exact fenceOpen_of_envelope hmark
          | cons x xs =>
            rw [hlower, List.cons_append] at heq
            rw [← (List.cons.inj heq).1]
            exact h.opened hnil x xs hlower

theorem nested_terminated (ws : List Wrapper) : Nested (splitlines (terminated (above ws)))
    (splitlines (terminated (below ws))) := by
  induction ws with
  | nil => exact ⟨fun _ _ h _ => (nomatch h), fun _ _ _ h => (nomatch h)⟩
  | cons w ws ih =>
    have hupper : splitlines (terminated (above (w :: ws))) =
        splitlines (terminated w.above) ++ splitlines (terminated (above ws)) := by
      rw [above, List.flatMap_cons, terminated_append, splitlines_terminated]
      rfl
    have hlower : splitlines (terminated (below (w :: ws))) =
        splitlines (terminated (below ws)) ++ splitlines (terminated w.below) := by
      rw [below, terminated_append, splitlines_terminated]
    rw [hupper, hlower]
    exact ih.cons w

/-- The same for the text, which has no `\n` at its end. -/
theorem nested (ws : List Wrapper) : Nested (splitlines (terminated (above ws))) (splitlines (join (below ws))) := by
  obtain ⟨hclosed, hopened⟩ := nested_terminated ws
  by_cases h : below ws = []
  · rw [h] at hclosed hopened ⊢
    exact ⟨hclosed, hopened⟩
  · rw [terminated_eq_join h] at hclosed hopened
    rw [inked_splitlines_concat] at hclosed hopened
    exact ⟨hclosed, hopened⟩

/-! ## Wrapped hunks -/

theorem HunkLine.ne_nil (h : HunkLine l) : l ≠ [] := by
  rintro rfl
  rcases h.2 with ⟨c, -, hc⟩ | hat
  · simp at hc
  · exact absurd hat (by decide)

theorem HunkLine.not_mark (h : HunkLine l) : fenceOpen l = false ∧ isEnvelope l = false := by
  have hhead : ∀ rest, l ≠ Char.ofNat 96 :: rest ∧ l ≠ '*' :: rest := by
    intro rest
    refine ⟨?_, ?_⟩
    · rintro rfl
      rcases h.2 with ⟨c, hmem, hc⟩ | hat
      · have hcc : c = Char.ofNat 96 := (List.cons_prefix_cons.mp hc).1
        subst hcc
        exact absurd hmem (by decide)
      · exact absurd (List.cons_prefix_cons.mp hat).1 (by decide)
    · rintro rfl
      rcases h.2 with ⟨c, hmem, hc⟩ | hat
      · have hcc : c = '*' := (List.cons_prefix_cons.mp hc).1
        subst hcc
        exact absurd hmem (by decide)
      · exact absurd (List.cons_prefix_cons.mp hat).1 (by decide)
  constructor
  · refine Bool.eq_false_iff.mpr fun hopen => ?_
    obtain ⟨rest, rfl⟩ := List.isPrefixOf_iff_prefix.mp hopen
    exact (hhead _).1 rfl
  · refine Bool.eq_false_iff.mpr fun henv => ?_
    obtain ⟨rest, hstar⟩ := envelope_star henv
    exact (hhead rest).2 hstar

theorem HunkBody.free (h : Plain body.text) : ∀ l ∈ body.lines, ∀ c ∈ l, isBreak c = false := by
  intro l hl c hc
  refine Bool.eq_false_iff.mpr fun hbreak => ?_
  have hnl := h c (mem_join_of_mem hl hc) hbreak
  rw [hnl] at hc
  exact (body.hunk l hl).1 hc

theorem kept_body (body : HunkBody) : kept body.lines = body.lines :=
  kept_eq_self.mpr fun l hl => (body.hunk l hl).not_mark.2

theorem splitlines_terminated_free (h : ∀ l ∈ ls, ∀ c ∈ l, isBreak c = false) : splitlines (terminated ls) = ls := by
  induction ls with
  | nil => rfl
  | cons l ls ih =>
    have ih' := ih fun x hx => h x (List.mem_cons_of_mem _ hx)
    unfold splitlines at ih' ⊢
    rw [terminated_cons, splitFrom_line (h l List.mem_cons_self), splitFrom_newline, ih', List.nil_append]

/-- Without an empty line at the end none is lost. -/
theorem splitlines_join_inked (h : ∀ l ∈ ls, ∀ c ∈ l, isBreak c = false) (hne : [] ∉ ls) :
    splitlines (join ls) = ls := by
  rcases splitlines_join h with heq | heq
  · exact heq
  · exact absurd (heq ▸ List.mem_append_right _ List.mem_cons_self) hne

theorem splitlines_wrap (h : Plain body.text) : splitlines (wrap ws body) =
    splitlines (terminated (above ws)) ++ body.lines ++ splitlines (join (below ws)) := by
  have hne : body.lines ++ below ws ≠ [] := List.append_ne_nil_of_left_ne_nil body.some_line _
  unfold wrap
  rw [List.append_assoc, join_append hne, splitlines_terminated, List.append_assoc]
  congr 1
  by_cases hb : below ws = []
  · have hnil : [] ∉ body.lines := fun hmem => (body.hunk [] hmem).ne_nil rfl
    rw [hb, List.append_nil, splitlines_join_inked (HunkBody.free h) hnil]
    exact (List.append_nil _).symm
  · rw [join_append hb, splitlines_terminated, splitlines_terminated_free (HunkBody.free h)]

theorem weight_pos (h : ls ≠ []) : 0 < weight ls := by
  obtain ⟨l, rest, rfl⟩ := List.exists_cons_of_ne_nil h
  rw [weight_cons]
  omega

/-- Lines around the hunk show. -/
theorem join_around (h : join (upper ++ body.lines ++ lower) = body.text) : upper ++ lower = [] := by
  have hne : upper ++ body.lines ++ lower ≠ [] := by simp [body.some_line]
  have hw : (join (upper ++ body.lines ++ lower)).length + 1 = weight (upper ++ body.lines ++ lower) := length_join hne
  have hw' : body.text.length + 1 = weight body.lines := length_join body.some_line
  rw [h, weight_append, weight_append] at hw
  by_contra hsome
  have hpos := weight_pos hsome
  rw [weight_append] at hpos
  omega

/-- The fence is around the hunk. -/
theorem fence_around {inner : List Line} (hn : Nested upper lower)
    (h : inFence (upper ++ body.lines ++ lower) = some inner) :
    ∃ blanks first marks marks' last blanks', upper = blanks ++ first :: marks ∧ lower = marks' ++ last :: blanks' ∧
      (∀ l ∈ blanks ++ blanks', blank l = true) ∧ fenceOpen first = true ∧ fenceClose last = true := by
  obtain ⟨first, mid, last, hinked, hopen, hclose⟩ := inFence_isSome.mp ⟨inner, h⟩
  rw [inked_append, inked_append] at hinked
  cases hupper : inked upper with
  | nil =>
    -- the first line that is not blank is one of the hunk, or below it
    rw [hupper, List.nil_append] at hinked
    cases hbody : inked body.lines with
    | nil =>
      rw [hbody, List.nil_append] at hinked
      rw [hn.opened hupper first _ hinked] at hopen
      cases hopen
    | cons l rest =>
      rw [hbody, List.cons_append, List.cons.injEq] at hinked
      have hl : l ∈ body.lines := List.mem_of_mem_filter (hbody ▸ List.mem_cons_self : l ∈ inked body.lines)
      rw [← hinked.1, (body.hunk l hl).not_mark.1] at hopen
      cases hopen
  | cons x rest =>
    rw [hupper, List.cons_append, List.cons_append, List.cons.injEq] at hinked
    obtain ⟨rfl, hrest⟩ := hinked
    obtain ⟨blanks, marks, rfl, hblanks, -, -⟩ := List.filter_eq_cons_iff.mp hupper
    have hlower := hn.closed x rest hupper hopen
    obtain ⟨init, y, hy⟩ := List.eq_nil_or_concat (inked lower) |>.resolve_left hlower
    rw [hy, List.concat_eq_append, ← List.append_assoc] at hrest
    obtain ⟨-, hyl⟩ := List.append_inj' hrest rfl
    obtain rfl := List.singleton_inj.mp hyl
    rw [List.concat_eq_append] at hy
    obtain ⟨start, tail, rfl, -, htail⟩ := List.filter_eq_append_iff.mp hy
    obtain ⟨more, blanks', rfl, hmore, -, hblanks'⟩ := List.filter_eq_cons_iff.mp htail
    refine ⟨blanks, x, marks, start ++ more, y, blanks', rfl, by simp, fun l hl => ?_, hopen, hclose⟩
    rcases List.mem_append.mp hl with hl | hl
    · simpa using hblanks l hl
    · exact inked_eq_nil.mp hblanks' l hl

theorem kept_around : kept (upper ++ body.lines ++ lower) = kept upper ++ body.lines ++ kept lower := by
  rw [kept_append, kept_append, kept_body]

/-- Only envelope lines are dropped, and nothing else is around the hunk. -/
theorem kept_around_iff : kept (upper ++ body.lines ++ lower) = body.lines ↔
    ∀ l ∈ upper ++ lower, isEnvelope l = true := by
  rw [← kept_eq_nil, kept_around, kept_append]
  constructor
  · intro h
    exact join_around (congrArg join h)
  · intro h
    obtain ⟨hu, hl⟩ := List.append_eq_nil_iff.mp h
    rw [hu, hl, List.nil_append, List.append_nil]

theorem envelope_around (h : ¬ ∀ l ∈ upper ++ body.lines ++ lower, isEnvelope l = false) : upper ++ lower ≠ [] := by
  intro hnil
  obtain ⟨rfl, rfl⟩ := List.append_eq_nil_iff.mp hnil
  refine h fun l hl => ?_
  rw [List.nil_append, List.append_nil] at hl
  exact (body.hunk l hl).not_mark.2

/-- The envelope lines in a fence. -/
theorem shed_iff (hfree : ∀ l ∈ upper ++ body.lines ++ lower, ∀ c ∈ l, isBreak c = false) :
    stripPatchEnvelope (join (upper ++ body.lines ++ lower)) = body.text ↔ Shed upper lower := by
  have hbody : [] ∉ body.lines := fun hmem => (body.hunk [] hmem).ne_nil rfl
  constructor
  · intro h
    by_cases henv : ∀ l ∈ splitlines (join (upper ++ body.lines ++ lower)), isEnvelope l = false
    · rw [stripPatchEnvelope_same henv] at h
      exact .inl (by rw [join_around h]; exact fun _ hmem => nomatch hmem)
    · rw [stripPatchEnvelope_join henv] at h
      rcases splitlines_join hfree with heq | heq
      · rw [heq, kept_around] at h
        exact .inl (kept_eq_nil.mp (by rw [kept_append]; exact join_around h))
      · -- the last line is empty, and not one of the hunk
        have hlower : lower ≠ [] := by
          rintro rfl
          rw [List.append_nil] at heq
          have hlast : (upper ++ body.lines).getLast? = some [] := by rw [heq]; exact List.getLast?_concat
          rw [List.getLast?_append_of_ne_nil _ body.some_line] at hlast
          exact hbody (List.mem_of_getLast? hlast)
        obtain ⟨marks, x, hx⟩ := List.eq_nil_or_concat lower |>.resolve_left hlower
        rw [List.concat_eq_append] at hx
        subst hx
        rw [← List.append_assoc] at heq
        obtain ⟨hlines, hxl⟩ := List.append_inj' heq rfl
        obtain rfl := List.singleton_inj.mp hxl
        rw [← List.append_assoc] at h henv
        rw [← hlines] at h henv
        rw [kept_around] at h
        exact .inr ⟨marks, rfl, envelope_around henv, kept_eq_nil.mp (by rw [kept_append]; exact join_around h)⟩
  · rintro (henv | ⟨marks, rfl, hsome, henv⟩)
    · have hink : [] ∉ upper ++ body.lines ++ lower := by
        intro hmem
        rw [List.append_assoc, List.mem_append, List.mem_append] at hmem
        rcases hmem with hmem | hmem | hmem
        · exact absurd (henv [] (List.mem_append_left _ hmem)) (by decide)
        · exact hbody hmem
        · exact absurd (henv [] (List.mem_append_right _ hmem)) (by decide)
      have hlines := splitlines_join_inked hfree hink
      by_cases hnone : ∀ l ∈ upper ++ body.lines ++ lower, isEnvelope l = false
      · rw [stripPatchEnvelope_same (by rw [hlines]; exact hnone)]
        have hkept : kept (upper ++ body.lines ++ lower) = body.lines := kept_around_iff.mpr henv
        rw [kept_eq_self.mpr hnone] at hkept
        exact congrArg join hkept
      · rw [stripPatchEnvelope_join (by rw [hlines]; exact hnone), hlines, kept_around_iff.mpr henv]
        rfl
    · have hjoin : join (upper ++ body.lines ++ (marks ++ [[]])) = terminated (upper ++ body.lines ++ marks) := by
        rw [← List.append_assoc, join_append (List.cons_ne_nil _ _)]
        exact List.append_nil _
      have hfree' : ∀ l ∈ upper ++ body.lines ++ marks, ∀ c ∈ l, isBreak c = false := by
        intro l hl
        refine hfree l ?_
        rw [← List.append_assoc]
        exact List.mem_append_left _ hl
      have hlines := splitlines_terminated_free hfree'
      have hnone : ¬ ∀ l ∈ upper ++ body.lines ++ marks, isEnvelope l = false := by
        intro hall
        obtain ⟨l, hl⟩ := List.exists_mem_of_ne_nil _ hsome
        have hmem : l ∈ upper ++ body.lines ++ marks := by
          rcases List.mem_append.mp hl with hl | hl
          · exact List.mem_append_left _ (List.mem_append_left _ hl)
          · exact List.mem_append_right _ hl
        have hno := hall l hmem
        rw [henv l hl] at hno
        cases hno
      rw [hjoin, stripPatchEnvelope_join (by rw [hlines]; exact hnone), hlines, kept_around_iff.mpr henv]
      rfl

/-- **A wrapped hunk comes back** exactly if no line separator is in it and the wrappers peel. -/
theorem wrap_restored_iff (hne : above ws ++ below ws ≠ []) : normalizeDiffPayload (wrap ws body) = body.text ↔
    Plain body.text ∧ Peels (splitlines (terminated (above ws))) (splitlines (join (below ws))) := by
  constructor
  · intro h
    have hbare : ¬Bare (wrap ws body) := by
      intro hbare
      rw [normalize_bare hbare] at h
      exact hne (join_around h)
    have hplain : Plain body.text := h ▸ plain_normalize hbare
    have hlines : splitlines (wrap ws body) =
        splitlines (terminated (above ws)) ++ body.lines ++ splitlines (join (below ws)) := splitlines_wrap hplain
    have hfree : ∀ l ∈ splitlines (wrap ws body), ∀ c ∈ l, isBreak c = false := break_free
    refine ⟨hplain, ?_⟩
    unfold normalizeDiffPayload at h
    cases hfence : inFence (splitlines (wrap ws body)) with
    | none =>
      rw [stripCodeFences_none hfence] at h
      have henv : ¬ ∀ l ∈ splitlines (wrap ws body), isEnvelope l = false := fun hall => hbare ⟨hfence, hall⟩
      rw [stripPatchEnvelope_join henv, hlines, kept_around] at h
      rw [hlines] at henv
      exact .inl ⟨envelope_around henv, kept_eq_nil.mp (by rw [kept_append]; exact join_around h)⟩
    | some inner =>
      rw [stripCodeFences_some hfence] at h
      rw [hlines] at hfence hfree
      obtain ⟨blanks, first, marks, marks', last, blanks', hu, hl, hblanks, hopen, hclose⟩ :=
        fence_around (nested ws) hfence
      refine .inr ⟨blanks, first, marks, marks', last, blanks', hu, hl, hblanks, hopen, hclose, ?_⟩
      rw [hu, hl] at hfence hfree
      have hinner : inner = marks ++ body.lines ++ marks' := by
        have hcut : inFence (blanks ++ first :: (marks ++ body.lines ++ marks') ++ last :: blanks') =
            some (marks ++ body.lines ++ marks') :=
          inFence_eq_some.mpr ⟨blanks, first, last, blanks', rfl, hblanks, hopen, hclose⟩
        have heq : blanks ++ first :: marks ++ body.lines ++ (marks' ++ last :: blanks') =
            blanks ++ first :: (marks ++ body.lines ++ marks') ++ last :: blanks' := by simp
        rw [heq, hcut, Option.some.injEq] at hfence
        exact hfence.symm
      rw [hinner] at h
      refine (shed_iff fun l hmem => hfree l ?_).mp h
      simp only [List.mem_append, List.mem_cons] at hmem ⊢
      tauto
  · rintro ⟨hplain, ⟨hsome, henv⟩ | ⟨blanks, first, marks, marks', last, blanks', hu, hl, hblanks, hopen,
      hclose, hshed⟩⟩
    · have hlines : splitlines (wrap ws body) =
        splitlines (terminated (above ws)) ++ body.lines ++ splitlines (join (below ws)) := splitlines_wrap hplain
      have hfence : inFence (splitlines (wrap ws body)) = none := by
        refine Option.eq_none_iff_forall_ne_some.mpr fun inner hinner => ?_
        obtain ⟨blanks, first, last, blanks', heq, -, hopen, -⟩ := inFence_eq_some.mp hinner
        have hmem : first ∈ splitlines (wrap ws body) := by rw [heq]; simp
        rw [hlines, List.mem_append, List.mem_append] at hmem
        rcases hmem with (hmem | hmem) | hmem
        · rw [fenceOpen_of_envelope (henv first (List.mem_append_left _ hmem))] at hopen
          cases hopen
        · rw [(body.hunk first hmem).not_mark.1] at hopen
          cases hopen
        · rw [fenceOpen_of_envelope (henv first (List.mem_append_right _ hmem))] at hopen
          cases hopen
      have hmarked : ¬ ∀ l ∈ splitlines (wrap ws body), isEnvelope l = false := by
        intro hall
        obtain ⟨l, hl⟩ := List.exists_mem_of_ne_nil _ hsome
        have hno := hall l (by
          rw [hlines]
          rcases List.mem_append.mp hl with hl | hl
          · exact List.mem_append_left _ (List.mem_append_left _ hl)
          · exact List.mem_append_right _ hl)
        rw [henv l hl] at hno
        cases hno
      unfold normalizeDiffPayload
      rw [stripCodeFences_none hfence, stripPatchEnvelope_join hmarked, hlines, kept_around_iff.mpr henv]
      rfl
    · have hlines : splitlines (wrap ws body) = blanks ++ first :: (marks ++ body.lines ++ marks') ++
        last :: blanks' := by
        rw [splitlines_wrap hplain, hu, hl]
        simp
      have hfence := inFence_eq_some.mpr ⟨blanks, first, last, blanks', hlines, hblanks, hopen, hclose⟩
      unfold normalizeDiffPayload
      rw [stripCodeFences_some hfence]
      refine (shed_iff fun l hmem => @break_free (wrap ws body) l ?_).mpr hshed
      rw [hlines]
      exact List.mem_append_left _ (List.mem_append_right _ (List.mem_cons_of_mem _ hmem))

/-- **When `normalize_diff_payload` gives the hunk back, and which texts it leaves alone the second time.** -/
theorem normalize_restores (ws : List Wrapper) (body : HunkBody) (text : List Char) :
    (normalizeDiffPayload (wrap ws body) = body.text ↔ Restored ws body) ∧
    (normalizeDiffPayload (normalizeDiffPayload text) = normalizeDiffPayload text ↔ Settled text) := by
  refine ⟨?_, normalize_idem_iff⟩
  unfold Restored
  by_cases hne : above ws ++ below ws = []
  · obtain ⟨ha, hb⟩ := List.append_eq_nil_iff.mp hne
    have hwrap : wrap ws body = body.text := by
      unfold wrap
      rw [ha, hb, List.nil_append, List.append_nil]
      rfl
    rw [if_pos hne, hwrap]
    exact normalize_eq_self_iff
  · rw [if_neg hne]
    exact wrap_restored_iff hne

/-- A hunk of one line. -/
def oneLine (l : Line) (h : HunkLine l) : HunkBody := ⟨[l], List.cons_ne_nil _ _, fun _ hx => List.mem_singleton.mp hx ▸ h⟩

theorem added_a : HunkLine "+a".toList := ⟨by decide, .inl ⟨'+', by decide, by decide⟩⟩

/-- An addition with U+2028 in it. -/
theorem added_separator : HunkLine "+a\u2028b".toList := ⟨by decide, .inl ⟨'+', by decide, by decide⟩⟩

def plainFence : Wrapper := .fence [] [] (by simp)

def beginEnd : Wrapper := .envelope ["*** Begin Patch".toList] ["*** End Patch".toList] (by decide +kernel)

/-- What follows the separator looks like an envelope line. -/
theorem added_mark : HunkLine "+a\u2028*** End Patch".toList := ⟨by decide, .inl ⟨'+', by decide, by decide⟩⟩

/-- **A fence in an envelope stays**, and goes the second time; a separator in a fenced line is replaced, and what
follows one may be dropped from a bare hunk. -/
theorem fence_in_envelope :
    normalizeDiffPayload (wrap [beginEnd, plainFence] (oneLine _ added_a)) = "```\n+a\n```".toList ∧
    normalizeDiffPayload (normalizeDiffPayload (wrap [beginEnd, plainFence] (oneLine _ added_a))) = "+a".toList ∧
    normalizeDiffPayload (wrap [plainFence] (oneLine _ added_separator)) = "+a\nb".toList ∧
    normalizeDiffPayload (oneLine _ added_mark).text = "+a".toList ∧
    normalizeDiffPayload (wrap [plainFence, beginEnd] (oneLine _ added_a)) = "+a".toList := by
  decide +kernel

end

end SynnoDB.Tools.DiffWrappers
