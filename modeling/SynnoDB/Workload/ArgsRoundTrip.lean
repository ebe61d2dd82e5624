import SynnoDB.Workload.ArgsLine

/-!
# Which values cross the args line

`Value.Whole` is the condition under which a value comes through: a string that starts with `(` is
written bare and read as a word, every other string is put between bare double quotes and read with
`std::quoted`, and `std::getline` ends the line at the first newline. Dates in a list come through as the
SQL literal `date '…'` (`Value.arrives`), not as the date (`Value.wanted`).
-/

namespace SynnoDB.Workload

open IStream (Plain word quoted)

/-! ## What is meant and what arrives -/

/-- The member itself. -/
def Member.wanted : Member → Text
  | .str s => s
  | .num t => t.text
  | .date iso => iso.text

/-- The member as `parse_in_list` returns it. -/
def Member.arrives : Member → Text
  | .date iso => renderMember (.date iso)
  | m => m.wanted

def Member.Whole : Member → Prop
  | .str s => '\n' ∉ s
  | _ => True

def Member.NoDate : Member → Prop
  | .date _ => False
  | _ => True

namespace Value

def members : Value → List Member
  | .str _ => []
  | .inList m ms => m :: ms

def wanted : Value → Field
  | .str s => .scalar s
  | .inList m ms => .inList ((m :: ms).map Member.wanted)

def arrives : Value → Field
  | .str s => .scalar s
  | .inList m ms => .inList ((m :: ms).map Member.arrives)

def Whole : Value → Prop
  | .str s => if s.head? = some '(' then ∀ c ∈ s, isSpace c = false else Plain s ∧ '\n' ∉ s
  | .inList m ms => ∀ x ∈ m :: ms, x.Whole

def NoDate (v : Value) : Prop := ∀ m ∈ v.members, m.NoDate

end Value

theorem Member.arrives_eq_wanted {m : Member} : m.arrives = m.wanted ↔ m.NoDate := by
  cases m with
  | date iso =>
    simp only [arrives, wanted, NoDate, iff_false]
    intro h
    have := congrArg List.length h
    simp only [renderMember, List.length_cons, List.length_append] at this
    omega
  | _ => simp [arrives, NoDate]

/-! ## `std::getline` cuts at the first newline -/

def cut (t : Text) : Text := t.takeWhile (· ≠ '\n')

@[simp] theorem cut_nil : cut [] = [] := rfl

theorem cut_cons {c : Char} (h : c ≠ '\n') (t : Text) : cut (c :: t) = c :: cut t := by simp [cut, h]

@[simp] theorem cut_newline (t : Text) : cut ('\n' :: t) = [] := by simp [cut]

theorem cut_append {a : Text} (h : '\n' ∉ a) (b : Text) : cut (a ++ b) = a ++ cut b :=
  List.takeWhile_append_of_pos fun c hc => by
    simp only [ne_eq, decide_eq_true_eq]
    rintro rfl
    exact h hc

theorem length_cut_lt {a : Text} (h : '\n' ∈ a) (b : Text) : (cut (a ++ b)).length < a.length := by
  induction a with
  | nil => simp at h
  | cons c a ih =>
    by_cases hc : c = '\n'
    · subst hc; simp
    · have := ih (by simpa [Ne.symm hc] using h)
      rw [List.cons_append, cut_cons hc]
      simpa using this

theorem line_eq (t : Text) : (⟨t, false⟩ : IStream).line = cut t := rfl

/-! ## Members -/

theorem join_cons (sep t : Text) (ts : List Text) : join sep (t :: ts) = t ++ ts.flatMap (sep ++ ·) := by
  induction ts generalizing t with
  | nil => simp [join]
  | cons u ts ih => rw [join, ih]; simp

theorem sqlQuoted_cons {c : Char} (h : c ≠ '\'') (r : Text) :
    sqlQuoted (c :: r) = (c :: (sqlQuoted r).1, (sqlQuoted r).2) := by
  rw [sqlQuoted]
  · rintro r' rfl; exact absurd rfl h
  · rintro rfl; exact absurd rfl h

/-- Doubled quotes are read back, up to the closing quote. -/
theorem sqlQuoted_escape (s : Text) {r : Text} (hr : r.head? ≠ some '\'') :
    sqlQuoted (escapeQuotes s ++ '\'' :: r) = (s, ⟨r, false⟩) := by
  induction s with
  | nil =>
    cases r with
    | nil => rfl
    | cons c r => rw [escapeQuotes, List.flatMap_nil, List.nil_append, sqlQuoted]; rintro r' h; simp_all
  | cons c s ih =>
    rw [escapeQuotes, List.flatMap_cons, ← escapeQuotes]
    by_cases hc : c = '\''
    · subst hc
      simp only [↓reduceIte, List.cons_append, List.nil_append, sqlQuoted, ih]
    · simp only [if_neg hc, List.cons_append, List.nil_append, sqlQuoted_cons hc, ih]

/-- A member with a newline arrives shortened. -/
theorem sqlQuoted_cut {s : Text} (hs : '\n' ∈ s) (r : Text) :
    (sqlQuoted (cut (escapeQuotes s ++ r))).1.length < s.length := by
  induction s with
  | nil => simp at hs
  | cons c s ih =>
    rw [escapeQuotes, List.flatMap_cons, ← escapeQuotes]
    by_cases hn : c = '\n'
    · subst hn
      simp [sqlQuoted]
    · have hs' : '\n' ∈ s := by simpa [Ne.symm hn] using hs
      have := ih hs'
      by_cases hc : c = '\''
      · subst hc
        simp only [↓reduceIte, List.cons_append, List.nil_append, cut_cons (c := '\'') (by decide), sqlQuoted,
          List.length_cons]
        omega
      · simp only [if_neg hc, List.cons_append, List.nil_append, cut_cons hn, sqlQuoted_cons hc, List.length_cons]
        omega

theorem bareText_eq {t r : Text} (ht : ∀ c ∈ t, c ≠ ',' ∧ c ≠ ')') (hr : r.head? = some ',' ∨ r.head? = some ')') :
    bareText (t ++ r) = (t, ⟨r, false⟩) := by
  induction t with
  | nil =>
    cases r with
    | nil => simp at hr
    | cons c r =>
      have hc : c = ',' ∨ c = ')' := by simpa using hr
      simp [bareText, hc]
  | cons c t ih =>
    obtain ⟨h1, h2⟩ := ht c List.mem_cons_self
    simp [bareText, h1, h2, ih fun d hd => ht d (List.mem_cons_of_mem c hd)]

theorem trim_eq {t : Text} (h1 : ∀ c ∈ t.head?, isTrimmed c = false) (h2 : ∀ c ∈ t.getLast?, isTrimmed c = false) :
    trim t = t := by
  have hdrop : ∀ u : Text, (∀ c ∈ u.head?, isTrimmed c = false) → u.dropWhile isTrimmed = u := by
    intro u hu
    cases u with
    | nil => rfl
    | cons c u => simp [hu c rfl]
  rw [trim, hdrop t h1, hdrop t.reverse (by simpa using h2), List.reverse_reverse]

/-- The characters of a bare text are none of those with a meaning on the line. -/
theorem BareText.ne (t : BareText) {c d : Char} (hc : c ∈ t.text)
    (hd : d.isAlphanum = false ∧ d ≠ '+' ∧ d ≠ '-' ∧ d ≠ '.' ∧ d ≠ ':') : c ≠ d := by
  rintro rfl
  obtain ⟨h0, h1, h2, h3, h4⟩ := hd
  rcases t.wf c hc with h | h | h | h | h
  · rw [h0] at h; cases h
  all_goals contradiction

theorem BareText.not_space (t : BareText) {c : Char} (hc : c ∈ t.text) : isSpace c = false := by
  simp only [isSpace, decide_eq_false_iff_not, not_or]
  exact ⟨t.ne hc (by decide), t.ne hc (by decide), t.ne hc (by decide), t.ne hc (by decide), t.ne hc (by decide),
    t.ne hc (by decide)⟩

theorem BareText.not_trimmed (t : BareText) {c : Char} (hc : c ∈ t.text) : isTrimmed c = false := by
  simp only [isTrimmed, decide_eq_false_iff_not, not_or]
  exact ⟨t.ne hc (by decide), t.ne hc (by decide), t.ne hc (by decide), t.ne hc (by decide)⟩

/-- What `renderMember` writes starts with no blank. -/
theorem renderMember_head (m : Member) : ∃ c t, renderMember m = c :: t ∧ isSpace c = false := by
  cases m with
  | str s => exact ⟨'\'', _, rfl, by decide⟩
  | date iso => exact ⟨'d', _, rfl, by decide⟩
  | num t =>
    obtain ⟨c, u, hu⟩ := List.exists_cons_of_ne_nil t.nonempty
    exact ⟨c, u, hu, t.not_space (hu ▸ List.mem_cons_self)⟩

theorem dropWhile_renderMember {p : Text} (hp : ∀ c ∈ p, isSpace c = true) (m : Member) (r : Text) :
    (p ++ (renderMember m ++ r)).dropWhile isSpace = renderMember m ++ r := by
  obtain ⟨c, t, ht, hc⟩ := renderMember_head m
  rw [List.dropWhile_append_of_pos hp, ht, List.cons_append, List.dropWhile_cons_of_neg (by simp [hc])]

theorem readMember_bare {p t r : Text} (hp : ∀ c ∈ p, isSpace c = true) {c : Char} {u : Text} (hu : t = c :: u)
    (hc : isSpace c = false) (hq : c ≠ '\'') (ht : ∀ c ∈ t, c ≠ ',' ∧ c ≠ ')')
    (h1 : ∀ c ∈ t.head?, isTrimmed c = false) (h2 : ∀ c ∈ t.getLast?, isTrimmed c = false)
    (hr : r.head? = some ',' ∨ r.head? = some ')') : readMember ⟨p ++ (t ++ r), false⟩ = (t, ⟨r, false⟩) := by
  have hws : (p ++ (t ++ r)).dropWhile isSpace = t ++ r := by
    rw [List.dropWhile_append_of_pos hp, hu, List.cons_append, List.dropWhile_cons_of_neg (by simp [hc])]
  have hbare := bareText_eq ht hr
  simp only [readMember, IStream.ws, Bool.false_eq_true, ↓reduceIte, hws]
  split
  · rename_i r' h
    rw [hu, List.cons_append, List.cons.injEq] at h
    exact absurd h.1 hq
  · simp only [hbare, trim_eq h1 h2]

/-- **One member**: a whole member is read up to the comma or the closing parenthesis. -/
theorem readMember_whole {p r : Text} (hp : ∀ c ∈ p, isSpace c = true) (m : Member)
    (hr : r.head? = some ',' ∨ r.head? = some ')') :
    readMember ⟨p ++ (renderMember m ++ r), false⟩ = (m.arrives, ⟨r, false⟩) := by
  cases m with
  | str s =>
    have hq : r.head? ≠ some '\'' := by rcases hr with h | h <;> simp [h]
    have hws := dropWhile_renderMember hp (.str s) r
    have hbody := sqlQuoted_escape s hq
    simp only [renderMember, List.cons_append, List.append_assoc, List.nil_append] at hws ⊢
    simp only [readMember, IStream.ws, Bool.false_eq_true, ↓reduceIte, hws, hbody, Member.arrives, Member.wanted]
  | num t =>
    obtain ⟨c, u, hu, hc⟩ := renderMember_head (.num t)
    have hmem : c ∈ t.text := (show t.text = c :: u from hu) ▸ List.mem_cons_self
    exact readMember_bare hp hu hc (t.ne hmem (by decide))
      (fun d hd => ⟨t.ne hd (by decide), t.ne hd (by decide)⟩) (fun d hd => t.not_trimmed (List.mem_of_mem_head? hd))
      (fun d hd => t.not_trimmed (List.mem_of_mem_getLast? hd)) hr
  | date iso =>
    refine readMember_bare hp rfl (by decide) (by decide) (fun d hd => ?_) (fun d hd => ?_) (fun d hd => ?_) hr
    · have hd : d ∈ ['d', 'a', 't', 'e', ' ', '\'', '\''] ∨ d ∈ iso.text := by
        simp only [renderMember, List.mem_cons, List.mem_append, List.not_mem_nil, or_false] at hd ⊢
        tauto
      rcases hd with hd | hd
      · have hlit : ∀ d ∈ ['d', 'a', 't', 'e', ' ', '\'', '\''], d ≠ ',' ∧ d ≠ ')' := by simp
        exact hlit d hd
      · exact ⟨iso.ne hd (by decide), iso.ne hd (by decide)⟩
    · cases hd; decide
    · have hlast : (renderMember (.date iso)).getLast? = some '\'' :=
        List.getLast?_concat (l := 'd' :: 'a' :: 't' :: 'e' :: ' ' :: '\'' :: iso.text)
      rw [hlast] at hd
      cases hd; decide

/-! ## Lists -/

/-- What follows a member: the other members, the closing parenthesis and the rest of the line. -/
def listTail (ms : List Member) (r : Text) : Text :=
  (ms.flatMap fun m => ',' :: ' ' :: renderMember m) ++ ')' :: r

theorem listTail_cons (m : Member) (ms : List Member) (r : Text) :
    listTail (m :: ms) r = ',' :: ' ' :: (renderMember m ++ listTail ms r) := by
  simp [listTail]

theorem listTail_head (ms : List Member) (r : Text) :
    (listTail ms r).head? = some ',' ∨ (listTail ms r).head? = some ')' := by
  cases ms with
  | nil => exact .inr rfl
  | cons m ms => exact .inl rfl

theorem renderInList_append (m : Member) (ms : List Member) (r : Text) :
    renderInList (m :: ms) ++ r = '(' :: (renderMember m ++ listTail ms r) := by
  have hflat : (ms.map renderMember).flatMap (", ".toList ++ ·) = ms.flatMap fun m => ',' :: ' ' :: renderMember m := by
    rw [List.flatMap_map]
    rfl
  simp only [renderInList, List.map_cons, join_cons, hflat, listTail, List.cons_append, List.append_assoc,
    List.nil_append]

/-- A round of the loop that starts at a comma. -/
theorem inListLoop_comma (fuel : Nat) (c : Char) (b : Text) :
    inListLoop (fuel + 1) false c ⟨',' :: b, false⟩ = (do
      let (vs, s) ← inListLoop fuel false ',' (readMember ⟨b, false⟩).2
      return ((readMember ⟨b, false⟩).1 :: vs, s)) := by
  simp only [inListLoop, IStream.ws, IStream.peek, IStream.char, IStream.get, Bool.false_eq_true, ↓reduceIte,
    List.dropWhile_cons_of_neg (show ¬ isSpace ',' = true by decide), List.head?_cons, Option.some.injEq,
    Option.getD_some, Bool.not_false, ne_eq, not_true_eq_false, and_false, Char.reduceEq]

/-- The first round, at a member. -/
theorem inListLoop_open (fuel : Nat) (c : Char) {d : Char} {b : Text} (hd : isSpace d = false) (hp : d ≠ ')') :
    inListLoop (fuel + 1) true c ⟨d :: b, false⟩ = (do
      let (vs, s) ← inListLoop fuel false c (readMember ⟨d :: b, false⟩).2
      return ((readMember ⟨d :: b, false⟩).1 :: vs, s)) := by
  simp only [inListLoop, IStream.ws, IStream.peek, Bool.false_eq_true, ↓reduceIte,
    List.dropWhile_cons_of_neg (show ¬ isSpace d = true by simp [hd]), List.head?_cons, Option.some.injEq, hp,
    Bool.not_true, false_and]

theorem inListLoop_member (fuel : Nat) (c : Char) (m : Member) {r : Text}
    (hr : r.head? = some ',' ∨ r.head? = some ')') :
    inListLoop (fuel + 1) false c ⟨',' :: ' ' :: (renderMember m ++ r), false⟩ = (do
      let (vs, s) ← inListLoop fuel false ',' ⟨r, false⟩
      return (m.arrives :: vs, s)) := by
  have hread := readMember_whole (p := [' ']) IStream.blank_spaces m hr
  rw [List.singleton_append] at hread
  rw [inListLoop_comma, hread]

theorem inListLoop_close (fuel : Nat) (c : Char) (r : Text) :
    inListLoop (fuel + 1) false c ⟨')' :: r, false⟩ = .ok ([], ⟨r, false⟩) := by
  simp [inListLoop, IStream.ws, IStream.peek, IStream.get, List.dropWhile_cons_of_neg
    (show ¬ isSpace ')' = true by decide)]

theorem renderMember_ne_close (m : Member) {c : Char} {t : Text} (h : renderMember m = c :: t) : c ≠ ')' := by
  cases m with
  | num n => exact n.ne ((show n.text = c :: t from h) ▸ List.mem_cons_self) (by decide)
  | _ => cases h; decide

theorem inListLoop_first (fuel : Nat) (c : Char) (m : Member) {r : Text}
    (hr : r.head? = some ',' ∨ r.head? = some ')') :
    inListLoop (fuel + 1) true c ⟨renderMember m ++ r, false⟩ = (do
      let (vs, s) ← inListLoop fuel false c ⟨r, false⟩
      return (m.arrives :: vs, s)) := by
  obtain ⟨d, t, ht, hd⟩ := renderMember_head m
  have hread := readMember_whole (p := []) (by simp) m hr
  rw [List.nil_append, ht, List.cons_append] at hread
  rw [ht, List.cons_append, inListLoop_open fuel c hd (renderMember_ne_close m ht), hread]

/-- All the members after the first. -/
theorem inListLoop_whole : ∀ (ms : List Member) (fuel : Nat) (c : Char) (r : Text), ms.length < fuel →
    inListLoop fuel false c ⟨listTail ms r, false⟩ = .ok (ms.map Member.arrives, ⟨r, false⟩)
  | _, 0, _, _, h => by omega
  | [], fuel + 1, c, r, _ => inListLoop_close fuel c r
  | m :: ms, fuel + 1, c, r, h => by
    rw [listTail_cons, inListLoop_member fuel c m (listTail_head ms r),
      inListLoop_whole ms fuel ',' r (by simp at h; omega)]
    rfl

theorem length_listTail (ms : List Member) (r : Text) : ms.length ≤ (listTail ms r).length := by
  induction ms with
  | nil => simp
  | cons m ms ih => rw [listTail_cons]; simp; omega

/-- **A list**: all members are read, whatever follows the list. -/
theorem parseInList_whole (junk : Char) (m : Member) (ms : List Member) (r : Text) :
    parseInList junk ⟨' ' :: (renderInList (m :: ms) ++ r), false⟩ =
      .ok ((m :: ms).map Member.arrives, ⟨r, false⟩) := by
  have hlen := length_listTail ms r
  rw [renderInList_append]
  simp only [parseInList, IStream.char, IStream.ws, IStream.get, Bool.false_eq_true, ↓reduceIte,
    List.dropWhile_cons_of_pos (show isSpace ' ' = true by decide),
    List.dropWhile_cons_of_neg (show ¬ isSpace '(' = true by decide), Option.getD_some, ne_eq, not_true_eq_false]
  rw [inListLoop_first _ _ _ (listTail_head ms r),
    inListLoop_whole ms _ _ r (by simp only [List.length_append]; omega)]
  rfl

/-! ## A list that is read as it was meant -/

theorem newline_not_mem_renderMember {m : Member} (h : m.Whole) : '\n' ∉ renderMember m := by
  cases m with
  | str s =>
    intro hn
    simp only [renderMember, escapeQuotes, List.mem_cons, List.mem_append, List.mem_flatMap, List.not_mem_nil,
      or_false, Char.reduceEq, false_or] at hn
    obtain ⟨c, hc, hn⟩ := hn
    split at hn
    · simp at hn
    · exact h (List.mem_singleton.1 hn ▸ hc)
  | num t => exact fun hn => t.ne hn (d := '\n') (by decide) rfl
  | date iso =>
    intro hn
    have hn : '\n' ∈ iso.text := by simpa [renderMember] using hn
    exact iso.ne hn (d := '\n') (by decide) rfl

theorem cut_listTail_head (ms : List Member) (r : Text) :
    (cut (listTail ms r)).head? = some ',' ∨ (cut (listTail ms r)).head? = some ')' := by
  cases ms with
  | nil => right; rw [listTail, List.flatMap_nil, List.nil_append, cut_cons (by decide)]; rfl
  | cons m ms => left; rw [listTail_cons, cut_cons (by decide)]; rfl

theorem readMember_quote {p : Text} (hp : ∀ c ∈ p, isSpace c = true) (b : Text) :
    readMember ⟨p ++ '\'' :: b, false⟩ = sqlQuoted b := by
  have hws : (p ++ '\'' :: b).dropWhile isSpace = '\'' :: b := by
    rw [List.dropWhile_append_of_pos hp, List.dropWhile_cons_of_neg (by decide)]
  simp only [readMember, IStream.ws, Bool.false_eq_true, ↓reduceIte, hws]

/-- The first member of the result is the wanted one only if the member is whole; then the round was an
ordinary one. -/
theorem member_read {p : Text} (hp : ∀ c ∈ p, isSpace c = true) {m : Member} (ms : List Member) (r : Text)
    (h : (readMember ⟨p ++ cut (renderMember m ++ listTail ms r), false⟩).1 = m.wanted) :
    m.Whole ∧ m.NoDate ∧ readMember ⟨p ++ cut (renderMember m ++ listTail ms r), false⟩ =
      (m.arrives, ⟨cut (listTail ms r), false⟩) := by
  have hw : m.Whole := by
    cases m with
    | str s =>
      intro hn
      have hlt := sqlQuoted_cut hn ('\'' :: listTail ms r)
      simp only [renderMember, List.cons_append, List.append_assoc, List.nil_append,
        cut_cons (c := '\'') (by decide), readMember_quote hp, Member.wanted] at h
      rw [h] at hlt
      omega
    | _ => trivial
  have hread := readMember_whole hp m (cut_listTail_head ms r)
  rw [cut_append (newline_not_mem_renderMember hw)] at h ⊢
  rw [hread] at h
  exact ⟨hw, Member.arrives_eq_wanted.1 h, hread⟩

theorem inListLoop_wanted : ∀ (ms : List Member) (fuel : Nat) (c : Char) (r : Text) (s : IStream),
    inListLoop fuel false c ⟨cut (listTail ms r), false⟩ = .ok (ms.map Member.wanted, s) →
    ∀ m ∈ ms, m.Whole ∧ m.NoDate
  | [], _, _, _, _, _ => by simp
  | m :: ms, 0, c, r, s, h => by cases h
  | m :: ms, fuel + 1, c, r, s, h => by
    rw [listTail_cons, cut_cons (by decide), cut_cons (by decide), inListLoop_comma] at h
    have hmem := member_read (p := [' ']) IStream.blank_spaces (m := m) ms r
    rw [List.singleton_append] at hmem
    generalize hr : readMember ⟨' ' :: cut (renderMember m ++ listTail ms r), false⟩ = q at h hmem
    cases hl : inListLoop fuel false ',' q.2 with
    | error e => rw [hl] at h; cases h
    | ok vs =>
      rw [hl] at h
      simp only [bind, Except.bind, pure, Except.pure, Except.ok.injEq, Prod.mk.injEq, List.map_cons,
        List.cons.injEq] at h
      obtain ⟨hw, hd, hq⟩ := hmem h.1.1
      rw [hq] at hl
      have ih := inListLoop_wanted ms fuel ',' r vs.2 (by rw [hl, ← h.1.2])
      exact List.forall_mem_cons.2 ⟨⟨hw, hd⟩, ih⟩

theorem parseInList_wanted {junk : Char} {m : Member} {ms : List Member} {r : Text} {s : IStream}
    (h : parseInList junk ⟨cut (' ' :: (renderInList (m :: ms) ++ r)), false⟩ = .ok ((m :: ms).map Member.wanted, s)) :
    ∀ x ∈ m :: ms, x.Whole ∧ x.NoDate := by
  obtain ⟨d, t, ht, hd⟩ := renderMember_head m
  have hdn : d ≠ '\n' := by rintro rfl; cases hd
  rw [renderInList_append, cut_cons (by decide), cut_cons (by decide)] at h
  simp only [parseInList, IStream.char, IStream.ws, IStream.get, Bool.false_eq_true, ↓reduceIte,
    List.dropWhile_cons_of_pos (show isSpace ' ' = true by decide),
    List.dropWhile_cons_of_neg (show ¬ isSpace '(' = true by decide), Option.getD_some, ne_eq,
    not_true_eq_false] at h
  have hmem := member_read (p := []) (by simp) (m := m) ms r
  rw [List.nil_append] at hmem
  rw [ht, List.cons_append, cut_cons hdn] at h hmem
  rw [inListLoop_open _ _ hd (renderMember_ne_close m ht)] at h
  generalize (d :: cut (t ++ listTail ms r)).length + 1 = fuel at h
  generalize hr : readMember ⟨d :: cut (t ++ listTail ms r), false⟩ = q at h hmem
  cases hl : inListLoop fuel false '(' q.2 with
  | error e => rw [hl] at h; cases h
  | ok vs =>
    rw [hl] at h
    simp only [bind, Except.bind, pure, Except.pure, Except.ok.injEq, Prod.mk.injEq, List.map_cons,
      List.cons.injEq] at h
    obtain ⟨hw, hnd, hq⟩ := hmem h.1.1
    rw [hq] at hl
    have hrest := inListLoop_wanted ms fuel '(' r vs.2 (by rw [hl, ← h.1.2])
    exact List.forall_mem_cons.2 ⟨⟨hw, hnd⟩, hrest⟩

/-! ## Strings -/

/-- What stands after a field: nothing, or the blank before the next one. -/
def Separated (r : Text) : Prop := ∀ c ∈ r.head?, c = ' '

theorem Separated.space {r : Text} (h : Separated r) : ∀ c ∈ r.head?, isSpace c = true := by
  intro c hc
  rw [h c hc]
  decide

theorem Separated.cut {r : Text} (h : Separated r) : Separated (cut r) := by
  cases r with
  | nil => exact h
  | cons c r =>
    have hc : c = ' ' := h c rfl
    subst hc
    rw [cut_cons (by decide)]
    exact h

theorem formatValue_bare {s : Text} (h : s.head? = some '(') : formatValue (.str s) = s := by simp [formatValue, h]

theorem formatValue_quoted {s : Text} (h : s.head? ≠ some '(') : formatValue (.str s) = '"' :: (s ++ ['"']) := by
  simp [formatValue, h]

theorem formatValue_inList (m : Member) (ms : List Member) : formatValue (.inList m ms) = renderInList (m :: ms) := by
  simp [formatValue, renderInList]

/-- A text with a leading parenthesis is read as a word. -/
theorem quoted_bare {s r : Text} (h : s.head? = some '(') : quoted ⟨' ' :: (s ++ r), false⟩ =
    word ⟨' ' :: (s ++ r), false⟩ := by
  obtain ⟨c, t, rfl⟩ : ∃ c t, s = c :: t := by
    cases s with
    | nil => cases h
    | cons c t => exact ⟨c, t, rfl⟩
  have hc : c = '(' := by simpa using h
  subst hc
  simp [quoted, List.dropWhile_cons_of_pos (show isSpace ' ' = true by decide),
    List.dropWhile_cons_of_neg (show ¬ isSpace '(' = true by decide)]

theorem quoted_delimiter (b : Text) : quoted ⟨' ' :: '"' :: b, false⟩ =
    match IStream.quotedBody b with
    | some (t, r) => (some t, ⟨r, false⟩)
    | none => (none, .ended) := by
  unfold quoted
  rw [List.dropWhile_cons_of_pos (by decide), List.dropWhile_cons_of_neg (by decide)]
  rfl

/-! ## Fields -/

theorem newline_not_mem_formatValue {v : Value} (h : v.Whole) : '\n' ∉ formatValue v := by
  cases v with
  | str s =>
    by_cases hs : s.head? = some '('
    · simp only [Value.Whole, if_pos hs] at h
      rw [formatValue_bare hs]
      intro hn
      exact absurd (h _ hn) (by decide)
    · simp only [Value.Whole, if_neg hs] at h
      rw [formatValue_quoted hs]
      simpa using h.2
  | inList m ms =>
    rw [formatValue_inList]
    have hms : ∀ x ∈ m :: ms, '\n' ∉ renderMember x := fun x hx => newline_not_mem_renderMember (h x hx)
    have := renderInList_append m ms []
    rw [List.append_nil] at this
    rw [this, listTail]
    simp only [List.mem_cons, List.mem_append, List.mem_flatMap, List.not_mem_nil, or_false, not_or, Char.reduceEq,
      not_exists, not_and, false_or]
    exact ⟨hms m List.mem_cons_self, fun x hx => hms x (List.mem_cons_of_mem m hx)⟩

/-- **A whole value** is read as it arrives, and what follows it is left. -/
theorem parseField_whole (junk : Char) (queryId name : Text) {v : Value} (h : v.Whole) {r : Text} (hr : Separated r) :
    parseField junk queryId name ⟨' ' :: (formatValue v ++ r), false⟩ v.shape = .ok (v.arrives, ⟨r, false⟩) := by
  cases v with
  | str s =>
    by_cases hs : s.head? = some '('
    · simp only [Value.Whole, if_pos hs] at h
      have hne : s ≠ [] := by rintro rfl; cases hs
      have hword := IStream.word_eq (p := [' ']) IStream.blank_spaces hne h hr.space
      rw [List.singleton_append] at hword
      rw [formatValue_bare hs]
      simp only [Value.shape, parseField, quoted_bare hs, hword, Value.arrives]
    · simp only [Value.Whole, if_neg hs] at h
      rw [formatValue_quoted hs]
      simp only [Value.shape, parseField, List.cons_append, List.append_assoc, List.nil_append, quoted_delimiter,
        IStream.quotedBody_plain h.1, Value.arrives]
  | inList m ms =>
    simp only [formatValue_inList, Value.shape, parseField, parseInList_whole, Value.arrives]
    rfl

/-- **A value read as it was meant** is whole and holds no date. -/
theorem parseField_wanted {junk : Char} {queryId name : Text} {v : Value} {r : Text} {s : IStream}
    (h : parseField junk queryId name ⟨cut (' ' :: (formatValue v ++ r)), false⟩ v.shape = .ok (v.wanted, s)) :
    v.Whole ∧ v.NoDate := by
  cases v with
  | str t =>
    refine ⟨?_, by simp [Value.NoDate, Value.members]⟩
    rw [cut_cons (by decide)] at h
    simp only [Value.shape, parseField, Value.wanted] at h
    by_cases ht : t.head? = some '('
    · simp only [Value.Whole, if_pos ht]
      obtain ⟨u, hu⟩ : ∃ u, cut (formatValue (.str t) ++ r) = '(' :: u := by
        cases t with
        | nil => cases ht
        | cons c t =>
          have hc : c = '(' := by simpa using ht
          subst hc
          exact ⟨_, by rw [formatValue_bare ht, List.cons_append, cut_cons (by decide)]⟩
      have hword := quoted_bare (s := '(' :: u) (r := []) rfl
      rw [List.append_nil, ← hu] at hword
      rw [hword] at h
      generalize hq : word ⟨' ' :: cut (formatValue (.str t) ++ r), false⟩ = q at h
      obtain ⟨w, s'⟩ := q
      cases w with
      | none => cases h
      | some w =>
        simp only [Except.ok.injEq, Prod.mk.injEq, Field.scalar.injEq] at h
        exact h.1 ▸ IStream.word_no_space hq
    · simp only [Value.Whole, if_neg ht]
      rw [formatValue_quoted ht, List.cons_append, List.append_assoc, List.singleton_append,
        cut_cons (by decide), quoted_delimiter] at h
      cases hq : IStream.quotedBody (cut (t ++ '"' :: r)) with
      | none => rw [hq] at h; cases h
      | some q =>
        obtain ⟨t', r'⟩ := q
        rw [hq] at h
        simp only [Except.ok.injEq, Prod.mk.injEq, Field.scalar.injEq] at h
        rw [h.1] at hq
        have hn : '\n' ∉ t := by
          intro hn
          have hlen := IStream.quotedBody_length hq
          have := length_cut_lt hn ('"' :: r)
          omega
        rw [cut_append hn, cut_cons (by decide)] at hq
        exact ⟨IStream.plain_of_quotedBody ⟨cut r, by simp⟩ hq, hn⟩
  | inList m ms =>
    rw [formatValue_inList] at h
    simp only [Value.shape, parseField, Value.wanted] at h
    cases hp : parseInList junk ⟨cut (' ' :: (renderInList (m :: ms) ++ r)), false⟩ with
    | error e => rw [hp] at h; cases h
    | ok q =>
      rw [hp] at h
      simp only [bind, Except.bind, pure, Except.pure, Except.ok.injEq, Prod.mk.injEq, Field.inList.injEq] at h
      have hall := parseInList_wanted (hp.trans (congrArg Except.ok (Prod.ext h.1 rfl)))
      exact ⟨fun x hx => (hall x hx).1, fun x hx => (hall x hx).2⟩

/-! ## The line -/

abbrev Placeholders := List (Text × Value)

/-- The fields as they stand on the line, each after a blank. -/
def fieldsText (ps : Placeholders) : Text := ps.flatMap fun p => ' ' :: formatValue p.2

def shapes (ps : Placeholders) : List (Text × Shape) := ps.map fun p => (p.1, p.2.shape)

theorem fieldsText_cons (p : Text × Value) (ps : Placeholders) :
    fieldsText (p :: ps) = ' ' :: (formatValue p.2 ++ fieldsText ps) := by
  simp [fieldsText]

theorem separated_fieldsText (ps : Placeholders) : Separated (fieldsText ps) := by
  cases ps with
  | nil => intro c hc; cases hc
  | cons p ps => intro c hc; rw [fieldsText_cons] at hc; cases hc; rfl

theorem formatPlaceholderValues_cons (p : Text × Value) (ps : Placeholders) :
    ' ' :: formatPlaceholderValues (p :: ps) = fieldsText (p :: ps) := by
  have hflat : (ps.map fun p => formatValue p.2).flatMap ([' '] ++ ·) = fieldsText ps := by
    rw [List.flatMap_map]
    rfl
  rw [formatPlaceholderValues, List.map_cons, join_cons, hflat, fieldsText_cons]

theorem parseFields_whole (junk : Char) (queryId : Text) :
    ∀ ps : Placeholders, (∀ p ∈ ps, p.2.Whole) →
      parseFields junk queryId (shapes ps) ⟨cut (fieldsText ps), false⟩ = .ok (ps.map fun p => p.2.arrives)
  | [], _ => rfl
  | (name, v) :: ps, h => by
    have hv := h (name, v) List.mem_cons_self
    have ih := parseFields_whole junk queryId ps fun p hp => h p (List.mem_cons_of_mem _ hp)
    have hfield := parseField_whole junk queryId name hv (separated_fieldsText ps).cut
    rw [fieldsText_cons, cut_cons (by decide), cut_append (newline_not_mem_formatValue hv), shapes, List.map_cons,
      parseFields, hfield]
    simp only [bind, Except.bind]
    rw [← shapes, ih]
    rfl

theorem parseFields_wanted (junk : Char) (queryId : Text) :
    ∀ ps : Placeholders, parseFields junk queryId (shapes ps) ⟨cut (fieldsText ps), false⟩ =
      .ok (ps.map fun p => p.2.wanted) → ∀ p ∈ ps, p.2.Whole ∧ p.2.NoDate
  | [], _ => by simp
  | (name, v) :: ps, h => by
    rw [fieldsText_cons, shapes, List.map_cons, parseFields, ← shapes] at h
    cases hf : parseField junk queryId name ⟨cut (' ' :: (formatValue v ++ fieldsText ps)), false⟩ v.shape with
    | error e => rw [hf] at h; cases h
    | ok q =>
      rw [hf] at h
      simp only [bind, Except.bind] at h
      cases hfs : parseFields junk queryId (shapes ps) q.2 with
      | error e => rw [hfs] at h; cases h
      | ok fs =>
        rw [hfs] at h
        simp only [pure, Except.pure, Except.ok.injEq, List.map_cons, List.cons.injEq] at h
        have hv := parseField_wanted (hf.trans (congrArg Except.ok (Prod.ext h.1 rfl)))
        -- the field was read as it stands, so the next one starts where it should
        have hfield := parseField_whole junk queryId name hv.1 (separated_fieldsText ps).cut
        rw [cut_cons (by decide), cut_append (newline_not_mem_formatValue hv.1), hfield] at hf
        cases hf
        have ih := parseFields_wanted junk queryId ps (hfs.trans (congrArg Except.ok h.2))
        exact List.forall_mem_cons.2 ⟨hv, ih⟩

theorem splitRequest_eq {qid reqId args : Text} (hq : qid ≠ []) (hqs : ∀ c ∈ qid, isSpace c = false)
    (hr : reqId ≠ []) (hrs : ∀ c ∈ reqId, isSpace c = false) :
    splitRequest (qid ++ ' ' :: reqId ++ ' ' :: args) = some ⟨qid, reqId, cut (' ' :: args)⟩ := by
  have h1 := IStream.word_eq (p := []) (r := ' ' :: (reqId ++ ' ' :: args)) (by simp) hq hqs
    (by intro c hc; cases hc; decide)
  have h2 := IStream.word_eq (p := [' ']) (r := ' ' :: args) IStream.blank_spaces hr hrs
    (by intro c hc; cases hc; decide)
  rw [List.nil_append] at h1
  rw [List.singleton_append] at h2
  simp only [splitRequest, List.append_assoc, List.cons_append, h1, h2, Bool.false_eq_true, ↓reduceIte,
    Option.getD_some, line_eq]

/-- What the engine is to receive: the query id, the req_id and the values. -/
def sent (sha12 : Text → Text) (qid : Text) (ps : Placeholders) (disambiguator : Option Text) (fields : List Field) :
    Option (Text × Text × Except String (List Field)) :=
  some (qid, genReqId sha12 qid ps disambiguator, .ok fields)

variable {sha12 : Text → Text} {qid : Text}

theorem receive_formatArgsElement (hsha : ∀ t, ∀ c ∈ sha12 t, isSpace c = false) (junk : Char) (hq : qid ≠ [])
    (hqs : ∀ c ∈ qid, isSpace c = false) (ps : Placeholders) (disambiguator : Option Text) :
    receive junk (shapes ps) (formatArgsElement sha12 qid ps disambiguator) =
      some (qid, genReqId sha12 qid ps disambiguator,
        parseFields junk qid (shapes ps) ⟨cut (fieldsText ps), false⟩) := by
  have hreq : ∀ c ∈ genReqId sha12 qid ps disambiguator, isSpace c = false := by
    intro c hc
    simp only [genReqId, List.mem_append] at hc
    rcases hc with ((hc | hc) | hc) | hc
    · have hlit : ∀ c ∈ ['r', 'e', 'q', '_'], isSpace c = false := by simp [isSpace]
      exact hlit c hc
    · exact hqs c hc
    · have hlit : ∀ c ∈ ['_'], isSpace c = false := by simp [isSpace]
      exact hlit c hc
    · exact hsha _ c hc
  have hne : genReqId sha12 qid ps disambiguator ≠ [] := by simp [genReqId]
  rw [receive, formatArgsElement, splitRequest_eq hq hqs hne hreq]
  cases ps with
  | nil => rfl
  | cons p ps => rw [formatPlaceholderValues_cons]; rfl

/-- **The args line**: query id, req_id and every value come through unchanged iff each string that starts
with `(` has no white space, every other string neither `"`, `\` nor a newline, and each list neither a
newline nor a date. Where only dates are in the way, they arrive as `date '…'` and nothing else changes. -/
theorem argsLine_roundTrip_iff (hsha : ∀ t, ∀ c ∈ sha12 t, isSpace c = false) (junk : Char) (hq : qid ≠ [])
    (hqs : ∀ c ∈ qid, isSpace c = false) (ps : Placeholders) (disambiguator : Option Text) :
    (receive junk (shapes ps) (formatArgsElement sha12 qid ps disambiguator) =
        sent sha12 qid ps disambiguator (ps.map fun p => p.2.wanted) ↔
      ∀ p ∈ ps, p.2.Whole ∧ p.2.NoDate) ∧
    ((∀ p ∈ ps, p.2.Whole) → receive junk (shapes ps) (formatArgsElement sha12 qid ps disambiguator) =
        sent sha12 qid ps disambiguator (ps.map fun p => p.2.arrives)) := by
  have hrec := receive_formatArgsElement hsha junk hq hqs ps disambiguator
  have hwhole : (∀ p ∈ ps, p.2.Whole) → receive junk (shapes ps) (formatArgsElement sha12 qid ps disambiguator) =
      sent sha12 qid ps disambiguator (ps.map fun p => p.2.arrives) := fun h => by
    rw [hrec, parseFields_whole junk qid ps h, sent]
  refine ⟨⟨fun h => ?_, fun h => ?_⟩, hwhole⟩
  · rw [hrec, sent] at h
    exact parseFields_wanted junk qid ps (Prod.mk.inj (Prod.mk.inj (Option.some.inj h)).2).2
  · rw [hwhole fun p hp => (h p hp).1]
    refine congrArg (sent sha12 qid ps disambiguator) (List.map_congr_left fun p hp => ?_)
    have hnd := (h p hp).2
    cases hv : p.2 with
    | str s => rfl
    | inList m ms =>
      rw [hv] at hnd
      exact congrArg Field.inList (List.map_congr_left fun x hx => Member.arrives_eq_wanted.2 (hnd x hx))

/-- `A = it's (x)`, `B = ('o''k')`. -/
def plainArgs : Placeholders := [("A".toList, .str "it's (x)".toList), ("B".toList, .inList (.str "o'k".toList) [])]

theorem argsLine_roundTrip_plain :
    receive '?' (shapes plainArgs) (formatArgsElement (fun _ => "0f".toList) "3".toList plainArgs none) =
      sent (fun _ => "0f".toList) "3".toList plainArgs none
        [.scalar "it's (x)".toList, .inList ["o'k".toList]] := by
  have hsha : ∀ c ∈ ['0', 'f'], isSpace c = false := by simp [isSpace]
  have hqs : ∀ c ∈ ['3'], isSpace c = false := by simp [isSpace]
  refine (argsLine_roundTrip_iff (fun _ => hsha) '?' (by decide) hqs plainArgs none).1.2 ?_
  have ha : ∀ c ∈ ['i', 't', '\'', 's', ' ', '(', 'x', ')'], (c ≠ '"' ∧ c ≠ '\\') ∧ c ≠ '\n' := by simp
  refine List.forall_mem_cons.2 ⟨⟨⟨fun c hc => (ha c hc).1, fun h => (ha _ h).2 rfl⟩, ?_⟩,
    List.forall_mem_cons.2 ⟨⟨?_, ?_⟩, by simp⟩⟩
  · simp [Value.NoDate, Value.members]
  · simp [Value.Whole, Member.Whole]
  · simp [Value.NoDate, Value.members, Member.NoDate]

/-- `A = x" "y`, `B = z`. -/
def quoteArgs : Placeholders := [("A".toList, .str ['x', '"', ' ', '"', 'y']), ("B".toList, .str ['z'])]

/-- The quote ends `A` early and `B` reads what was left of it. -/
theorem quote_shifts_fields :
    receive '?' (shapes quoteArgs) (formatArgsElement (fun _ => "0f".toList) "3".toList quoteArgs none) =
        sent (fun _ => "0f".toList) "3".toList quoteArgs none [.scalar ['x'], .scalar ['y']] ∧
      receive '?' (shapes quoteArgs) (formatArgsElement (fun _ => "0f".toList) "3".toList quoteArgs none) ≠
        sent (fun _ => "0f".toList) "3".toList quoteArgs none (quoteArgs.map fun p => p.2.wanted) := by
  decide

end SynnoDB.Workload
