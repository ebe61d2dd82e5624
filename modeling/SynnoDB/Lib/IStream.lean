import Mathlib.Data.List.Basic

/-!
# Input string streams

The extractions of a C++ `std::istringstream` over characters, in the C locale: what is left to read and
the fail state (once set, every extraction fails). An extraction that returns `none` leaves its target as
it was. `quoted` is `std::quoted` with delimiter `"` and escape `\`.
-/

def isSpace (c : Char) : Bool := c = ' ' ∨ c = '\t' ∨ c = '\n' ∨ c = '\x0b' ∨ c = '\x0c' ∨ c = '\r'

structure IStream where
  buf : List Char
  fail : Bool := false
deriving DecidableEq, Repr

namespace IStream

def ended : IStream := ⟨[], true⟩

/-- `>> std::ws`. -/
def ws (s : IStream) : IStream := if s.fail then s else ⟨s.buf.dropWhile isSpace, false⟩

/-- `peek()`; `none` = end of file. -/
def peek (s : IStream) : Option Char := if s.fail then none else s.buf.head?

/-- `get()`. -/
def get (s : IStream) : Option Char × IStream :=
  match s.fail, s.buf with
  | false, c :: r => (some c, ⟨r, false⟩)
  | _, _ => (none, ended)

/-- `>> c`. -/
def char (s : IStream) : Option Char × IStream := s.ws.get

/-- `>> str`: the characters up to the next white space. -/
def word (s : IStream) : Option (List Char) × IStream :=
  match s.fail, s.buf.dropWhile isSpace with
  | false, c :: r => (some ((c :: r).takeWhile (!isSpace ·)), ⟨(c :: r).dropWhile (!isSpace ·), false⟩)
  | _, _ => (none, ended)

/-- The text of `std::quoted` after its opening delimiter, and what follows the closing one. -/
def quotedBody : List Char → Option (List Char × List Char)
  | [] => none
  | '"' :: r => some ([], r)
  | '\\' :: c :: r => (quotedBody r).map fun p => (c :: p.1, p.2)
  | ['\\'] => none
  | c :: r => (quotedBody r).map fun p => (c :: p.1, p.2)

/-- `>> std::quoted(str)`; a text that does not start with the delimiter is read as a word. -/
def quoted (s : IStream) : Option (List Char) × IStream :=
  match s.fail, s.buf.dropWhile isSpace with
  | false, '"' :: r => match quotedBody r with
    | some (t, r) => (some t, ⟨r, false⟩)
    | none => (none, ended)
  | _, _ => s.word

/-- `std::getline`. -/
def line (s : IStream) : List Char := if s.fail then [] else s.buf.takeWhile (· ≠ '\n')

theorem blank_spaces : ∀ c ∈ [' '], isSpace c = true := by simp [isSpace]

/-! ## Words -/

theorem takeWhile_word {w r : List Char} (hw : ∀ c ∈ w, isSpace c = false) (hr : ∀ c ∈ r.head?, isSpace c = true) :
    (w ++ r).takeWhile (!isSpace ·) = w := by
  rw [List.takeWhile_append_of_pos fun c hc => by simp [hw c hc]]
  cases r with
  | nil => simp
  | cons c r => simp [hr c rfl]

theorem dropWhile_word {w r : List Char} (hw : ∀ c ∈ w, isSpace c = false) (hr : ∀ c ∈ r.head?, isSpace c = true) :
    (w ++ r).dropWhile (!isSpace ·) = r := by
  rw [List.dropWhile_append_of_pos fun c hc => by simp [hw c hc]]
  cases r with
  | nil => rfl
  | cons c r => simp [hr c rfl]

/-- A word after blanks `p`, with a blank or the end after it. -/
theorem word_eq {p w r : List Char} (hp : ∀ c ∈ p, isSpace c = true) (hne : w ≠ [])
    (hw : ∀ c ∈ w, isSpace c = false) (hr : ∀ c ∈ r.head?, isSpace c = true) :
    word ⟨p ++ (w ++ r), false⟩ = (some w, ⟨r, false⟩) := by
  obtain ⟨c, w, rfl⟩ := List.exists_cons_of_ne_nil hne
  have hdrop : (p ++ (c :: w ++ r)).dropWhile isSpace = c :: (w ++ r) := by
    rw [List.dropWhile_append_of_pos hp]
    simp [hw c]
  have htake := takeWhile_word hw hr
  have hrest := dropWhile_word hw hr
  rw [List.cons_append] at htake hrest
  simp only [word, hdrop]
  rw [htake, hrest]

theorem word_no_space {s s' : IStream} {w : List Char} (h : s.word = (some w, s')) : ∀ c ∈ w, isSpace c = false := by
  unfold word at h
  split at h
  · cases h
    intro c hc
    simpa using List.all_eq_true.1 List.all_takeWhile c hc
  · cases h

/-! ## Quoted text -/

/-- No character of `t` has a meaning of its own between the delimiters. -/
def Plain (t : List Char) : Prop := ∀ c ∈ t, c ≠ '"' ∧ c ≠ '\\'

theorem quotedBody_cons {c : Char} {r : List Char} (h1 : c ≠ '"') (h2 : c ≠ '\\') :
    quotedBody (c :: r) = (quotedBody r).map fun p => (c :: p.1, p.2) := by
  rw [quotedBody]
  · exact h1
  · rintro d r' rfl; exact absurd rfl h2
  · rintro rfl; exact absurd rfl h2

theorem quotedBody_plain {t : List Char} (h : Plain t) (r : List Char) :
    quotedBody (t ++ '"' :: r) = some (t, r) := by
  induction t with
  | nil => rfl
  | cons c t ih =>
    obtain ⟨h1, h2⟩ := h c List.mem_cons_self
    rw [List.cons_append, quotedBody_cons h1 h2, ih fun d hd => h d (List.mem_cons_of_mem c hd)]
    rfl

/-- Once an escape has been read the output lags behind the input, and the text could only be read back
if it went on with escapes for ever: `e` is the lag, `u` the input the expected rest `t` starts at. -/
theorem quotedBody_lag : ∀ (t u : List Char) (e : Nat) (r : List Char), 1 ≤ e → (∀ i < e, u[i]? = some '\\') →
    u[t.length]? ≠ some '\\' → t <+: u → quotedBody (u.drop e) ≠ some (t, r)
  | [], u, e, r, he, hu, hend, _ => absurd (hu 0 he) hend
  | c :: t, [], e, r, he, hu, hend, hpre => by simp at hpre
  | c :: t, d :: u, e, r, he, hu, hend, hpre => by
    obtain ⟨e, rfl⟩ := Nat.exists_eq_succ_of_ne_zero (Nat.one_le_iff_ne_zero.1 he)
    have hd : d = '\\' := by simpa using hu 0 (by omega)
    obtain ⟨rfl, htu⟩ := List.cons_prefix_cons.1 hpre
    subst hd
    intro h
    rw [List.drop_succ_cons] at h
    -- the output character is a backslash, so the input goes on with an escaped backslash
    have hread : ∃ v, u.drop e = '\\' :: '\\' :: v ∧ quotedBody v = some (t, r) := by
      generalize u.drop e = v at h
      unfold quotedBody at h
      split at h
      · cases h
      · cases h
      · rename_i c v
        simp only [Option.map_eq_some_iff] at h
        obtain ⟨⟨t', r'⟩, hq, hp⟩ := h
        simp only [Prod.mk.injEq, List.cons.injEq] at hp
        obtain ⟨⟨rfl, rfl⟩, rfl⟩ := hp
        exact ⟨v, rfl, hq⟩
      · cases h
      · rename_i c v h1 h2 h3
        simp only [Option.map_eq_some_iff] at h
        obtain ⟨⟨t', r'⟩, hq, hp⟩ := h
        simp only [Prod.mk.injEq, List.cons.injEq] at hp
        obtain ⟨⟨rfl, rfl⟩, rfl⟩ := hp
        cases v with
        | nil => exact (h3 rfl rfl).elim
        | cons c' v => exact (h2 c' v rfl rfl).elim
    obtain ⟨v, hv, hq⟩ := hread
    have hat : ∀ i, u[e + i]? = ('\\' :: '\\' :: v)[i]? := fun i => by rw [← hv, List.getElem?_drop]
    have hdrop : u.drop (e + 2) = v := by rw [← List.drop_drop, hv]; rfl
    refine quotedBody_lag t u (e + 2) r (by omega) (fun i hi => ?_) (by simpa using hend) htu (hdrop ▸ hq)
    rcases Nat.lt_trichotomy i e with h | rfl | h
    · simpa using hu (i + 1) (by omega)
    · simpa using hat 0
    · obtain rfl : i = e + 1 := by omega
      simpa using hat 1

/-- **A text between delimiters is read back only if it is plain.** -/
theorem plain_of_quotedBody : ∀ {t u r : List Char}, t ++ ['"'] <+: u → quotedBody u = some (t, r) → Plain t
  | [], _, _, _, _ => by simp [Plain]
  | c :: t, [], _, hpre, _ => by simp at hpre
  | c :: t, d :: u, r, hpre, h => by
    rw [List.cons_append] at hpre
    obtain ⟨rfl, htu⟩ := List.cons_prefix_cons.1 hpre
    by_cases h1 : c = '"'
    · subst h1; simp [quotedBody] at h
    · by_cases h2 : c = '\\'
      · subst h2
        cases u with
        | nil => simp at htu
        | cons d u =>
          simp only [quotedBody, Option.map_eq_some_iff] at h
          obtain ⟨⟨t', r'⟩, hq, hp⟩ := h
          simp only [Prod.mk.injEq, List.cons.injEq] at hp
          obtain ⟨⟨rfl, rfl⟩, rfl⟩ := hp
          obtain ⟨v, hv⟩ := htu
          refine absurd hq (quotedBody_lag t' ('\\' :: u) 1 r' (Nat.le_refl 1) (fun i hi => ?_) ?_
            ⟨'"' :: v, by simpa using hv⟩)
          · obtain rfl : i = 0 := by omega
            rfl
          · rw [← hv]; simp
      · rw [quotedBody_cons h1 h2, Option.map_eq_some_iff] at h
        obtain ⟨⟨t', r'⟩, hq, hp⟩ := h
        simp only [Prod.mk.injEq, List.cons.injEq, true_and] at hp
        obtain ⟨rfl, rfl⟩ := hp
        exact List.forall_mem_cons.2 ⟨⟨h1, h2⟩, plain_of_quotedBody htu hq⟩

/-- The text and what is left are together shorter than the input. -/
theorem quotedBody_length {u t r : List Char} (h : quotedBody u = some (t, r)) : t.length + r.length < u.length := by
  have hstep : ∀ {c : Char} {u : List Char} {t r : List Char},
      (∀ {t r}, quotedBody u = some (t, r) → t.length + r.length < u.length) →
      (quotedBody u).map (fun p => (c :: p.1, p.2)) = some (t, r) → t.length + r.length < u.length + 1 := by
    intro c u t r ih h
    rw [Option.map_eq_some_iff] at h
    obtain ⟨⟨t', r'⟩, hq, hp⟩ := h
    cases hp
    have := ih hq
    simp only [List.length_cons]
    omega
  induction u using quotedBody.induct generalizing t r with
  | case1 => cases h
  | case2 u => cases h; simp
  | case3 c u ih =>
    have := hstep ih h
    simp only [List.length_cons]
    omega
  | case4 => cases h
  | case5 c u h1 h2 h3 ih =>
    rw [quotedBody] at h
    · exact hstep ih h
    all_goals assumption

end IStream
