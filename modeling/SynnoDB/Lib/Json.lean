import Mathlib
import SynnoDB.Lib.Digits

/-!
# Reading JSON

`loads` is the reader of a JSON text that takes what Python's `json` takes: white space between tokens, `NaN` and
`Infinity` beside the numbers, no control character in a string. An object keeps its members in order. An escape that
is half of a surrogate pair only has no `Char`, and a text with one is not read.

`Reads v t`: **wherever `t` stands, it is read as `v`**. Texts of parts that are read compose (`Reads.arr`,
`Reads.obj`), so a writer is checked piece by piece. `Fails t`: wherever `t` stands, nothing is read. The fuel is no
limit: what any amount reads, the length of the text is enough for (`value_enough`).
-/

namespace Json

abbrev Text := List Char

inductive Value where
  | null
  | bool (b : Bool)
  /-- A number as it is written, or one of `NaN`, `Infinity` and `-Infinity`. -/
  | num (t : Text)
  | str (t : Text)
  | arr (vs : List Value)
  | obj (ps : List (Text × Value))

def isBlank (c : Char) : Bool := c = ' ' ∨ c = '\t' ∨ c = '\n' ∨ c = '\r'

def skipWs (t : Text) : Text := t.dropWhile isBlank

/-- The next token is the character `c`. -/
def expect (c : Char) (t : Text) : Option Text :=
  match skipWs t with
  | [] => none
  | d :: t => if d = c then some t else none

/-- The next token is a comma (`true`) or closes the list. -/
def separator (close : Char) (t : Text) : Option (Bool × Text) :=
  match skipWs t with
  | [] => none
  | d :: t => if d = close then some (false, t) else if d = ',' then some (true, t) else none

/-! ## Strings -/

def hexDigit (c : Char) : Option Nat :=
  if '0' ≤ c ∧ c ≤ '9' then some (c.toNat - 48)
  else if 'a' ≤ c ∧ c ≤ 'f' then some (c.toNat - 87)
  else if 'A' ≤ c ∧ c ≤ 'F' then some (c.toNat - 55)
  else none

def hex4 (a b c d : Char) : Option Nat :=
  (hexDigit a).bind fun a => (hexDigit b).bind fun b => (hexDigit c).bind fun c =>
    (hexDigit d).map fun d => ((a * 16 + b) * 16 + c) * 16 + d

def unescape (c : Char) : Option Char :=
  if c = '"' ∨ c = '\\' ∨ c = '/' then some c
  else if c = 'b' then some '\x08'
  else if c = 'f' then some '\x0c'
  else if c = 'n' then some '\n'
  else if c = 'r' then some '\r'
  else if c = 't' then some '\t'
  else none

def isHigh (u : Nat) : Bool := 0xd800 ≤ u ∧ u ≤ 0xdbff

def isLow (u : Nat) : Bool := 0xdc00 ≤ u ∧ u ≤ 0xdfff

/-- The rest of a string behind its opening quote. -/
def string : Text → Option (Text × Text)
  | [] => none
  | c :: t =>
    if c = '"' then some ([], t)
    else if c = '\\' then
      match t with
      | 'u' :: a :: b :: c :: d :: t =>
        (hex4 a b c d).bind fun u =>
          if isHigh u then
            match t with
            | '\\' :: 'u' :: e :: f :: g :: h :: t =>
              (hex4 e f g h).bind fun l =>
                if isLow l then
                  (string t).map fun r => (Char.ofNat (0x10000 + (u - 0xd800) * 0x400 + (l - 0xdc00)) :: r.1, r.2)
                else none
            | _ => none
          else if isLow u then none
          else (string t).map fun r => (Char.ofNat u :: r.1, r.2)
      | d :: t => (unescape d).bind fun c => (string t).map fun r => (c :: r.1, r.2)
      | [] => none
    else if c < ' ' then none
    else (string t).map fun r => (c :: r.1, r.2)

/-! ## Numbers -/

def signPart : Text → Text × Text
  | '-' :: t => (['-'], t)
  | t => ([], t)

def intPart : Text → Option (Text × Text)
  | [] => none
  | c :: t =>
    if c = '0' then some (['0'], t)
    else if c.isDigit then some (c :: t.takeWhile Char.isDigit, t.dropWhile Char.isDigit)
    else none

def fracPart : Text → Text × Text
  | [] => ([], [])
  | c :: t =>
    if c = '.' ∧ t.takeWhile Char.isDigit ≠ [] then (c :: t.takeWhile Char.isDigit, t.dropWhile Char.isDigit)
    else ([], c :: t)

def expSign : Text → Text × Text
  | [] => ([], [])
  | c :: t => if c = '-' ∨ c = '+' then ([c], t) else ([], c :: t)

def expPart : Text → Text × Text
  | [] => ([], [])
  | c :: t =>
    if (c = 'e' ∨ c = 'E') ∧ (expSign t).2.takeWhile Char.isDigit ≠ [] then
      (c :: (expSign t).1 ++ (expSign t).2.takeWhile Char.isDigit, (expSign t).2.dropWhile Char.isDigit)
    else ([], c :: t)

/-- `(-?(?:0|[1-9]\d*))(\.\d+)?([eE][-+]?\d+)?`. -/
def number (t : Text) : Option (Text × Text) :=
  (intPart (signPart t).2).map fun i =>
    ((signPart t).1 ++ i.1 ++ (fracPart i.2).1 ++ (expPart (fracPart i.2).2).1, (expPart (fracPart i.2).2).2)

/-! ## Values -/

def word (w : Text) (v : Value) (t : Text) : Option (Value × Text) :=
  if w.isPrefixOf t then some (v, t.drop w.length) else none

def scalar (t : Text) : Option (Value × Text) :=
  word "null".toList .null t <|> word "true".toList (.bool true) t <|> word "false".toList (.bool false) t <|>
    (number t).map (fun r => (.num r.1, r.2)) <|> word "NaN".toList (.num "NaN".toList) t <|>
    word "Infinity".toList (.num "Infinity".toList) t <|> word "-Infinity".toList (.num "-Infinity".toList) t

mutual

/-- A value at the head of the text. -/
def value : Nat → Text → Option (Value × Text)
  | 0, _ => none
  | _ + 1, [] => none
  | n + 1, c :: t =>
    if c = '"' then (string t).map fun r => (.str r.1, r.2)
    else if c = '[' then
      ((expect ']' t).map fun t => (.arr [], t)) <|> ((elements n (skipWs t)).map fun r => (.arr r.1, r.2))
    else if c = '\x7b' then
      ((expect '\x7d' t).map fun t => (.obj [], t)) <|>
        ((expect '"' t).bind fun t => (members n t).map fun r => (.obj r.1, r.2))
    else scalar (c :: t)

/-- The elements of an array from the first one on, and the closing bracket. -/
def elements : Nat → Text → Option (List Value × Text)
  | 0, _ => none
  | n + 1, t =>
    (value n t).bind fun a => (separator ']' a.2).bind fun b =>
      if b.1 then (elements n (skipWs b.2)).map fun r => (a.1 :: r.1, r.2) else some ([a.1], b.2)

/-- The members of an object behind the quote that opens the first name, and the closing brace. -/
def members : Nat → Text → Option (List (Text × Value) × Text)
  | 0, _ => none
  | n + 1, t =>
    (string t).bind fun k => (expect ':' k.2).bind fun t => (value n (skipWs t)).bind fun a =>
      (separator '\x7d' a.2).bind fun b =>
        if b.1 then (expect '"' b.2).bind fun t => (members n t).map fun r => ((k.1, a.1) :: r.1, r.2)
        else some ([(k.1, a.1)], b.2)

end

/-- `json.loads`; `none` = `JSONDecodeError`. -/
def loads (t : Text) : Option Value :=
  if t.head? = some '\ufeff' then none
  else (value t.length (skipWs t)).bind fun r => if skipWs r.2 = [] then some r.1 else none

namespace Value

/-- `obj.get(name)`: of members of one name the last one counts. -/
def get? (ps : List (Text × Value)) (name : Text) : Option Value :=
  (ps.reverse.find? fun p => p.1 = name).map Prod.snd

end Value

/-! ## Tokens -/

@[simp] theorem skipWs_cons {c : Char} (h : isBlank c = false) (t : Text) : skipWs (c :: t) = c :: t := by
  simp [skipWs, h]

theorem length_skipWs_le (t : Text) : (skipWs t).length ≤ t.length := (List.dropWhile_sublist _).length_le

@[simp] theorem expect_cons {c : Char} (h : isBlank c = false) (d : Char) (t : Text) :
    expect d (c :: t) = if c = d then some t else none := by
  simp [expect, h]

@[simp] theorem separator_cons {c : Char} (h : isBlank c = false) (close : Char) (t : Text) :
    separator close (c :: t) = if c = close then some (false, t) else if c = ',' then some (true, t) else none := by
  simp [separator, h]

theorem expect_length {c : Char} {t r : Text} (h : expect c t = some r) : r.length < t.length := by
  have hws := length_skipWs_le t
  cases hs : skipWs t with
  | nil => simp [expect, hs] at h
  | cons d u =>
    rw [hs, List.length_cons] at hws
    by_cases hd : d = c
    · simp [expect, hs, hd] at h
      subst h
      omega
    · simp [expect, hs, hd] at h

theorem separator_length {c : Char} {t : Text} {r : Bool × Text} (h : separator c t = some r) :
    r.2.length < t.length := by
  have hws := length_skipWs_le t
  cases hs : skipWs t with
  | nil => simp [separator, hs] at h
  | cons d u =>
    rw [hs, List.length_cons] at hws
    by_cases hd : d = c
    · simp [separator, hs, hd] at h
      subst h
      simp
      omega
    · by_cases hcomma : d = ','
      · subst hcomma
        simp [separator, hs, hd] at h
        subst h
        simp
        omega
      · simp [separator, hs, hd, hcomma] at h

/-! ## Strings are read back -/

/-- Nothing but what opens an escape, closes the string or is a control character needs an escape. -/
theorem string_plain {c : Char} (hquote : c ≠ '"') (hslash : c ≠ '\\') (hcontrol : ¬c < ' ') (t : Text) :
    string (c :: t) = (string t).map fun r => (c :: r.1, r.2) := by
  rw [string.eq_def]
  simp [hquote, hslash, hcontrol]

/-- What an escaping of single characters writes is read back, if each character is. -/
theorem string_escaped {e : Char → Text} (he : ∀ c t, string (e c ++ t) = (string t).map fun r => (c :: r.1, r.2))
    (s rest : Text) : string (s.flatMap e ++ '"' :: rest) = some (s, rest) := by
  induction s with
  | nil => rw [List.flatMap_nil, List.nil_append, string.eq_def]; simp
  | cons c s ih => simp [List.flatMap_cons, List.append_assoc, he, ih]

/-! ## Numbers wherever they stand -/

/-- What may follow a value. -/
def Stops (t : Text) : Prop := ∀ c ∈ t.head?, c = ',' ∨ c = ']' ∨ c = '\x7d' ∨ isBlank c

@[simp] theorem stops_nil : Stops [] := by simp [Stops]

@[simp] theorem stops_comma (t : Text) : Stops (',' :: t) := by simp [Stops]

@[simp] theorem stops_bracket (t : Text) : Stops (']' :: t) := by simp [Stops]

@[simp] theorem stops_brace (t : Text) : Stops ('\x7d' :: t) := by simp [Stops]

theorem Stops.head {c : Char} {t : Text} (h : Stops (c :: t)) :
    c.isDigit = false ∧ c ≠ '-' ∧ c ≠ '+' ∧ c ≠ '.' ∧ c ≠ 'e' ∧ c ≠ 'E' := by
  have hc := h c rfl
  simp [isBlank] at hc
  rcases hc with rfl | rfl | rfl | rfl | rfl | rfl | rfl <;> decide

theorem takeWhile_stops {s : Text} (h : Stops s) (t : Text) :
    (t ++ s).takeWhile Char.isDigit = t.takeWhile Char.isDigit := by
  induction t with
  | nil =>
    cases s with
    | nil => rfl
    | cons c s => simp [h.head.1]
  | cons c t ih => cases hc : c.isDigit <;> simp [hc, ih]

theorem dropWhile_stops {s : Text} (h : Stops s) (t : Text) :
    (t ++ s).dropWhile Char.isDigit = t.dropWhile Char.isDigit ++ s := by
  induction t with
  | nil =>
    cases s with
    | nil => rfl
    | cons c s => simp [h.head.1]
  | cons c t ih => cases hc : c.isDigit <;> simp [hc, ih]

theorem signPart_append {s : Text} (h : Stops s) (t : Text) :
    signPart (t ++ s) = ((signPart t).1, (signPart t).2 ++ s) := by
  cases t with
  | nil =>
    cases s with
    | nil => rfl
    | cons c s => simp [signPart, h.head.2.1]
  | cons c t => by_cases hc : c = '-' <;> simp [signPart, hc]

theorem intPart_append {s : Text} (h : Stops s) (t : Text) :
    intPart (t ++ s) = (intPart t).map fun r => (r.1, r.2 ++ s) := by
  cases t with
  | nil =>
    cases s with
    | nil => rfl
    | cons c s =>
      have hzero : c ≠ '0' := by
        intro hc
        have := h.head.1
        simp [hc] at this
      simp [intPart, h.head.1, hzero]
  | cons c t =>
    by_cases hzero : c = '0'
    · simp [intPart, hzero]
    · cases hc : c.isDigit <;> simp [intPart, hzero, hc, takeWhile_stops h, dropWhile_stops h]

theorem fracPart_append {s : Text} (h : Stops s) (t : Text) :
    fracPart (t ++ s) = ((fracPart t).1, (fracPart t).2 ++ s) := by
  cases t with
  | nil =>
    cases s with
    | nil => rfl
    | cons c s => simp [fracPart, h.head.2.2.2.1]
  | cons c t =>
    by_cases hdot : c = '.' ∧ t.takeWhile Char.isDigit ≠ []
    · simp [fracPart, hdot, takeWhile_stops h, dropWhile_stops h]
    · simp only [fracPart, List.cons_append, takeWhile_stops h, if_neg hdot]

theorem expSign_append {s : Text} (h : Stops s) (t : Text) :
    expSign (t ++ s) = ((expSign t).1, (expSign t).2 ++ s) := by
  cases t with
  | nil =>
    cases s with
    | nil => rfl
    | cons c s => simp [expSign, h.head.2.1, h.head.2.2.1]
  | cons c t => by_cases hc : c = '-' ∨ c = '+' <;> simp [expSign, hc]

theorem expPart_append {s : Text} (h : Stops s) (t : Text) :
    expPart (t ++ s) = ((expPart t).1, (expPart t).2 ++ s) := by
  cases t with
  | nil =>
    cases s with
    | nil => rfl
    | cons c s => simp [expPart, h.head.2.2.2.2.1, h.head.2.2.2.2.2]
  | cons c t =>
    by_cases he : (c = 'e' ∨ c = 'E') ∧ (expSign t).2.takeWhile Char.isDigit ≠ []
    · simp [expPart, he, expSign_append h, takeWhile_stops h, dropWhile_stops h]
    · simp only [expPart, List.cons_append, expSign_append h, takeWhile_stops h, if_neg he]

/-- What stops a number does not change it. -/
theorem number_append {s : Text} (h : Stops s) (t : Text) :
    number (t ++ s) = (number t).map fun r => (r.1, r.2 ++ s) := by
  simp only [number, signPart_append h, intPart_append h]
  cases intPart (signPart t).2 <;> simp [fracPart_append h, expPart_append h]

theorem number_head {c : Char} (hsign : c ≠ '-') (hdigit : c.isDigit = false) (t : Text) : number (c :: t) = none := by
  have hzero : c ≠ '0' := by
    rintro rfl
    simp at hdigit
  simp [number, signPart, intPart, hsign, hdigit, hzero]

/-- A decimal as it is commonly written: a sign, an integer, and the digits after the point if there are any. -/
def decimal (neg : Bool) (n : Nat) (f : Text) : Text :=
  (if neg then ['-'] else []) ++ (Nat.toDigits 10 n ++ if f = [] then [] else '.' :: f)

theorem toDigits_head (n : Nat) :
    Nat.toDigits 10 n = ['0'] ∨ ∃ c t, Nat.toDigits 10 n = c :: t ∧ c ≠ '0' ∧ Digits.AllDigits (c :: t) := by
  induction n using Nat.strong_induction_on with
  | _ n ih =>
    have hall := Digits.allDigits_toDigits n
    by_cases hn : n < 10
    · have hdigit : ∀ m < 10, m ≠ 0 → m.digitChar ≠ '0' := by decide
      rw [Nat.toDigits_of_lt_base hn] at hall ⊢
      by_cases hzero : n = 0
      · exact .inl (by rw [hzero]; rfl)
      · exact .inr ⟨_, _, rfl, hdigit n hn hzero, hall⟩
    · rw [Nat.toDigits_of_base_le (by decide) (by omega)] at hall ⊢
      rcases ih (n / 10) (by omega) with h | ⟨c, t, h, hc, -⟩
      · have hvalue := congrArg Digits.value h
        rw [Digits.value_toDigits] at hvalue
        have : n / 10 = 0 := hvalue
        omega
      · rw [h] at hall ⊢
        exact .inr ⟨c, _, rfl, hc, hall⟩

theorem takeWhile_point {t : Text} (h : Digits.AllDigits t) (f : Text) :
    (t ++ if f = [] then [] else '.' :: f).takeWhile Char.isDigit = t := by
  rw [List.takeWhile_append_of_pos h]
  by_cases hf : f = [] <;> simp [hf]

theorem dropWhile_point {t : Text} (h : Digits.AllDigits t) (f : Text) :
    (t ++ if f = [] then [] else '.' :: f).dropWhile Char.isDigit = if f = [] then [] else '.' :: f := by
  rw [List.dropWhile_append_of_pos h]
  by_cases hf : f = [] <;> simp [hf]

theorem intPart_toDigits (n : Nat) (f : Text) :
    intPart (Nat.toDigits 10 n ++ if f = [] then [] else '.' :: f)
      = some (Nat.toDigits 10 n, if f = [] then [] else '.' :: f) := by
  rcases toDigits_head n with h | ⟨c, t, h, hc, hall⟩
  · simp [h, intPart]
  · have hdigit : c.isDigit = true := hall c (List.mem_cons_self ..)
    have htail : Digits.AllDigits t := fun d hd => hall d (List.mem_cons_of_mem _ hd)
    rw [h, List.cons_append, intPart, if_neg hc, if_pos hdigit, takeWhile_point htail, dropWhile_point htail]

/-- Such a decimal is a number. -/
theorem number_decimal (neg : Bool) (n : Nat) {f : Text} (hf : Digits.AllDigits f) :
    number (decimal neg n f) = some (decimal neg n f, []) := by
  have hsign : signPart (decimal neg n f)
      = (if neg then ['-'] else [], Nat.toDigits 10 n ++ if f = [] then [] else '.' :: f) := by
    cases neg
    · rcases toDigits_head n with h | ⟨c, t, h, hc, hall⟩
      · simp [decimal, h, signPart]
      · have hdigit : c.isDigit = true := hall c (List.mem_cons_self ..)
        have hne : c ≠ '-' := by
          rintro rfl
          cases hdigit
        simp [decimal, h, signPart, hne]
    · simp [decimal, signPart]
  have hfrac : fracPart (if f = [] then [] else '.' :: f) = (if f = [] then [] else '.' :: f, []) := by
    by_cases hempty : f = []
    · simp [hempty, fracPart]
    · have htake : f.takeWhile Char.isDigit = f := List.takeWhile_eq_self_iff.2 hf
      have hdrop : f.dropWhile Char.isDigit = [] := List.dropWhile_eq_nil_iff.2 hf
      rw [if_neg hempty, fracPart, if_pos ⟨rfl, by rw [htake]; exact hempty⟩, htake, hdrop]
  rw [number, hsign]
  dsimp only
  rw [intPart_toDigits, Option.map_some]
  simp [hfrac, expPart, decimal]

/-! ## Values wherever they stand -/

/-- Wherever `t` stands, it is read as `v`. -/
def Reads (v : Value) (t : Text) : Prop :=
  ∀ n rest, Stops rest → t.length ≤ n → value n (t ++ rest) = some (v, rest)

/-- Wherever `t` stands, nothing is read. -/
structure Fails (t : Text) : Prop where
  head : ∃ c u, t = c :: u ∧ isBlank c = false ∧ c ≠ ']'
  none : ∀ n rest, t.length ≤ n → value n (t ++ rest) = none

/-- `t`, and the quote that closes it, are the rest of a string that is read as `s`. -/
def Quotes (s t : Text) : Prop := ∀ rest, string (t ++ '"' :: rest) = some (s, rest)

theorem quotes_plain {s : Text} (h : ∀ c ∈ s, c ≠ '"' ∧ c ≠ '\\' ∧ ¬c < ' ') : Quotes s s := by
  intro rest
  induction s with
  | nil => rw [List.nil_append, string.eq_def]; simp
  | cons c s ih =>
    obtain ⟨hquote, hslash, hcontrol⟩ := h c (List.mem_cons_self ..)
    rw [List.cons_append, string_plain hquote hslash hcontrol, ih fun d hd => h d (List.mem_cons_of_mem _ hd)]
    rfl

theorem word_none {w t : Text} {c d : Char} (h : c ≠ d) (v : Value) : word (c :: w) v (d :: t) = none := by
  simp [word, List.isPrefixOf, h]

/-- The characters that can stand at the head of a value that is no string, array or object. -/
theorem scalar_none {c : Char} (hn : c ≠ 'n') (ht : c ≠ 't') (hf : c ≠ 'f') (hN : c ≠ 'N') (hI : c ≠ 'I')
    (hsign : c ≠ '-') (hdigit : c.isDigit = false) (t : Text) : scalar (c :: t) = none := by
  simp [scalar, word, List.isPrefixOf, hn.symm, ht.symm, hf.symm, hN.symm, hI.symm, hsign.symm, number_head hsign hdigit]

/-- A text that is read has a first character, and it is none that stands between values. -/
theorem Reads.head {v : Value} {t : Text} (h : Reads v t) :
    ∃ c u, t = c :: u ∧ isBlank c = false ∧ c ≠ ']' ∧ c ≠ '\ufeff' := by
  have hread := h t.length [] stops_nil (Nat.le_refl _)
  cases t with
  | nil => simp [value] at hread
  | cons c u =>
    refine ⟨c, u, rfl, ?_⟩
    by_contra hc
    have hcases : c = ' ' ∨ c = '\t' ∨ c = '\n' ∨ c = '\r' ∨ c = ']' ∨ c = '\ufeff' := by
      by_contra hnot
      simp only [not_or] at hnot
      exact hc ⟨by simp [isBlank, hnot], hnot.2.2.2.2⟩
    have hnone : value (c :: u).length ((c :: u) ++ []) = none := by
      rw [List.append_nil, List.length_cons, value]
      rcases hcases with rfl | rfl | rfl | rfl | rfl | rfl <;> simp <;> apply scalar_none <;> decide
    rw [hnone] at hread
    cases hread

/-- What can stand where a value starts. -/
def Opens (t : Text) : Prop := ∃ c u, t = c :: u ∧ isBlank c = false ∧ c ≠ ']'

theorem Opens.append {t : Text} (h : Opens t) (rest : Text) : Opens (t ++ rest) := by
  obtain ⟨c, u, rfl, hc⟩ := h
  exact ⟨c, u ++ rest, rfl, hc⟩

/-- The first element opens the elements. -/
theorem Opens.intercalate {t : Text} (h : Opens t) (ts : List Text) : Opens ([','].intercalate (t :: ts)) := by
  cases ts with
  | nil => simpa only [List.intercalate_singleton] using h
  | cons t' ts => simpa only [List.intercalate_cons_cons, List.append_assoc] using h.append _

theorem Opens.skipWs {t : Text} (h : Opens t) : Json.skipWs t = t := by
  obtain ⟨c, u, rfl, hblank, -⟩ := h
  exact skipWs_cons hblank _

theorem Reads.opens {v : Value} {t : Text} (h : Reads v t) : Opens t := by
  obtain ⟨c, u, rfl, hblank, hclose, -⟩ := h.head
  exact ⟨c, u, rfl, hblank, hclose⟩

theorem Reads.skipWs {v : Value} {t : Text} (h : Reads v t) (rest : Text) : Json.skipWs (t ++ rest) = t ++ rest :=
  (h.opens.append rest).skipWs

theorem Reads.num {t : Text} (h : number t = some (t, [])) : Reads (.num t) t := by
  intro n rest hstop hn
  cases t with
  | nil => simp [number, signPart, intPart] at h
  | cons c u =>
    obtain ⟨n, rfl⟩ : ∃ m, n = m + 1 := ⟨n - 1, by rw [List.length_cons] at hn; omega⟩
    have hhead : c = '-' ∨ c.isDigit = true := by
      by_contra hc
      simp only [not_or, Bool.not_eq_true] at hc
      rw [number_head hc.1 hc.2] at h
      cases h
    have hnumber : number (c :: (u ++ rest)) = some (c :: u, rest) := by
      have := number_append hstop (c :: u)
      rw [h] at this
      simpa using this
    have hc : ∀ d, d ≠ '-' → d.isDigit = false → c ≠ d := by
      rintro d hsign hdigit rfl
      rcases hhead with rfl | hd
      · exact hsign rfl
      · rw [hd] at hdigit
        cases hdigit
    have hne : ∀ d, d ≠ '-' → d.isDigit = false → d ≠ c := fun d h₁ h₂ => (hc d h₁ h₂).symm
    rw [List.cons_append, value, if_neg (hc _ (by decide) (by decide)), if_neg (hc _ (by decide) (by decide)),
      if_neg (hc _ (by decide) (by decide))]
    simp [scalar, word, List.isPrefixOf, hne 'n' (by decide) (by decide), hne 't' (by decide) (by decide),
      hne 'f' (by decide) (by decide), hnumber]

theorem Reads.str {s t : Text} (h : Quotes s t) : Reads (.str s) ('"' :: t ++ ['"']) := by
  intro n rest _ hn
  obtain ⟨n, rfl⟩ : ∃ m, n = m + 1 := ⟨n - 1, by simp at hn; omega⟩
  have := h rest
  simp [value, this]

theorem reads_elements {vs : List Value} {ts : List Text} (h : List.Forall₂ Reads vs ts) (hne : ts ≠ []) (rest : Text) :
    ∀ n, ([','].intercalate ts).length + 1 ≤ n →
      elements n ([','].intercalate ts ++ ']' :: rest) = some (vs, rest) := by
  induction h with
  | nil => exact absurd rfl hne
  | @cons v t vs ts hv hts ih =>
    intro n hn
    obtain ⟨n, rfl⟩ : ∃ m, n = m + 1 := ⟨n - 1, by omega⟩
    cases ts with
    | nil =>
      cases hts
      rw [List.intercalate_singleton] at hn ⊢
      rw [elements, hv n _ (stops_bracket rest) (by omega)]
      simp [separator, Json.skipWs, isBlank]
    | cons t' ts =>
      rw [List.intercalate_cons_cons] at hn ⊢
      simp only [List.length_append, List.length_cons, List.length_nil] at hn
      obtain ⟨w, hw⟩ : ∃ w, w = [','].intercalate (t' :: ts) ++ ']' :: rest := ⟨_, rfl⟩
      have hrest := ih (by simp) n (by omega)
      rw [← hw] at hrest
      have hskip : Json.skipWs w = w := by
        cases hts with
        | cons hv' _ =>
          rw [hw]
          exact ((hv'.opens.intercalate ts).append _).skipWs
      rw [elements, List.append_assoc, List.append_assoc, List.singleton_append, ← hw,
        hv n _ (stops_comma _) (by omega)]
      simp [separator, isBlank, hskip, hrest]

theorem Reads.arr {vs : List Value} {ts : List Text} (h : List.Forall₂ Reads vs ts) :
    Reads (.arr vs) ('[' :: [','].intercalate ts ++ [']']) := by
  intro n rest _ hn
  obtain ⟨n, rfl⟩ : ∃ m, n = m + 1 := ⟨n - 1, by simp at hn; omega⟩
  have hn' : ([','].intercalate ts).length + 1 ≤ n := by simpa using hn
  cases h with
  | nil => simp [value, expect, Json.skipWs, isBlank]
  | @cons v t vs ts hv hts =>
    have hread := reads_elements (List.Forall₂.cons hv hts) (by simp) rest n hn'
    obtain ⟨c, u, hw, hblank, hclose⟩ := (hv.opens.intercalate ts).append (']' :: rest)
    rw [hw] at hread
    have happend : '[' :: [','].intercalate (t :: ts) ++ [']'] ++ rest = '[' :: c :: u := by
      rw [← hw]
      simp
    rw [happend]
    simp [value, hblank, hclose, hread]

/-- A member of an object as it is written. -/
def memberText (q : Text × Text) : Text := q.1 ++ '"' :: ':' :: q.2

/-- The text of a member is read as the member. -/
structure ReadsMember (p : Text × Value) (q : Text × Text) : Prop where
  name : Quotes p.1 q.1
  value : Reads p.2 q.2

theorem reads_members {ps : List (Text × Value)} {qs : List (Text × Text)} (h : List.Forall₂ ReadsMember ps qs)
    (hne : qs ≠ []) (rest : Text) :
    ∀ n, ([',', '"'].intercalate (qs.map memberText)).length + 1 ≤ n →
      members n ([',', '"'].intercalate (qs.map memberText) ++ '\x7d' :: rest) = some (ps, rest) := by
  induction h with
  | nil => exact absurd rfl hne
  | @cons p q ps qs hp hqs ih =>
    intro n hn
    obtain ⟨n, rfl⟩ : ∃ m, n = m + 1 := ⟨n - 1, by omega⟩
    have hcolon : isBlank ':' = false := by decide
    cases qs with
    | nil =>
      cases hqs
      simp only [List.map_cons, List.map_nil, List.intercalate_singleton, memberText, List.append_assoc,
        List.cons_append, List.length_append, List.length_cons] at hn ⊢
      rw [members, hp.name, Option.bind_some, expect_cons hcolon, if_pos rfl, Option.bind_some, hp.value.skipWs,
        hp.value n _ (stops_brace rest) (by omega)]
      simp [separator, isBlank]
    | cons q' qs =>
      rw [List.map_cons, List.map_cons, List.intercalate_cons_cons] at hn ⊢
      rw [← List.map_cons] at hn ⊢
      simp only [memberText, List.append_assoc, List.cons_append, List.length_append, List.length_cons,
        List.nil_append] at hn ⊢
      have hrest := ih (by simp) n (by simp only [memberText, List.map_cons] at hn ⊢; omega)
      rw [members, hp.name, Option.bind_some, expect_cons hcolon, if_pos rfl, Option.bind_some, hp.value.skipWs,
        hp.value n _ (stops_comma _) (by omega)]
      rw [List.map_cons] at hrest
      simp [separator, isBlank, expect, Json.skipWs, hrest]

theorem Reads.obj {ps : List (Text × Value)} {qs : List (Text × Text)} (h : List.Forall₂ ReadsMember ps qs)
    (hne : qs ≠ []) : Reads (.obj ps) ('\x7b' :: '"' :: [',', '"'].intercalate (qs.map memberText) ++ ['\x7d']) := by
  intro n rest _ hn
  obtain ⟨n, rfl⟩ : ∃ m, n = m + 1 := ⟨n - 1, by simp at hn; omega⟩
  have hread := reads_members h hne rest n (by simp at hn; omega)
  have hquote : isBlank '"' = false := by decide
  simp [value, expect_cons hquote, hread]

theorem loads_of_reads {v : Value} {t : Text} (h : Reads v t) : loads t = some v := by
  obtain ⟨c, u, rfl, hblank, -, hbom⟩ := h.head
  have hread := h (c :: u).length [] stops_nil (Nat.le_refl _)
  rw [List.append_nil] at hread
  have hfirst : (c :: u).head? ≠ some '\ufeff' := fun h => hbom (Option.some.inj h)
  rw [loads, if_neg hfirst, skipWs_cons hblank, hread]
  rfl

/-- Something else behind the value is too much. -/
theorem loads_extra {v : Value} {t : Text} (h : Reads v t) {rest : Text} (hstop : Stops rest) (hrest : skipWs rest ≠ []) :
    loads (t ++ rest) = none := by
  have hread := h (t ++ rest).length rest hstop (by simp)
  have hskip := h.skipWs rest
  simp only [loads, hskip, hread, Option.bind_some, if_neg hrest, ite_self]

/-! ## Texts that are not read -/

theorem Fails.opens {t : Text} (h : Fails t) : Opens t := h.head

theorem Fails.skipWs {t : Text} (h : Fails t) (rest : Text) : Json.skipWs (t ++ rest) = t ++ rest :=
  (h.opens.append rest).skipWs

theorem opens_elements {vs : List Value} {ts : List Text} (h : List.Forall₂ Reads vs ts) {b : Text} (hb : Fails b)
    (us : List Text) : Opens ([','].intercalate (ts ++ b :: us)) := by
  cases h with
  | nil => exact hb.opens.intercalate us
  | cons hv _ => exact hv.opens.intercalate _

theorem loads_of_fails {t : Text} (h : Fails t) (rest : Text) : loads (t ++ rest) = none := by
  have hnone := h.none (t ++ rest).length rest (by simp)
  have hskip := h.skipWs rest
  simp only [loads, hskip, hnone, Option.bind_none, ite_self]

/-- An element that fails after elements that are read. -/
theorem fails_elements {vs : List Value} {ts : List Text} (h : List.Forall₂ Reads vs ts) {b : Text} (hb : Fails b)
    (us : List Text) (rest : Text) : ∀ n, ([','].intercalate (ts ++ b :: us)).length + 1 ≤ n →
      elements n ([','].intercalate (ts ++ b :: us) ++ rest) = none := by
  induction h with
  | nil =>
    intro n hn
    obtain ⟨n, rfl⟩ : ∃ m, n = m + 1 := ⟨n - 1, by omega⟩
    rw [List.nil_append] at hn ⊢
    cases us with
    | nil =>
      rw [List.intercalate_singleton] at hn ⊢
      simp [elements, hb.none n rest (by omega)]
    | cons u us =>
      rw [List.intercalate_cons_cons] at hn ⊢
      simp only [List.append_assoc, List.length_append] at hn ⊢
      simp [elements, hb.none n _ (show b.length ≤ n by omega)]
  | @cons v t vs ts hv hts ih =>
    intro n hn
    obtain ⟨n, rfl⟩ : ∃ m, n = m + 1 := ⟨n - 1, by omega⟩
    obtain ⟨w, hw⟩ : ∃ w, w = [','].intercalate (ts ++ b :: us) := ⟨_, rfl⟩
    have hsplit : [','].intercalate (t :: ts ++ b :: us) = t ++ ',' :: w := by
      rw [hw, List.cons_append, List.intercalate_cons_of_ne_nil (by simp)]
      simp
    rw [hsplit, List.length_append, List.length_cons] at hn
    have hrest := ih n (by rw [← hw]; omega)
    rw [← hw] at hrest
    have hskip : Json.skipWs (w ++ rest) = w ++ rest := by
      rw [hw]
      exact ((opens_elements hts hb us).append rest).skipWs
    rw [hsplit, elements, List.append_assoc, List.cons_append, hv n _ (stops_comma _) (by omega)]
    simp [separator, isBlank, hskip, hrest]

theorem Fails.arr {vs : List Value} {ts : List Text} (h : List.Forall₂ Reads vs ts) {b : Text} (hb : Fails b)
    (us : List Text) : Fails ('[' :: [','].intercalate (ts ++ b :: us) ++ [']']) where
  head := ⟨'[', _, rfl, by decide, by decide⟩
  none n rest hn := by
    obtain ⟨n, rfl⟩ : ∃ m, n = m + 1 := ⟨n - 1, by simp at hn; omega⟩
    obtain ⟨w, hw⟩ : ∃ w, w = [','].intercalate (ts ++ b :: us) := ⟨_, rfl⟩
    have hfail := fails_elements h hb us (']' :: rest) n (by simp at hn ⊢; omega)
    rw [← hw] at hfail ⊢
    have hopens : Opens w := by
      rw [hw]
      exact opens_elements h hb us
    obtain ⟨c, u, rfl, hblank, hclose⟩ := hopens
    rw [List.cons_append] at hfail
    simp [value, hblank, hclose, hfail]

/-- A member whose value fails after members that are read. -/
theorem fails_members {ps : List (Text × Value)} {qs : List (Text × Text)} (h : List.Forall₂ ReadsMember ps qs)
    {s k b : Text} (hk : Quotes s k) (hb : Fails b) (rs : List (Text × Text)) (rest : Text) :
    ∀ n, ([',', '"'].intercalate ((qs ++ (k, b) :: rs).map memberText)).length + 1 ≤ n →
      members n ([',', '"'].intercalate ((qs ++ (k, b) :: rs).map memberText) ++ rest) = none := by
  have hcolon : isBlank ':' = false := by decide
  induction h with
  | nil =>
    intro n hn
    obtain ⟨n, rfl⟩ : ∃ m, n = m + 1 := ⟨n - 1, by omega⟩
    rw [List.nil_append, List.map_cons] at hn ⊢
    cases rs with
    | nil =>
      simp only [List.map_nil, List.intercalate_singleton, memberText, List.append_assoc, List.cons_append,
        List.length_append, List.length_cons] at hn ⊢
      simp [members, hk _, hcolon, hb.skipWs, hb.none n rest (by omega)]
    | cons r rs =>
      rw [List.map_cons, List.intercalate_cons_cons] at hn ⊢
      simp only [memberText, List.append_assoc, List.cons_append, List.length_append, List.length_cons] at hn ⊢
      simp [members, hk _, hcolon, hb.skipWs, hb.none n _ (show b.length ≤ n by omega)]
  | @cons p q ps qs hp hqs ih =>
    intro n hn
    obtain ⟨n, rfl⟩ : ∃ m, n = m + 1 := ⟨n - 1, by omega⟩
    obtain ⟨w, hw⟩ : ∃ w, w = [',', '"'].intercalate ((qs ++ (k, b) :: rs).map memberText) := ⟨_, rfl⟩
    have hsplit : [',', '"'].intercalate ((q :: qs ++ (k, b) :: rs).map memberText)
        = q.1 ++ '"' :: ':' :: (q.2 ++ ',' :: '"' :: w) := by
      rw [hw, List.cons_append, List.map_cons, List.intercalate_cons_of_ne_nil (by simp)]
      simp [memberText]
    rw [hsplit] at hn ⊢
    simp only [List.length_append, List.length_cons] at hn
    have hrest := ih n (by rw [← hw]; omega)
    rw [← hw] at hrest
    simp only [List.append_assoc, List.cons_append]
    rw [members, hp.name, Option.bind_some, expect_cons hcolon, if_pos rfl, Option.bind_some, hp.value.skipWs,
      hp.value n _ (stops_comma _) (by omega)]
    simp [separator, isBlank, expect, Json.skipWs, hrest]

theorem Fails.obj {ps : List (Text × Value)} {qs : List (Text × Text)} (h : List.Forall₂ ReadsMember ps qs)
    {s k b : Text} (hk : Quotes s k) (hb : Fails b) (rs : List (Text × Text)) :
    Fails ('\x7b' :: '"' :: [',', '"'].intercalate ((qs ++ (k, b) :: rs).map memberText) ++ ['\x7d']) where
  head := ⟨'\x7b', _, rfl, by decide, by decide⟩
  none n rest hn := by
    obtain ⟨n, rfl⟩ : ∃ m, n = m + 1 := ⟨n - 1, by simp at hn; omega⟩
    obtain ⟨w, hw⟩ : ∃ w, w = [',', '"'].intercalate ((qs ++ (k, b) :: rs).map memberText) := ⟨_, rfl⟩
    have hfail := fails_members h hk hb rs ('\x7d' :: rest) n (by simp at hn ⊢; omega)
    rw [← hw] at hfail ⊢
    have hquote : isBlank '"' = false := by decide
    simp [value, hquote, hfail]

/-! ## The fuel is no limit -/

theorem string_length_aux (n : Nat) : ∀ t r, t.length = n → string t = some r → r.2.length < t.length := by
  induction n using Nat.strong_induction_on with
  | _ n ih =>
    intro t r hn hr
    have hstep : ∀ {u : Text} {c : Char}, u.length < t.length → (string u).map (fun r => (c :: r.1, r.2)) = some r →
        r.2.length < t.length := by
      intro u c hu h
      obtain ⟨r', hr', rfl⟩ := Option.map_eq_some_iff.1 h
      have := ih u.length (by omega) u r' rfl hr'
      dsimp only
      omega
    rw [string.eq_def] at hr
    cases t with
    | nil => simp at hr
    | cons c u =>
      dsimp only at hr
      by_cases hquote : c = '"'
      · simp [hquote] at hr
        subst hr
        simp
      rw [if_neg hquote] at hr
      by_cases hslash : c = '\\'
      · rw [if_pos hslash] at hr
        split at hr
        · rename_i a b c d u
          obtain ⟨h, hhex, hr⟩ := Option.bind_eq_some_iff.1 hr
          by_cases hhigh : isHigh h = true
          · rw [if_pos hhigh] at hr
            split at hr
            · rename_i e f g h u
              obtain ⟨l, hhex', hr⟩ := Option.bind_eq_some_iff.1 hr
              by_cases hlow : isLow l = true
              · rw [if_pos hlow] at hr
                exact hstep (by simp; omega) hr
              · simp [hlow] at hr
            · simp at hr
          · rw [if_neg hhigh] at hr
            by_cases hlow : isLow h = true
            · simp [hlow] at hr
            · rw [if_neg hlow] at hr
              exact hstep (by simp; omega) hr
        · obtain ⟨c, hc, hr⟩ := Option.bind_eq_some_iff.1 hr
          exact hstep (by simp) hr
        · simp at hr
      rw [if_neg hslash] at hr
      by_cases hcontrol : c < ' '
      · simp [hcontrol] at hr
      · rw [if_neg hcontrol] at hr
        exact hstep (by simp) hr

theorem string_length {t : Text} {r : Text × Text} (h : string t = some r) : r.2.length < t.length :=
  string_length_aux _ t r rfl h

theorem word_length {w : Text} {v : Value} {t : Text} {r : Value × Text} (hw : w ≠ []) (h : word w v t = some r) :
    r.2.length < t.length := by
  unfold word at h
  split at h
  · rename_i hprefix
    obtain ⟨u, rfl⟩ := List.isPrefixOf_iff_prefix.1 hprefix
    cases h
    have := List.length_pos_iff.2 hw
    simp
    omega
  · cases h

theorem length_dropWhile_le (t : Text) (p : Char → Bool) : (t.dropWhile p).length ≤ t.length :=
  (List.dropWhile_sublist _).length_le

theorem number_length {t : Text} {r : Text × Text} (h : number t = some r) : r.2.length < t.length := by
  have hsign : (signPart t).2.length ≤ t.length := by
    unfold signPart
    split <;> simp
  have hint : ∀ {t : Text} {r : Text × Text}, intPart t = some r → r.2.length < t.length := by
    intro t r h
    cases t with
    | nil => simp [intPart] at h
    | cons c u =>
      have := length_dropWhile_le u Char.isDigit
      unfold intPart at h
      dsimp only at h
      split at h
      · cases h
        simp
      · split at h
        · cases h
          simp
          omega
        · cases h
  have hfrac : ∀ t : Text, (fracPart t).2.length ≤ t.length := by
    intro t
    cases t with
    | nil => simp [fracPart]
    | cons c u =>
      have := length_dropWhile_le u Char.isDigit
      unfold fracPart
      dsimp only
      split
      · simp
        omega
      · simp
  have hexpSign : ∀ t : Text, (expSign t).2.length ≤ t.length := by
    intro t
    cases t with
    | nil => simp [expSign]
    | cons c u =>
      unfold expSign
      dsimp only
      split <;> simp
  have hexp : ∀ t : Text, (expPart t).2.length ≤ t.length := by
    intro t
    cases t with
    | nil => simp [expPart]
    | cons c u =>
      have := length_dropWhile_le (expSign u).2 Char.isDigit
      have := hexpSign u
      unfold expPart
      dsimp only
      split
      · simp
        omega
      · simp
  obtain ⟨i, hi, rfl⟩ := Option.map_eq_some_iff.1 h
  have h₁ := hint hi
  have h₂ := hfrac i.2
  have h₃ := hexp (fracPart i.2).2
  dsimp only
  omega

theorem scalar_length {t : Text} {r : Value × Text} (h : scalar t = some r) : r.2.length < t.length := by
  simp only [scalar, Option.orElse_eq_some] at h
  rcases h with h | ⟨-, h | ⟨-, h | ⟨-, h | ⟨-, h | ⟨-, h | ⟨-, h⟩⟩⟩⟩⟩⟩
  · exact word_length (by decide) h
  · exact word_length (by decide) h
  · exact word_length (by decide) h
  · obtain ⟨r', hr', rfl⟩ := Option.map_eq_some_iff.1 h
    exact number_length hr'
  · exact word_length (by decide) h
  · exact word_length (by decide) h
  · exact word_length (by decide) h

/-- What any fuel reads is read with the length of what was read as fuel. -/
theorem enough (n : Nat) :
    (∀ t r, value n t = some r → r.2.length < t.length ∧ ∀ m, t.length ≤ m + r.2.length → value m t = some r) ∧
    (∀ t r, elements n t = some r → r.2.length < t.length ∧ ∀ m, t.length ≤ m + r.2.length → elements m t = some r) ∧
    ∀ t r, members n t = some r → r.2.length < t.length ∧ ∀ m, t.length ≤ m + r.2.length → members m t = some r := by
  induction n with
  | zero => refine ⟨?_, ?_, ?_⟩ <;> intro t r h <;> cases t <;> simp [value, elements, members] at h
  | succ n ih =>
    obtain ⟨ihv, ihe, ihm⟩ := ih
    refine ⟨?_, ?_, ?_⟩
    · intro t r h
      cases t with
      | nil => simp [value] at h
      | cons c u =>
        -- the fuel is left after the first character
        have hfuel : ∀ {m k : Nat}, (c :: u).length ≤ m + k → k ≤ u.length → ∃ m', m = m' + 1 ∧ u.length ≤ m' + k := by
          intro m k hm hk
          rw [List.length_cons] at hm
          exact ⟨m - 1, by omega, by omega⟩
        rw [value] at h
        by_cases hquote : c = '"'
        · rw [if_pos hquote] at h
          obtain ⟨s, hs, rfl⟩ := Option.map_eq_some_iff.1 h
          have hlen := string_length hs
          refine ⟨by simp; omega, fun m hm => ?_⟩
          obtain ⟨m, rfl, -⟩ := hfuel hm (by simp; omega)
          rw [value, if_pos hquote, hs]
          rfl
        rw [if_neg hquote] at h
        by_cases hbracket : c = '['
        · rw [if_pos hbracket] at h
          rcases (Option.orElse_eq_some _ _ _).1 h with h | ⟨hnone, h⟩
          · obtain ⟨v, hv, rfl⟩ := Option.map_eq_some_iff.1 h
            have hlen := expect_length hv
            refine ⟨by simp; omega, fun m hm => ?_⟩
            obtain ⟨m, rfl, -⟩ := hfuel hm (by simp; omega)
            rw [value, if_neg hquote, if_pos hbracket, hv]
            rfl
          · obtain ⟨e, he, rfl⟩ := Option.map_eq_some_iff.1 h
            obtain ⟨hlen, helems⟩ := ihe _ e he
            have hws := length_skipWs_le u
            refine ⟨by simp; omega, fun m hm => ?_⟩
            obtain ⟨m, rfl, hrest⟩ := hfuel hm (by simp; omega)
            have hrest : u.length ≤ m + e.2.length := hrest
            rw [value, if_neg hquote, if_pos hbracket, hnone, helems m (by omega)]
            rfl
        rw [if_neg hbracket] at h
        by_cases hbrace : c = '\x7b'
        · rw [if_pos hbrace] at h
          rcases (Option.orElse_eq_some _ _ _).1 h with h | ⟨hnone, h⟩
          · obtain ⟨v, hv, rfl⟩ := Option.map_eq_some_iff.1 h
            have hlen := expect_length hv
            refine ⟨by simp; omega, fun m hm => ?_⟩
            obtain ⟨m, rfl, -⟩ := hfuel hm (by simp; omega)
            rw [value, if_neg hquote, if_neg hbracket, if_pos hbrace, hv]
            rfl
          · obtain ⟨v, hv, h⟩ := Option.bind_eq_some_iff.1 h
            obtain ⟨e, he, rfl⟩ := Option.map_eq_some_iff.1 h
            obtain ⟨hlen, hmems⟩ := ihm _ e he
            have hname := expect_length hv
            refine ⟨by simp; omega, fun m hm => ?_⟩
            obtain ⟨m, rfl, hrest⟩ := hfuel hm (by simp; omega)
            have hrest : u.length ≤ m + e.2.length := hrest
            rw [value, if_neg hquote, if_neg hbracket, if_pos hbrace, hnone, hv, Option.bind_some, hmems m (by omega)]
            rfl
        rw [if_neg hbrace] at h
        have hlen := scalar_length h
        refine ⟨hlen, fun m hm => ?_⟩
        rw [List.length_cons] at hlen
        obtain ⟨m, rfl, -⟩ := hfuel hm (by omega)
        rw [value, if_neg hquote, if_neg hbracket, if_neg hbrace, h]
    · intro t r h
      rw [elements] at h
      obtain ⟨a, ha, h⟩ := Option.bind_eq_some_iff.1 h
      obtain ⟨b, hb, h⟩ := Option.bind_eq_some_iff.1 h
      obtain ⟨hlen, hval⟩ := ihv t a ha
      have hsep := separator_length hb
      by_cases hmore : b.1 = true
      · rw [if_pos hmore] at h
        obtain ⟨e, he, rfl⟩ := Option.map_eq_some_iff.1 h
        obtain ⟨hlen', helems⟩ := ihe _ e he
        have hws := length_skipWs_le b.2
        refine ⟨by dsimp only; omega, fun m hm => ?_⟩
        dsimp only at hm
        obtain ⟨m, rfl⟩ : ∃ k, m = k + 1 := ⟨m - 1, by omega⟩
        rw [elements, hval m (by omega), Option.bind_some, hb, Option.bind_some, if_pos hmore, helems m (by omega)]
        rfl
      · rw [if_neg hmore] at h
        cases h
        refine ⟨by dsimp only; omega, fun m hm => ?_⟩
        dsimp only at hm
        obtain ⟨m, rfl⟩ : ∃ k, m = k + 1 := ⟨m - 1, by omega⟩
        rw [elements, hval m (by omega), Option.bind_some, hb, Option.bind_some, if_neg hmore]
    · intro t r h
      rw [members] at h
      obtain ⟨k, hk, h⟩ := Option.bind_eq_some_iff.1 h
      obtain ⟨u, hu, h⟩ := Option.bind_eq_some_iff.1 h
      obtain ⟨a, ha, h⟩ := Option.bind_eq_some_iff.1 h
      obtain ⟨b, hb, h⟩ := Option.bind_eq_some_iff.1 h
      obtain ⟨hlen, hval⟩ := ihv _ a ha
      have hname := string_length hk
      have hcolon := expect_length hu
      have hws := length_skipWs_le u
      have hsep := separator_length hb
      by_cases hmore : b.1 = true
      · rw [if_pos hmore] at h
        obtain ⟨u', hu', h⟩ := Option.bind_eq_some_iff.1 h
        obtain ⟨e, he, rfl⟩ := Option.map_eq_some_iff.1 h
        obtain ⟨hlen', hmems⟩ := ihm _ e he
        have hquote := expect_length hu'
        refine ⟨by dsimp only; omega, fun m hm => ?_⟩
        dsimp only at hm
        obtain ⟨m, rfl⟩ : ∃ k, m = k + 1 := ⟨m - 1, by omega⟩
        rw [members, hk, Option.bind_some, hu, Option.bind_some, hval m (by omega), Option.bind_some, hb,
          Option.bind_some, if_pos hmore, hu', Option.bind_some, hmems m (by omega)]
        rfl
      · rw [if_neg hmore] at h
        cases h
        refine ⟨by dsimp only; omega, fun m hm => ?_⟩
        dsimp only at hm
        obtain ⟨m, rfl⟩ : ∃ k, m = k + 1 := ⟨m - 1, by omega⟩
        rw [members, hk, Option.bind_some, hu, Option.bind_some, hval m (by omega), Option.bind_some, hb,
          Option.bind_some, if_neg hmore]

/-- **The fuel is no limit**: what any fuel reads is read with the length of the text as fuel. -/
theorem value_enough {n : Nat} {t : Text} {r : Value × Text} (h : value n t = some r) : value t.length t = some r :=
  (((enough n).1 t r h).2 t.length (Nat.le_add_right ..))

end Json
