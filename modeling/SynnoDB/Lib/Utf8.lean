import Mathlib

/-!
# UTF-8 with replacement

Every byte sequence is decoded: what begins no character is replaced by `U+FFFD`, the longest
beginning of one at once. What was encoded comes back (`decode_encode`), and an ASCII character cuts a sequence in two
that are decoded on their own (`decode_append`).
-/

namespace Utf8

def encode (t : List Char) : List UInt8 := t.flatMap String.utf8EncodeChar

def continues (b : UInt8) : Bool := 0x80 ≤ b && b ≤ 0xBF

/-- Whether the byte `b1` can follow the first byte `b0` of a character of at least three bytes. -/
def second (b0 b1 : UInt8) : Bool :=
  if b0 = 0xE0 then 0xA0 ≤ b1 && b1 ≤ 0xBF
  else if b0 = 0xED then 0x80 ≤ b1 && b1 ≤ 0x9F
  else if b0 = 0xF0 then 0x90 ≤ b1 && b1 ≤ 0xBF
  else if b0 = 0xF4 then 0x80 ≤ b1 && b1 ≤ 0x8F
  else 0xE1 ≤ b0 && b0 ≤ 0xF3 && continues b1

/-- How many bytes are replaced where no character stands. -/
def malformed : List UInt8 → Nat
  | b0 :: b1 :: b2 :: _ => if second b0 b1 then if 0xF0 ≤ b0 && continues b2 then 3 else 2 else 1
  | [b0, b1] => if second b0 b1 then 2 else 1
  | _ => 1

theorem malformed_pos (bs : List UInt8) : 0 < malformed bs := by
  unfold malformed
  split
  · split
    · split <;> decide
    · decide
  · split <;> decide
  · decide

def decode : List UInt8 → List Char
  | [] => []
  | b :: bs =>
    match (b :: bs).toByteArray.utf8DecodeChar? 0 with
    | some c => c :: decode ((b :: bs).drop c.utf8Size)
    | none => '\uFFFD' :: decode ((b :: bs).drop (malformed (b :: bs)))
termination_by bs => bs.length
decreasing_by
  · have := c.utf8Size_pos
    rw [List.length_drop, List.length_cons]
    omega
  · have := malformed_pos (b :: bs)
    rw [List.length_drop, List.length_cons]
    omega

/-- What was encoded is decoded whatever follows it. -/
theorem decode_encode_append (t : List Char) (rest : List UInt8) : decode (encode t ++ rest) = t ++ decode rest := by
  induction t with
  | nil => rfl
  | cons c t ih =>
    have hhead : ((String.utf8EncodeChar c ++ (encode t ++ rest)).toByteArray).utf8DecodeChar? 0 = some c := by
      rw [List.toByteArray_append]
      exact ByteArray.utf8DecodeChar?_utf8EncodeChar_append
    have htail : (String.utf8EncodeChar c ++ (encode t ++ rest)).drop c.utf8Size = encode t ++ rest := by
      rw [← String.length_utf8EncodeChar c, List.drop_left]
    rw [encode, List.flatMap_cons, List.append_assoc]
    change decode (String.utf8EncodeChar c ++ (encode t ++ rest)) = c :: t ++ decode rest
    cases hbs : String.utf8EncodeChar c ++ (encode t ++ rest) with
    | nil =>
      have hpos := c.utf8Size_pos
      have hlen := congrArg List.length hbs
      have hsize := String.length_utf8EncodeChar c
      rw [List.length_append, List.length_nil] at hlen
      omega
    | cons b bs =>
      rw [hbs] at hhead htail
      rw [decode, hhead]
      dsimp only
      rw [htail, ih, List.cons_append]

theorem decode_encode (t : List Char) : decode (encode t) = t := by
  have h := decode_encode_append t []
  rw [List.append_nil] at h
  rw [h, decode.eq_1, List.append_nil]

theorem length_le_encode (t : List Char) : t.length ≤ (encode t).length := by
  induction t with
  | nil => exact Nat.le_refl _
  | cons c t ih =>
    have hpos := c.utf8Size_pos
    have hsize := String.length_utf8EncodeChar c
    rw [encode, List.flatMap_cons, List.length_append, List.length_cons]
    change t.length + 1 ≤ (String.utf8EncodeChar c).length + (encode t).length
    omega

theorem zero_ne_ofNat {n : Nat} (hpos : 0 < n) (hlt : n < 256) : (0 : UInt8) ≠ UInt8.ofNat n := fun h => by
  have := congrArg UInt8.toNat h
  rw [UInt8.toNat_ofNat', Nat.mod_eq_of_lt hlt] at this
  exact absurd this (Nat.ne_of_lt hpos)

/-- Only `NUL` has a zero byte. -/
theorem zero_notMem_encodeChar {c : Char} (h : c ≠ '\x00') : 0 ∉ String.utf8EncodeChar c := by
  have hpos : c.val.toNat ≠ 0 := fun h0 => h (Char.ext (UInt32.toNat_inj.1 h0))
  unfold String.utf8EncodeChar
  dsimp only
  split
  · rw [List.mem_singleton]
    exact zero_ne_ofNat (by omega) (by omega)
  · split
    · simp only [List.mem_cons, List.not_mem_nil, or_false, not_or]
      exact ⟨zero_ne_ofNat (by omega) (by omega), zero_ne_ofNat (by omega) (by omega)⟩
    · split
      · simp only [List.mem_cons, List.not_mem_nil, or_false, not_or]
        exact ⟨zero_ne_ofNat (by omega) (by omega), zero_ne_ofNat (by omega) (by omega),
          zero_ne_ofNat (by omega) (by omega)⟩
      · simp only [List.mem_cons, List.not_mem_nil, or_false, not_or]
        exact ⟨zero_ne_ofNat (by omega) (by omega), zero_ne_ofNat (by omega) (by omega),
          zero_ne_ofNat (by omega) (by omega), zero_ne_ofNat (by omega) (by omega)⟩

theorem zero_notMem_encode {t : List Char} (h : '\x00' ∉ t) : 0 ∉ encode t := fun hm => by
  obtain ⟨c, hc, hbyte⟩ := List.mem_flatMap.1 hm
  exact zero_notMem_encodeChar (fun h0 => h (h0 ▸ hc)) hbyte

/-! ## ASCII characters are boundaries -/

/-- The bytes of a character after its first one are no ASCII characters. -/
theorem encodeChar_tail (c : Char) : ∀ b ∈ (String.utf8EncodeChar c).tail, (0x80 : UInt8) ≤ b := by
  have high : ∀ n, (0x80 : UInt8) ≤ UInt8.ofNat (n % 64 + 128) := by
    intro n
    rw [UInt8.le_iff_toNat_le, UInt8.toNat_ofNat']
    have hlt := Nat.mod_lt n (show 0 < 64 by decide)
    rw [Nat.mod_eq_of_lt (by omega)]
    simp
  unfold String.utf8EncodeChar
  dsimp only
  split
  · simp
  · intro b hb
    suffices h : ∃ n, b = UInt8.ofNat (n % 64 + 128) by
      obtain ⟨n, rfl⟩ := h
      exact high n
    split at hb
    · simp only [List.tail_cons, List.mem_singleton] at hb
      exact ⟨_, hb⟩
    · split at hb
      · simp only [List.tail_cons, List.mem_cons, List.not_mem_nil, or_false] at hb
        rcases hb with rfl | rfl <;> exact ⟨_, rfl⟩
      · simp only [List.tail_cons, List.mem_cons, List.not_mem_nil, or_false] at hb
        rcases hb with rfl | rfl | rfl <;> exact ⟨_, rfl⟩

theorem exists_of_decodeChar {bs : List UInt8} {c : Char} (h : bs.toByteArray.utf8DecodeChar? 0 = some c) :
    ∃ rest, bs = String.utf8EncodeChar c ++ rest := by
  have hextract := String.toByteArray_utf8EncodeChar_of_utf8DecodeChar?_eq_some h
  refine ⟨bs.drop c.utf8Size, ?_⟩
  have htake : String.utf8EncodeChar c = bs.take c.utf8Size := by
    have := congrArg (fun b : ByteArray => b.data.toList) hextract
    simpa using this
  rw [htake, List.take_append_drop]

/-- An ASCII character ends whatever stands before it. -/
theorem decodeChar_append {a b : List UInt8} (ha : a ≠ []) (hb : ∀ x ∈ b.head?, x < 0x80) :
    (a ++ b).toByteArray.utf8DecodeChar? 0 = a.toByteArray.utf8DecodeChar? 0 := by
  cases h : a.toByteArray.utf8DecodeChar? 0 with
  | some c =>
    obtain ⟨rest, rfl⟩ := exists_of_decodeChar h
    rw [List.append_assoc, List.toByteArray_append]
    exact ByteArray.utf8DecodeChar?_utf8EncodeChar_append
  | none =>
    cases h' : (a ++ b).toByteArray.utf8DecodeChar? 0 with
    | none => rfl
    | some c =>
      exfalso
      obtain ⟨rest, hrest⟩ := exists_of_decodeChar h'
      rcases List.append_eq_append_iff.1 hrest with ⟨d, hd, hb'⟩ | ⟨d, hd, -⟩
      · -- the character reaches into `b`
        cases d with
        | nil =>
          rw [List.append_nil] at hd
          rw [← hd, ← List.append_nil (String.utf8EncodeChar c), List.toByteArray_append,
            ByteArray.utf8DecodeChar?_utf8EncodeChar_append] at h
          cases h
        | cons x d =>
          have hx : x < 0x80 := hb x (by rw [hb']; rfl)
          have htail : x ∈ (String.utf8EncodeChar c).tail := by
            rw [hd, List.tail_append_of_ne_nil ha]
            simp
          exact absurd (encodeChar_tail c x htail) (UInt8.not_le.2 hx)
      · rw [hd, List.toByteArray_append, ByteArray.utf8DecodeChar?_utf8EncodeChar_append] at h
        cases h

theorem malformed_append {a b : List UInt8} (ha : a ≠ []) (hb : ∀ x ∈ b.head?, x < 0x80) :
    malformed (a ++ b) = malformed a := by
  have hsecond : ∀ b0, ∀ x ∈ b.head?, second b0 x = false := by
    intro b0 x hx
    have hlow := hb x hx
    have hnot : ∀ y : UInt8, 0x80 ≤ y → ¬y ≤ x := fun y hy hle => absurd (UInt8.le_trans hy hle) (UInt8.not_le.2 hlow)
    simp [second, continues, hnot]
  have hcontinues : ∀ x ∈ b.head?, continues x = false := by
    intro x hx
    simp [continues, UInt8.not_le.2 (hb x hx)]
  rcases a with _ | ⟨b0, _ | ⟨b1, _ | ⟨b2, a⟩⟩⟩
  · exact absurd rfl ha
  · cases b with
    | nil => rfl
    | cons x b => cases b <;> simp [malformed, hsecond b0 x rfl]
  · cases b with
    | nil => rfl
    | cons x b => simp [malformed, hcontinues x rfl]
  · rfl

theorem malformed_le {a : List UInt8} (ha : a ≠ []) : malformed a ≤ a.length := by
  unfold malformed
  split
  · rename_i b0 b1 b2 r
    simp only [List.length_cons]
    split
    · split <;> omega
    · omega
  · simp only [List.length_cons, List.length_nil]
    split <;> omega
  · have := List.length_pos_iff.2 ha
    omega

/-- What an ASCII character cuts off is decoded on its own. -/
theorem decode_append {b : List UInt8} (hb : ∀ x ∈ b.head?, x < 0x80) (a : List UInt8) :
    decode (a ++ b) = decode a ++ decode b := by
  induction h : a.length using Nat.strong_induction_on generalizing a with
  | _ n ih =>
    subst h
    cases a with
    | nil => rw [decode.eq_1]; rfl
    | cons x a =>
      have hchar := decodeChar_append (a := x :: a) (by simp) hb
      have hmal := malformed_append (a := x :: a) (by simp) hb
      have hle := malformed_le (a := x :: a) (by simp)
      have hpos := malformed_pos (x :: a)
      rw [List.cons_append] at hchar hmal ⊢
      rw [decode, decode, hchar, hmal]
      cases hd : (x :: a).toByteArray.utf8DecodeChar? 0 with
      | some c =>
        obtain ⟨rest, hrest⟩ := exists_of_decodeChar hd
        have hsize : c.utf8Size ≤ (x :: a).length := by
          rw [hrest, List.length_append, String.length_utf8EncodeChar]
          omega
        have hcpos := c.utf8Size_pos
        dsimp only
        rw [← List.cons_append, List.drop_append_of_le_length hsize,
          ih _ (by rw [List.length_drop]; omega) _ rfl, List.cons_append]
      | none =>
        dsimp only
        rw [← List.cons_append, List.drop_append_of_le_length hle,
          ih _ (by rw [List.length_drop]; omega) _ rfl, List.cons_append]

/-- A character that was not put in for a malformed part stands in the bytes. -/
theorem mem_decode {c : Char} {bs : List UInt8} (h : c ∈ decode bs) :
    c = '\uFFFD' ∨ ∀ b ∈ String.utf8EncodeChar c, b ∈ bs := by
  induction bs using decode.induct with
  | case1 => rw [decode.eq_1] at h; cases h
  | case2 b bs d hd ih =>
    rw [decode, hd] at h
    rcases List.mem_cons.1 h with rfl | h
    · obtain ⟨rest, hrest⟩ := exists_of_decodeChar hd
      exact .inr fun x hx => by rw [hrest]; exact List.mem_append_left _ hx
    · rcases ih h with rfl | ih
      · exact .inl rfl
      · exact .inr fun x hx => List.mem_of_mem_drop (ih x hx)
  | case3 b bs hd ih =>
    rw [decode, hd] at h
    rcases List.mem_cons.1 h with rfl | h
    · exact .inl rfl
    · rcases ih h with rfl | ih
      · exact .inl rfl
      · exact .inr fun x hx => List.mem_of_mem_drop (ih x hx)

theorem encode_ascii {n : Nat} (h : n < 128) : encode [Char.ofNat n] = [UInt8.ofNat n] := by
  revert h
  revert n
  decide

/-- An ASCII byte stands for its character. -/
theorem mem_of_mem_encode {t : List Char} {b : UInt8} (h : b ∈ encode t) (hb : b < 0x80) :
    Char.ofNat b.toNat ∈ t := by
  obtain ⟨c, hc, hmem⟩ := List.mem_flatMap.1 h
  have htail : ∀ x ∈ (String.utf8EncodeChar c).tail, x ≠ b := by
    rintro x hx rfl
    exact absurd (encodeChar_tail c x hx) (UInt8.not_le.2 hb)
  cases hbytes : String.utf8EncodeChar c with
  | nil =>
    rw [hbytes] at hmem
    cases hmem
  | cons x u =>
    rw [hbytes] at hmem htail
    rcases List.mem_cons.1 hmem with rfl | hmem
    · -- read as an ASCII character and as `c`
      have hascii := encode_ascii (UInt8.lt_iff_toNat_lt.1 hb)
      rw [UInt8.ofNat_toNat] at hascii
      have hsplit : encode [c] = encode [Char.ofNat b.toNat] ++ u := by
        rw [hascii, encode, List.flatMap_singleton, hbytes, List.singleton_append]
      have hdecode := decode_encode [c]
      rw [hsplit, decode_encode_append] at hdecode
      have : Char.ofNat b.toNat = c := (List.cons.inj hdecode).1
      rw [this]
      exact hc
    · exact absurd rfl (htail b hmem)

end Utf8
