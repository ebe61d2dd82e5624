import Mathlib.Algebra.Order.BigOperators.Group.List
import SynnoDB.Lib.Hex
import SynnoDB.Lib.MapM
import SynnoDB.Lib.Utf8
import SynnoDB.PgRouter.Capture
import SynnoDB.PgRouter.NumericText

/-!
# Rows of a handler (`protocols/postgres/encoding.py:28-148`, `wire.py:59-94`, `value_decoding.py:48-205`)

| here | there |
| --- | --- |
| `Value`               | Python objects; a UUID is its 16 bytes, dicts, lists and floats are `other` |
| `Rest`                | what is left open: `str`, `bool` and `int` of bytes and other objects, and the branches of the types that are no `PgType` |
| `row`                 | `row.get`, which does not tell a missing name from `None` |
| `intOf`               | `int(text)`, ASCII |
| `scanRowDescription`, `scanDataRow` | `decode_row_description`, `decode_data_row`, with the offset that the loop ends at |

**What a handler answers survives the wire as far as its messages fit** (`rows_survive`): a length is a signed word
of four bytes, and `struct.pack` raises on what is longer (`too_long`).
-/

namespace SynnoDB.PgRouter.HandlerRows

open Hotpatch (Bytes)
open Struct
open NumericText (intText decodeNumericText)
open Capture (ColumnInfo)

abbrev Text := List Char

/-! ## Objects -/

inductive Value (α : Type) where
  | bool (b : Bool)
  | int (n : Int)
  | str (t : Text)
  | bytes (raw : Bytes)
  | uuid (raw : Bytes)
  | other (x : α)

structure Rest (α : Type) where
  str : Value α → Text
  truth : α → Bool
  int : Value α → Option Int
  textValue : Int → α → Option Bytes
  binaryValue : Int → Value α → Option Bytes
  ofText : Int → Text → Value α
  ofBinary : Int → Bytes → Option (Value α)

def boolOid : Int := 16
def byteaOid : Int := 17
def int8Oid : Int := 20
def int2Oid : Int := 21
def int4Oid : Int := 23
def textOid : Int := 25
def jsonOid : Int := 114
def float4Oid : Int := 700
def float8Oid : Int := 701
def bpcharOid : Int := 1042
def varcharOid : Int := 1043
def numericOid : Int := 1700
def uuidOid : Int := 2950

/-- `str(value)` of a UUID. -/
def uuidText (raw : Bytes) : Text :=
  let hex := Hex.text raw
  hex.take 8 ++ '-' :: ((hex.drop 8).take 4 ++ '-' :: ((hex.drop 12).take 4 ++ '-' ::
    ((hex.drop 16).take 4 ++ '-' :: hex.drop 20)))

/-- `text.replace(old, "")`; `skip` characters belong to an occurrence. -/
def remove (old : Text) : Nat → Text → Text
  | _, [] => []
  | skip + 1, _ :: cs => remove old skip cs
  | 0, c :: cs => if old.isPrefixOf (c :: cs) then remove old (old.length - 1) cs else c :: remove old 0 cs

def isBrace (c : Char) : Bool := c = '\x7b' || c = '\x7d'

/-- `text.strip` of braces. -/
def stripBraces (text : Text) : Text := ((text.dropWhile isBrace).reverse.dropWhile isBrace).reverse

/-- `uuid.UUID(text).bytes`. -/
def uuidOf (text : Text) : Option Bytes :=
  let hex := (stripBraces (remove "uuid:".toList 0 (remove "urn:".toList 0 text))).filter (· ≠ '-')
  if hex.length ≠ 32 then none else Hex.ofText hex

def isSpace (c : Char) : Bool := c = ' ' || '\t' ≤ c && c ≤ '\r'

/-- `bytes.fromhex(text)`. -/
def fromHex : Text → Option Bytes
  | [] => some []
  | [c] => if isSpace c then some [] else none
  | hi :: lo :: rest =>
    if isSpace hi then fromHex (lo :: rest)
    else do
      let hi ← Hex.digitValue hi
      let lo ← Hex.digitValue lo
      let raw ← fromHex rest
      pure (UInt8.ofNat (16 * hi + lo) :: raw)

def stripSpace (text : Text) : Text := ((text.dropWhile isSpace).reverse.dropWhile isSpace).reverse

/-- Digits, single underscores between them. -/
def naturalOf (text : Text) : Option Nat :=
  if (text.splitOn '_').all fun group => !group.isEmpty && group.all Char.isDigit then
    some (Digits.value (text.filter (· ≠ '_')))
  else none

def intOf (text : Text) : Option Int :=
  match stripSpace text with
  | '-' :: digits => (naturalOf digits).map fun n : Nat => -(n : Int)
  | '+' :: digits => (naturalOf digits).map Int.ofNat
  | digits => (naturalOf digits).map Int.ofNat

section
variable {α : Type} (rest : Rest α)

def pyStr : Value α → Text
  | .bool b => if b then "True".toList else "False".toList
  | .int n => intText n
  | .str t => t
  | .uuid raw => uuidText raw
  | value => rest.str value

def pyBool : Value α → Bool
  | .bool b => b
  | .int n => n ≠ 0
  | .str t => !t.isEmpty
  | .bytes raw => !raw.isEmpty
  | .uuid _ => true
  | .other x => rest.truth x

def pyInt : Value α → Option Int
  | .bool b => some (if b then 1 else 0)
  | .int n => some n
  | .str t => intOf t
  | .uuid raw => some (unsigned raw)
  | value => rest.int value

/-! ## The encoder -/

def textValue (typeOid : Int) (value : Value α) : Option Bytes :=
  if typeOid = boolOid then some (Utf8.encode (if pyBool rest value then ['t'] else ['f']))
  else
    match value with
    | .bytes raw =>
      if typeOid = byteaOid then some (Utf8.encode ('\\' :: 'x' :: Hex.text raw))
      else some (Utf8.encode (pyStr rest (.bytes raw)))
    | .other x => rest.textValue typeOid x
    | value => some (Utf8.encode (pyStr rest value))

def binaryValue (typeOid : Int) (value : Value α) : Option Bytes :=
  if typeOid = boolOid then some (if pyBool rest value then [1] else [0])
  else if typeOid = int2Oid then pyInt rest value >>= pack 2
  else if typeOid = int4Oid then pyInt rest value >>= pack 4
  else if typeOid = int8Oid then pyInt rest value >>= pack 8
  else if typeOid = textOid ∨ typeOid = varcharOid ∨ typeOid = bpcharOid ∨ typeOid = jsonOid then
    some (Utf8.encode (pyStr rest value))
  else if typeOid = uuidOid then
    match value with
    | .uuid raw => some raw
    | value => uuidOf (pyStr rest value)
  else if typeOid = byteaOid then
    match value with
    | .str ('\\' :: 'x' :: hex) => fromHex hex
    | .bytes raw => some raw
    | _ => none
  else rest.binaryValue typeOid value

/-- What `encode_data_row` writes of a value that is not `None`. -/
def encodeValue (column : ColumnInfo) (value : Value α) : Option Bytes :=
  if column.formatCode = 0 then textValue rest column.typeOid value else binaryValue rest column.typeOid value

def encodeMessage (tag : UInt8) (payload : Bytes) : Option Bytes := do
  let length ← pack 4 (payload.length + 4)
  pure (tag :: (length ++ payload))

def cstring (value : Text) : Bytes := Utf8.encode value ++ [0]

def typeSize (typeOid : Int) : Int :=
  if typeOid = boolOid then 1
  else if typeOid = int2Oid then 2
  else if typeOid = int4Oid ∨ typeOid = float4Oid then 4
  else if typeOid = int8Oid ∨ typeOid = float8Oid then 8
  else if typeOid = uuidOid then 16
  else -1

def encodeColumn (column : ColumnInfo) : Option Bytes := do
  let table ← pack 4 0
  let number ← pack 2 0
  let oid ← pack 4 column.typeOid
  let size ← pack 2 (typeSize column.typeOid)
  let modifier ← pack 4 (-1)
  let format ← pack 2 column.formatCode
  pure (cstring column.name.toList ++ (table ++ (number ++ (oid ++ (size ++ (modifier ++ format))))))

def encodeRowDescription (columns : List ColumnInfo) : Option Bytes := do
  let count ← pack 2 columns.length
  let fields ← columns.mapM encodeColumn
  encodeMessage 0x54 (count ++ fields.flatten)

def encodeField (row : String → Option (Value α)) (column : ColumnInfo) : Option Bytes :=
  match row column.name with
  | none => pack 4 (-1)
  | some value => do
    let raw ← encodeValue rest column value
    let length ← pack 4 raw.length
    pure (length ++ raw)

def encodeDataRow (row : String → Option (Value α)) (columns : List ColumnInfo) : Option Bytes := do
  let count ← pack 2 columns.length
  let fields ← columns.mapM (encodeField rest row)
  encodeMessage 0x44 (count ++ fields.flatten)

/-! ## The decoder -/

/-- A bound of a slice. -/
def bound (length : Nat) (i : Int) : Nat := if i < 0 then (length + i).toNat else min i.toNat length

def slice (data : Bytes) (i j : Int) : Bytes := (data.take (bound data.length j)).drop (bound data.length i)

/-- `struct.unpack_from`; a negative offset counts from the end. -/
def unpackFrom (w : Nat) (data : Bytes) (off : Int) : Option Int :=
  let off := if off < 0 then off + data.length else off
  if off < 0 ∨ data.length < off + w then none else unpack w ((data.drop off.toNat).take w)

def readCstring (data : Bytes) (off : Nat) : Option (Text × Nat) :=
  if 0 ∈ data.drop off then
    let name := (data.drop off).takeWhile (· ≠ 0)
    some (Utf8.decode name, off + name.length + 1)
  else none

def columnsLoop (payload : Bytes) : Nat → Nat → Option (List ColumnInfo × Nat)
  | 0, off => some ([], off)
  | left + 1, off => do
    let (name, off) ← readCstring payload off
    let typeOid ← unpackFrom 4 payload (off + 6 : Nat)
    let format ← unpackFrom 2 payload (off + 16 : Nat)
    let (columns, off) ← columnsLoop payload left (off + 18)
    pure (⟨String.ofList name, typeOid, format⟩ :: columns, off)

def scanRowDescription (payload : Bytes) : Option (List ColumnInfo × Nat) := do
  let n ← unpackFrom 2 payload 0
  columnsLoop payload n.toNat 2

def decodeRowDescription (payload : Bytes) : Option (List ColumnInfo) := (scanRowDescription payload).map Prod.fst

def decodeTextValue (typeOid : Option Int) (raw : Bytes) : Value α :=
  let text := Utf8.decode raw
  if typeOid = some boolOid then .bool (text = ['t'])
  else if typeOid = some int2Oid ∨ typeOid = some int4Oid ∨ typeOid = some int8Oid then
    match intOf text with
    | some n => .int n
    | none => .str text
  else if typeOid = some float4Oid then rest.ofText float4Oid text
  else if typeOid = some float8Oid then rest.ofText float8Oid text
  else if typeOid = some numericOid then .str (decodeNumericText text)
  else .str text

def decodeBinaryValue (typeOid : Int) (raw : Bytes) : Option (Value α) :=
  if typeOid = boolOid ∧ raw.length = 1 then some (.bool (raw ≠ [0]))
  else if typeOid = int2Oid ∧ raw.length = 2 then (unpack 2 raw).map .int
  else if typeOid = int4Oid ∧ raw.length = 4 then (unpack 4 raw).map .int
  else if typeOid = int8Oid ∧ raw.length = 8 then (unpack 8 raw).map .int
  else if typeOid = textOid ∨ typeOid = varcharOid ∨ typeOid = bpcharOid ∨ typeOid = jsonOid then
    some (.str (Utf8.decode raw))
  else if typeOid = uuidOid ∧ raw.length = 16 then some (.str (uuidText raw))
  else if typeOid = byteaOid then some (.str ('\\' :: 'x' :: Hex.text raw))
  else rest.ofBinary typeOid raw

def decodeValue (formatCode : Int) (typeOid : Option Int) (raw : Bytes) : Option (Value α) :=
  if formatCode = 0 then some (decodeTextValue rest typeOid raw) else decodeBinaryValue rest (typeOid.getD 0) raw

def rowLoop (payload : Bytes) (rowDesc : List ColumnInfo) : Nat → Nat → Int → Option (List (Option (Value α)) × Int)
  | 0, _, off => some ([], off)
  | left + 1, idx, off => do
    let ln ← unpackFrom 4 payload off
    let off := off + 4
    let column := rowDesc[idx]?
    if ln = -1 then do
      let (vals, off) ← rowLoop payload rowDesc left (idx + 1) off
      pure (none :: vals, off)
    else do
      let raw := slice payload off (off + ln)
      let value ← decodeValue rest ((column.map ColumnInfo.formatCode).getD 0) (column.map ColumnInfo.typeOid) raw
      let (vals, off) ← rowLoop payload rowDesc left (idx + 1) (off + ln)
      pure (some value :: vals, off)

def scanDataRow (payload : Bytes) (rowDesc : List ColumnInfo) : Option (List (Option (Value α)) × Int) := do
  let n ← unpackFrom 2 payload 0
  rowLoop rest payload rowDesc n.toNat 0 2

def decodeDataRow (payload : Bytes) (rowDesc : List ColumnInfo) : Option (List (Option (Value α))) :=
  (scanDataRow rest payload rowDesc).map Prod.fst

end

/-! ## What a handler answers -/

inductive PgType where
  | bool | int2 | int4 | int8 | text | varchar | uuid | bytea
deriving DecidableEq, Repr

def PgType.oid : PgType → Int
  | .bool => boolOid
  | .int2 => int2Oid
  | .int4 => int4Oid
  | .int8 => int8Oid
  | .text => textOid
  | .varchar => varcharOid
  | .uuid => uuidOid
  | .bytea => byteaOid

section
variable {α : Type}

/-- The value is of the type's range. -/
def PgType.Holds : PgType → Value α → Prop
  | .bool, .bool _ => True
  | .int2, .int n => InRange 2 n
  | .int4, .int n => InRange 4 n
  | .int8, .int n => InRange 8 n
  | .text, .str _ => True
  | .varchar, .str _ => True
  | .uuid, .uuid raw => raw.length = 16
  | .bytea, .bytes _ => True
  | _, _ => False

/-- A UUID and bytes come back as their text. -/
def Value.canonical : Value α → Value α
  | .uuid raw => .str (uuidText raw)
  | .bytes raw => .str ('\\' :: 'x' :: Hex.text raw)
  | value => value

structure WellFormed (column : ColumnInfo) : Prop where
  name : '\x00' ∉ column.name.toList
  type : ∃ t : PgType, column.typeOid = t.oid
  format : column.formatCode = 0 ∨ column.formatCode = 1

/-- Every value is of its column's type, or `NULL`. -/
def RowOf (columns : List ColumnInfo) (row : String → Option (Value α)) : Prop :=
  ∀ column ∈ columns, ∀ value ∈ row column.name, ∀ t : PgType, column.typeOid = t.oid → t.Holds value

/-- The values by the names of their columns. -/
def rowWith (columns : List ColumnInfo) (values : List (Option (Value α))) (name : String) : Option (Value α) :=
  (((columns.map ColumnInfo.name).zip values).lookup name).join

/-! ## Texts -/

theorem naturalOf_toDigits (n : Nat) : naturalOf (Nat.toDigits 10 n) = some n := by
  have hdigits := Digits.allDigits_toDigits n
  have hunder : '_' ∉ Nat.toDigits 10 n := fun h => absurd (hdigits _ h) (by decide)
  have hfilter : (Nat.toDigits 10 n).filter (· ≠ '_') = Nat.toDigits 10 n :=
    List.filter_eq_self.2 fun c hc => decide_eq_true fun h => hunder (h ▸ hc)
  have hne : (Nat.toDigits 10 n).isEmpty = false := by
    rw [List.isEmpty_eq_false_iff]
    exact Nat.toDigits_ne_nil
  have hall : (Nat.toDigits 10 n).all Char.isDigit = true := List.all_eq_true.2 hdigits
  rw [naturalOf, List.splitOn_eq_singleton hunder, if_pos (by simp [hne, hall]), hfilter, Digits.value_toDigits]

theorem dropWhile_of_forall {p : Char → Bool} {t : Text} (h : ∀ c ∈ t, p c = false) : t.dropWhile p = t := by
  cases t with
  | nil => rfl
  | cons c t => rw [List.dropWhile_cons, if_neg (by rw [h c (List.mem_cons_self ..)]; decide)]

theorem strip_of_forall {p : Char → Bool} {t : Text} (h : ∀ c ∈ t, p c = false) :
    ((t.dropWhile p).reverse.dropWhile p).reverse = t := by
  rw [dropWhile_of_forall h, dropWhile_of_forall fun c hc => h c (List.mem_reverse.1 hc), List.reverse_reverse]

theorem isSpace_of_isDigit {c : Char} (h : c.isDigit = true) : isSpace c = false := by
  rw [Bool.eq_false_iff]
  intro hspace
  simp only [isSpace, Bool.or_eq_true, decide_eq_true_eq, Bool.and_eq_true] at hspace
  simp only [Char.isDigit, Bool.and_eq_true, decide_eq_true_eq] at h
  rcases hspace with rfl | ⟨-, hspace⟩
  · exact absurd h.1 (by decide)
  · exact absurd (UInt32.le_trans h.1 hspace) (by decide)

theorem intOf_intText (n : Int) : intOf (intText n) = some n := by
  have hdigits := Digits.allDigits_toDigits n.natAbs
  have hspace : ∀ c ∈ Nat.toDigits 10 n.natAbs, isSpace c = false := fun c hc => isSpace_of_isDigit (hdigits c hc)
  have hnatural := naturalOf_toDigits n.natAbs
  unfold intText
  by_cases hneg : n < 0
  · rw [if_pos hneg, intOf, stripSpace, strip_of_forall (List.forall_mem_cons.2 ⟨by decide, hspace⟩)]
    change (naturalOf (Nat.toDigits 10 n.natAbs)).map _ = _
    rw [hnatural, Option.map_some, Option.some.injEq]
    omega
  · rw [if_neg hneg, intOf, stripSpace, strip_of_forall hspace]
    cases htext : Nat.toDigits 10 n.natAbs with
    | nil => exact absurd htext Nat.toDigits_ne_nil
    | cons c t =>
      have hc : c.isDigit = true := hdigits c (by rw [htext]; exact List.mem_cons_self ..)
      rw [htext] at hnatural
      split
      · rename_i heq
        rw [(List.cons.inj heq).1] at hc
        cases hc
      · rename_i heq
        rw [(List.cons.inj heq).1] at hc
        cases hc
      · rw [hnatural, Option.map_some, Option.some.injEq, Int.ofNat_eq_natCast]
        omega

theorem remove_of_notMem {old : Text} (c : Char) (hold : c ∈ old) : ∀ {text : Text}, c ∉ text → remove old 0 text = text
  | [], _ => rfl
  | d :: text, h => by
    have hno : old.isPrefixOf (d :: text) = false := by
      rw [Bool.eq_false_iff, Ne, List.isPrefixOf_iff_prefix]
      exact fun hp => h (hp.subset hold)
    rw [remove, if_neg (by rw [hno]; decide), remove_of_notMem c hold fun hm => h (List.mem_cons_of_mem _ hm)]

theorem mem_uuidText {raw : Bytes} {c : Char} (h : c ∈ uuidText raw) : c = '-' ∨ c ∈ Hex.text raw := by
  simp only [uuidText, List.mem_append, List.mem_cons] at h
  rcases h with h | h | h | h | h | h | h | h | h
  · exact .inr (List.mem_of_mem_take h)
  · exact .inl h
  · exact .inr (List.mem_of_mem_drop (List.mem_of_mem_take h))
  · exact .inl h
  · exact .inr (List.mem_of_mem_drop (List.mem_of_mem_take h))
  · exact .inl h
  · exact .inr (List.mem_of_mem_drop (List.mem_of_mem_take h))
  · exact .inl h
  · exact .inr (List.mem_of_mem_drop h)

theorem notMem_uuidText {raw : Bytes} {c : Char} (hdash : c ≠ '-') (hhex : Hex.digitValue c = none) :
    c ∉ uuidText raw := fun h =>
  (mem_uuidText h).elim hdash (Hex.notMem_text hhex raw)

theorem filter_uuidText (raw : Bytes) : (uuidText raw).filter (· ≠ '-') = Hex.text raw := by
  have hself : ∀ t : Text, t ⊆ Hex.text raw → t.filter (· ≠ '-') = t := fun t ht =>
    List.filter_eq_self.2 fun c hc => decide_eq_true fun h => Hex.notMem_text (by decide) raw (h ▸ ht hc)
  have hdrop (n : Nat) : (Hex.text raw).drop n ⊆ Hex.text raw := List.drop_subset n _
  have htake (n k : Nat) : ((Hex.text raw).drop n).take k ⊆ Hex.text raw := fun _ h => hdrop n (List.mem_of_mem_take h)
  have hdash (t : Text) : ('-' :: t).filter (· ≠ '-') = t.filter (· ≠ '-') := rfl
  simp only [uuidText, List.filter_append, hdash, hself _ (htake _ _), hself _ (hdrop _),
    hself _ (List.take_subset _ _)]
  have hsplit (n k : Nat) : ((Hex.text raw).drop n).take k ++ (Hex.text raw).drop (n + k) = (Hex.text raw).drop n := by
    rw [← List.drop_drop, List.take_append_drop]
  rw [hsplit 16 4, hsplit 12 4, hsplit 8 4, List.take_append_drop]

theorem uuidOf_uuidText {raw : Bytes} (h : raw.length = 16) : uuidOf (uuidText raw) = some raw := by
  have hcolon : ':' ∉ uuidText raw := notMem_uuidText (by decide) (by decide)
  have hbraces : ∀ c ∈ uuidText raw, isBrace c = false := fun c hc => by
    rw [Bool.eq_false_iff]
    intro hbrace
    simp only [isBrace, Bool.or_eq_true, decide_eq_true_eq] at hbrace
    rcases hbrace with rfl | rfl
    · exact notMem_uuidText (by decide) (by decide) hc
    · exact notMem_uuidText (by decide) (by decide) hc
  have hlength : (Hex.text raw).length = 32 := by rw [Hex.length_text, h]
  rw [uuidOf, remove_of_notMem ':' (by decide) hcolon, remove_of_notMem ':' (by decide) hcolon, stripBraces,
    strip_of_forall hbraces, filter_uuidText, if_neg (not_not.2 hlength), Hex.ofText_text]

theorem fromHex_text (raw : Bytes) : fromHex (Hex.text raw) = some raw := by
  induction raw with
  | nil => rfl
  | cons b raw ih =>
    have hspace : ∀ n < 16, isSpace (Nat.digitChar n) = false := by decide
    rw [Hex.text_cons, fromHex, if_neg (by rw [hspace _ (Nat.div_lt_of_lt_mul b.toNat_lt)]; decide),
      Hex.digitValue_high,
      Hex.digitValue_low, ih]
    simp only [Option.bind_eq_bind, Option.bind_some, Option.pure_def, Hex.ofNat_digits]


/-! ## One value -/

section
variable (rest : Rest α)

theorem decodeTextValue_int {oid : Int} (h : oid = int2Oid ∨ oid = int4Oid ∨ oid = int8Oid) (n : Int) :
    decodeTextValue rest (some oid) (Utf8.encode (intText n)) = .int n := by
  rw [decodeTextValue, Utf8.decode_encode, if_neg (by rcases h with rfl | rfl | rfl <;> decide),
    if_pos (by simpa only [Option.some.injEq] using h), intOf_intText]

theorem decodeTextValue_str {oid : Int} (h : oid ∈ [textOid, varcharOid, uuidOid, byteaOid]) (t : Text) :
    decodeTextValue rest (some oid) (Utf8.encode t) = .str t := by
  rw [decodeTextValue, Utf8.decode_encode]
  simp only [List.mem_cons, List.not_mem_nil, or_false] at h
  rcases h with rfl | rfl | rfl | rfl <;> rfl

theorem text_survives {t : PgType} {value : Value α} (h : t.Holds value) :
    ∃ raw, textValue rest t.oid value = some raw ∧ decodeTextValue rest (some t.oid) raw = value.canonical ∧
      textValue rest t.oid value.canonical = some raw := by
  cases t <;> cases value <;> first | exact h.elim | skip
  case bool.bool b =>
    refine ⟨_, rfl, ?_, rfl⟩
    rw [decodeTextValue, Utf8.decode_encode]
    cases b <;> rfl
  case int2.int n => exact ⟨_, rfl, decodeTextValue_int rest (.inl rfl) n, rfl⟩
  case int4.int n => exact ⟨_, rfl, decodeTextValue_int rest (.inr (.inl rfl)) n, rfl⟩
  case int8.int n => exact ⟨_, rfl, decodeTextValue_int rest (.inr (.inr rfl)) n, rfl⟩
  case text.str t => exact ⟨_, rfl, decodeTextValue_str rest (by decide) t, rfl⟩
  case varchar.str t => exact ⟨_, rfl, decodeTextValue_str rest (by decide) t, rfl⟩
  case uuid.uuid raw => exact ⟨_, rfl, decodeTextValue_str rest (by decide) (uuidText raw), rfl⟩
  case bytea.bytes raw => exact ⟨_, rfl, decodeTextValue_str rest (by decide) ('\\' :: 'x' :: Hex.text raw), rfl⟩

/-- An integer of the word's range is packed and unpacked. -/
theorem packed {w : Nat} {n : Int} (h : InRange w n) : ∃ raw, pack w n = some raw ∧ raw.length = w ∧
    unpack w raw = some n :=
  have hpack := pack_of_inRange h
  ⟨_, hpack, length_pack hpack, unpack_pack hpack⟩

theorem decodeBinaryValue_str {oid : Int} (h : oid = textOid ∨ oid = varcharOid) (t : Text) :
    decodeBinaryValue rest oid (Utf8.encode t) = some (.str t) := by
  rcases h with rfl | rfl <;>
    simp only [decodeBinaryValue, Utf8.decode_encode, boolOid, int2Oid, int4Oid, int8Oid, textOid, varcharOid,
      Int.reduceEq, false_and, true_or,
      or_true, if_false, if_true]

theorem binary_survives {t : PgType} {value : Value α} (h : t.Holds value) :
    ∃ raw, binaryValue rest t.oid value = some raw ∧ decodeBinaryValue rest t.oid raw = some value.canonical ∧
      binaryValue rest t.oid value.canonical = some raw := by
  cases t <;> cases value <;> first | exact h.elim | skip
  case bool.bool b => cases b <;> exact ⟨_, rfl, rfl, rfl⟩
  case int2.int n =>
    obtain ⟨raw, hpack, hlength, hunpack⟩ := packed h
    refine ⟨raw, hpack, ?_, hpack⟩
    rw [decodeBinaryValue, if_neg fun h => absurd h.1 (by decide), if_pos ⟨rfl, hlength⟩, hunpack]
    rfl
  case int4.int n =>
    obtain ⟨raw, hpack, hlength, hunpack⟩ := packed h
    refine ⟨raw, hpack, ?_, hpack⟩
    rw [decodeBinaryValue, if_neg fun h => absurd h.1 (by decide), if_neg fun h => absurd h.1 (by decide),
      if_pos ⟨rfl, hlength⟩, hunpack]
    rfl
  case int8.int n =>
    obtain ⟨raw, hpack, hlength, hunpack⟩ := packed h
    refine ⟨raw, hpack, ?_, hpack⟩
    rw [decodeBinaryValue, if_neg fun h => absurd h.1 (by decide), if_neg fun h => absurd h.1 (by decide),
      if_neg fun h => absurd h.1 (by decide), if_pos ⟨rfl, hlength⟩, hunpack]
    rfl
  case text.str t => exact ⟨_, rfl, decodeBinaryValue_str rest (.inl rfl) t, rfl⟩
  case varchar.str t => exact ⟨_, rfl, decodeBinaryValue_str rest (.inr rfl) t, rfl⟩
  case uuid.uuid raw =>
    have hagain : binaryValue rest PgType.uuid.oid (Value.uuid raw).canonical = uuidOf (uuidText raw) := by
      simp only [binaryValue, PgType.oid, uuidOid, boolOid, int2Oid, int4Oid, int8Oid, textOid, varcharOid, bpcharOid,
        jsonOid, Int.reduceEq, or_self, if_false, if_true]
      rfl
    refine ⟨raw, rfl, ?_, hagain.trans (uuidOf_uuidText h)⟩
    simp only [decodeBinaryValue, PgType.oid, uuidOid, boolOid, int2Oid, int4Oid, int8Oid, textOid, varcharOid,
      bpcharOid,
      jsonOid, Int.reduceEq, false_and, or_self, if_false, true_and]
    exact if_pos h
  case bytea.bytes raw =>
    refine ⟨raw, rfl, ?_, fromHex_text raw⟩
    simp only [decodeBinaryValue, PgType.oid, uuidOid, boolOid, int2Oid, int4Oid, int8Oid, textOid, varcharOid,
      bpcharOid,
      jsonOid, byteaOid, Int.reduceEq, false_and, or_self, if_false, if_true]
    rfl

/-- What the wire does to a value of a column. -/
theorem encodeValue_survives {column : ColumnInfo} (hcolumn : WellFormed column) {value : Value α}
    (h : ∀ t : PgType, column.typeOid = t.oid → t.Holds value) :
    ∃ raw, encodeValue rest column value = some raw ∧
      decodeValue rest column.formatCode (some column.typeOid) raw = some value.canonical ∧
      encodeValue rest column value.canonical = some raw := by
  obtain ⟨t, ht⟩ := hcolumn.type
  unfold encodeValue decodeValue
  rw [ht]
  rcases hcolumn.format with hformat | hformat
  · obtain ⟨raw, h1, h2, h3⟩ := text_survives rest (h t ht)
    rw [hformat]
    exact ⟨raw, h1, congrArg some h2, h3⟩
  · rw [hformat]
    exact binary_survives rest (h t ht)


end

/-! ## Words at their offsets -/

theorem unpackFrom_append {w : Nat} {raw : Bytes} {n : Int} (h : unpack w raw = some n) (hlength : raw.length = w)
    (before after : Bytes) :
    unpackFrom w (before ++ (raw ++ after)) (before.length : Nat) = some n := by
  have hfits : ¬ ((before.length : Int) < 0 ∨ ((before ++ (raw ++ after)).length : Int) < (before.length : Int)
    + w) := by
    rw [List.length_append, List.length_append, hlength]
    omega
  have hoff : ¬ (before.length : Int) < 0 := by omega
  simp only [unpackFrom, if_neg hoff]
  rw [if_neg hfits, Int.toNat_natCast, List.drop_left, ← hlength, List.take_left, hlength, h]

theorem slice_append (before raw after : Bytes) :
    slice (before ++ (raw ++ after)) (before.length : Nat) ((before.length : Nat) + (raw.length : Nat) : Int) =
      raw := by
  have hbound (n : Nat) (h : n ≤ (before ++ (raw ++ after)).length) :
    bound (before ++ (raw ++ after)).length (n : Int) = n := by
    rw [bound, if_neg (by omega), Int.toNat_natCast, Nat.min_eq_left h]
  rw [slice, ← Int.natCast_add, hbound _ (by simp only [List.length_append]; omega),
    hbound _ (by simp only [List.length_append]; omega), ← List.append_assoc, ← List.length_append,
      List.take_left, List.drop_left]

theorem readCstring_cstring {t : Text} (h : '\x00' ∉ t) (before after : Bytes) :
    readCstring (before ++ (cstring t ++ after)) before.length = some (t, before.length + (cstring t).length) := by
  have hdrop : (before ++ (cstring t ++ after)).drop before.length = Utf8.encode t ++ 0 :: after := by
    rw [List.drop_left, cstring, List.append_assoc, List.singleton_append]
  have hname : (Utf8.encode t ++ 0 :: after).takeWhile (· ≠ 0) = Utf8.encode t := by
    have hne : ∀ b ∈ Utf8.encode t, decide (b ≠ 0) = true := fun b hb =>
      decide_eq_true fun h0 => Utf8.zero_notMem_encode h (h0 ▸ hb)
    rw [List.takeWhile_append_of_pos hne, List.takeWhile_cons, if_neg (by decide), List.append_nil]
  rw [readCstring, hdrop, if_pos (by simp)]
  dsimp only
  rw [hname, Utf8.decode_encode, cstring, List.length_append, List.length_singleton, Nat.add_assoc]

/-! ## The messages -/

theorem pack_natCast (w n : Nat) : pack w n = if 2 * n < 256 ^ w then some (word w n) else none := by
  have hcast : InRange w n ↔ 2 * n < 256 ^ w := by
    unfold InRange
    have : (0 : Int) ≤ 256 ^ w := Int.pow_nonneg (by decide)
    constructor
    · rintro ⟨-, h⟩
      exact_mod_cast h
    · intro h
      exact ⟨by omega, by exact_mod_cast h⟩
  unfold pack
  by_cases h : 2 * n < 256 ^ w
  · have hmod : ((n : Int) % 256 ^ w).toNat = n := by
      rw [Int.emod_eq_of_lt (Int.natCast_nonneg n) (by exact_mod_cast (by omega : n < 256 ^ w)), Int.toNat_natCast]
    rw [if_pos (hcast.2 h), if_pos h, hmod]
  · rw [if_neg (mt hcast.1 h), if_neg h]

def message (tag : UInt8) (payload : Bytes) : Bytes := tag :: (word 4 (payload.length + 4) ++ payload)

/-- A message, where its payload fits. -/
theorem encodeMessage_eq (tag : UInt8) (payload : Bytes) :
    encodeMessage tag payload =
      if payload.length + 4 < 2 ^ 31 then some (message tag payload) else none := by
  have hpack := pack_natCast 4 (payload.length + 4)
  rw [encodeMessage, show ((payload.length : Int) + 4) = ((payload.length + 4 : Nat) : Int) from rfl, hpack]
  by_cases h : payload.length + 4 < 2 ^ 31
  · rw [if_pos h, if_pos (by omega)]
    rfl
  · rw [if_neg h, if_neg (by omega)]
    rfl

/-- What is written of a column. -/
theorem encodeColumn_eq {column : ColumnInfo} (h : WellFormed column) :
    ∃ head oid tail format, head.length = 6 ∧ (unpack 4 oid = some column.typeOid ∧ oid.length = 4) ∧ tail.length = 6 ∧
      (unpack 2 format = some column.formatCode ∧ format.length = 2) ∧
      encodeColumn column = some (cstring column.name.toList ++ (head ++ (oid ++ (tail ++ format)))) := by
  obtain ⟨t, ht⟩ := h.type
  obtain ⟨table, htable, hl1, -⟩ := packed (show InRange 4 0 by decide)
  obtain ⟨number, hnumber, hl2, -⟩ := packed (show InRange 2 0 by decide)
  obtain ⟨oid, hoid, hl3, hu3⟩ := packed (show InRange 4 column.typeOid by rw [ht]; cases t <;> decide)
  obtain ⟨size, hsize, hl4, -⟩ := packed (show InRange 2 (typeSize column.typeOid) by rw [ht]; cases t <;> decide)
  obtain ⟨modifier, hmodifier, hl5, -⟩ := packed (show InRange 4 (-1) by decide)
  obtain ⟨format, hformat, hl6, hu6⟩ := packed (show InRange 2 column.formatCode by
    rcases h.format with h | h <;> rw [h] <;> decide)
  refine ⟨table ++ number, oid, size ++ modifier, format, by rw [List.length_append, hl1, hl2], ⟨hu3, hl3⟩,
    by rw [List.length_append, hl4, hl5], ⟨hu6, hl6⟩, ?_⟩
  simp only [encodeColumn, htable, hnumber, hoid, hsize, hmodifier, hformat, Option.bind_eq_bind, Option.bind_some,
    Option.pure_def, List.append_assoc]

theorem columnsLoop_encoded : ∀ (columns : List ColumnInfo), (∀ column ∈ columns, WellFormed column) → ∃ fields,
    columns.mapM encodeColumn = some fields ∧ ∀ before : Bytes,
      columnsLoop (before ++ fields.flatten) columns.length before.length =
        some (columns, (before ++ fields.flatten).length)
  | [], _ => ⟨[], rfl, fun before => by rw [List.flatten_nil, List.append_nil]; rfl⟩
  | column :: columns, h => by
    obtain ⟨fields, hfields, hloop⟩ := columnsLoop_encoded columns fun c hc => h c (List.mem_cons_of_mem _ hc)
    have hcolumn := h column (List.mem_cons_self ..)
    obtain ⟨head, oid, tail, format, hhead, hoid, htail, hformat, hencode⟩ := encodeColumn_eq hcolumn
    refine ⟨(cstring column.name.toList ++ (head ++ (oid ++ (tail ++ format)))) :: fields, ?_, fun before => ?_⟩
    · rw [List.mapM_cons, hencode, hfields]
      rfl
    · have hname := readCstring_cstring hcolumn.name before (head ++ (oid ++ (tail ++ (format ++ fields.flatten))))
      have h1 := unpackFrom_append hoid.1 hoid.2 (before ++ (cstring column.name.toList ++ head))
        (tail ++ (format ++ fields.flatten))
      have h2 := unpackFrom_append hformat.1 hformat.2
        (before ++ (cstring column.name.toList ++ (head ++ (oid ++ tail)))) fields.flatten
      have h3 := hloop (before ++ (cstring column.name.toList ++ (head ++ (oid ++ (tail ++ format)))))
      simp only [List.flatten_cons, List.append_assoc, List.length_append, hhead, hoid.2, htail,
        hformat.2] at hname h1 h2 h3 ⊢
      simp only [Nat.reduceAdd, ← Nat.add_assoc] at h1 h2 h3
      rw [List.length_cons, columnsLoop, hname]
      simp only [Option.bind_eq_bind, Option.bind_some, h1, h2, h3]
      rw [String.ofList_toList]
      refine congrArg some (Prod.ext rfl ?_)
      dsimp only
      omega


theorem encodeColumn_length {column : ColumnInfo} (h : WellFormed column) {field : Bytes}
    (hfield : encodeColumn column = some field) :
    field.length = (cstring column.name.toList).length + 18 := by
  obtain ⟨head, oid, tail, format, hhead, hoid, htail, hformat, hencode⟩ := encodeColumn_eq h
  rw [hencode, Option.some.injEq] at hfield
  subst hfield
  simp only [List.length_append, hhead, hoid.2, htail, hformat.2]

section
variable (rest : Rest α) (row : String → Option (Value α))

/-- What stands in the row for a column, behind its length. -/
def rawOf (column : ColumnInfo) : Option Bytes := (row column.name).bind (encodeValue rest column)

def fieldOf (column : ColumnInfo) : Bytes :=
  match rawOf rest row column with
  | none => word 4 (2 ^ 32 - 1)
  | some raw => word 4 raw.length ++ raw

/-- The bytes of a description and of a row behind their headers. -/
def descriptionSize (columns : List ColumnInfo) : Nat :=
  2 + (columns.map fun column => (cstring column.name.toList).length + 18).sum

def rowSize (columns : List ColumnInfo) : Nat := 2 + (columns.map fun column => (fieldOf rest row column).length).sum

variable {row}

theorem encodeField_eq {column : ColumnInfo} (hcolumn : WellFormed column)
    (hrow : ∀ value ∈ row column.name, ∀ t : PgType, column.typeOid = t.oid → t.Holds value) :
    encodeField rest row column =
      if (fieldOf rest row column).length < 2 ^ 31 + 4 then some (fieldOf rest row column) else none := by
  unfold fieldOf rawOf encodeField
  cases hvalue : row column.name with
  | none => rfl
  | some value =>
    obtain ⟨raw, hraw, -, -⟩ := encodeValue_survives rest hcolumn (hrow value hvalue)
    simp only [Option.bind_some, hraw, Option.bind_eq_bind, pack_natCast, List.length_append, length_word]
    by_cases h : raw.length < 2 ^ 31
    · rw [if_pos (by omega), if_pos (by omega)]
      rfl
    · rw [if_neg (by omega), if_neg (by omega)]
      rfl

/-- The value of a column after its trip. -/
def received (row : String → Option (Value α)) (column : ColumnInfo) : Option (Value α) := (row column.name).map Value.canonical

/-- One field of the row is read. -/
theorem rowLoop_field {column : ColumnInfo} (hcolumn : WellFormed column)
    (hrow : ∀ value ∈ row column.name, ∀ t : PgType, column.typeOid = t.oid → t.Holds value)
    (hfits : (fieldOf rest row column).length < 2 ^ 31 + 4) {columns : List ColumnInfo} {idx : Nat}
    (hidx : columns[idx]? = some column) (before after : Bytes) (left : Nat) :
    rowLoop rest (before ++ (fieldOf rest row column ++ after)) columns (left + 1) idx before.length =
      (rowLoop rest (before ++ (fieldOf rest row column ++ after)) columns left (idx + 1)
        ((before.length : Int) + (fieldOf rest row column).length)).map fun p => (received row column :: p.1, p.2) := by
  rw [rowLoop]
  unfold fieldOf rawOf received at *
  cases hvalue : row column.name with
  | none =>
    simp only [hvalue, Option.bind_none, length_word, Option.map_none] at hfits ⊢
    have hnull : unpack 4 (word 4 (2 ^ 32 - 1)) = some (-1) := by rw [unpack_word (by decide)]; rfl
    rw [unpackFrom_append hnull (length_word _ _)]
    simp only [Option.bind_eq_bind, Option.bind_some, if_true]
    cases rowLoop rest (before ++ (word 4 (2 ^ 32 - 1) ++ after)) columns left (idx + 1) (before.length + 4) <;> rfl
  | some value =>
    obtain ⟨raw, hraw, hdecode, -⟩ := encodeValue_survives rest hcolumn (hrow value hvalue)
    simp only [hvalue, Option.bind_some, hraw, Option.map_some, List.length_append, length_word] at hfits ⊢
    have hlength : unpack 4 (word 4 raw.length) = some (raw.length : Int) :=
      unpack_pack (by rw [pack_natCast, if_pos (by omega)])
    have hslice := slice_append (before ++ word 4 raw.length) raw after
    rw [List.length_append, length_word] at hslice
    simp only [List.append_assoc] at hslice ⊢
    rw [unpackFrom_append hlength (length_word _ _)]
    simp only [Option.bind_eq_bind, Option.bind_some, hidx, Option.map_some, Option.getD_some]
    rw [if_neg (by omega)]
    have hoff : (before.length : Int) + 4 = ((before.length + 4 : Nat) : Int) := rfl
    have hnext : ((before.length : Int) + ((4 + raw.length : Nat) : Int)) =
      ((before.length + 4 : Nat) : Int) + raw.length := by omega
    rw [hoff, hslice, hdecode, hnext]
    simp only [Option.bind_some]
    cases rowLoop rest (before ++ (word 4 raw.length ++ (raw ++ after))) columns left (idx + 1)
      (((before.length + 4 : Nat) : Int) + raw.length) <;> rfl

/-- All fields of the row are read, and nothing is left. -/
theorem rowLoop_encoded {all : List ColumnInfo} : ∀ (done columns : List ColumnInfo), all = done ++ columns →
    (∀ column ∈ columns, WellFormed column) → RowOf columns row →
    (∀ column ∈ columns, (fieldOf rest row column).length < 2 ^ 31 + 4) → ∀ before : Bytes,
    rowLoop rest (before ++ (columns.map (fieldOf rest row)).flatten) all columns.length done.length before.length =
      some (columns.map (received row), ((before ++ (columns.map (fieldOf rest row)).flatten).length : Int))
  | done, [], _, _, _, _, before => by
    rw [List.map_nil, List.flatten_nil, List.append_nil]
    rfl
  | done, column :: columns, hall, hcolumns, hrow, hfits, before => by
    have hidx : all[done.length]? = some column := by
      rw [hall, List.getElem?_append_right (Nat.le_refl _), Nat.sub_self]; rfl
    have hdone : all = done ++ [column] ++ columns := by rw [hall, List.append_assoc]; rfl
    have ih := rowLoop_encoded (done ++ [column]) columns hdone
      (fun c hc => hcolumns c (List.mem_cons_of_mem _ hc)) (fun c hc => hrow c (List.mem_cons_of_mem _ hc))
      (fun c hc => hfits c (List.mem_cons_of_mem _ hc)) (before ++ fieldOf rest row column)
    have hfield := rowLoop_field rest (hcolumns column (List.mem_cons_self ..)) (hrow column (List.mem_cons_self ..))
      (hfits column (List.mem_cons_self ..)) hidx before (columns.map (fieldOf rest row)).flatten columns.length
    rw [List.map_cons, List.flatten_cons, List.length_cons, hfield]
    rw [List.append_assoc, List.length_append, List.length_append, List.length_singleton, Int.natCast_add] at ih
    rw [ih, List.map_cons, List.length_append, List.length_append]
    exact congrArg some (Prod.ext rfl (by dsimp only))

omit rest in
theorem rowWith_of_mem {columns : List ColumnInfo} (hnames : (columns.map ColumnInfo.name).Nodup)
    (f : ColumnInfo → Option (Value α)) {column : ColumnInfo} (hmem : column ∈ columns) :
    rowWith columns (columns.map f) column.name = f column := by
  induction columns with
  | nil => cases hmem
  | cons c columns ih =>
    rw [List.map_cons, List.nodup_cons] at hnames
    unfold rowWith at ih ⊢
    rw [List.map_cons, List.map_cons, List.zip_cons_cons, List.lookup_cons]
    rcases List.mem_cons.1 hmem with rfl | hmem
    · rw [beq_self_eq_true]
      rfl
    · have hne : (column.name == c.name) = false := beq_eq_false_iff_ne.2 fun h =>
        hnames.1 (h ▸ List.mem_map_of_mem hmem)
      rw [hne]
      exact ih hnames.2 hmem

/-- The decoded row is encoded like the row. -/
theorem encodeField_rowWith {columns : List ColumnInfo} (hnames : (columns.map ColumnInfo.name).Nodup)
    {column : ColumnInfo}
    (hmem : column ∈ columns) (hcolumn : WellFormed column)
    (hrow : ∀ value ∈ row column.name, ∀ t : PgType, column.typeOid = t.oid → t.Holds value) :
    encodeField rest (rowWith columns (columns.map (received row))) column = encodeField rest row column := by
  rw [encodeField, encodeField, rowWith_of_mem hnames _ hmem, received]
  cases hvalue : row column.name with
  | none => rfl
  | some value =>
    obtain ⟨raw, hraw, -, hagain⟩ := encodeValue_survives rest hcolumn (hrow value hvalue)
    simp only [Option.map_some, hraw, hagain]

theorem length_fields (columns : List ColumnInfo) :
    (word 2 columns.length ++ (columns.map (fieldOf rest row)).flatten).length = rowSize rest row columns := by
  rw [List.length_append, length_word, List.length_flatten, List.map_map, rowSize]
  rfl

variable (row) in
theorem fieldOf_le {columns : List ColumnInfo} {column : ColumnInfo} (hmem : column ∈ columns) :
    (fieldOf rest row column).length + 2 ≤ rowSize rest row columns := by
  have := List.single_le_sum (fun _ _ => Nat.zero_le _) _
    (List.mem_map_of_mem (f := fun column => (fieldOf rest row column).length) hmem)
  rw [rowSize]
  omega

/-- `encode_data_row` as a whole. -/
theorem encodeDataRow_eq {columns : List ColumnInfo} (hcount : columns.length ≤ 32767)
    (hcolumns : ∀ column ∈ columns, WellFormed column) (hrow : RowOf columns row) :
    encodeDataRow rest row columns =
      if rowSize rest row columns + 4 < 2 ^ 31 then
        some (message 0x44 (word 2 columns.length ++ (columns.map (fieldOf rest row)).flatten))
      else none := by
  have hfield : ∀ column ∈ columns, encodeField rest row column =
      if (fieldOf rest row column).length < 2 ^ 31 + 4 then some (fieldOf rest row column) else none :=
    fun column hmem => encodeField_eq rest (hcolumns column hmem) (hrow column hmem)
  rw [encodeDataRow, pack_natCast, if_pos (by omega)]
  simp only [Option.bind_eq_bind, Option.bind_some]
  by_cases hall : ∀ column ∈ columns, (fieldOf rest row column).length < 2 ^ 31 + 4
  · rw [MapM.eq_some_of_forall fun column hmem => (hfield column hmem).trans (if_pos (hall column hmem)),
      Option.bind_some,
      encodeMessage_eq, length_fields]
  · rw [not_forall] at hall
    obtain ⟨column, hlong⟩ := hall
    rw [Classical.not_imp] at hlong
    have hnone := MapM.eq_none_of_mem hlong.1 ((hfield column hlong.1).trans (if_neg hlong.2))
    have := fieldOf_le rest row hlong.1
    rw [hnone, if_neg (by omega)]
    rfl

/-- A count is read back. -/
theorem unpackFrom_count {n : Nat} (h : n ≤ 32767) (after : Bytes) :
    unpackFrom 2 (word 2 n ++ after) 0 = some (n : Int) := by
  have hunpack : unpack 2 (word 2 n) = some (n : Int) := unpack_pack (by rw [pack_natCast, if_pos (by omega)])
  have hhead := unpackFrom_append hunpack (length_word _ _) [] after
  rwa [List.nil_append] at hhead

theorem scanDataRow_fields {columns : List ColumnInfo} (hcount : columns.length ≤ 32767)
    (hcolumns : ∀ column ∈ columns, WellFormed column) (hrow : RowOf columns row)
    (hfits : ∀ column ∈ columns, (fieldOf rest row column).length < 2 ^ 31 + 4) :
    scanDataRow rest (word 2 columns.length ++ (columns.map (fieldOf rest row)).flatten) columns =
      some (columns.map (received row), (rowSize rest row columns : Int)) := by
  have hloop := rowLoop_encoded rest [] columns rfl hcolumns hrow hfits (word 2 columns.length)
  rw [length_fields, length_word] at hloop
  rw [scanDataRow, unpackFrom_count hcount]
  exact hloop

end

/-- `encode_row_description` as a whole. -/
theorem encodeRowDescription_eq {columns : List ColumnInfo} (hcount : columns.length ≤ 32767)
    (hcolumns : ∀ column ∈ columns, WellFormed column) : ∃ fields,
    (word 2 columns.length ++ fields).length = descriptionSize columns ∧
      scanRowDescription (word 2 columns.length ++ fields) = some (columns, descriptionSize columns) ∧
      encodeRowDescription columns =
        if descriptionSize columns + 4 < 2 ^ 31 then some (message 0x54 (word 2 columns.length ++ fields)) else
          none := by
  obtain ⟨fields, hfields, hloop⟩ := columnsLoop_encoded columns hcolumns
  have hlength : (word 2 columns.length ++ fields.flatten).length = descriptionSize columns := by
    have hmap : fields.map List.length = columns.map fun column => (cstring column.name.toList).length + 18 := by
      refine List.ext_getElem ?_ fun i h1 h2 => ?_
      · have := congrArg List.length (MapM.eq_some_iff.1 hfields)
        simpa using this.symm
      · have hi := congrArg (fun l => l[i]?) (MapM.eq_some_iff.1 hfields)
        rw [List.length_map] at h1 h2
        simp only [List.getElem?_map, List.getElem?_eq_getElem h1, List.getElem?_eq_getElem h2, Option.map_some,
          Option.some.injEq] at hi
        rw [List.getElem_map, List.getElem_map]
        exact encodeColumn_length (hcolumns _ (List.getElem_mem h2)) hi
    rw [List.length_append, length_word, List.length_flatten, hmap, descriptionSize]
  refine ⟨fields.flatten, hlength, ?_, ?_⟩
  · have := hloop (word 2 columns.length)
    rw [hlength, length_word] at this
    rw [scanRowDescription, unpackFrom_count hcount, Option.bind_eq_bind, Option.bind_some, Int.toNat_natCast]
    exact this
  · have hcountFits : 2 * columns.length < 256 ^ 2 := by omega
    simp only [encodeRowDescription, pack_natCast, if_pos hcountFits, hfields, Option.bind_eq_bind, Option.bind_some,
      encodeMessage_eq, hlength]

/-! ## Results -/

/-- **Rows of a handler survive the wire.** A description and a row are encoded iff their messages fit, and then
the decoders return the columns and the values in their canonical form, at the end of the payload; and the decoded
row is encoded as the same bytes. -/
theorem rows_survive (rest : Rest α) {columns : List ColumnInfo} (hcount : columns.length ≤ 32767)
    (hnames : (columns.map ColumnInfo.name).Nodup) (hcolumns : ∀ column ∈ columns, WellFormed column)
    {row : String → Option (Value α)} (hrow : RowOf columns row) :
    ((encodeRowDescription columns).isSome ↔ descriptionSize columns + 4 < 2 ^ 31) ∧
    (∀ bytes ∈ encodeRowDescription columns, ∃ payload, bytes = message 0x54 payload ∧
      decodeRowDescription payload = some columns) ∧
    ((encodeDataRow rest row columns).isSome ↔ rowSize rest row columns + 4 < 2 ^ 31) ∧
    ∀ bytes ∈ encodeDataRow rest row columns, ∃ payload, bytes = message 0x44 payload ∧
      scanDataRow rest payload columns = some (columns.map (received row), (payload.length : Int)) ∧
      decodeDataRow rest payload columns = some (columns.map (received row)) ∧
      encodeDataRow rest (rowWith columns (columns.map (received row))) columns = some bytes := by
  obtain ⟨fields, -, hscan, hencode⟩ := encodeRowDescription_eq hcount hcolumns
  have hdata := encodeDataRow_eq rest hcount hcolumns hrow
  have hagain : encodeDataRow rest (rowWith columns (columns.map (received row))) columns = encodeDataRow rest row columns := by
    have : columns.mapM (encodeField rest (rowWith columns (columns.map (received row)))) = columns.mapM (encodeField rest row) :=
      MapM.congr fun column hmem => encodeField_rowWith rest hnames hmem (hcolumns column hmem) (hrow column hmem)
    rw [encodeDataRow, this]
    rfl
  refine ⟨?_, fun bytes hbytes => ?_, ?_, fun bytes hbytes => ?_⟩
  · rw [hencode]
    split <;> simp_all
  · rw [hencode] at hbytes
    split at hbytes
    · exact ⟨_, (Option.some.inj hbytes).symm, by rw [decodeRowDescription, hscan]; rfl⟩
    · cases hbytes
  · rw [hdata]
    split <;> simp_all
  · have hsame := hagain.trans hbytes
    rw [hdata] at hbytes
    split at hbytes
    · rename_i hfits
      have hrows := scanDataRow_fields rest hcount hcolumns hrow fun column hmem => by
        have := fieldOf_le rest row hmem
        omega
      refine ⟨_, (Option.some.inj hbytes).symm, ?_, ?_, hsame⟩
      · rw [hrows, length_fields]
      · rw [decodeDataRow, hrows]
        rfl
    · cases hbytes

end

def noRest : Rest Empty where
  str _ := []
  truth x := nomatch x
  int _ := none
  textValue _ x := nomatch x
  binaryValue _ _ := none
  ofText _ t := .str t
  ofBinary _ _ := none

def pairColumns : List ColumnInfo := [⟨"n", int2Oid, 0⟩, ⟨"raw", byteaOid, 1⟩]

def pairRow (name : String) : Option (Value Empty) := if name = "n" then some (.int (-5)) else some (.bytes [0, 255])

theorem rows_survive_pair : ∃ payload, encodeDataRow noRest pairRow pairColumns = some (message 0x44 payload) ∧
    decodeDataRow noRest payload pairColumns = some [some (.int (-5)), some (.str "\\x00ff".toList)] := by
  have hcolumns : ∀ column ∈ pairColumns, WellFormed column := fun column hmem => by
    simp only [pairColumns, List.mem_cons, List.not_mem_nil, or_false] at hmem
    rcases hmem with rfl | rfl
    · exact ⟨by decide, ⟨.int2, rfl⟩, .inl rfl⟩
    · exact ⟨by decide, ⟨.bytea, rfl⟩, .inr rfl⟩
  have hrow : RowOf pairColumns pairRow := fun column hmem value hvalue t ht => by
    simp only [pairColumns, List.mem_cons, List.not_mem_nil, or_false] at hmem
    rcases hmem with rfl | rfl
    · cases Option.some.inj hvalue
      cases t <;> first | exact absurd ht (by decide) | skip
      exact (by decide : InRange 2 (-5))
    · cases Option.some.inj hvalue
      cases t <;> first | exact absurd ht (by decide) | trivial
  obtain ⟨-, -, hfits, hsurvives⟩ := rows_survive noRest (by decide) (by decide) hcolumns hrow
  obtain ⟨bytes, hbytes⟩ := Option.isSome_iff_exists.1 (hfits.2 (by decide))
  obtain ⟨payload, rfl, -, hdecode, -⟩ := hsurvives bytes hbytes
  exact ⟨payload, hbytes, hdecode⟩

/-- **A text of 2³¹ characters is not encoded.** -/
theorem too_long : ¬ ∀ (columns : List ColumnInfo) (row : String → Option (Value Empty)), columns.length ≤ 32767 →
    (columns.map ColumnInfo.name).Nodup → (∀ column ∈ columns, WellFormed column) → RowOf columns row →
    ∃ bytes, encodeDataRow noRest row columns = some bytes := by
  intro h
  obtain ⟨text, htext⟩ : ∃ t : Text, t.length = 2 ^ 31 := ⟨List.replicate (2 ^ 31) 'a', List.length_replicate⟩
  have hcolumns : ∀ column ∈ [(⟨"a", textOid, 0⟩ : ColumnInfo)], WellFormed column := fun column hmem => by
    rw [List.mem_singleton.1 hmem]
    exact ⟨by decide, ⟨.text, rfl⟩, .inl rfl⟩
  have hrow : RowOf [(⟨"a", textOid, 0⟩ : ColumnInfo)] (fun _ => some (Value.str (α := Empty) text)) :=
    fun column hmem value hvalue t ht => by
      rw [List.mem_singleton.1 hmem] at ht
      cases Option.some.inj hvalue
      cases t <;> first | exact absurd ht (by decide) | trivial
  obtain ⟨bytes, hbytes⟩ := h _ _ (by decide) (by decide) hcolumns hrow
  have hlong := Utf8.length_le_encode text
  have hsize : 2 ^ 31 ≤ rowSize noRest (fun _ => some (Value.str (α := Empty) text)) [⟨"a", textOid, 0⟩] := by
    have hraw : rawOf noRest (fun _ => some (Value.str (α := Empty) text)) ⟨"a", textOid, 0⟩ = some (Utf8.encode text) := rfl
    rw [rowSize, List.map_singleton, List.sum_singleton, fieldOf, hraw]
    simp only [List.length_append, length_word]
    omega
  rw [encodeDataRow_eq noRest (by decide) hcolumns hrow, if_neg (by omega)] at hbytes
  cases hbytes

end SynnoDB.PgRouter.HandlerRows
