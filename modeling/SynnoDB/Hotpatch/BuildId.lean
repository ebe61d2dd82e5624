import Mathlib.Data.List.Basic
import SynnoDB.Hotpatch.Wire
import SynnoDB.Lib.Hex

/-!
# Build-ids (`hotpatch/plugin.hpp:38-115`, `hotpatch/elf_build_id.py:24-69`)

| here | there |
| --- | --- |
| `cppNotes`, `cppSegments`, `buildIdFromFile` | `PluginLoader::build_id_from_file` |
| `roundUp32`         | `(n + 3) & ~3U` on a `uint32_t`, which wraps |
| `Scan.overread`     | a byte outside the vector is read |
| `readAt`            | `lseek` and `read` of a regular file; one `read` moves at most `readMax` bytes |
| `pyNotes`, `pySegments`, `readBuildId` | `_scan_notes`, the loop of `read_build_id`, `read_build_id`; the outer `none` is `struct.error` |

`allocates n` says whether a vector of `n` bytes can be had; if not the C++ throws. The Python never
raises and the C++ leaves its buffer only at a note whose sizes wrap. **On a regular file the two
agree** (`build_id_readers`); they part on truncated tables and segments, on names that go on after
`GNU`, on empty and overlong descriptors and on sizes near `2 ^ 32`.
-/

namespace SynnoDB.Hotpatch.BuildId

/-! ## Fields -/

/-- The bytes `i, …, i + n - 1`, if they are all there. -/
def bytesAt (data : Bytes) (i n : Nat) : Option Bytes := if i + n ≤ data.length then some ((data.drop i).take n) else none

def field (big : Bool) (data : Bytes) (off w : Nat) : Nat :=
  if big then leValue ((data.drop off).take w).reverse else leValue ((data.drop off).take w)

structure Note where
  namesz : Nat
  descsz : Nat
  type : Nat
deriving DecidableEq, Repr

/-- `Elf64_Nhdr`. -/
def noteAt (big : Bool) (data : Bytes) (off : Nat) : Note :=
  ⟨field big data off 4, field big data (off + 4) 4, field big data (off + 8) 4⟩

structure Phdr where
  type : Nat
  offset : Nat
  filesz : Nat
deriving DecidableEq, Repr

/-- What is used of an `Elf64_Phdr`. -/
def phdrAt (big : Bool) (data : Bytes) (off : Nat) : Phdr :=
  ⟨field big data off 4, field big data (off + 8) 8, field big data (off + 32) 8⟩

def magic : Bytes := [0x7f, 0x45, 0x4c, 0x46]
def gnu : Bytes := [0x47, 0x4e, 0x55]
def ptNote : Nat := 4
def ntGnuBuildId : Nat := 3

/-! ## The C++ reader -/

def roundUp32 (n : Nat) : Nat := (n + 3) % 2 ^ 32 / 4 * 4

inductive Scan where
  | exhausted
  | found (desc : Bytes)
  | overread
deriving DecidableEq

def cppNotes (buf : Bytes) (off : Nat) : Scan :=
  if off + 12 ≤ buf.length then
    let note := noteAt false buf off
    let name := off + 12
    let desc := name + roundUp32 note.namesz
    let next := desc + roundUp32 note.descsz
    if buf.length < desc then .exhausted
    else if buf.length < next then .exhausted
    else if note.type = ntGnuBuildId ∧ 3 ≤ note.namesz then
      match bytesAt buf name 3 with
      | none => .overread
      | some three =>
        if three = gnu then
          match bytesAt buf desc note.descsz with
          | none => .overread
          | some d => .found d
        else cppNotes buf next
    else cppNotes buf next
  else .exhausted
termination_by buf.length - off

inductive Outcome where
  | id (text : List Char)
  | threw
  | overread
deriving DecidableEq

/-- The most that one `read` returns. -/
def readMax : Nat := 0x7ffff000

/-- `none`: the seek fails or the read is short. -/
def readAt (file : Bytes) (off n : Nat) : Option Bytes :=
  if 2 ^ 63 ≤ off ∨ readMax < n then none else bytesAt file off n

def cppSegments (allocates : Nat → Bool) (file : Bytes) : List Phdr → Outcome
  | [] => .id []
  | ph :: rest =>
    if ph.type ≠ ptNote ∨ ph.filesz = 0 then cppSegments allocates file rest
    else if allocates ph.filesz = false then .threw
    else
      match readAt file ph.offset ph.filesz with
      | none => cppSegments allocates file rest
      | some buf =>
        match cppNotes buf 0 with
        | .exhausted => cppSegments allocates file rest
        | .found desc => .id (Hex.text desc)
        | .overread => .overread

def phdrs (big : Bool) (table : Bytes) (start n : Nat) : List Phdr :=
  (List.range n).map fun i => phdrAt big table (start + i * 56)

def buildIdFromFile (allocates : Nat → Bool) (file : Bytes) : Outcome :=
  match bytesAt file 0 64 with
  | none => .id []
  | some eh =>
    let phoff := field false eh 32 8
    let phnum := field false eh 56 2
    if eh.take 4 ≠ magic then .id []
    else if phoff = 0 ∨ phnum = 0 then .id []
    else if allocates (phnum * 56) = false then .threw
    else
      match readAt file phoff (phnum * 56) with
      | none => .id []
      | some table => cppSegments allocates file (phdrs false table 0 phnum)

/-! ## The Python reader -/

def roundUp (n : Nat) : Nat := (n + 3) / 4 * 4

/-- `name.rstrip(b"\x00")`. -/
def rstrip (name : Bytes) : Bytes := (name.reverse.dropWhile fun b => b = 0).reverse

def unpackFrom (big : Bool) (data : Bytes) (off w : Nat) : Option Nat :=
  if off + w ≤ data.length then some (field big data off w) else none

def pyNotes (big : Bool) (data : Bytes) (stop : Nat) (pos : Nat) : Option (Option Bytes) :=
  if pos + 12 ≤ stop then
    match bytesAt data pos 12 with
    | none => none
    | some _ =>
      let note := noteAt big data pos
      let name := (data.drop (pos + 12)).take note.namesz
      let descStart := pos + 12 + roundUp note.namesz
      let desc := (data.drop descStart).take note.descsz
      if note.type = ntGnuBuildId ∧ rstrip name = gnu ∧ desc ≠ [] then some (some desc)
      else pyNotes big data stop (descStart + roundUp note.descsz)
  else some none
termination_by stop - pos

def pySegments (big : Bool) (data : Bytes) (phoff phentsize : Nat) : List Nat → Option (Option Bytes)
  | [] => some none
  | i :: rest =>
    let off := phoff + i * phentsize
    if data.length < off + 56 then some none
    else do
      let type ← unpackFrom big data off 4
      if type ≠ ptNote then pySegments big data phoff phentsize rest
      else
        let offset ← unpackFrom big data (off + 8) 8
        let filesz ← unpackFrom big data (off + 32) 8
        let found ← pyNotes big data (min (offset + filesz) data.length) offset
        match found with
        | some desc => pure (some desc)
        | none => pySegments big data phoff phentsize rest

def readBuildId (data : Bytes) : Option (Option Bytes) :=
  if data.length < 64 ∨ data.take 4 ≠ magic then some none
  else if data[4]? ≠ some 2 then some none
  else do
    let big := decide (data[5]? ≠ some 1)
    let phoff ← unpackFrom big data 32 8
    let phentsize ← unpackFrom big data 54 2
    let phnum ← unpackFrom big data 56 2
    pySegments big data phoff phentsize (List.range phnum)

/-- The empty string stands for `None`. -/
def idText : Option Bytes → List Char
  | none => []
  | some desc => Hex.text desc

/-! ## Slices -/

theorem bytesAt_of_le {data : Bytes} {i n : Nat} (h : i + n ≤ data.length) :
    bytesAt data i n = some ((data.drop i).take n) :=
  if_pos h

theorem bytesAt_eq_none {data : Bytes} {i n : Nat} : bytesAt data i n = none ↔ data.length < i + n := by
  unfold bytesAt
  split
  · simp only [reduceCtorEq, false_iff]
    omega
  · simp only [true_iff]
    omega

/-- A slice of a slice. -/
theorem slice_slice {data : Bytes} {start size off w : Nat} (h : off + w ≤ size) :
    (((data.drop start).take size).drop off).take w = (data.drop (start + off)).take w := by
  rw [List.drop_take, List.take_take, List.drop_drop, Nat.min_eq_left (by omega)]

theorem noteAt_slice (data : Bytes) (start : Nat) {size off : Nat} (h : off + 12 ≤ size) :
    noteAt false ((data.drop start).take size) off = noteAt false data (start + off) := by
  simp only [noteAt, field, Bool.false_eq_true, if_false]
  rw [slice_slice (by omega), slice_slice (by omega), slice_slice (by omega), Nat.add_assoc, Nat.add_assoc]

/-- `rstrip` takes away only zeros at the end. -/
theorem rstrip_append (name : Bytes) : ∃ rest, name = rstrip name ++ rest := by
  refine ⟨(name.reverse.takeWhile fun b => b = 0).reverse, ?_⟩
  rw [rstrip, ← List.reverse_append, List.takeWhile_append_dropWhile, List.reverse_reverse]

/-- A name that Python takes for `GNU` is one for the C++. -/
theorem take_of_rstrip {name : Bytes} (h : rstrip name = gnu) : 3 ≤ name.length ∧ name.take 3 = gnu := by
  obtain ⟨rest, hrest⟩ := rstrip_append name
  rw [h] at hrest
  subst hrest
  exact ⟨by simp [gnu], rfl⟩

/-! ## The Python reader never raises -/

theorem pyNotes_isSome (big : Bool) {data : Bytes} {stop : Nat} (hstop : stop ≤ data.length) (pos : Nat) :
    (pyNotes big data stop pos).isSome := by
  induction pos using pyNotes.induct big data stop with
  | case1 pos hfits hnone =>
    have := bytesAt_eq_none.1 hnone
    omega
  | case2 pos hfits bytes hbytes note name descStart desc hmatch =>
    rw [pyNotes, if_pos hfits, hbytes]
    dsimp only
    rw [if_pos hmatch]
    rfl
  | case3 pos hfits bytes hbytes note name descStart desc hmatch ih =>
    rw [pyNotes, if_pos hfits, hbytes]
    dsimp only
    rwa [if_neg hmatch]
  | case4 pos hfits =>
    rw [pyNotes, if_neg hfits]
    rfl

theorem unpackFrom_of_le {big : Bool} {data : Bytes} {off w : Nat} (h : off + w ≤ data.length) :
    unpackFrom big data off w = some (field big data off w) := if_pos h

/-- One turn of the loop over the program headers. -/
theorem pySegments_cons {big : Bool} {data : Bytes} {phoff phentsize i : Nat} {rest : List Nat}
    (hin : phoff + i * phentsize + 56 ≤ data.length) :
    pySegments big data phoff phentsize (i :: rest) =
      let ph := phdrAt big data (phoff + i * phentsize)
      if ph.type ≠ ptNote then pySegments big data phoff phentsize rest
      else
        pyNotes big data (min (ph.offset + ph.filesz) data.length) ph.offset >>= fun found =>
          match found with
          | some desc => some (some desc)
          | none => pySegments big data phoff phentsize rest := by
  rw [pySegments, if_neg (by omega), unpackFrom_of_le (by omega), unpackFrom_of_le (by omega),
    unpackFrom_of_le (by omega)]
  rfl

theorem pySegments_isSome (big : Bool) (data : Bytes) (phoff phentsize : Nat) : ∀ is : List Nat,
    (pySegments big data phoff phentsize is).isSome
  | [] => rfl
  | i :: rest => by
    have ih := pySegments_isSome big data phoff phentsize rest
    by_cases hin : phoff + i * phentsize + 56 ≤ data.length
    · rw [pySegments_cons hin]
      dsimp only
      split
      · exact ih
      · obtain ⟨found, hfound⟩ := Option.isSome_iff_exists.1 (pyNotes_isSome big (Nat.min_le_right
          ((phdrAt big data (phoff + i * phentsize)).offset + (phdrAt big data (phoff + i * phentsize)).filesz)
            data.length)
          (phdrAt big data (phoff + i * phentsize)).offset)
        rw [hfound]
        cases found with
        | some desc => rfl
        | none => exact ih
    · rw [pySegments, if_pos (by omega)]
      rfl

/-- Whether the fields are read as big-endian numbers. -/
def bigEndian (data : Bytes) : Bool := decide (data[5]? ≠ some 1)

theorem readBuildId_elf {data : Bytes} (hlen : 64 ≤ data.length) (hmagic : data.take 4 = magic)
    (hclass : data[4]? = some 2) :
    readBuildId data = pySegments (bigEndian data) data (field (bigEndian data) data 32 8)
      (field (bigEndian data) data 54 2)
      (List.range (field (bigEndian data) data 56 2)) := by
  have h1 : unpackFrom (bigEndian data) data 32 8 = some (field (bigEndian data) data 32 8) :=
    unpackFrom_of_le (by omega)
  have h2 : unpackFrom (bigEndian data) data 54 2 = some (field (bigEndian data) data 54 2) :=
    unpackFrom_of_le (by omega)
  have h3 : unpackFrom (bigEndian data) data 56 2 = some (field (bigEndian data) data 56 2) :=
    unpackFrom_of_le (by omega)
  rw [readBuildId, if_neg (by rintro (h | h); omega; exact h hmagic), if_neg (not_not.2 hclass)]
  show (do
    let phoff ← unpackFrom (bigEndian data) data 32 8
    let phentsize ← unpackFrom (bigEndian data) data 54 2
    let phnum ← unpackFrom (bigEndian data) data 56 2
    pySegments (bigEndian data) data phoff phentsize (List.range phnum)) = _
  rw [h1, h2, h3]
  rfl

theorem readBuildId_isSome (data : Bytes) : (readBuildId data).isSome := by
  by_cases hhead : data.length < 64 ∨ data.take 4 ≠ magic
  · rw [readBuildId, if_pos hhead]
    rfl
  · rw [not_or, not_not] at hhead
    by_cases hclass : data[4]? = some 2
    · rw [readBuildId_elf (by omega) hhead.2 hclass]
      exact pySegments_isSome _ _ _ _ _
    · rw [readBuildId, if_neg (by rintro (h | h); exact hhead.1 h; exact h hhead.2), if_pos hclass]
      rfl

/-! ## Where the readers agree -/

/-- Sizes that the rounding of the C++ does not wrap. -/
def Note.Small (n : Note) : Prop := n.namesz < 2 ^ 32 - 3 ∧ n.descsz < 2 ^ 32 - 3

/-- Where the note after the one at `off` starts. -/
def nextNote (n : Note) (off : Nat) : Nat := off + 12 + roundUp n.namesz + roundUp n.descsz

def nameOf (data : Bytes) (pos : Nat) : Bytes := (data.drop (pos + 12)).take (noteAt false data pos).namesz

def descOf (data : Bytes) (pos : Nat) : Bytes :=
  (data.drop (pos + 12 + roundUp (noteAt false data pos).namesz)).take (noteAt false data pos).descsz

/-- The C++ takes the note for a build-id. -/
def CppMatch (data : Bytes) (pos : Nat) : Prop :=
  (noteAt false data pos).type = ntGnuBuildId ∧ 3 ≤ (noteAt false data pos).namesz ∧ (nameOf data pos).take 3 = gnu

/-- The Python does. -/
def PyMatch (data : Bytes) (pos : Nat) : Prop :=
  (noteAt false data pos).type = ntGnuBuildId ∧ rstrip (nameOf data pos) = gnu ∧ descOf data pos ≠ []

/-- The notes of the segment from `off` on, up to the one that answers: their sizes do not wrap, they lie in the
segment, a name that starts with `GNU` ends there, and its descriptor is not empty. The last note may stick out as
long as it is no build-id. -/
inductive RegularNotes (data : Bytes) (start size : Nat) : Nat → Option Bytes → Prop
  | done {off} : size < off + 12 → RegularNotes data start size off none
  | cut {off} : off + 12 ≤ size → (noteAt false data (start + off)).Small → size < nextNote (noteAt false data (start + off)) off →
      ¬ PyMatch data (start + off) → RegularNotes data start size off none
  | skip {off r} : (noteAt false data (start + off)).Small → nextNote (noteAt false data (start + off)) off ≤ size →
      ¬ CppMatch data (start + off) → RegularNotes data start size (nextNote (noteAt false data (start + off)) off) r →
      RegularNotes data start size off r
  | answer {off} : (noteAt false data (start + off)).Small → nextNote (noteAt false data (start + off)) off ≤ size →
      PyMatch data (start + off) → RegularNotes data start size off (some (descOf data (start + off)))

theorem roundUp32_of_lt {n : Nat} (h : n < 2 ^ 32 - 3) : roundUp32 n = roundUp n := by
  rw [roundUp32, roundUp, Nat.mod_eq_of_lt (by omega)]

theorem le_roundUp (n : Nat) : n ≤ roundUp n := by
  unfold roundUp
  omega

def Scan.ofAnswer : Option Bytes → Scan
  | none => .exhausted
  | some desc => .found desc

section
variable {data : Bytes} {start size : Nat}

/-- The C++ on a note that lies in the segment. -/
theorem cppNotes_fits (hin : start + size ≤ data.length) {off : Nat} (hsmall : (noteAt false data (start + off)).Small)
    (hfits : nextNote (noteAt false data (start + off)) off ≤ size) :
    (CppMatch data (start + off) →
      cppNotes ((data.drop start).take size) off = .found (descOf data (start + off))) ∧
    (¬ CppMatch data (start + off) → cppNotes ((data.drop start).take size) off =
      cppNotes ((data.drop start).take size) (nextNote (noteAt false data (start + off)) off)) := by
  have hlen : ((data.drop start).take size).length = size := by
    rw [List.length_take, List.length_drop]
    omega
  have hname := le_roundUp (noteAt false data (start + off)).namesz
  have hdesc := le_roundUp (noteAt false data (start + off)).descsz
  unfold nextNote at hfits ⊢
  rw [cppNotes, hlen, if_pos (by omega)]
  simp only [noteAt_slice data start (show off + 12 ≤ size by omega), roundUp32_of_lt hsmall.1,
    roundUp32_of_lt hsmall.2]
  rw [if_neg (by omega), if_neg (by omega)]
  have hdescAt : bytesAt ((data.drop start).take size) (off + 12 + roundUp (noteAt false data (start + off)).namesz)
      (noteAt false data (start + off)).descsz = some (descOf data (start + off)) := by
    rw [bytesAt_of_le (by omega), slice_slice (by omega), descOf]
    congr 3
    omega
  have hthree : 3 ≤ (noteAt false data (start + off)).namesz →
      bytesAt ((data.drop start).take size) (off + 12) 3 = some ((nameOf data (start + off)).take 3) := by
    intro h3
    rw [bytesAt_of_le (by omega), slice_slice (by omega), nameOf, List.take_take, Nat.min_eq_left h3, Nat.add_assoc]
  constructor
  · rintro ⟨htype, h3, hgnu⟩
    rw [if_pos ⟨htype, h3⟩, hthree h3]
    dsimp only
    rw [if_pos hgnu, hdescAt]
  · intro hno
    by_cases hcond : (noteAt false data (start + off)).type = ntGnuBuildId ∧
      3 ≤ (noteAt false data (start + off)).namesz
    · rw [if_pos hcond, hthree hcond.2]
      dsimp only
      rw [if_neg fun hgnu => hno ⟨hcond.1, hcond.2, hgnu⟩]
    · rw [if_neg hcond]

/-- The Python on a note whose header lies in the segment. -/
theorem pyNotes_header (hin : start + size ≤ data.length) {off : Nat} (hfits : off + 12 ≤ size) :
    (PyMatch data (start + off) → pyNotes false data (start + size) (start + off) =
      some (some (descOf data (start + off)))) ∧
    (¬ PyMatch data (start + off) → pyNotes false data (start + size) (start + off) =
      pyNotes false data (start + size) (start + nextNote (noteAt false data (start + off)) off)) := by
  rw [pyNotes, if_pos (by omega), bytesAt_of_le (by omega)]
  constructor
  · intro h
    exact if_pos h
  · intro h
    have hnext : start + off + 12 + roundUp (noteAt false data (start + off)).namesz +
        roundUp (noteAt false data (start + off)).descsz = start + nextNote (noteAt false data (start + off)) off := by
      unfold nextNote
      omega
    rw [← hnext]
    exact if_neg h

theorem cppMatch_of_pyMatch {pos : Nat} (h : PyMatch data pos) : CppMatch data pos := by
  obtain ⟨htype, hname, -⟩ := h
  obtain ⟨h3, hgnu⟩ := take_of_rstrip hname
  refine ⟨htype, ?_, hgnu⟩
  rw [nameOf, List.length_take] at h3
  omega

/-- **Both readers read regular notes alike.** -/
theorem RegularNotes.agree (hin : start + size ≤ data.length) {off : Nat} {r : Option Bytes}
    (h : RegularNotes data start size off r) :
    cppNotes ((data.drop start).take size) off = Scan.ofAnswer r ∧
      pyNotes false data (start + size) (start + off) = some r := by
  have hlen : ((data.drop start).take size).length = size := by
    rw [List.length_take, List.length_drop]
    omega
  induction h with
  | done hoff =>
    constructor
    · rw [cppNotes, hlen, if_neg (by omega)]
      rfl
    · rw [pyNotes, if_neg (by omega)]
  | @cut off hoff hsmall hcut hno =>
    constructor
    · rw [cppNotes, hlen, if_pos hoff]
      simp only [noteAt_slice data start hoff, roundUp32_of_lt hsmall.1,
        roundUp32_of_lt hsmall.2]
      unfold nextNote at hcut
      by_cases hdesc : size < off + 12 + roundUp (noteAt false data (start + off)).namesz
      · rw [if_pos hdesc]
        rfl
      · rw [if_neg hdesc, if_pos hcut]
        rfl
    · rw [(pyNotes_header hin hoff).2 hno, pyNotes, if_neg (by omega)]
  | @skip off r hsmall hfits hno _ ih =>
    have hoff : off + 12 ≤ size := by
      unfold nextNote at hfits
      omega
    exact ⟨((cppNotes_fits hin hsmall hfits).2 hno).trans ih.1,
      ((pyNotes_header hin hoff).2 fun h => hno (cppMatch_of_pyMatch h)).trans ih.2⟩
  | @answer off hsmall hfits hmatch =>
    have hoff : off + 12 ≤ size := by
      unfold nextNote at hfits
      omega
    exact ⟨(cppNotes_fits hin hsmall hfits).1 (cppMatch_of_pyMatch hmatch), (pyNotes_header hin hoff).1 hmatch⟩

end

/-- The whole segment can be read. -/
def Phdr.Inside (allocates : Nat → Bool) (file : Bytes) (ph : Phdr) : Prop :=
  allocates ph.filesz = true ∧ ph.filesz ≤ readMax ∧ ph.offset + ph.filesz ≤ file.length

/-- The segments up to the one that answers: a note segment is empty, has no room for a note in the file, or lies in
the file and has regular notes. -/
inductive RegularSegments (allocates : Nat → Bool) (file : Bytes) : List Phdr → Option Bytes → Prop
  | nil : RegularSegments allocates file [] none
  | other {ph rest r} : ph.type ≠ ptNote → RegularSegments allocates file rest r → RegularSegments allocates file (ph :: rest) r
  | empty {ph rest r} : ph.filesz = 0 → RegularSegments allocates file rest r → RegularSegments allocates file (ph :: rest) r
  | noRoom {ph rest r} : allocates ph.filesz = true → min (ph.offset + ph.filesz) file.length < ph.offset + 12 →
      RegularSegments allocates file rest r → RegularSegments allocates file (ph :: rest) r
  | notes {ph rest r} : ph.Inside allocates file → RegularNotes file ph.offset ph.filesz 0 none →
      RegularSegments allocates file rest r → RegularSegments allocates file (ph :: rest) r
  | answer {ph rest desc} : ph.type = ptNote → ph.filesz ≠ 0 → ph.Inside allocates file →
      RegularNotes file ph.offset ph.filesz 0 (some desc) → RegularSegments allocates file (ph :: rest) (some desc)

/-- A 64-bit little-endian file with program headers of 56 bytes. -/
structure Elf64 (file : Bytes) : Prop where
  length : 64 ≤ file.length
  magic : file.take 4 = magic
  class64 : file[4]? = some 2
  little : file[5]? = some 1
  phentsize : field false file 54 2 = 56

/-- There are no program headers, or all of them are in the file, behind its first byte, and their segments are
regular. -/
def RegularFile (allocates : Nat → Bool) (file : Bytes) : Prop :=
  field false file 56 2 = 0 ∨
    field false file 32 8 ≠ 0 ∧ allocates (field false file 56 2 * 56) = true ∧
      field false file 32 8 + field false file 56 2 * 56 ≤ file.length ∧ file.length < 2 ^ 63 ∧
      ∃ r, RegularSegments allocates file (phdrs false file (field false file 32 8) (field false file 56 2)) r

section
variable {allocates : Nat → Bool} {file : Bytes}

theorem readAt_inside {off n : Nat} (hfile : file.length < 2 ^ 63) (hn : n ≤ readMax) (hin : off + n ≤ file.length) :
    readAt file off n = some ((file.drop off).take n) := by
  rw [readAt, if_neg (by omega), bytesAt_of_le hin]

theorem readAt_outside {off n : Nat} (hout : file.length < off + n) : readAt file off n = none := by
  unfold readAt
  split
  · rfl
  · exact bytesAt_eq_none.2 hout

/-- The C++ on the first of the segments. -/
theorem cppSegments_cons {ph : Phdr} {rest : List Phdr} (htype : ph.type = ptNote) (hsize : ph.filesz ≠ 0)
    (halloc : allocates ph.filesz = true) :
    cppSegments allocates file (ph :: rest) =
      match readAt file ph.offset ph.filesz with
      | none => cppSegments allocates file rest
      | some buf =>
        match cppNotes buf 0 with
        | .exhausted => cppSegments allocates file rest
        | .found desc => .id (Hex.text desc)
        | .overread => .overread := by
  rw [cppSegments, if_neg (by rintro (h | h); exact h htype; exact hsize h), if_neg (by rw [halloc]; decide)]

theorem cppSegments_passes {ph : Phdr} {rest : List Phdr} (hfile : file.length < 2 ^ 63)
    (hnotes : ph.Inside allocates file → cppNotes ((file.drop ph.offset).take ph.filesz) 0 = .exhausted)
    (halloc : allocates ph.filesz = true) (hread : ph.filesz ≤ readMax ∨ file.length < ph.offset + ph.filesz) :
    cppSegments allocates file (ph :: rest) = cppSegments allocates file rest := by
  by_cases hskip : ph.type ≠ ptNote ∨ ph.filesz = 0
  · rw [cppSegments, if_pos hskip]
  · rw [not_or, not_not] at hskip
    rw [cppSegments_cons hskip.1 hskip.2 halloc]
    by_cases hin : ph.offset + ph.filesz ≤ file.length
    · have hmax : ph.filesz ≤ readMax := hread.resolve_right (by omega)
      rw [readAt_inside hfile hmax hin]
      dsimp only
      rw [hnotes ⟨halloc, hmax, hin⟩]
    · rw [readAt_outside (by omega)]

/-- A turn of the Python's loop, on the headers of the table. -/
def pyPhdrs (file : Bytes) : List Phdr → Option (Option Bytes)
  | [] => some none
  | ph :: rest =>
    if ph.type ≠ ptNote then pyPhdrs file rest
    else
      pyNotes false file (min (ph.offset + ph.filesz) file.length) ph.offset >>= fun found =>
        match found with
        | some desc => some (some desc)
        | none => pyPhdrs file rest

theorem pySegments_eq {phoff : Nat} : ∀ is : List Nat, (∀ i ∈ is, phoff + i * 56 + 56 ≤ file.length) →
    pySegments false file phoff 56 is = pyPhdrs file (is.map fun i => phdrAt false file (phoff + i * 56))
  | [], _ => rfl
  | i :: rest, h => by
    rw [pySegments_cons (h i (List.mem_cons_self ..)), pySegments_eq rest fun j hj => h j (List.mem_cons_of_mem _ hj)]
    rfl

theorem pyPhdrs_passes {ph : Phdr} {rest : List Phdr}
    (hnotes : pyNotes false file (min (ph.offset + ph.filesz) file.length) ph.offset = some none) :
    pyPhdrs file (ph :: rest) = pyPhdrs file rest := by
  rw [pyPhdrs, hnotes]
  split <;> rfl

/-- **Both readers read regular segments alike.** -/
theorem RegularSegments.agree (hfile : file.length < 2 ^ 63) {phs : List Phdr} {r : Option Bytes}
    (h : RegularSegments allocates file phs r) :
    cppSegments allocates file phs = .id (idText r) ∧ pyPhdrs file phs = some r := by
  induction h with
  | nil => exact ⟨rfl, rfl⟩
  | other htype _ ih =>
    rw [cppSegments, if_pos (.inl htype), pyPhdrs, if_pos htype]
    exact ih
  | @empty ph rest r hsize _ ih =>
    constructor
    · rw [cppSegments, if_pos (.inr hsize)]
      exact ih.1
    · rw [pyPhdrs_passes, ih.2]
      rw [pyNotes, if_neg (by rw [hsize]; omega)]
  | @noRoom ph rest r halloc hroom _ ih =>
    constructor
    · by_cases hin : ph.offset + ph.filesz ≤ file.length
      · rw [cppSegments_passes hfile _ halloc (.inl (by unfold readMax; omega)), ih.1]
        intro _
        rw [cppNotes, if_neg]
        rw [List.length_take, List.length_drop]
        omega
      · rw [cppSegments_passes hfile (fun h => absurd h.2.2 hin) halloc (.inr (by omega)), ih.1]
    · rw [pyPhdrs_passes, ih.2]
      rw [pyNotes, if_neg (by omega)]
  | @notes ph rest r hin hnotes _ ih =>
    obtain ⟨hcpp, hpy⟩ := hnotes.agree hin.2.2
    constructor
    · rw [cppSegments_passes hfile (fun _ => hcpp) hin.1 (.inl hin.2.1), ih.1]
    · rw [pyPhdrs_passes, ih.2]
      rw [Nat.min_eq_left hin.2.2]
      exact hpy
  | @answer ph rest desc htype hsize hin hnotes =>
    obtain ⟨hcpp, hpy⟩ := hnotes.agree hin.2.2
    constructor
    · rw [cppSegments_cons htype hsize hin.1, readAt_inside hfile hin.2.1 hin.2.2]
      dsimp only
      rw [hcpp]
      rfl
    · rw [pyPhdrs, if_neg (not_not.2 htype), Nat.min_eq_left hin.2.2,
        show pyNotes false file (ph.offset + ph.filesz) ph.offset =
        some (some desc) from hpy]
      rfl

/-- The table as the C++ reads it into its vector. -/
theorem phdrs_slice {phoff n : Nat} : phdrs false ((file.drop phoff).take (n * 56)) 0 n = phdrs false file phoff n := by
  refine List.map_congr_left fun i hi => ?_
  have hi := List.mem_range.1 hi
  simp only [phdrAt, field, Bool.false_eq_true, if_false]
  rw [slice_slice (by omega), slice_slice (by omega), slice_slice (by omega)]
  congr 4 <;> omega

theorem field_lt (big : Bool) (data : Bytes) (off w : Nat) : field big data off w < 256 ^ w := by
  have hlen : ((data.drop off).take w).length ≤ w := List.length_take_le ..
  unfold field
  split
  · have h := leValue_lt ((data.drop off).take w).reverse
    rw [List.length_reverse] at h
    exact lt_of_lt_of_le h (Nat.pow_le_pow_right (by decide) hlen)
  · exact lt_of_lt_of_le (leValue_lt _) (Nat.pow_le_pow_right (by decide) hlen)

variable (allocates) in
/-- The C++ behind the checks of the header. -/
theorem buildIdFromFile_eq (hlen : 64 ≤ file.length) (hmagic : file.take 4 = magic) :
    buildIdFromFile allocates file =
      if field false file 32 8 = 0 ∨ field false file 56 2 = 0 then .id []
      else if allocates (field false file 56 2 * 56) = false then .threw
      else
        match readAt file (field false file 32 8) (field false file 56 2 * 56) with
        | none => .id []
        | some table => cppSegments allocates file (phdrs false table 0 (field false file 56 2)) := by
  have hhead (off w : Nat) (h : off + w ≤ 64) : field false ((file.drop 0).take 64) off w = field false file off w := by
    simp only [field, Bool.false_eq_true, if_false]
    rw [slice_slice h]
    congr 3
    omega
  have hmagic' : ((file.drop 0).take 64).take 4 = magic := by
    rw [List.drop_zero, List.take_take]
    exact hmagic
  rw [buildIdFromFile, bytesAt_of_le (by omega)]
  dsimp only
  rw [if_neg (not_not.2 hmagic'), hhead 32 8 (by decide), hhead 56 2 (by decide)]

/-- On a regular file the readers return one build-id. -/
theorem RegularFile.agree (h : RegularFile allocates file) (helf : Elf64 file) :
    ∃ r, readBuildId file = some r ∧ buildIdFromFile allocates file = .id (idText r) := by
  have hlittle : bigEndian file = false := by
    rw [bigEndian, helf.little]
    rfl
  have hpy := readBuildId_elf helf.length helf.magic helf.class64
  have hcpp := buildIdFromFile_eq allocates helf.length helf.magic
  rw [hlittle, helf.phentsize] at hpy
  by_cases hzero : field false file 56 2 = 0
  · refine ⟨none, by rw [hpy, hzero]; rfl, ?_⟩
    rw [hcpp, if_pos (.inr hzero)]
    rfl
  · obtain ⟨hphoff, halloc, htable, hfile, r, hr⟩ := h.resolve_left hzero
    obtain ⟨hsegments, hpys⟩ := hr.agree hfile
    have hlt := field_lt false file 56 2
    refine ⟨r, ?_, ?_⟩
    · rw [hpy, pySegments_eq _ fun i hi => ?_]
      · exact hpys
      · have := List.mem_range.1 hi
        omega
    · rw [hcpp, if_neg (by rintro (h | h); exact hphoff h; exact hzero h), if_neg (by rw [halloc]; decide),
        readAt_inside hfile (by unfold readMax; omega) htable]
      dsimp only
      rw [phdrs_slice]
      exact hsegments

end

/-! ## Where the C++ leaves its buffer -/

/-- Where the C++ goes on after a note. -/
def next32 (n : Note) (off : Nat) : Nat := off + 12 + roundUp32 n.namesz + roundUp32 n.descsz

/-- The C++ passes over the note at `off`. -/
def Passed (buf : Bytes) (off : Nat) : Prop :=
  next32 (noteAt false buf off) off ≤ buf.length ∧
    ((noteAt false buf off).type ≠ ntGnuBuildId ∨ (noteAt false buf off).namesz < 3 ∨
      ∃ three, bytesAt buf (off + 12) 3 = some three ∧ three ≠ gnu)

/-- A build-id note is reached whose name has a size that wraps and starts less than three bytes before the end, or
whose descriptor has one. -/
inductive Overreads (buf : Bytes) : Nat → Prop
  | name {off} : next32 (noteAt false buf off) off ≤ buf.length → (noteAt false buf off).type = ntGnuBuildId →
      2 ^ 32 - 3 ≤ (noteAt false buf off).namesz → buf.length < off + 12 + 3 → Overreads buf off
  | desc {off} : next32 (noteAt false buf off) off ≤ buf.length → (noteAt false buf off).type = ntGnuBuildId →
      3 ≤ (noteAt false buf off).namesz → bytesAt buf (off + 12) 3 = some gnu → 2 ^ 32 - 3 ≤ (noteAt false buf off).descsz →
      buf.length < off + 12 + roundUp32 (noteAt false buf off).namesz + (noteAt false buf off).descsz → Overreads buf off
  | next {off} : Passed buf off → Overreads buf (next32 (noteAt false buf off) off) → Overreads buf off

/-- All notes are passed over, up to one that sticks out. -/
inductive Exhausts (buf : Bytes) : Nat → Prop
  | done {off} : buf.length < next32 (noteAt false buf off) off → Exhausts buf off
  | next {off} : Passed buf off → Exhausts buf (next32 (noteAt false buf off) off) → Exhausts buf off

theorem roundUp32_ge {n : Nat} (h3 : 3 ≤ n) (hsmall : n < 2 ^ 32 - 3) : 4 ≤ roundUp32 n := by
  rw [roundUp32_of_lt hsmall, roundUp]
  omega

/-- What the C++ does with the note at `off`. -/
theorem cppNotes_cases (buf : Bytes) (off : Nat) :
    buf.length < next32 (noteAt false buf off) off ∧ cppNotes buf off = .exhausted ∨
    Passed buf off ∧ cppNotes buf off = cppNotes buf (next32 (noteAt false buf off) off) ∨
    (¬ Passed buf off ∧ next32 (noteAt false buf off) off ≤ buf.length ∧
      (noteAt false buf off).type = ntGnuBuildId ∧ 3 ≤ (noteAt false buf off).namesz) ∧
      (bytesAt buf (off + 12) 3 = none ∧ cppNotes buf off = .overread ∨
        bytesAt buf (off + 12) 3 = some gnu ∧
          cppNotes buf off = match bytesAt buf (off + 12 + roundUp32 (noteAt false buf off).namesz)
            (noteAt false buf off).descsz with
            | none => .overread
            | some d => .found d) := by
  rw [cppNotes]
  unfold Passed next32
  by_cases hlong : buf.length < off + 12 + roundUp32 (noteAt false buf off).namesz + roundUp32
    (noteAt false buf off).descsz
  · refine .inl ⟨hlong, ?_⟩
    by_cases hoff : off + 12 ≤ buf.length
    · rw [if_pos hoff]
      dsimp only
      by_cases hdesc : buf.length < off + 12 + roundUp32 (noteAt false buf off).namesz
      · rw [if_pos hdesc]
      · rw [if_neg hdesc, if_pos hlong]
    · rw [if_neg hoff]
  · right
    rw [if_pos (by omega)]
    dsimp only
    rw [if_neg (by omega), if_neg hlong]
    by_cases hcond : (noteAt false buf off).type = ntGnuBuildId ∧ 3 ≤ (noteAt false buf off).namesz
    · rw [if_pos hcond]
      cases hthree : bytesAt buf (off + 12) 3 with
      | none =>
        refine .inr ⟨⟨fun h => ?_, by omega, hcond⟩, .inl ⟨rfl, rfl⟩⟩
        rcases h.2 with h | h | ⟨_, h, _⟩
        · exact h hcond.1
        · omega
        · cases h
      | some three =>
        dsimp only
        by_cases hgnu : three = gnu
        · subst hgnu
          rw [if_pos rfl]
          refine .inr ⟨⟨fun h => ?_, by omega, hcond⟩, .inr ⟨rfl, rfl⟩⟩
          rcases h.2 with h | h | ⟨_, h, hne⟩
          · exact h hcond.1
          · omega
          · exact hne (Option.some.inj h).symm
        · rw [if_neg hgnu]
          exact .inl ⟨⟨by omega, .inr (.inr ⟨three, rfl, hgnu⟩)⟩, rfl⟩
    · rw [if_neg hcond]
      refine .inl ⟨⟨by omega, ?_⟩, rfl⟩
      rcases not_and_or.1 hcond with h | h
      · exact .inl h
      · exact .inr (.inl (by omega))

theorem le_next32 (n : Note) (off : Nat) : off + 12 ≤ next32 n off := by
  unfold next32
  omega

theorem cppNotes_overread (buf : Bytes) (off : Nat) : cppNotes buf off = .overread ↔ Overreads buf off := by
  induction h : buf.length - off using Nat.strong_induction_on generalizing off with
  | _ n ih =>
    have hnext := le_next32 (noteAt false buf off) off
    rcases cppNotes_cases buf off with ⟨hlong, heq⟩ | ⟨hpassed, heq⟩ | ⟨⟨hnot, hfits, htype, h3⟩, hrest⟩
    · rw [heq]
      refine iff_of_false (by simp) fun ho => ?_
      cases ho with
      | name h => omega
      | desc h => omega
      | next h => exact absurd h.1 (by omega)
    · rw [heq, ih _ (by have := hpassed.1; omega) _ rfl]
      refine ⟨.next hpassed, fun ho => ?_⟩
      cases ho with
      | name _ htype hwrap hend =>
        rcases hpassed.2 with h | h | ⟨three, h, _⟩
        · exact absurd htype h
        · omega
        · rw [bytesAt_eq_none.2 hend] at h
          cases h
      | desc _ htype h3 hgnu =>
        rcases hpassed.2 with h | h | ⟨three, h, hne⟩
        · exact absurd htype h
        · omega
        · rw [hgnu] at h
          exact absurd (Option.some.inj h).symm hne
      | next _ ho => exact ho
    · unfold next32 at hfits
      rcases hrest with ⟨hnone, heq⟩ | ⟨hgnu, heq⟩
      · rw [heq]
        have hend := bytesAt_eq_none.1 hnone
        refine iff_of_true rfl (.name (by unfold next32; omega) htype ?_ hend)
        by_contra hsmall
        have := roundUp32_ge h3 (by omega)
        omega
      · rw [heq]
        cases hdesc : bytesAt buf (off + 12 + roundUp32 (noteAt false buf off).namesz)
          (noteAt false buf off).descsz with
        | none =>
          have hend := bytesAt_eq_none.1 hdesc
          refine iff_of_true rfl (.desc (by unfold next32; omega) htype h3 hgnu ?_ hend)
          by_contra hsmall
          have := roundUp32_of_lt (n := (noteAt false buf off).descsz) (by omega)
          have := le_roundUp (noteAt false buf off).descsz
          omega
        | some d =>
          refine iff_of_false (by simp) fun ho => ?_
          cases ho with
          | name _ _ _ hend =>
            rw [bytesAt_eq_none.2 hend] at hgnu
            cases hgnu
          | desc _ _ _ _ _ hend =>
            rw [bytesAt_eq_none.2 hend] at hdesc
            cases hdesc
          | next hpassed => exact hnot hpassed

theorem cppNotes_exhausted (buf : Bytes) (off : Nat) : cppNotes buf off = .exhausted ↔ Exhausts buf off := by
  induction h : buf.length - off using Nat.strong_induction_on generalizing off with
  | _ n ih =>
    have hnext := le_next32 (noteAt false buf off) off
    rcases cppNotes_cases buf off with ⟨hlong, heq⟩ | ⟨hpassed, heq⟩ | ⟨⟨hnot, hfits, htype, h3⟩, hrest⟩
    · exact iff_of_true heq (.done hlong)
    · rw [heq, ih _ (by have := hpassed.1; omega) _ rfl]
      refine ⟨.next hpassed, fun he => ?_⟩
      cases he with
      | done hlong => exact absurd hpassed.1 (by omega)
      | next _ he => exact he
    · refine iff_of_false ?_ fun he => ?_
      · rcases hrest with ⟨_, heq⟩ | ⟨_, heq⟩
        · rw [heq]
          simp
        · rw [heq]
          split <;> simp
      · cases he with
        | done hlong => omega
        | next hpassed => exact hnot hpassed

/-- A segment is reached and read in whose notes the C++ leaves the buffer. -/
inductive OverreadsIn (allocates : Nat → Bool) (file : Bytes) : List Phdr → Prop
  | here {ph rest buf} : ph.type = ptNote → ph.filesz ≠ 0 → allocates ph.filesz = true →
      readAt file ph.offset ph.filesz = some buf → Overreads buf 0 → OverreadsIn allocates file (ph :: rest)
  | later {ph rest} : (ph.type ≠ ptNote ∨ ph.filesz = 0 ∨
      allocates ph.filesz = true ∧ ∀ buf, readAt file ph.offset ph.filesz = some buf → Exhausts buf 0) →
      OverreadsIn allocates file rest → OverreadsIn allocates file (ph :: rest)

theorem cppSegments_overread (allocates : Nat → Bool) (file : Bytes) : ∀ phs : List Phdr,
    cppSegments allocates file phs = .overread ↔ OverreadsIn allocates file phs
  | [] => iff_of_false (by simp [cppSegments]) fun h => by cases h
  | ph :: rest => by
    have ih := cppSegments_overread allocates file rest
    by_cases hskip : ph.type ≠ ptNote ∨ ph.filesz = 0
    · rw [cppSegments, if_pos hskip, ih]
      refine ⟨.later (hskip.imp_right .inl), fun h => ?_⟩
      cases h with
      | here htype hsize => exact absurd hskip (by rintro (h | h); exact h htype; exact hsize h)
      | later _ h => exact h
    · have hnote := hskip
      rw [not_or, not_not] at hnote
      cases halloc : allocates ph.filesz with
      | false =>
        rw [cppSegments, if_neg hskip, if_pos halloc]
        refine iff_of_false (by simp) fun h => ?_
        cases h with
        | here _ _ halloc' => rw [halloc] at halloc'; cases halloc'
        | later h =>
          rcases h with h | h | ⟨h, _⟩
          · exact hskip (.inl h)
          · exact hskip (.inr h)
          · rw [halloc] at h
            cases h
      | true =>
        rw [cppSegments_cons hnote.1 hnote.2 halloc]
        cases hread : readAt file ph.offset ph.filesz with
        | none =>
          dsimp only
          rw [ih]
          refine ⟨.later (.inr (.inr ⟨halloc, fun _ h => by rw [hread] at h; cases h⟩)), fun h => ?_⟩
          cases h with
          | here _ _ _ h => rw [hread] at h; cases h
          | later _ h => exact h
        | some buf =>
          dsimp only
          have hover := cppNotes_overread buf 0
          have hexhaust := cppNotes_exhausted buf 0
          cases hnotes : cppNotes buf 0 with
          | exhausted =>
            dsimp only
            rw [ih]
            refine ⟨.later (.inr (.inr ⟨halloc, fun b h => ?_⟩)), fun h => ?_⟩
            · rw [hread] at h
              rw [← Option.some.inj h]
              exact hexhaust.1 hnotes
            · cases h with
              | here _ _ _ h ho =>
                rw [hread] at h
                rw [← Option.some.inj h] at ho
                have := hover.2 ho
                rw [hnotes] at this
                cases this
              | later _ h => exact h
          | found desc =>
            refine iff_of_false (by simp) fun h => ?_
            cases h with
            | here _ _ _ h ho =>
              rw [hread] at h
              rw [← Option.some.inj h] at ho
              have := hover.2 ho
              rw [hnotes] at this
              cases this
            | later h =>
              rcases h with h | h | ⟨_, h⟩
              · exact hskip (.inl h)
              · exact hskip (.inr h)
              · have := hexhaust.2 (h buf hread)
                rw [hnotes] at this
                cases this
          | overread => exact iff_of_true rfl (.here hnote.1 hnote.2 halloc hread (hover.1 hnotes))

/-- The header and the table are read, and one of the segments is such a one. -/
def FileOverreads (allocates : Nat → Bool) (file : Bytes) : Prop :=
  64 ≤ file.length ∧ file.take 4 = magic ∧ field false file 32 8 ≠ 0 ∧ field false file 56 2 ≠ 0 ∧
    allocates (field false file 56 2 * 56) = true ∧
    ∃ table, readAt file (field false file 32 8) (field false file 56 2 * 56) = some table ∧
      OverreadsIn allocates file (phdrs false table 0 (field false file 56 2))

theorem buildIdFromFile_overread (allocates : Nat → Bool) (file : Bytes) :
    buildIdFromFile allocates file = .overread ↔ FileOverreads allocates file := by
  unfold FileOverreads
  by_cases hhead : 64 ≤ file.length ∧ file.take 4 = magic
  · rw [buildIdFromFile_eq _ hhead.1 hhead.2, and_iff_right hhead.1, and_iff_right hhead.2]
    by_cases hzero : field false file 32 8 = 0 ∨ field false file 56 2 = 0
    · rw [if_pos hzero]
      exact iff_of_false (by simp) fun ⟨h1, h2, _⟩ => hzero.elim h1 h2
    · rw [if_neg hzero]
      rw [not_or] at hzero
      rw [and_iff_right hzero.1, and_iff_right hzero.2]
      cases halloc : allocates (field false file 56 2 * 56) with
      | false => exact iff_of_false (by simp) fun ⟨h, _⟩ => by cases h
      | true =>
        rw [if_neg (by decide), and_iff_right rfl]
        cases hread : readAt file (field false file 32 8) (field false file 56 2 * 56) with
        | none => exact iff_of_false (by simp) fun ⟨_, h, _⟩ => by cases h
        | some table =>
          simp only [Option.some.injEq, exists_eq_left']
          exact cppSegments_overread _ _ _
  · refine iff_of_false ?_ fun h => hhead ⟨h.1, h.2.1⟩
    unfold buildIdFromFile
    cases heh : bytesAt file 0 64 with
    | none => simp
    | some eh =>
      have hlen : 64 ≤ file.length := by
        by_contra h
        rw [bytesAt_eq_none.2 (by omega)] at heh
        cases heh
      rw [bytesAt_of_le (by omega), Option.some.injEq] at heh
      have hmagic : eh.take 4 ≠ magic := by
        rw [← heh, List.drop_zero, List.take_take]
        exact fun h => hhead ⟨hlen, h⟩
      dsimp only
      rw [if_pos hmagic]
      simp

/-! ## Results -/

/-- **The two readers.** The C++ stays in its buffers iff no note like that is reached; the Python never raises;
and on a 64-bit little-endian file that is regular both return one build-id. -/
theorem build_id_readers (allocates : Nat → Bool) (file : Bytes) :
    (buildIdFromFile allocates file ≠ .overread ↔ ¬ FileOverreads allocates file) ∧ (readBuildId file).isSome ∧
      (Elf64 file → RegularFile allocates file →
        ∃ r, readBuildId file = some r ∧ buildIdFromFile allocates file = .id (idText r)) :=
  ⟨not_congr (buildIdFromFile_overread allocates file), readBuildId_isSome file, fun helf h => h.agree helf⟩

/-- A file with one segment of notes. -/
def withNotes (notes : Bytes) : Bytes :=
  magic ++ [2, 1] ++ .replicate 26 0 ++ [64] ++ .replicate 21 0 ++ [56, 0, 1] ++ .replicate 7 0 ++
    ([4] ++ .replicate 7 0 ++ [120] ++ .replicate 23 0 ++ [UInt8.ofNat notes.length] ++ .replicate 23 0) ++ notes

/-- The size of the descriptor wraps. -/
def wrapping : Bytes := withNotes ([4, 0, 0, 0, 0xff, 0xff, 0xff, 0xff, 3, 0, 0, 0] ++ gnu ++ [0])

/-- The name goes on after `GNU`. -/
def longName : Bytes := withNotes ([4, 0, 0, 0, 4, 0, 0, 0, 3, 0, 0, 0] ++ gnu ++ [0x58] ++ [0xde, 0xad, 0xbe, 0xef])

set_option maxRecDepth 8000 in
theorem wrapping_overread : buildIdFromFile (fun _ => true) wrapping = .overread := by
  rw [buildIdFromFile_overread]
  refine ⟨by decide, by decide, by decide, by decide, rfl, (wrapping.drop 64).take 56, by decide, ?_⟩
  have hphdrs : phdrs false ((wrapping.drop 64).take 56) 0 (field false wrapping 56 2) = [⟨4, 120, 16⟩] := by decide
  rw [hphdrs]
  refine .here rfl (by decide) rfl (show readAt wrapping 120 16 = some (wrapping.drop 120) by decide) ?_
  exact .desc (by decide) (by decide) (by decide) (by decide) (by decide) (by decide)

set_option maxRecDepth 8000 in
theorem longName_cpp : buildIdFromFile (fun _ => true) longName = .id "deadbeef".toList := by
  have hnotes : cppNotes (longName.drop 120) 0 = .found [0xde, 0xad, 0xbe, 0xef] := by
    rw [cppNotes, if_pos (by decide)]
    dsimp only
    rw [if_neg (by decide), if_neg (by decide), if_pos (by decide)]
    rfl
  rw [buildIdFromFile_eq _ (by decide) (by decide), if_neg (by decide), if_neg (by decide)]
  have htable : readAt longName (field false longName 32 8) (field false longName 56 2 * 56) =
      some ((longName.drop 64).take 56) := by decide
  have hphdrs : phdrs false ((longName.drop 64).take 56) 0 (field false longName 56 2) = [⟨4, 120, 20⟩] := by decide
  have hread : readAt longName 120 20 = some (longName.drop 120) := by decide
  rw [htable]
  dsimp only
  rw [hphdrs, cppSegments_cons rfl (by decide) rfl]
  dsimp only
  rw [hread]
  dsimp only
  rw [hnotes]
  decide

set_option maxRecDepth 8000 in
theorem longName_py : readBuildId longName = some none := by
  have hnotes : pyNotes false longName 140 120 = some none := by
    rw [pyNotes, if_pos (by decide), bytesAt_of_le (by decide)]
    dsimp only
    rw [if_neg (by decide), pyNotes, if_neg (by decide)]
  have hfields : field false longName 56 2 = 1 ∧ field false longName 54 2 = 56 ∧ field false longName 32 8 = 64 := by
    decide
  have hlittle : bigEndian longName = false := by decide
  rw [readBuildId_elf (by decide) (by decide) (by decide), hlittle, hfields.1, hfields.2.1, hfields.2.2]
  show pySegments false longName 64 56 [0] = some none
  have hph : phdrAt false longName (64 + 0 * 56) = ⟨4, 120, 20⟩ := by decide
  rw [pySegments_cons (by decide), hph]
  dsimp only
  rw [if_neg (by decide)]
  have hstop : min (120 + 20) longName.length = 140 := by decide
  rw [hstop, hnotes]
  rfl

set_option maxRecDepth 8000 in
theorem longName_elf64 : Elf64 longName := ⟨by decide, by decide, by decide, by decide, by decide⟩

/-- **The size of a descriptor wraps, and the C++ leaves its buffer; a name goes on after `GNU`, and the Python finds
no build-id where the C++ finds one.** -/
theorem wrapping_longName : ¬ (∀ (allocates : Nat → Bool) (file : Bytes), buildIdFromFile allocates file ≠ .overread) ∧
    ¬ ∀ (allocates : Nat → Bool) (file : Bytes), Elf64 file →
      ∃ r, readBuildId file = some r ∧ buildIdFromFile allocates file = .id (idText r) := by
  refine ⟨fun h => h (fun _ => true) wrapping wrapping_overread, fun h => ?_⟩
  obtain ⟨r, hpy, hcpp⟩ := h (fun _ => true) longName longName_elf64
  rw [longName_py, Option.some.injEq] at hpy
  subst hpy
  rw [longName_cpp] at hcpp
  cases hcpp

end SynnoDB.Hotpatch.BuildId
