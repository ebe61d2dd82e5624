import Mathlib
import SynnoDB.Lib.Json
import SynnoDB.Lib.MapM
import SynnoDB.Lib.Utf8
import SynnoDB.Workload.PyNumbers
import SynnoDB.Hotpatch.Stage
import SynnoDB.Hotpatch.Wire

/-!
# The answer to a RUN (`db_usecase.hpp:55-79`, `db.cpp:22-42`, `:212-257`, `hotpatch_proc.py:686-750`)

| here | there |
| --- | --- |
| `QueryResult`, `Double` | `struct QueryResult` of `query_api.hpp`; `elapsed_ms` |
| `toString`              | `std::to_string(double)`, i.e. `%f` |
| `payload`               | the object that the query stage sends through the trace pipe |
| `responseLine`          | the line of `run_parent`, without its newline |
| `PyStr`                 | `str()` of a decoded object, which the code applies to integers and texts |
| `parseResponse`         | what `HotpatchProc.run` makes of a line |

What the query stage reports arrives: every text as what its bytes decode to, whatever they are, and every
time as `%f` writes it (`response_arrives`). **One time that is no finite number loses the whole batch**: `to_string`
writes `nan` and `inf`, which `json.loads` does not take, so that the results are dropped and the line stands in the
place of the message.

Left out: a batch id that is echoed as a floating number, a `signal` that is a float or a text. `run_parent` writes
neither.
-/

namespace SynnoDB.Hotpatch.Response

open Json (Value Reads Fails Quotes ReadsMember)
open Workload.PyNumbers (Finite natText intText)
open Router (roundHalfEven)

/-! ## What the query stage writes -/

inductive Double where
  | finite (f : Finite)
  | inf (neg : Bool)
  | nan (neg : Bool)
  deriving DecidableEq

def Double.isFinite : Double → Bool
  | .finite _ => true
  | _ => false

/-- The millionths that `%f` prints; a tie goes to the even one. -/
def micros (f : Finite) : Nat := roundHalfEven (f.num * 10 ^ 6) f.den

def fixed (neg : Bool) (n : Nat) : Json.Text :=
  (if neg then ['-'] else []) ++ natText (n / 10 ^ 6) ++ '.' :: Digits.zfill 6 (natText (n % 10 ^ 6))

/-- `std::to_string`. -/
def toString : Double → Json.Text
  | .finite f => fixed f.neg (micros f)
  | .inf neg => (if neg then ['-'] else []) ++ "inf".toList
  | .nan neg => (if neg then ['-'] else []) ++ "nan".toList

structure QueryResult where
  queryId : Bytes
  reqId : Bytes
  trace : Bytes
  elapsedMs : Double
  error : Bytes
  deriving DecidableEq

/-- The bytes of a text of the source. -/
def lit (s : String) : Bytes := Utf8.encode s.toList

def hexChar (n : Nat) : Char := if n < 10 then Char.ofNat (48 + n) else Char.ofNat (87 + n)

/-- What `json_escape` appends for a character that cannot stand in a string as it is. -/
def escapeChar (c : Char) : Json.Text :=
  if c = '"' then ['\\', '"']
  else if c = '\\' then ['\\', '\\']
  else if c = '\n' then ['\\', 'n']
  else if c = '\r' then ['\\', 'r']
  else if c = '\t' then ['\\', 't']
  else if c < ' ' then ['\\', 'u', '0', '0', hexChar (c.toNat / 16), hexChar (c.toNat % 16)]
  else [c]

def isEscaped (b : UInt8) : Bool := b = 0x22 ∨ b = 0x5c ∨ b < 0x20

/-- `json_escape` (`db.cpp:22-42`). -/
def jsonEscape (s : Bytes) : Bytes :=
  s.flatMap fun b => if isEscaped b then Utf8.encode (escapeChar (Char.ofNat b.toNat)) else [b]

def resultBytes (r : QueryResult) : Bytes :=
  lit "\x7b\"trace\":\"" ++ jsonEscape r.trace ++ lit "\",\"elapsed_ms\":" ++ Utf8.encode (toString r.elapsedMs) ++
    lit ",\"error\":\"" ++ jsonEscape r.error ++ lit "\",\"query_id\":\"" ++ jsonEscape r.queryId ++
    lit "\",\"req_id\":\"" ++ jsonEscape r.reqId ++ lit "\"\x7d"

/-- The payload of `make_query_stage` (`db_usecase.hpp:59-77`). -/
def payload (results : List QueryResult) (stageError : Bytes) : Bytes :=
  lit "\x7b\"query_results\":[" ++ (lit ",").intercalate (results.map resultBytes) ++
    lit "],\"stage_error\":\"" ++ jsonEscape stageError ++ lit "\"\x7d"

/-! ## The line of `run_parent` -/

section
variable (strsignal : Int → Option Bytes)

/-- `sig_msg`. -/
def sigMsg (token : DoneToken) : Bytes :=
  if token.termSignal ≠ 0 then
    lit "query child killed by signal " ++ Utf8.encode (intText token.termSignal) ++ lit " (" ++
      (strsignal token.termSignal).getD (lit "unknown") ++ lit ")"
  else if token.exitCode = kStageThrewExitCode then
    lit "a pipeline stage threw a C++ exception (see stderr for the exception message)"
  else if token.exitCode = kChildStartFailedExitCode then
    lit "a pipeline stage failed to start its child process (see stderr for details)"
  else []

/-- `trace_data` can be spliced into the line. -/
def isObject (traceData : Bytes) : Bool :=
  2 ≤ traceData.length ∧ traceData.head? = some 0x7b ∧ traceData.getLast? = some 0x7d

/-- The line, without its newline (`db.cpp:224-256`). -/
def responseLine (batchId : Nat) (token : DoneToken) (traceData : Bytes) : Bytes :=
  lit "\x7b\"batch_id\":" ++ Utf8.encode (natText batchId) ++ lit ",\"exit_code\":" ++
    Utf8.encode (intText token.exitCode) ++ lit ",\"signal\":" ++ Utf8.encode (intText token.termSignal) ++
    (if isObject traceData then lit "," ++ (traceData.drop 1).take (traceData.length - 2)
     else lit ",\"query_results\":[],\"stage_error\":\"" ++ jsonEscape (sigMsg strsignal token) ++ lit "\"") ++
    lit "\x7d"

end

/-! ## `HotpatchProc.run` on a line -/

/-- `str()` of a decoded object. -/
structure PyStr where
  str : Value → Json.Text
  str_int : ∀ z : Int, str (.num (intText z)) = intText z
  str_text : ∀ s, str (.str s) = s

/-- On integers and texts. -/
instance : Inhabited PyStr where
  default := {
    str := fun v => match v with
      | .num t => t
      | .str s => s
      | _ => []
    str_int := fun _ => rfl
    str_text := fun _ => rfl }

structure PyQueryResult where
  trace : Value
  elapsedMs : Value
  error : Value
  queryId : Value
  reqId : Value

inductive Returned where
  | result (response : Json.Text) (queryResults : List PyQueryResult)
  /-- An exception that is not caught. -/
  | raised

def get? (ps : List (Json.Text × Value)) (name : String) : Option Value := Value.get? ps name.toList

/-- `qr.get("trace", "missing")`, …; only a dict has a `get`. -/
def pyQueryResult : Value → Option PyQueryResult
  | .obj ps => some {
      trace := (get? ps "trace").getD (.str "missing".toList)
      elapsedMs := (get? ps "elapsed_ms").getD (.num "-1".toList)
      error := (get? ps "error").getD (.str "missing".toList)
      queryId := (get? ps "query_id").getD (.str "missing".toList)
      reqId := (get? ps "req_id").getD (.str "missing".toList) }
  | _ => none

def pyQueryResults : Value → Option (List PyQueryResult)
  | .arr vs => vs.mapM pyQueryResult
  | .obj [] => some []
  | .str [] => some []
  | _ => none

def truthy : Value → Bool
  | .null => false
  | .bool b => b
  | .num t => (t.takeWhile fun c => c ≠ 'e' ∧ c ≠ 'E').any fun c => c ≠ '0' ∧ c ≠ '-' ∧ c ≠ '.'
  | .str s => s ≠ []
  | .arr vs => !vs.isEmpty
  | .obj ps => !ps.isEmpty

/-- The integer that a number without a fraction or an exponent is read as. -/
def intOf (t : Json.Text) : Option Int :=
  let ds := t.dropWhile (· = '-')
  if Digits.AllDigits ds then some (if ds = t then Digits.value ds else -Digits.value ds) else none

/-- `int(payload.get("signal", 0) or 0)`. -/
def signalOf (v : Value) : Option Int :=
  if truthy v = true then
    match v with
    | .bool _ => some 1
    | .num t => intOf t
    | _ => none
  else some 0

/-- `returned_batch_id == batch_id`. -/
def sameBatch (v : Option Value) (batchId : Nat) : Bool :=
  match v with
  | some (.num t) => intOf t = some (batchId : Int)
  | some (.bool b) => batchId = if b then 1 else 0
  | _ => false

/-- `[qr.error for qr in query_results if qr.error]`, which `join` takes if they are texts. -/
def errorTexts (results : List PyQueryResult) : Option (List Json.Text) :=
  (results.map PyQueryResult.error).filter truthy |>.mapM fun v =>
    match v with
    | .str s => some s
    | _ => none

section
variable (P : PyStr) (signals : Int → Option Json.Text)

/-- `_signal_name`. -/
def signalName (sig : Int) : Json.Text :=
  if sig ≤ 0 then [] else (signals sig).getD ("signal ".toList ++ intText sig)

def signalLabel (sig : Int) : Json.Text :=
  if sig = 0 then ['0'] else intText sig ++ " (".toList ++ signalName signals sig ++ ")".toList

/-- The message for the caller (`hotpatch_proc.py:725-743`). -/
def summary (exitCode : Json.Text) (sig : Int) (stageError : Json.Text) (errors : List Json.Text) : Json.Text :=
  let response := "exit_code: ".toList ++ exitCode ++ " signal: ".toList ++ signalLabel signals sig
  let response := if stageError = [] then response else "ERROR: ".toList ++ stageError ++ '\n' :: response
  if errors = [] then response
  else response ++ "\nPer-query errors:\n  ".toList ++ "\n  ".toList.intercalate errors

/-- `payload.get("stage_error", "") or ""`, as the message shows it. -/
def stageErrorText (v : Value) : Json.Text := if truthy v then P.str v else []

/-- The branch of the `try` for a dict; `line` is the response before. -/
def parseObject (batchId : Nat) (line : Json.Text) (ps : List (Json.Text × Value)) : Returned :=
  if sameBatch (get? ps "batch_id") batchId then
    (((get? ps "query_results").elim (some []) pyQueryResults).bind fun results =>
      (signalOf ((get? ps "signal").getD (.num ['0']))).bind fun sig =>
        match get? ps "exit_code" with
        -- a `KeyError`, which is caught
        | none => some (.result line results)
        | some exitCode => (errorTexts results).map fun errors =>
            .result (summary signals (P.str exitCode) sig (stageErrorText P ((get? ps "stage_error").getD (.str []))) errors)
              results).getD .raised
  else
    .result ("batch id mismatch: sent ".toList ++ natText batchId ++ ", got ".toList ++
      P.str ((get? ps "batch_id").getD .null)) []

/-- The note that the killer leaves behind the line. -/
def killedNote (killed : Option Nat) : Json.Text :=
  killed.elim [] fun timeout => "\nTerminated after ".toList ++ natText timeout ++ " seconds due to timeout.".toList

/-- `HotpatchProc.run` from the line on (`hotpatch_proc.py:676-750`); `killed`: the timeout that the killer enforced. -/
def parseResponse (batchId : Nat) (killed : Option Nat) (line : Bytes) : Returned :=
  let response := Utf8.decode line ++ killedNote killed
  match Json.loads response with
  | none => .result response []
  | some (.obj ps) => parseObject P signals batchId response ps
  | some _ => .raised

end

/-! ## Escaped texts -/

@[simp] theorem decode_lit (s : String) (rest : Bytes) : Utf8.decode (lit s ++ rest) = s.toList ++ Utf8.decode rest :=
  Utf8.decode_encode_append _ _

/-- The hexadecimal digits of a control character are read back. -/
theorem hex_control : ∀ n < 32, Json.hex4 '0' '0' (hexChar (n / 16)) (hexChar (n % 16)) = some n := by decide

theorem control_plain : ∀ n < 32, Json.isHigh n = false ∧ Json.isLow n = false := by decide

theorem string_escapeChar (c : Char) (t : Json.Text) :
    Json.string (escapeChar c ++ t) = (Json.string t).map fun r => (c :: r.1, r.2) := by
  unfold escapeChar
  split
  · rename_i h; subst h; rw [Json.string.eq_def]; rfl
  split
  · rename_i h; subst h; rw [Json.string.eq_def]; rfl
  split
  · rename_i h; subst h; rw [Json.string.eq_def]; rfl
  split
  · rename_i h; subst h; rw [Json.string.eq_def]; rfl
  split
  · rename_i h; subst h; rw [Json.string.eq_def]; rfl
  split
  · rename_i h
    have hlow : c.toNat < 32 := h
    have hplain := control_plain _ hlow
    rw [Json.string.eq_def]
    simp [hex_control _ hlow, hplain, Char.ofNat_toNat]
  · rename_i hquote hslash _ _ _ hcontrol
    exact Json.string_plain hquote hslash hcontrol t

/-- A byte that is escaped is an ASCII character. -/
theorem isEscaped_lt {b : UInt8} (h : isEscaped b = true) : b.toNat < 128 := by
  simp only [isEscaped, decide_eq_true_eq] at h
  rcases h with rfl | rfl | h
  · decide
  · decide
  · have := UInt8.lt_iff_toNat_lt.1 h
    have h32 : (0x20 : UInt8).toNat = 32 := rfl
    omega

/-- Only characters whose byte is escaped are escaped. -/
theorem escapeChar_of_plain {s : Bytes} (h : ∀ b ∈ s, isEscaped b = false) {c : Char} (hc : c ∈ Utf8.decode s) :
    escapeChar c = [c] := by
  rcases Utf8.mem_decode hc with rfl | hbytes
  · decide
  · have hlow : c.toNat < 128 → isEscaped (UInt8.ofNat c.toNat) = false := by
      intro hlt
      have hencode := Utf8.encode_ascii hlt
      rw [Char.ofNat_toNat] at hencode
      have hsingle : String.utf8EncodeChar c = [UInt8.ofNat c.toNat] := by simpa [Utf8.encode] using hencode
      exact h _ (hbytes _ (by rw [hsingle]; exact List.mem_singleton_self _))
    have hne : ∀ d : Char, d.toNat < 128 → isEscaped (UInt8.ofNat d.toNat) = true → c ≠ d := by
      rintro d hd hescaped rfl
      rw [hlow hd] at hescaped
      cases hescaped
    have hcontrol : ¬c < ' ' := by
      intro hlt
      have hlt : c.toNat < 32 := hlt
      have hfalse := hlow (by omega)
      have htrue : ∀ n < 32, isEscaped (UInt8.ofNat n) = true := by decide
      rw [htrue _ hlt] at hfalse
      cases hfalse
    rw [escapeChar, if_neg (hne _ (by decide) (by decide)), if_neg (hne _ (by decide) (by decide)),
      if_neg (hne _ (by decide) (by decide)), if_neg (hne _ (by decide) (by decide)),
      if_neg (hne _ (by decide) (by decide)), if_neg hcontrol]

theorem jsonEscape_plain {s : Bytes} (h : ∀ b ∈ s, isEscaped b = false) : jsonEscape s = s := by
  induction s with
  | nil => rfl
  | cons b s ih =>
    have hb := h b (List.mem_cons_self ..)
    rw [jsonEscape, List.flatMap_cons, hb]
    change [b] ++ jsonEscape s = b :: s
    rw [ih fun x hx => h x (List.mem_cons_of_mem _ hx), List.singleton_append]

theorem flatMap_plain {t : Json.Text} (h : ∀ c ∈ t, escapeChar c = [c]) : t.flatMap escapeChar = t := by
  induction t with
  | nil => rfl
  | cons c t ih =>
    rw [List.flatMap_cons, h c (List.mem_cons_self ..), ih fun d hd => h d (List.mem_cons_of_mem _ hd),
      List.singleton_append]

/-- Every escape begins with an ASCII character. -/
theorem escape_head {b : UInt8} (hb : isEscaped b = true) (rest : Bytes) :
    ∀ x ∈ (Utf8.encode (escapeChar (Char.ofNat b.toNat)) ++ rest).head?, x < 0x80 := by
  have hall : ∀ n < 128, isEscaped (UInt8.ofNat n) = true →
      (Utf8.encode (escapeChar (Char.ofNat n))).head? = some 0x5c := by decide
  have hhead := hall b.toNat (isEscaped_lt hb) (by rw [UInt8.ofNat_toNat]; exact hb)
  intro x hx
  rw [List.head?_append, hhead] at hx
  cases hx
  decide

/-- **The bytes of a text are decoded, and what they decode to is escaped**, up to the next ASCII character. -/
theorem decode_jsonEscape (s : Bytes) {rest : Bytes} (hrest : ∀ x ∈ rest.head?, x < 0x80) :
    Utf8.decode (jsonEscape s ++ rest) = (Utf8.decode s).flatMap escapeChar ++ Utf8.decode rest := by
  induction h : s.length using Nat.strong_induction_on generalizing s with
  | _ n ih =>
    subst h
    -- the text up to the first byte that is escaped
    obtain ⟨a, r, hs, ha, hr⟩ : ∃ a r, s = a ++ r ∧ (∀ b ∈ a, isEscaped b = false) ∧
        ∀ b ∈ r.head?, isEscaped b = true := by
      refine ⟨s.takeWhile fun b => !isEscaped b, s.dropWhile fun b => !isEscaped b,
        List.takeWhile_append_dropWhile.symm, ?_, ?_⟩
      · intro b hb
        simpa using List.mem_takeWhile_imp hb
      · intro b hb
        have := List.head?_dropWhile_not (fun b => !isEscaped b) s
        simp only [Option.mem_def] at hb
        rw [hb] at this
        simpa using this
    have hplain : (Utf8.decode a).flatMap escapeChar = Utf8.decode a := flatMap_plain fun c hc => escapeChar_of_plain ha hc
    cases r with
    | nil =>
      rw [List.append_nil] at hs
      rw [hs, jsonEscape_plain ha, Utf8.decode_append hrest, hplain]
    | cons x r =>
      have hx := hr x rfl
      have hlt := isEscaped_lt hx
      have hsplit : jsonEscape s = a ++ (Utf8.encode (escapeChar (Char.ofNat x.toNat)) ++ jsonEscape r) := by
        rw [hs, jsonEscape, List.flatMap_append, List.flatMap_cons, if_pos hx]
        change jsonEscape a ++ _ = _
        rw [jsonEscape_plain ha]
        rfl
      have hxs : x :: r = Utf8.encode [Char.ofNat x.toNat] ++ r := by
        rw [Utf8.encode_ascii hlt, UInt8.ofNat_toNat, List.singleton_append]
      have hxlow : ∀ y ∈ (x :: r).head?, y < 0x80 := by
        intro y hy
        cases hy
        exact UInt8.lt_iff_toNat_lt.2 hlt
      rw [hsplit, List.append_assoc, List.append_assoc, Utf8.decode_append (escape_head hx _),
        Utf8.decode_encode_append, ih r.length (by rw [hs]; simp; omega) r rfl, hs, Utf8.decode_append hxlow, hxs,
        Utf8.decode_encode_append, List.flatMap_append, List.flatMap_append, hplain]
      simp

theorem quotes_escaped (s : Bytes) : Quotes (Utf8.decode s) ((Utf8.decode s).flatMap escapeChar) :=
  Json.string_escaped string_escapeChar _

/-! ## The payload and the line as texts -/

/-- A text between quotes, as `json_escape` of its bytes is decoded. -/
def quoted (s : Bytes) : Json.Text := '"' :: (Utf8.decode s).flatMap escapeChar ++ ['"']

def resultMembers (r : QueryResult) : List (Json.Text × Json.Text) :=
  [("trace".toList, quoted r.trace), ("elapsed_ms".toList, toString r.elapsedMs), ("error".toList, quoted r.error),
    ("query_id".toList, quoted r.queryId), ("req_id".toList, quoted r.reqId)]

/-- An object with these members. -/
def objectText (qs : List (Json.Text × Json.Text)) : Json.Text :=
  '\x7b' :: '"' :: [',', '"'].intercalate (qs.map Json.memberText) ++ ['\x7d']

theorem decode_quoted (s : Bytes) (rest : Bytes) {c : Char} {u : Json.Text} (t : String) (ht : t.toList = c :: u)
    (hc : c.toNat < 128) : Utf8.decode (jsonEscape s ++ (lit t ++ rest))
      = (Utf8.decode s).flatMap escapeChar ++ (t.toList ++ Utf8.decode rest) := by
  rw [decode_jsonEscape, decode_lit]
  have hchar := Utf8.encode_ascii hc
  rw [Char.ofNat_toNat] at hchar
  have hsingle : String.utf8EncodeChar c = [UInt8.ofNat c.toNat] := by simpa [Utf8.encode] using hchar
  intro x hx
  rw [lit, ht, Utf8.encode, List.flatMap_cons, hsingle] at hx
  cases hx
  rw [UInt8.lt_iff_toNat_lt, UInt8.toNat_ofNat', Nat.mod_eq_of_lt (by omega)]
  exact hc

theorem decode_resultBytes (r : QueryResult) (rest : Bytes) :
    Utf8.decode (resultBytes r ++ rest) = objectText (resultMembers r) ++ Utf8.decode rest := by
  simp only [resultBytes, List.append_assoc, decode_lit, Utf8.decode_encode_append,
    decode_quoted r.trace _ "\",\"elapsed_ms\":" rfl (by decide), decode_quoted r.error _ "\",\"query_id\":\"" rfl (by decide),
    decode_quoted r.queryId _ "\",\"req_id\":\"" rfl (by decide), decode_quoted r.reqId _ "\"\x7d" rfl (by decide)]
  simp [objectText, resultMembers, quoted, Json.memberText, List.intercalate_cons_cons]

theorem decode_results (rs : List QueryResult) (rest : Bytes) :
    Utf8.decode ((lit ",").intercalate (rs.map resultBytes) ++ rest)
      = [','].intercalate (rs.map fun r => objectText (resultMembers r)) ++ Utf8.decode rest := by
  induction rs with
  | nil => simp
  | cons r rs ih =>
    cases rs with
    | nil => simp [decode_resultBytes]
    | cons r' rs =>
      rw [List.map_cons, List.map_cons, List.intercalate_cons_cons, ← List.map_cons, List.append_assoc,
        List.append_assoc, decode_resultBytes, decode_lit, ih]
      simp [List.intercalate_cons_cons]

def resultsText (rs : List QueryResult) : Json.Text :=
  '[' :: [','].intercalate (rs.map fun r => objectText (resultMembers r)) ++ [']']

/-- The payload without its braces. -/
def inner (results : List QueryResult) (stageError : Bytes) : Bytes :=
  lit "\"query_results\":[" ++ ((lit ",").intercalate (results.map resultBytes) ++
    (lit "],\"stage_error\":\"" ++ (jsonEscape stageError ++ lit "\"")))

theorem payload_eq (results : List QueryResult) (stageError : Bytes) :
    payload results stageError = 0x7b :: (inner results stageError ++ [0x7d]) := by
  have hopen : lit "\x7b\"query_results\":[" = 0x7b :: lit "\"query_results\":[" := by decide
  have hclose : lit "\"\x7d" = lit "\"" ++ [0x7d] := by decide
  simp only [payload, inner, hopen, hclose, List.append_assoc, List.cons_append]

theorem isObject_payload (results : List QueryResult) (stageError : Bytes) :
    isObject (payload results stageError) = true := by
  rw [payload_eq]
  simp only [isObject, List.length_cons, List.length_append, List.length_nil, List.head?_cons, decide_eq_true_eq]
  refine ⟨by omega, trivial, ?_⟩
  rw [← List.cons_append, List.getLast?_append]
  rfl

/-- What is spliced into the line is the payload without its braces. -/
theorem spliced_payload (results : List QueryResult) (stageError : Bytes) :
    ((payload results stageError).drop 1).take ((payload results stageError).length - 2) = inner results stageError := by
  rw [payload_eq, List.drop_one, List.tail_cons]
  have hlen : (0x7b :: (inner results stageError ++ [0x7d]) : Bytes).length - 2 = (inner results stageError).length := by
    simp
  rw [hlen, List.take_left]

/-- What arrived through the trace pipe: nothing, or the payload of the query stage. -/
abbrev Reported := Option (List QueryResult × Bytes)

def Reported.bytes (rep : Reported) : Bytes := rep.elim [] fun p => payload p.1 p.2

def Reported.results (rep : Reported) : List QueryResult := rep.elim [] Prod.fst

section
variable (strsignal : Int → Option Bytes)

def Reported.stageError (rep : Reported) (token : DoneToken) : Bytes := rep.elim (sigMsg strsignal token) Prod.snd

def lineMembers (batchId : Nat) (token : DoneToken) (rep : Reported) : List (Json.Text × Json.Text) :=
  [("batch_id".toList, natText batchId), ("exit_code".toList, intText token.exitCode),
    ("signal".toList, intText token.termSignal), ("query_results".toList, resultsText rep.results),
    ("stage_error".toList, quoted (rep.stageError strsignal token))]

/-- The line is one object, with the members of the payload spliced in. -/
theorem decode_responseLine (batchId : Nat) (token : DoneToken) (rep : Reported) :
    Utf8.decode (responseLine strsignal batchId token rep.bytes) = objectText (lineMembers strsignal batchId token rep) := by
  have hend : Utf8.decode [] = [] := Utf8.decode.eq_1
  have htail : ∀ (error : Bytes) (rest : Bytes), Utf8.decode (jsonEscape error ++ (lit "\"" ++ (lit "\x7d" ++ rest)))
      = (Utf8.decode error).flatMap escapeChar ++ ('"' :: '\x7d' :: Utf8.decode rest) := by
    intro error rest
    rw [decode_quoted error _ "\"" rfl (by decide), decode_lit]
    rfl
  have hlast : lit "\x7d" = lit "\x7d" ++ [] := (List.append_nil _).symm
  cases rep with
  | none =>
    have hempty : isObject [] = false := by decide
    rw [responseLine, Reported.bytes, Option.elim_none, hempty, if_neg (by decide), hlast]
    simp only [List.append_assoc, decode_lit, Utf8.decode_encode_append, htail, hend]
    simp [objectText, lineMembers, resultsText, quoted, Json.memberText, List.intercalate_cons_cons, Reported.results,
      Reported.stageError]
  | some p =>
    rw [responseLine, Reported.bytes, Option.elim_some, isObject_payload, if_pos rfl, spliced_payload, inner, hlast]
    simp only [List.append_assoc, decode_lit, Utf8.decode_encode_append, decode_results, htail, hend]
    simp [objectText, lineMembers, resultsText, quoted, Json.memberText, List.intercalate_cons_cons, Reported.results,
      Reported.stageError]

end

/-! ## Reading the line -/

theorem reads_quoted (s : Bytes) : Reads (.str (Utf8.decode s)) (quoted s) := Reads.str (quotes_escaped s)

theorem intText_eq (z : Int) : intText z = Json.decimal (z < 0) z.natAbs [] := by
  by_cases h : z < 0 <;> simp [intText, natText, Json.decimal, h]

theorem natText_eq (n : Nat) : natText n = Json.decimal false n [] := by simp [natText, Json.decimal]

theorem fixed_eq (neg : Bool) (n : Nat) :
    fixed neg n = Json.decimal neg (n / 10 ^ 6) (Digits.zfill 6 (natText (n % 10 ^ 6))) := by
  have hne : Digits.zfill 6 (natText (n % 10 ^ 6)) ≠ [] := by
    intro h
    have hlen := Digits.length_zfill 6 (natText (n % 10 ^ 6))
    rw [h, List.length_nil] at hlen
    omega
  rw [fixed, Json.decimal, if_neg hne, List.append_assoc]
  rfl

theorem reads_int (z : Int) : Reads (.num (intText z)) (intText z) := by
  rw [intText_eq]
  exact Reads.num (Json.number_decimal _ _ fun _ h => absurd h List.not_mem_nil)

theorem reads_nat (n : Nat) : Reads (.num (natText n)) (natText n) := by
  rw [natText_eq]
  exact Reads.num (Json.number_decimal _ _ fun _ h => absurd h List.not_mem_nil)

/-- Of the times that `to_string` writes, the finite ones are numbers. -/
theorem reads_toString {d : Double} (h : d.isFinite = true) : Reads (.num (toString d)) (toString d) := by
  cases d with
  | finite f =>
    rw [toString, fixed_eq]
    exact Reads.num (Json.number_decimal _ _ (Digits.allDigits_zfill (Digits.allDigits_toDigits _)))
  | inf neg => cases h
  | nan neg => cases h

/-- The others are nothing that is read. -/
theorem fails_toString {d : Double} (h : d.isFinite = false) : Fails (toString d) := by
  have hfail : ∀ {c : Char} {u : Json.Text}, Json.isBlank c = false → c ≠ ']' → c ≠ '"' → c ≠ '[' → c ≠ '\x7b' →
      (∀ rest, Json.scalar (c :: u ++ rest) = none) → Fails (c :: u) := by
    intro c u hblank hclose hquote hbracket hbrace hnone
    refine ⟨⟨c, u, rfl, hblank, hclose⟩, fun n rest _ => ?_⟩
    cases n with
    | zero => rfl
    | succ n =>
      rw [List.cons_append, Json.value, if_neg hquote, if_neg hbracket, if_neg hbrace]
      exact hnone rest
  have hinf : "inf".toList = ['i', 'n', 'f'] := by decide
  have hnan : "nan".toList = ['n', 'a', 'n'] := by decide
  cases d with
  | finite f => cases h
  | inf neg =>
    rw [toString, hinf]
    cases neg <;> refine hfail (by decide) (by decide) (by decide) (by decide) (by decide) fun rest => ?_ <;>
      simp [Json.scalar, Json.word, Json.number, Json.signPart, Json.intPart]
  | nan neg =>
    rw [toString, hnan]
    cases neg <;> refine hfail (by decide) (by decide) (by decide) (by decide) (by decide) fun rest => ?_ <;>
      simp [Json.scalar, Json.word, Json.number, Json.signPart, Json.intPart]

def isPlain (c : Char) : Bool := c ≠ '"' ∧ c ≠ '\\' ∧ ¬c < ' '

theorem quotes_name {s : String} (h : s.toList.all isPlain = true) : Quotes s.toList s.toList :=
  Json.quotes_plain fun c hc => of_decide_eq_true (List.all_eq_true.1 h c hc)

/-- The members of a result as they are decoded. -/
def resultValue (r : QueryResult) : List (Json.Text × Value) :=
  [("trace".toList, .str (Utf8.decode r.trace)), ("elapsed_ms".toList, .num (toString r.elapsedMs)),
    ("error".toList, .str (Utf8.decode r.error)), ("query_id".toList, .str (Utf8.decode r.queryId)),
    ("req_id".toList, .str (Utf8.decode r.reqId))]

theorem reads_result {r : QueryResult} (h : r.elapsedMs.isFinite = true) :
    Reads (.obj (resultValue r)) (objectText (resultMembers r)) := by
  refine Reads.obj (.cons ⟨quotes_name (by decide), reads_quoted _⟩ (.cons ⟨quotes_name (by decide), reads_toString h⟩
    (.cons ⟨quotes_name (by decide), reads_quoted _⟩ (.cons ⟨quotes_name (by decide), reads_quoted _⟩
      (.cons ⟨quotes_name (by decide), reads_quoted _⟩ .nil))))) (by simp [resultMembers])

theorem fails_result {r : QueryResult} (h : r.elapsedMs.isFinite = false) : Fails (objectText (resultMembers r)) := by
  have htrace : ReadsMember ("trace".toList, .str (Utf8.decode r.trace)) ("trace".toList, quoted r.trace) :=
    ⟨quotes_name (by decide), reads_quoted _⟩
  have htime : Quotes "elapsed_ms".toList "elapsed_ms".toList := quotes_name (by decide)
  exact Fails.obj (.cons htrace .nil) htime (fails_toString h)
    [("error".toList, quoted r.error), ("query_id".toList, quoted r.queryId), ("req_id".toList, quoted r.reqId)]

theorem reads_results {rs : List QueryResult} (h : ∀ r ∈ rs, r.elapsedMs.isFinite = true) :
    Reads (.arr (rs.map fun r => .obj (resultValue r))) (resultsText rs) := by
  refine Reads.arr ?_
  induction rs with
  | nil => exact .nil
  | cons r rs ih =>
    exact .cons (reads_result (h r (List.mem_cons_self ..))) (ih fun r' hr => h r' (List.mem_cons_of_mem _ hr))

theorem fails_results {rs : List QueryResult} (h : ∃ r ∈ rs, r.elapsedMs.isFinite = false) : Fails (resultsText rs) := by
  -- the first time that is no number
  obtain ⟨as, r, bs, rfl, has, hr⟩ : ∃ as r bs, rs = as ++ r :: bs ∧ (∀ a ∈ as, a.elapsedMs.isFinite = true) ∧
      r.elapsedMs.isFinite = false := by
    induction rs with
    | nil =>
      obtain ⟨r, hr, -⟩ := h
      cases hr
    | cons r rs ih =>
      cases hr : r.elapsedMs.isFinite with
      | false => exact ⟨[], r, rs, rfl, fun _ h => absurd h List.not_mem_nil, hr⟩
      | true =>
        obtain ⟨r', hmem, hr'⟩ := h
        have htail : r' ∈ rs := by
          rcases List.mem_cons.1 hmem with rfl | hmem
          · rw [hr] at hr'
            cases hr'
          · exact hmem
        obtain ⟨as, q, bs, rfl, has, hq⟩ := ih ⟨r', htail, hr'⟩
        refine ⟨r :: as, q, bs, rfl, fun a ha => ?_, hq⟩
        rcases List.mem_cons.1 ha with rfl | ha
        · exact hr
        · exact has a ha
  have hreads : List.Forall₂ Reads (as.map fun r => .obj (resultValue r)) (as.map fun r => objectText (resultMembers r)) := by
    rw [List.forall₂_map_left_iff, List.forall₂_map_right_iff, List.forall₂_same]
    exact fun a ha => reads_result (has a ha)
  have hfails := Fails.arr hreads (fails_result hr) (bs.map fun r => objectText (resultMembers r))
  rw [resultsText, List.map_append, List.map_cons]
  exact hfails

section
variable (strsignal : Int → Option Bytes) (batchId : Nat) (token : DoneToken) (rep : Reported)

/-- The line as it is decoded. -/
def lineValue : List (Json.Text × Value) :=
  [("batch_id".toList, .num (natText batchId)), ("exit_code".toList, .num (intText token.exitCode)),
    ("signal".toList, .num (intText token.termSignal)),
    ("query_results".toList, .arr (rep.results.map fun r => .obj (resultValue r))),
    ("stage_error".toList, .str (Utf8.decode (rep.stageError strsignal token)))]

theorem reads_line (h : ∀ r ∈ rep.results, r.elapsedMs.isFinite = true) :
    Reads (.obj (lineValue strsignal batchId token rep)) (objectText (lineMembers strsignal batchId token rep)) := by
  refine Reads.obj (.cons ⟨quotes_name (by decide), reads_nat _⟩ (.cons ⟨quotes_name (by decide), reads_int _⟩
    (.cons ⟨quotes_name (by decide), reads_int _⟩ (.cons ⟨quotes_name (by decide), reads_results h⟩
      (.cons ⟨quotes_name (by decide), reads_quoted _⟩ .nil))))) (by simp [lineMembers])

theorem fails_line (h : ∃ r ∈ rep.results, r.elapsedMs.isFinite = false) :
    Fails (objectText (lineMembers strsignal batchId token rep)) := by
  have hid : ReadsMember ("batch_id".toList, .num (natText batchId)) ("batch_id".toList, natText batchId) :=
    ⟨quotes_name (by decide), reads_nat _⟩
  have hexit : ReadsMember ("exit_code".toList, .num (intText token.exitCode)) ("exit_code".toList, intText token.exitCode) :=
    ⟨quotes_name (by decide), reads_int _⟩
  have hsignal : ReadsMember ("signal".toList, .num (intText token.termSignal)) ("signal".toList, intText token.termSignal) :=
    ⟨quotes_name (by decide), reads_int _⟩
  have hresults : Quotes "query_results".toList "query_results".toList := quotes_name (by decide)
  exact Fails.obj (.cons hid (.cons hexit (.cons hsignal .nil))) hresults (fails_results h)
    [("stage_error".toList, quoted (rep.stageError strsignal token))]

end

/-! ## What the caller gets -/

/-- A result as the caller gets it. -/
def received (r : QueryResult) : PyQueryResult where
  trace := .str (Utf8.decode r.trace)
  elapsedMs := .num (toString r.elapsedMs)
  error := .str (Utf8.decode r.error)
  queryId := .str (Utf8.decode r.queryId)
  reqId := .str (Utf8.decode r.reqId)

@[simp] theorem pyQueryResult_value (r : QueryResult) : pyQueryResult (.obj (resultValue r)) = some (received r) := by
  rfl

theorem pyQueryResults_value (rs : List QueryResult) :
    pyQueryResults (.arr (rs.map fun r => .obj (resultValue r))) = some (rs.map received) := by
  rw [pyQueryResults, MapM.eq_some_iff, List.map_map, List.map_map]
  exact List.map_congr_left fun r _ => pyQueryResult_value r

theorem intOf_intText (z : Int) : intOf (intText z) = some z := by
  have hdigits := Digits.allDigits_toDigits z.natAbs
  obtain ⟨c, t, hhead⟩ : ∃ c t, Nat.toDigits 10 z.natAbs = c :: t := by
    cases h : Nat.toDigits 10 z.natAbs with
    | nil =>
      have := Nat.length_toDigits_pos (b := 10) (n := z.natAbs)
      rw [h] at this
      cases this
    | cons c t => exact ⟨c, t, rfl⟩
  have hne : c ≠ '-' := by
    rintro rfl
    have := hdigits '-' (by rw [hhead]; exact List.mem_cons_self ..)
    cases this
  have hdrop : (Nat.toDigits 10 z.natAbs).dropWhile (· = '-') = Nat.toDigits 10 z.natAbs := by
    rw [hhead]
    simp [hne]
  have hvalue := Digits.value_toDigits z.natAbs
  by_cases hneg : z < 0
  · have hdiff : Nat.toDigits 10 z.natAbs ≠ '-' :: Nat.toDigits 10 z.natAbs := fun h =>
      absurd (congrArg List.length h) (by simp)
    have hsplit : ('-' :: Nat.toDigits 10 z.natAbs).dropWhile (· = '-') = Nat.toDigits 10 z.natAbs := by
      simp only [List.dropWhile_cons, decide_true, if_true]
      exact hdrop
    rw [intText, if_pos hneg, intOf, natText]
    rw [hsplit, if_pos hdigits, if_neg hdiff, hvalue]
    congr 1
    omega
  · rw [intText, if_neg hneg, intOf, natText]
    rw [hdrop, if_pos hdigits, if_pos rfl, hvalue]
    congr 1
    omega

theorem truthy_intText (z : Int) : truthy (.num (intText z)) = true ↔ z ≠ 0 := by
  have hdigits := Digits.allDigits_toDigits z.natAbs
  have hplain : ∀ c ∈ intText z, c ≠ 'e' ∧ c ≠ 'E' := by
    intro c hc
    have hcases : c = '-' ∨ c.isDigit = true := by
      unfold intText at hc
      split at hc
      · rcases List.mem_cons.1 hc with rfl | hc
        · exact .inl rfl
        · exact .inr (hdigits c hc)
      · exact .inr (hdigits c hc)
    rcases hcases with rfl | h
    · decide
    · constructor <;> rintro rfl <;> cases h
  have htake : (intText z).takeWhile (fun c => c ≠ 'e' ∧ c ≠ 'E') = intText z :=
    List.takeWhile_eq_self_iff.2 fun c hc => by simpa using hplain c hc
  rw [truthy, htake, List.any_eq_true]
  constructor
  · rintro ⟨c, hc, hc'⟩ rfl
    have hzero : intText 0 = ['0'] := by decide
    rw [hzero, List.mem_singleton] at hc
    subst hc
    cases hc'
  · intro hz
    rcases Json.toDigits_head z.natAbs with h | ⟨c, t, h, hc, hall⟩
    · have hvalue := congrArg Digits.value h
      rw [Digits.value_toDigits] at hvalue
      have : z.natAbs = 0 := hvalue
      omega
    · have hdigit := hall c (List.mem_cons_self ..)
      have hsign : c ≠ '-' ∧ c ≠ '.' := by constructor <;> rintro rfl <;> cases hdigit
      refine ⟨c, ?_, by simp [hc, hsign]⟩
      unfold intText natText
      split <;> simp [h]

theorem signalOf_intText (z : Int) : signalOf (.num (intText z)) = some z := by
  unfold signalOf
  by_cases hz : z = 0
  · have hfalse : ¬truthy (.num (intText z)) = true := fun h => (truthy_intText z).1 h hz
    rw [if_neg hfalse, hz]
  · rw [if_pos ((truthy_intText z).2 hz)]
    exact intOf_intText z

theorem sameBatch_natText (n : Nat) : sameBatch (some (.num (natText n))) n = true := by
  have hint : natText n = intText n := by simp [intText]
  simp only [sameBatch, hint, intOf_intText, decide_true]

theorem errorTexts_received (rs : List QueryResult) :
    errorTexts (rs.map received) = some ((rs.map fun r => Utf8.decode r.error).filter (· ≠ [])) := by
  have hfilter : ((rs.map received).map PyQueryResult.error).filter truthy
      = ((rs.map fun r => Utf8.decode r.error).filter (· ≠ [])).map Value.str := by
    rw [List.filter_map]
    simp [received, Function.comp_def, truthy, List.filter_map]
  rw [errorTexts, hfilter, MapM.eq_some_iff, List.map_map]
  rfl

/-! ## One line -/

theorem newline_notMem_encode {t : Json.Text} (h : '\n' ∉ t) : (10 : UInt8) ∉ Utf8.encode t := by
  intro hmem
  exact h (Utf8.mem_of_mem_encode hmem (by decide))

theorem newline_notMem_jsonEscape (s : Bytes) : (10 : UInt8) ∉ jsonEscape s := by
  intro h
  obtain ⟨b, -, hb⟩ := List.mem_flatMap.1 h
  cases hescaped : isEscaped b with
  | false =>
    rw [hescaped, if_neg (by decide), List.mem_singleton] at hb
    subst hb
    cases hescaped
  | true =>
    have hall : ∀ n < 128, isEscaped (UInt8.ofNat n) = true → (10 : UInt8) ∉ Utf8.encode (escapeChar (Char.ofNat n)) := by
      decide
    rw [hescaped, if_pos rfl] at hb
    exact hall b.toNat (isEscaped_lt hescaped) (by rw [UInt8.ofNat_toNat]; exact hescaped) hb

theorem newline_notMem_decimal (neg : Bool) (n : Nat) {f : Json.Text} (hf : Digits.AllDigits f) :
    '\n' ∉ Json.decimal neg n f := by
  intro h
  simp only [Json.decimal, List.mem_append] at h
  rcases h with h | h | h
  · cases neg <;> simp at h
  · cases Digits.allDigits_toDigits n _ h
  · by_cases hempty : f = []
    · simp [hempty] at h
    · rw [if_neg hempty] at h
      rcases List.mem_cons.1 h with h | h
      · cases h
      · cases hf _ h

theorem newline_notMem_toString (d : Double) : '\n' ∉ toString d := by
  cases d with
  | finite f =>
    rw [toString, fixed_eq]
    exact newline_notMem_decimal _ _ (Digits.allDigits_zfill (Digits.allDigits_toDigits _))
  | inf neg => cases neg <;> decide
  | nan neg => cases neg <;> decide

theorem newline_notMem_lit {s : String} (h : '\n' ∉ s.toList) : (10 : UInt8) ∉ lit s := newline_notMem_encode h

theorem notMem_intercalate {α : Type*} {x : α} {sep : List α} (hsep : x ∉ sep) {ts : List (List α)}
    (h : ∀ t ∈ ts, x ∉ t) : x ∉ sep.intercalate ts := by
  induction ts with
  | nil => simp
  | cons t ts ih =>
    have ht := h t (List.mem_cons_self ..)
    have hts := ih fun u hu => h u (List.mem_cons_of_mem _ hu)
    cases ts with
    | nil => simpa using ht
    | cons t' ts =>
      rw [List.intercalate_cons_cons]
      simp [ht, hsep, hts]

theorem newline_notMem_result (r : QueryResult) : (10 : UInt8) ∉ resultBytes r := by
  simp only [resultBytes, List.mem_append, not_or]
  refine ⟨⟨⟨⟨⟨⟨⟨⟨⟨⟨?_, ?_⟩, ?_⟩, ?_⟩, ?_⟩, ?_⟩, ?_⟩, ?_⟩, ?_⟩, ?_⟩, ?_⟩
  all_goals first
    | exact newline_notMem_jsonEscape _
    | exact newline_notMem_encode (newline_notMem_toString _)
    | exact newline_notMem_lit (by decide)

theorem newline_notMem_inner (results : List QueryResult) (stageError : Bytes) :
    (10 : UInt8) ∉ inner results stageError := by
  have hresults : (10 : UInt8) ∉ (lit ",").intercalate (results.map resultBytes) := by
    refine notMem_intercalate (newline_notMem_lit (by decide)) fun t ht => ?_
    obtain ⟨r, -, rfl⟩ := List.mem_map.1 ht
    exact newline_notMem_result r
  simp only [inner, List.mem_append, not_or]
  exact ⟨newline_notMem_lit (by decide), hresults, newline_notMem_lit (by decide), newline_notMem_jsonEscape _,
    newline_notMem_lit (by decide)⟩

section
variable (strsignal : Int → Option Bytes) (batchId : Nat) (token : DoneToken) (rep : Reported)

/-- The line is one line. -/
theorem newline_notMem_responseLine : (10 : UInt8) ∉ responseLine strsignal batchId token rep.bytes := by
  have hnat : '\n' ∉ natText batchId := by
    rw [natText_eq]
    exact newline_notMem_decimal _ _ fun _ h => absurd h List.not_mem_nil
  have hint : ∀ z, '\n' ∉ intText z := by
    intro z
    rw [intText_eq]
    exact newline_notMem_decimal _ _ fun _ h => absurd h List.not_mem_nil
  have hrest : (10 : UInt8) ∉ (if isObject rep.bytes then lit "," ++ (rep.bytes.drop 1).take (rep.bytes.length - 2)
      else lit ",\"query_results\":[],\"stage_error\":\"" ++ jsonEscape (sigMsg strsignal token) ++ lit "\"") := by
    cases rep with
    | none =>
      have hempty : isObject (Reported.bytes none) = false := by decide
      rw [hempty, if_neg (by decide)]
      simp only [List.mem_append, not_or]
      exact ⟨⟨newline_notMem_lit (by decide), newline_notMem_jsonEscape _⟩, newline_notMem_lit (by decide)⟩
    | some p =>
      rw [Reported.bytes, Option.elim_some, isObject_payload, if_pos rfl, spliced_payload]
      simp only [List.mem_append, not_or]
      exact ⟨newline_notMem_lit (by decide), newline_notMem_inner _ _⟩
  rw [responseLine]
  simp only [List.mem_append, not_or] at hrest ⊢
  exact ⟨⟨⟨⟨⟨⟨⟨newline_notMem_lit (by decide), newline_notMem_encode hnat⟩, newline_notMem_lit (by decide)⟩,
    newline_notMem_encode (hint _)⟩, newline_notMem_lit (by decide)⟩, newline_notMem_encode (hint _)⟩, hrest⟩,
    newline_notMem_lit (by decide)⟩

/-- The first line of the buffer is the answer, whatever has arrived behind it. -/
theorem firstLine (after : Bytes) :
    (responseLine strsignal batchId token rep.bytes ++ 10 :: after).takeWhile (· ≠ 10)
      = responseLine strsignal batchId token rep.bytes := by
  have hline := newline_notMem_responseLine strsignal batchId token rep
  rw [List.takeWhile_append_of_pos]
  · simp
  · rintro b hb
    simp only [ne_eq, decide_not, Bool.not_eq_true', decide_eq_false_iff_not]
    rintro rfl
    exact hline hb

end

/-! ## The answer arrives -/

section
variable (P : PyStr) (signals : Int → Option Json.Text) (strsignal : Int → Option Bytes)

theorem parseObject_line (batchId : Nat) (token : DoneToken) (rep : Reported) (line : Json.Text) :
    parseObject P signals batchId line (lineValue strsignal batchId token rep)
      = .result (summary signals (intText token.exitCode) token.termSignal (Utf8.decode (rep.stageError strsignal token))
          ((rep.results.map fun r => Utf8.decode r.error).filter (· ≠ []))) (rep.results.map received) := by
  have hid : get? (lineValue strsignal batchId token rep) "batch_id" = some (.num (natText batchId)) := rfl
  have hexit : get? (lineValue strsignal batchId token rep) "exit_code" = some (.num (intText token.exitCode)) := rfl
  have hsignal : get? (lineValue strsignal batchId token rep) "signal" = some (.num (intText token.termSignal)) := rfl
  have hresults : get? (lineValue strsignal batchId token rep) "query_results"
      = some (.arr (rep.results.map fun r => .obj (resultValue r))) := rfl
  have herror : get? (lineValue strsignal batchId token rep) "stage_error"
      = some (.str (Utf8.decode (rep.stageError strsignal token))) := rfl
  have htext : stageErrorText P (.str (Utf8.decode (rep.stageError strsignal token)))
      = Utf8.decode (rep.stageError strsignal token) := by
    unfold stageErrorText
    by_cases h : Utf8.decode (rep.stageError strsignal token) = [] <;> simp [truthy, h, P.str_text]
  rw [parseObject, hid, sameBatch_natText, if_pos rfl, hresults, hsignal, hexit, herror, Option.elim_some,
    pyQueryResults_value, Option.bind_some, Option.getD_some, signalOf_intText, Option.bind_some]
  simp only [errorTexts_received, Option.map_some, Option.getD_some, P.str_int, htext]

/-- **What the query stage reports arrives, in order and with every text as its bytes decode; it is lost as a whole if
one of the times is no finite number, or if the killer has struck.** Whatever has arrived behind the line makes no
difference. -/
theorem response_arrives (batchId : Nat) (killed : Option Nat) (token : DoneToken) (rep : Reported) (after : Bytes) :
    parseResponse P signals batchId killed
        ((responseLine strsignal batchId token rep.bytes ++ 10 :: after).takeWhile (· ≠ 10))
      = if killed = none ∧ ∀ r ∈ rep.results, r.elapsedMs.isFinite = true then
          .result (summary signals (intText token.exitCode) token.termSignal (Utf8.decode (rep.stageError strsignal token))
            ((rep.results.map fun r => Utf8.decode r.error).filter (· ≠ []))) (rep.results.map received)
        else .result (Utf8.decode (responseLine strsignal batchId token rep.bytes) ++ killedNote killed) [] := by
  have hline := decode_responseLine strsignal batchId token rep
  rw [firstLine]
  by_cases hfinite : ∀ r ∈ rep.results, r.elapsedMs.isFinite = true
  · have hreads := reads_line strsignal batchId token rep hfinite
    cases killed with
    | none =>
      have hloads : Json.loads (objectText (lineMembers strsignal batchId token rep) ++ killedNote none)
          = some (.obj (lineValue strsignal batchId token rep)) := by
        rw [killedNote, Option.elim_none, List.append_nil]
        exact Json.loads_of_reads hreads
      rw [if_pos ⟨rfl, hfinite⟩, parseResponse, hline]
      simp only [hloads]
      exact parseObject_line P signals strsignal batchId token rep _
    | some timeout =>
      have hnote : killedNote (some timeout)
          = '\n' :: 'T' :: ("erminated after ".toList ++ natText timeout ++ " seconds due to timeout.".toList) := rfl
      have hloads : Json.loads (objectText (lineMembers strsignal batchId token rep) ++ killedNote (some timeout)) = none := by
        rw [hnote]
        exact Json.loads_extra hreads (by simp [Json.Stops, Json.isBlank]) (by simp [Json.skipWs, Json.isBlank])
      rw [if_neg (fun h => absurd h.1 (by simp)), parseResponse, hline]
      simp only [hloads]
  · have hloads := Json.loads_of_fails (fails_line strsignal batchId token rep (by simpa using hfinite)) (killedNote killed)
    rw [if_neg (fun h => hfinite h.2), parseResponse, hline]
    simp only [hloads]

end

end SynnoDB.Hotpatch.Response
