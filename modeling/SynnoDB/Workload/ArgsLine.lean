import SynnoDB.Lib.IStream

/-!
# The args line: Python's encoder and the generated C++ parser

| here | there |
| --- | --- |
| `renderMember`, `renderInList`  | `_render_in_list` (`workloads/query_params.py:104-120`) |
| `formatPlaceholderValues`, `genReqId`, `formatArgsElement` | `workloads/workload_provider.py:188-244` |
| `splitRequest`                  | the line loop of `query` (`templates/query_impl.cpp:62-76`) |
| `readMember`, `inListLoop`, `parseInList` | `parse_in_list` (`templates/args_parser.hpp:19-83`) |
| `parseField`, `parseQuery`      | the `parse_q<id>` of `assemble_args_parser.py:46-79` |

Texts are character lists: every character the two sides look at is ASCII, which UTF-8 keeps apart from
the bytes of other characters. `sha12` is `utils.sha256(_)[:12]`; `junk` is what the uninitialised `char c`
of `parse_in_list` holds when the stream has already failed.
-/

namespace SynnoDB.Workload

abbrev Text := List Char

/-- A number (`str` of an int, `repr` of a float, `format(_, "f")` of a Decimal) or the `isoformat()` of a
date: letters, digits and `+ - . :`. -/
structure BareText where
  text : Text
  nonempty : text ≠ []
  wf : ∀ c ∈ text, c.isAlphanum ∨ c = '+' ∨ c = '-' ∨ c = '.' ∨ c = ':'

inductive Member where
  | str (s : Text)
  | num (t : BareText)
  | date (iso : BareText)

/-- What a placeholder is bound to: a string, or a non-empty list. -/
inductive Value where
  | str (s : Text)
  | inList (m : Member) (ms : List Member)

/-! ## Python: the line -/

/-- `sep.join(_)`. -/
def join (sep : Text) : List Text → Text
  | [] => []
  | [t] => t
  | t :: u :: ts => t ++ sep ++ join sep (u :: ts)

/-- `s.replace("'", "''")`. -/
def escapeQuotes (s : Text) : Text := s.flatMap fun c => if c = '\'' then ['\'', '\''] else [c]

def renderMember : Member → Text
  | .date iso => 'd' :: 'a' :: 't' :: 'e' :: ' ' :: '\'' :: iso.text ++ ['\'']
  | .num t => t.text
  | .str s => '\'' :: escapeQuotes s ++ ['\'']

def renderInList (ms : List Member) : Text := '(' :: join ", ".toList (ms.map renderMember) ++ [')']

/-- One value of `_format_placeholder_values`: what starts with `(` gets no quotes. -/
def formatValue (v : Value) : Text :=
  let t := match v with
    | .str s => s
    | .inList m ms => renderInList (m :: ms)
  if t.head? = some '(' then t else '"' :: t ++ ['"']

def formatPlaceholderValues (placeholders : List (Text × Value)) : Text :=
  join [' '] (placeholders.map fun p => formatValue p.2)

def genReqId (sha12 : Text → Text) (qid : Text) (placeholders : List (Text × Value)) (disambiguator : Option Text) :
    Text :=
  let payload := join ['|'] [qid, formatPlaceholderValues placeholders, disambiguator.getD []]
  "req_".toList ++ qid ++ ['_'] ++ sha12 payload

def formatArgsElement (sha12 : Text → Text) (qid : Text) (placeholders : List (Text × Value))
    (disambiguator : Option Text) : Text :=
  qid ++ ' ' :: genReqId sha12 qid placeholders disambiguator ++ ' ' :: formatPlaceholderValues placeholders

/-! ## C++: the request and its fields -/

structure QueryRequest where
  queryId : Text
  reqId : Text
  line : Text
deriving DecidableEq, Repr

/-- One round of `query`'s loop over the lines; `none` = `continue`. -/
def splitRequest (line : Text) : Option QueryRequest :=
  let (queryId, iss) := (⟨line, false⟩ : IStream).word
  let (reqId, iss) := iss.word
  if iss.fail then none else some ⟨queryId.getD ['0'], reqId.getD ['0'], iss.line⟩

/-- The sample a field was frozen with: a `std::string` or a `std::vector<std::string>`. -/
inductive Shape where
  | scalar
  | inList
deriving DecidableEq, Repr

def Value.shape : Value → Shape
  | .str _ => .scalar
  | .inList _ _ => .inList

inductive Field where
  | scalar (s : Text)
  | inList (ms : List Text)
deriving DecidableEq, Repr

/-- The text of a single-quoted member after its opening quote. -/
def sqlQuoted : Text → Text × IStream
  | [] => ([], .ended)
  | '\'' :: '\'' :: r => let (v, s) := sqlQuoted r; ('\'' :: v, s)
  | '\'' :: r => ([], ⟨r, false⟩)
  | c :: r => let (v, s) := sqlQuoted r; (c :: v, s)

/-- `while (iss && peek is no ',' or ')') value.push_back(iss.get())`; the failing `get` pushes `\xff`. -/
def bareText : Text → Text × IStream
  | [] => (['\xff'], .ended)
  | c :: r => if c = ',' ∨ c = ')' then ([], ⟨c :: r, false⟩) else let (v, s) := bareText r; (c :: v, s)

def isTrimmed (c : Char) : Bool := c = ' ' ∨ c = '\t' ∨ c = '\r' ∨ c = '\n'

def trim (t : Text) : Text := ((t.dropWhile isTrimmed).reverse.dropWhile isTrimmed).reverse

def readMember (s : IStream) : Text × IStream :=
  let s := s.ws
  if s.fail then ([], s)
  else match s.buf with
    | '\'' :: r => sqlQuoted r
    | b => let (v, s) := bareText b; (trim v, s)

/-- The `while (iss >> std::ws)` loop; each round after the first reads a comma, so `fuel` is the length
of what is left. -/
def inListLoop : Nat → Bool → Char → IStream → Except String (List Text × IStream)
  | 0, _, _, _ => .error "out of fuel"
  | fuel + 1, first, c, s =>
    let s := s.ws
    if s.fail then .ok ([], s)
    else if s.peek = some ')' then .ok ([], s.get.2)
    else
      let (c, s) := if first then (c, s) else (s.char.1.getD c, s.char.2)
      if !first ∧ c ≠ ',' then .error "Expected ',' between IN list elements"
      else
        let (v, s) := readMember s
        do
          let (vs, s) ← inListLoop fuel false c s
          return (v :: vs, s)

def parseInList (junk : Char) (s : IStream) : Except String (List Text × IStream) :=
  let c := s.char.1.getD junk
  let s := s.char.2
  if c ≠ '(' then
    .error ("Expected '(' at start of IN list, but got '" ++ c.toString ++ "' (int=" ++ toString c.toNat ++ ")")
  else inListLoop (s.buf.length + 2) true c s

def parseField (junk : Char) (queryId : Text) (name : Text) (s : IStream) : Shape → Except String (Field × IStream)
  | .scalar => match s.quoted with
    | (some t, s) => .ok (.scalar t, s)
    | (none, _) => .error ("Q" ++ String.ofList queryId ++ ": failed to parse " ++ String.ofList name)
  | .inList => do
    let (ms, s) ← parseInList junk s
    return (.inList ms, s)

def parseFields (junk : Char) (queryId : Text) : List (Text × Shape) → IStream → Except String (List Field)
  | [], _ => .ok []
  | (name, shape) :: ps, s => do
    let (f, s) ← parseField junk queryId name s shape
    let fs ← parseFields junk queryId ps s
    return f :: fs

/-- `parse_q<id>`. -/
def parseQuery (junk : Char) (placeholders : List (Text × Shape)) (req : QueryRequest) : Except String (List Field) :=
  parseFields junk req.queryId placeholders ⟨req.line, false⟩

/-- A line as the engine takes it: query id, req_id and the parsed fields. -/
def receive (junk : Char) (placeholders : List (Text × Shape)) (line : Text) :
    Option (Text × Text × Except String (List Field)) :=
  (splitRequest line).map fun req => (req.queryId, req.reqId, parseQuery junk placeholders req)

end SynnoDB.Workload
