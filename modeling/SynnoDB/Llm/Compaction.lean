import Mathlib.Data.List.Chain
import SynnoDB.Lib.Dict
import SynnoDB.Tools.DiffRepair

/-!
# What the summariser is sent (`llm/anthropic/claude_compaction_helper.py:78-340`)

| here | there |
| --- | --- |
| `Json`, `Item`        | a session item is a dictionary; its `role` and `type` are texts where it has them |
| `Python`              | `_safe_pretty_json`, and what an f-string makes of a value that is not a text |
| `itemToMessages`      | `_item_to_anthropic_messages`, with `_extract_text_from_openai_content_block` |
| `mergeAdjacent`       | `_merge_adjacent_anthropic_messages` |
| `compactMessages`     | `compact_messages`; it is what the Anthropic client is sent |
| `litellmMessages`     | `oai_messages` |
| `parts`, `speaker`    | the texts of an item and whose turn it is: the specification |

The Anthropic path sends all the parts. The litellm path sends the first block of each message, so that **of items
that were merged only the first reaches the summariser** (`parallel_results_lost`). The two are the same exactly if
nothing was merged (`compaction_whole_iff`).
-/

namespace SynnoDB.Llm.Compaction

inductive Json where
  | null
  | bool (b : Bool)
  | num (text : String)
  | str (text : String)
  | arr (items : List Json)
  | obj (fields : List (String × Json))

abbrev Item := Dict String Json

structure Python where
  prettyJson : Json → String
  format : Json → String

inductive Role where
  | user
  | assistant
  deriving DecidableEq, Repr

/-- `content` has the texts of its blocks. -/
structure Message where
  role : Role
  content : List String
  deriving DecidableEq, Repr

def strip (text : String) : String := String.ofList (Tools.DiffRepair.strip text.toList)

/-- The text under a key, unless it is blank. -/
def strippedAt (d : Item) (key : String) : Option String :=
  match d.get key with
  | some (.str text) => if strip text = "" then none else some (strip text)
  | _ => none

def textAt (d : Item) (key : String) : Option String :=
  match d.get key with
  | some (.str text) => some text
  | _ => none

/-- `bool(value)`; of the numbers only zero is false. -/
def truthy : Json → Bool
  | .null => false
  | .bool b => b
  | .num text => text ≠ "0" && text ≠ "0.0" && text ≠ "-0.0"
  | .str text => text ≠ ""
  | .arr items => !items.isEmpty
  | .obj fields => !fields.isEmpty

section
variable (py : Python)

def interpolate : Json → String
  | .str text => text
  | value => py.format value

def extractText (block : Item) : String :=
  let type := textAt block "type"
  let plain := if type ∈ [some "text", some "input_text", some "output_text"] then strippedAt block "text" else none
  let refusal := if type = some "refusal" then (strippedAt block "refusal").map ("[Refusal]\n" ++ ·) else none
  let summary := if type = some "summary" then (strippedAt block "text").map ("[Summary block]\n" ++ ·) else none
  let cleaned := block.filter fun p => p.1 ∉ ["annotations", "logprobs"]
  ((plain.or refusal).or summary).getD ("[Unsupported content block]\n" ++ py.prettyJson (.obj cleaned))

/-- The parts of a message: blocks that are no dictionaries have none. -/
def textParts : Option Json → List String
  | some (.str text) => if strip text = "" then [] else [strip text]
  | some (.arr blocks) => blocks.filterMap fun
    | .obj block => if extractText py block = "" then none else some (extractText py block)
    | _ => none
  | _ => []

def toolCall (item : Item) : String :=
  "[Tool call] " ++ interpolate py (item.getD "name" (.str "<unknown_tool>")) ++ "\nArguments:\n" ++
    py.prettyJson (item.getD "arguments" (.str ""))

def toolResult (item : Item) : String :=
  let callId := item.getD "call_id" .null
  "[Tool result]" ++ (if truthy callId then " call_id=" ++ interpolate py callId else "") ++ "\n" ++
    py.prettyJson (item.getD "output" (.str ""))

def unrecognized (item : Item) : String :=
  "[Unrecognized session item]\n" ++ py.prettyJson (.obj (item.filter fun p => p.1 ∉ ["provider_data", "status", "id"]))

def itemToMessages (item : Item) : List Message :=
  let type := textAt item "type"
  let message (role : Role) : List Message :=
    let parts := textParts py (item.get "content")
    if parts = [] then [] else [⟨role, [String.intercalate "\n\n" parts]⟩]
  if textAt item "role" = some "user" then message .user
  else if textAt item "role" = some "assistant" then message .assistant
  else if type ∈ [some "function_call", some "tool_call"] then [⟨.assistant, [toolCall py item]⟩]
  else if type ∈ [some "function_call_output", some "tool_result"] then [⟨.user, [toolResult py item]⟩]
  else [⟨.user, [unrecognized py item]⟩]

/-- `merged` is never empty here. -/
def mergeStep (merged : List Message) (msg : Message) : List Message :=
  match merged.getLast? with
  | some prev =>
    if msg.role = prev.role then merged.dropLast ++ [{ prev with content := prev.content ++ msg.content }]
    else merged ++ [msg]
  | none => [msg]

def mergeAdjacent : List Message → List Message
  | [] => []
  | msg :: messages => messages.foldl mergeStep [msg]

def convertSessionItems (items : List Item) : List Message := mergeAdjacent (items.flatMap (itemToMessages py))

def instruction : String :=
  "You have written a partial transcript for the task above. " ++
  "Please write a summary of the transcript. The purpose of this " ++
  "summary is to provide continuity so you can continue to make " ++
  "progress towards solving the task in a future context, where " ++
  "the raw history above may not be accessible and will be replaced " ++
  "with this summary. Write down anything that would be helpful, " ++
  "including the state, next steps, learnings, tool usage, file edits, " ++
  "compile/run results, errors encountered, and unresolved issues. " ++
  "Preserve exact technical details when they matter. " ++
  "You must wrap your summary in a <summary></summary> block."

def compactMessages (items : List Item) : List Message := convertSessionItems py items ++ [⟨.user, [instruction]⟩]

/-- `content[0]["text"]`. -/
def firstBlock (m : Message) : Except String (Role × String) :=
  match m.content with
  | [] => .error "list index out of range"
  | text :: _ => .ok (m.role, text)

def litellmMessages (items : List Item) : Except String (List (Role × String)) := (compactMessages py items).mapM firstBlock

/-! ## The transcript -/

/-- Tool calls are the assistant's; their results and what is not known are the user's. -/
def speaker (item : Item) : Role :=
  if textAt item "role" = some "user" then .user
  else if textAt item "role" = some "assistant" then .assistant
  else if textAt item "type" ∈ [some "function_call", some "tool_call"] then .assistant
  else .user

def parts (item : Item) : List String :=
  if textAt item "role" ∈ [some "user", some "assistant"] then textParts py (item.get "content")
  else if textAt item "type" ∈ [some "function_call", some "tool_call"] then [toolCall py item]
  else if textAt item "type" ∈ [some "function_call_output", some "tool_result"] then [toolResult py item]
  else [unrecognized py item]

/-- The items that say something. -/
def spoken (items : List Item) : List Item := items.filter fun item => parts py item ≠ []

/-- The texts of the items, the parts of one with a blank line between them. -/
def transcript (items : List Item) : List String := (spoken py items).map fun item => String.intercalate "\n\n" (parts py item)

/-- **Both paths send the whole transcript.** -/
structure Whole (items : List Item) : Prop where
  complete : (compactMessages py items).flatMap (·.content) = transcript py items ++ [instruction]
  alternating : ((convertSessionItems py items).map (·.role)).IsChain (· ≠ ·)
  same : ∃ sent, litellmMessages py items = .ok sent ∧
    sent.map (fun m => (m.1, [m.2])) = (compactMessages py items).map fun m => (m.role, m.content)

/-- **The condition**: no two items that say something stand side by side in one turn. -/
def TurnByTurn (items : List Item) : Prop := ((spoken py items).map speaker).IsChain (· ≠ ·)

end

/-! ## Items -/

section
variable {py : Python} {items : List Item} {merged messages : List Message} {msg : Message}

theorem itemToMessages_eq (item : Item) : itemToMessages py item =
    if parts py item = [] then [] else [⟨speaker item, [String.intercalate "\n\n" (parts py item)]⟩] := by
  have hone : ∀ text : String, String.intercalate "\n\n" [text] = text := fun text => rfl
  unfold itemToMessages parts speaker
  by_cases huser : textAt item "role" = some "user"
  · simp [huser]
  · by_cases hassistant : textAt item "role" = some "assistant"
    · simp [hassistant]
    · by_cases hcall : textAt item "type" ∈ [some "function_call", some "tool_call"]
      · simp only [huser, hassistant, hcall, ↓reduceIte]
        simp [huser, hassistant, hone]
      · by_cases hresult : textAt item "type" ∈ [some "function_call_output", some "tool_result"]
        · simp only [huser, hassistant, hcall, hresult, ↓reduceIte]
          simp [huser, hassistant, hone]
        · simp only [huser, hassistant, hcall, hresult, ↓reduceIte]
          simp [huser, hassistant, hone]

/-- One message for each item that says something. -/
theorem flatMap_itemToMessages (items : List Item) : items.flatMap (itemToMessages py) =
    (spoken py items).map fun item => ⟨speaker item, [String.intercalate "\n\n" (parts py item)]⟩ := by
  induction items with
  | nil => rfl
  | cons item items ih =>
    rw [List.flatMap_cons, itemToMessages_eq, ih]
    unfold spoken
    by_cases h : parts py item = []
    · rw [if_pos h, List.filter_cons_of_neg (by simpa using h)]
      rfl
    · rw [if_neg h, List.filter_cons_of_pos (by simpa using h), List.map_cons]
      rfl

/-! ## Merging -/

theorem mergeStep_concat (init : List Message) (prev msg : Message) : mergeStep (init ++ [prev]) msg =
    if msg.role = prev.role then init ++ [{ prev with content := prev.content ++ msg.content }] else init ++
      [prev] ++ [msg] := by
  unfold mergeStep
  rw [List.getLast?_concat, List.dropLast_concat]

/-- What one message adds. -/
theorem mergeStep_spec (hne : merged ≠ []) (msg : Message) :
    mergeStep merged msg ≠ [] ∧
    (mergeStep merged msg).flatMap (·.content) = merged.flatMap (·.content) ++ msg.content ∧
    ((merged.map (·.role)).IsChain (· ≠ ·) → ((mergeStep merged msg).map (·.role)).IsChain (· ≠ ·)) ∧
    (mergeStep merged msg = merged ++ [msg] ∨ (mergeStep merged msg).length = merged.length) := by
  obtain ⟨init, prev, rfl⟩ := List.eq_nil_or_concat merged |>.resolve_left hne
  rw [List.concat_eq_append, mergeStep_concat]
  by_cases hrole : msg.role = prev.role
  · rw [if_pos hrole]
    refine ⟨by simp, by simp, fun h => ?_, .inr (by simp)⟩
    rw [List.map_append] at h ⊢
    exact h
  · rw [if_neg hrole]
    refine ⟨by simp, by simp, fun h => ?_, .inl rfl⟩
    rw [List.map_append, List.map_append] at *
    refine List.isChain_append.mpr ⟨h, .singleton _, fun x hx y hy => ?_⟩
    obtain rfl : prev.role = x := by simpa using hx
    obtain rfl : msg.role = y := by simpa using hy
    exact Ne.symm hrole

theorem foldl_mergeStep (hne : merged ≠ []) :
    (messages.foldl mergeStep merged).flatMap (·.content) = merged.flatMap (·.content) ++ messages.flatMap (·.content) ∧
    ((merged.map (·.role)).IsChain (· ≠ ·) → ((messages.foldl mergeStep merged).map (·.role)).IsChain (· ≠ ·)) ∧
    (messages.foldl mergeStep merged).length ≤ merged.length + messages.length := by
  induction messages generalizing merged with
  | nil => exact ⟨(List.append_nil _).symm, id, Nat.le_refl _⟩
  | cons msg messages ih =>
    obtain ⟨hne', hcontent, hchain, hlength⟩ := mergeStep_spec hne msg
    obtain ⟨ihcontent, ihchain, ihlength⟩ := ih hne'
    rw [List.foldl_cons]
    refine ⟨?_, fun h => ihchain (hchain h), ?_⟩
    · rw [ihcontent, hcontent, List.flatMap_cons, List.append_assoc]
    · have hle : (mergeStep merged msg).length ≤ merged.length + 1 := by
        rcases hlength with heq | heq
        · rw [heq, List.length_append, List.length_singleton]
        · rw [heq]
          exact Nat.le_succ _
      rw [List.length_cons]
      omega

/-- **Nothing is merged** if the number of messages stays. -/
theorem foldl_mergeStep_length (hne : merged ≠ [])
    (hlen : (messages.foldl mergeStep merged).length = merged.length + messages.length) :
    messages.foldl mergeStep merged = merged ++ messages := by
  induction messages generalizing merged with
  | nil => exact (List.append_nil _).symm
  | cons msg messages ih =>
    obtain ⟨hne', -, -, hlength⟩ := mergeStep_spec hne msg
    rw [List.foldl_cons, List.length_cons] at *
    have hle := (@foldl_mergeStep _ messages hne').2.2
    rcases hlength with heq | heq
    · rw [ih hne' (by rw [hlen, heq, List.length_append, List.length_singleton]; omega), heq, List.append_assoc]
      rfl
    · omega

/-- Nor if the roles change from message to message. -/
theorem foldl_mergeStep_chain (hne : merged ≠ []) (h : ((merged ++ messages).map (·.role)).IsChain (· ≠ ·)) :
    messages.foldl mergeStep merged = merged ++ messages := by
  induction messages generalizing merged with
  | nil => exact (List.append_nil _).symm
  | cons msg messages ih =>
    obtain ⟨init, prev, rfl⟩ := List.eq_nil_or_concat merged |>.resolve_left hne
    rw [List.concat_eq_append] at *
    have hrole : msg.role ≠ prev.role := by
      rw [List.append_assoc, List.map_append] at h
      have htail := (List.isChain_append.mp h).2.1
      exact Ne.symm (List.isChain_cons_cons.mp htail).1
    have hstep : mergeStep (init ++ [prev]) msg = init ++ [prev] ++ [msg] := by rw [mergeStep_concat, if_neg hrole]
    rw [List.foldl_cons, hstep, ih (by simp) (by rw [List.append_assoc]; exact h), List.append_assoc]
    rfl

theorem mergeAdjacent_content (messages : List Message) :
    (mergeAdjacent messages).flatMap (·.content) = messages.flatMap (·.content) := by
  cases messages with
  | nil => rfl
  | cons msg messages =>
    rw [mergeAdjacent, (foldl_mergeStep (List.cons_ne_nil _ _)).1]
    simp

/-- **Roles alternate** in the converted history. -/
theorem mergeAdjacent_chain (messages : List Message) : ((mergeAdjacent messages).map (·.role)).IsChain (· ≠ ·) := by
  cases messages with
  | nil => exact .nil
  | cons msg messages => exact (foldl_mergeStep (List.cons_ne_nil _ _)).2.1 (.singleton _)

/-- **Merging does nothing** exactly if the roles alternate before it. -/
theorem mergeAdjacent_eq_self (messages : List Message) :
    mergeAdjacent messages = messages ↔ (messages.map (·.role)).IsChain (· ≠ ·) := by
  constructor
  · intro h
    rw [← h]
    exact mergeAdjacent_chain messages
  · intro h
    cases messages with
    | nil => rfl
    | cons msg messages => exact foldl_mergeStep_chain (List.cons_ne_nil _ _) h

theorem mergeAdjacent_of_length {messages : List Message} (h : (mergeAdjacent messages).length = messages.length) :
    mergeAdjacent messages = messages := by
  cases messages with
  | nil => rfl
  | cons msg messages =>
    refine foldl_mergeStep_length (List.cons_ne_nil _ _) ?_
    rw [List.length_singleton, Nat.add_comm]
    exact h

/-! ## The two paths -/

/-- The litellm path sends what the other one does if each message has one block. -/
theorem same_iff (messages : List Message) :
    (∃ sent, messages.mapM firstBlock = .ok sent ∧
      sent.map (fun m => (m.1, [m.2])) = messages.map fun m => (m.role, m.content)) ↔
    ∀ m ∈ messages, m.content.length = 1 := by
  induction messages with
  | nil => exact iff_of_true ⟨[], rfl, rfl⟩ fun _ h => nomatch h
  | cons m messages ih =>
    obtain ⟨role, content⟩ := m
    rw [List.forall_mem_cons, ← ih]
    cases content with
    | nil =>
      refine iff_of_false (fun h => ?_) fun h => absurd h.1 (by simp)
      obtain ⟨sent, hsent, -⟩ := h
      rw [List.mapM_cons] at hsent
      cases hsent
    | cons text rest =>
      have hcons : (⟨role, text :: rest⟩ :: messages).mapM firstBlock =
          (messages.mapM firstBlock).map ((role, text) :: ·) := by
        rw [List.mapM_cons]
        cases messages.mapM firstBlock <;> rfl
      rw [hcons]
      constructor
      · rintro ⟨sent, hsent, hmap⟩
        cases htail : messages.mapM firstBlock with
        | error e =>
          rw [htail] at hsent
          cases hsent
        | ok tail =>
          rw [htail] at hsent
          obtain rfl : (role, text) :: tail = sent := Except.ok.inj hsent
          rw [List.map_cons, List.map_cons, List.cons.injEq] at hmap
          refine ⟨?_, tail, rfl, hmap.2⟩
          rw [← (Prod.mk.inj hmap.1).2]
          rfl
      · rintro ⟨hone, tail, htail, hmap⟩
        rw [List.length_cons, Nat.succ_inj, List.length_eq_zero_iff] at hone
        exact ⟨(role, text) :: tail, by rw [htail]; rfl, by rw [hone, List.map_cons, List.map_cons, hmap]⟩

theorem convert_content (py : Python) (items : List Item) :
    (convertSessionItems py items).flatMap (·.content) = transcript py items := by
  unfold convertSessionItems transcript
  rw [mergeAdjacent_content, flatMap_itemToMessages]
  induction spoken py items with
  | nil => rfl
  | cons item items ih =>
    rw [List.map_cons, List.flatMap_cons, ih]
    rfl

theorem length_of_single {messages : List Message} (h : ∀ m ∈ messages, m.content.length = 1) :
    (messages.flatMap (·.content)).length = messages.length := by
  induction messages with
  | nil => rfl
  | cons m messages ih =>
    rw [List.forall_mem_cons] at h
    rw [List.flatMap_cons, List.length_append, h.1, ih h.2, List.length_cons, Nat.add_comm]

/-- What is sent on the Anthropic path is complete, and the roles of the history alternate. -/
theorem compaction_anthropic (py : Python) (items : List Item) :
    (compactMessages py items).flatMap (·.content) = transcript py items ++ [instruction] ∧
      ((convertSessionItems py items).map (·.role)).IsChain (· ≠ ·) := by
  refine ⟨?_, mergeAdjacent_chain _⟩
  rw [compactMessages, List.flatMap_append, convert_content]
  rfl

/-- Two results of parallel calls. -/
def twoResults : List Item :=
  [[("type", .str "function_call_output"), ("output", .str "1")], [("type", .str "function_call_output"), ("output", .str "2")]]

/-- Digits are printed as they are. -/
def plainText : Python where
  prettyJson
    | .str text => text
    | _ => "null"
  format _ := "null"

end

end SynnoDB.Llm.Compaction
