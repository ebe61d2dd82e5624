import SynnoDB.Lib.Trace
import SynnoDB.Hotpatch.Framing

/-!
# `HotpatchProc.run` and its child (`hotpatch_proc.py:240-265,399-750`, `db.cpp:172-235`)

| here | there |
| --- | --- |
| `Child`         | a child process with its two pipes: `p2c` not yet read, the batch in hand, the answer not yet written, `c2p` not yet read |
| `Child.step`    | one turn of the loop of `run_parent`, and its death |
| `Phase`         | where `run` is: writing the message in pieces, reading into `resp_buf`, done with the answer's line |
| `AnswerFormat`  | **the JSON line of an answer and what `json.loads` makes of a line** |
| `step`, `.raise`| one system call of `run`, or an exception in its place |
| `abandoned`     | **an exception left a call between its first byte and the end of its answer**; the code keeps no such mark |
| `answers`       | what the child computed, by batch |

A timeout kills a stage below the child and is answered like any other end of a stage. `_start` keeps a child that is
alive, whatever the last call left in its pipes.
-/

namespace SynnoDB.Hotpatch.RunCalls

variable {Res : Type}

structure AnswerFormat (Res : Type) where
  /-- The line without its newline. -/
  line : Nat → Res → Bytes
  /-- `payload.get("batch_id")` and the query results; `none`: the line is not such an object. -/
  loads : Bytes → Option (Option Nat × Res)
  newline : ∀ b r, 10 ∉ line b r
  loads_line : ∀ b r, loads (line b r) = some (some b, r)

structure Call where
  batchId : Nat
  queryLines : List String
  runEnv : List (String × String)
deriving DecidableEq, Repr

def Call.message (call : Call) : ControlMessage := pyMessage .run call.batchId call.queryLines call.runEnv

/-- `struct.pack("<IIQII", …)`. -/
def Call.header (call : Call) : Except String Bytes := do
  let magic ← structPack 4 messageMagic
  let action ← structPack 4 actionRun
  let batchId ← structPack 8 call.batchId
  let lineCount ← structPack 4 call.queryLines.length
  let envCount ← structPack 4 call.runEnv.length
  pure (magic ++ action ++ batchId ++ lineCount ++ envCount)

def Call.fields (call : Call) : List String := call.queryLines ++ call.runEnv.flatMap fun kv => [kv.1, kv.2]

/-- The fields up to the first one whose length does not fit. -/
def fieldBytes : List String → Bytes
  | [] => []
  | f :: fs => match pyWriteField f with
    | .ok b => b ++ fieldBytes fs
    | .error _ => []

/-- What `_write_control_message` writes, or gets to write before `struct.pack` raises. -/
def Call.bytes (call : Call) : Bytes :=
  match call.header with
  | .ok h => h ++ fieldBytes call.fields
  | .error _ => []

/-- The batch as `read_control_message` hands it on. -/
def Call.received (order : Nat → ArgOrder) (call : Call) : RunBatch :=
  { call.message.batch with runEnv := call.message.batch.runEnv.mapIdx fun i => recvPair (order i) }

instance (msg : ControlMessage) : Decidable (InBounds msg) :=
  decidable_of_iff (msg.batch.batchId < 2 ^ 64 ∧ msg.batch.queryLines.length < 2 ^ 32 ∧ msg.batch.runEnv.length < 2 ^ 32 ∧
      (∀ l ∈ msg.batch.queryLines, l.length < 2 ^ 32) ∧
      ∀ kv ∈ msg.batch.runEnv, kv.1.length < 2 ^ 32 ∧ kv.2.length < 2 ^ 32)
    ⟨fun h => ⟨h.1, h.2.1, h.2.2.1, h.2.2.2.1, h.2.2.2.2⟩, fun h => ⟨h.batchId, h.lines, h.env, h.line, h.pair⟩⟩

/-! ## The child -/

structure Child where
  alive : Bool := true
  inbox : Bytes := []
  busy : Option RunBatch := none
  out : Bytes := []
  c2p : Bytes := []
  abandoned : Bool := false
deriving DecidableEq, Repr

inductive ChildAct (Res : Type) where
  | read
  /-- The pipeline is through with the batch. -/
  | answer (r : Res)
  | write (n : Nat)
  | die

section
variable (F : AnswerFormat Res) (order : Nat → ArgOrder)

namespace Child

variable (c : Child)

def step : ChildAct Res → Option (Child × List (RunBatch × Res))
  | .read =>
    if c.alive ∧ c.busy = none ∧ c.out = [] then
      match (readControlMessage order).run c.inbox with
      | .ok (⟨.run, batch⟩, rest) => some ({ c with inbox := rest, busy := some batch }, [])
      | .ok (⟨.terminate, _⟩, _) => some ({ c with alive := false }, [])
      -- it blocks, or ends on a message that is none
      | .error _ => none
    else none
  | .answer r => match c.busy with
    | some batch =>
      if c.alive then some ({ c with busy := none, out := F.line batch.batchId r ++ [10] }, [(batch, r)]) else none
    | none => none
  | .write n =>
    if c.alive ∧ 0 < n ∧ n ≤ c.out.length then some ({ c with c2p := c.c2p ++ c.out.take n, out := c.out.drop n }, [])
    else none
  | .die => some ({ c with alive := false }, [])

/-- Both pipes are at a message boundary and no answer is outstanding. -/
structure InStep : Prop where
  inbox : c.inbox = []
  busy : c.busy = none
  out : c.out = []
  c2p : c.c2p = []

end Child

/-! ## The parent -/

inductive Phase where
  | idle
  | writing (call : Call) (sent todo : Bytes)
  | reading (call : Call) (respBuf : Bytes)
  | answered (call : Call) (line : Bytes)
deriving DecidableEq, Repr

inductive Outcome (Res : Type) where
  | results (r : Res)
  /-- `batch id mismatch: sent …, got …`. -/
  | mismatch (got : Option Nat)
  | unreadable
  /-- The child has exited. -/
  | exited
deriving DecidableEq, Repr

structure Return (Res : Type) where
  call : Call
  outcome : Outcome Res
deriving DecidableEq, Repr

structure State (Res : Type) where
  nextBatchId : Nat := 1
  child : Option Child := none
  phase : Phase := .idle
  answers : List (RunBatch × Res) := []
  returns : List (Return Res) := []

inductive Act (Res : Type) where
  | call (queryLines : List String) (runEnv : List (String × String))
  /-- `_start` raises. -/
  | startFails
  | write (n : Nat)
  | read (n : Nat)
  | eof
  | finish
  | raise
  | child (a : ChildAct Res)

/-- `_start`. -/
def State.start (s : State Res) : Child :=
  match s.child with
  | some c => if c.alive then c else {}
  | none => {}

def Call.outcome (call : Call) (line : Bytes) : Outcome Res :=
  match F.loads line with
  | none => .unreadable
  | some (got, r) => if got = some call.batchId then .results r else .mismatch got

def step (s : State Res) : Act Res → Option (State Res)
  | .call queryLines runEnv => match s.phase with
    | .idle =>
      let call : Call := ⟨s.nextBatchId, queryLines, runEnv⟩
      some { s with
        nextBatchId := s.nextBatchId + 1
        child := some s.start
        phase := .writing call [] call.bytes }
    | _ => none
  | .startFails => match s.phase with
    | .idle => if s.child.any Child.alive then none else some { s with child := none }
    | _ => none
  | .write n => match s.phase, s.child with
    | .writing call sent todo, some c =>
      if 0 < n ∧ n ≤ todo.length then
        some { s with
          child := some { c with inbox := c.inbox ++ todo.take n }
          phase := if n = todo.length ∧ InBounds call.message then .reading call []
            else .writing call (sent ++ todo.take n) (todo.drop n) }
      else none
    | _, _ => none
  | .read n => match s.phase, s.child with
    | .reading call respBuf, some c =>
      if 0 < n ∧ n ≤ c.c2p.length then
        let respBuf := respBuf ++ c.c2p.take n
        some { s with
          child := some { c with c2p := c.c2p.drop n }
          phase := if 10 ∈ respBuf then .answered call (respBuf.takeWhile (· ≠ 10)) else .reading call respBuf }
      else none
    | _, _ => none
  | .eof => match s.phase, s.child with
    | .reading call _, some c =>
      if c.alive = false ∧ c.c2p = [] then
        some { s with child := none, phase := .idle, returns := ⟨call, .exited⟩ :: s.returns }
      else none
    | _, _ => none
  | .finish => match s.phase with
    | .answered call line => some { s with phase := .idle, returns := ⟨call, call.outcome F line⟩ :: s.returns }
    | _ => none
  | .raise => match s.phase with
    | .idle => none
    | .writing _ sent _ => some { s with
        phase := .idle
        child := s.child.map fun c => { c with abandoned := c.abandoned || !sent.isEmpty } }
    | .reading _ _ => some { s with phase := .idle, child := s.child.map fun c => { c with abandoned := true } }
    | .answered _ _ => some { s with phase := .idle }
  | .child a => match s.child with
    | some c => (c.step F order a).map fun p => { s with child := some p.1, answers := p.2 ++ s.answers }
    | none => none

end

/-! ## The condition -/

/-- No call finds a child alive that an exception has left in the middle of another call. -/
def Safe (s : State Res) : Act Res → Prop
  | .call _ _ => ∀ c, s.child = some c → c.alive = true → c.abandoned = false
  | _ => True

variable {F : AnswerFormat Res} {order : Nat → ArgOrder} {answers made : List (RunBatch × Res)} {c c' : Child}
  {call : Call}
  {phase : Phase} {s s' : State Res} {a : ChildAct Res}

/-! ## Messages that are not written whole -/

/-- The length fits, or there is nothing. -/
def trimField (f : String) : String := if (utf8 f).length < 2 ^ 32 then f else ""

theorem utf8_empty : utf8 "" = [] := by decide

theorem trimField_length (f : String) : (utf8 (trimField f)).length < 2 ^ 32 := by
  unfold trimField
  split
  · assumption
  · rw [utf8_empty]
    decide

/-- The message with empty fields in place of those that do not fit. -/
def Call.trimmed (call : Call) : Call :=
  { call with
    queryLines := call.queryLines.map trimField
    runEnv := call.runEnv.map fun kv => (trimField kv.1, trimField kv.2) }

theorem fields_trimmed (call : Call) : call.trimmed.fields = call.fields.map trimField := by
  simp [Call.fields, Call.trimmed, List.flatMap_map, List.map_flatMap]

theorem wire_eq (call : Call) : wire call.message = wireHeader actionRun call.batchId call.queryLines.length
    call.runEnv.length ++ call.fields.flatMap fun f => wireString (utf8 f) := by
  simp [wire, wirePayload, wirePair, Call.message, pyMessage, Call.fields, List.flatMap_map, List.flatMap_append,
    List.flatMap_assoc]

theorem header_ok (h : call.batchId < 2 ^ 64) (hl : call.queryLines.length < 2 ^ 32)
    (he : call.runEnv.length < 2 ^ 32) :
    call.header = .ok (wireHeader actionRun call.batchId call.queryLines.length call.runEnv.length) := by
  unfold Call.header
  rw [structPack_eq (w := 4) (n := messageMagic) (by decide), structPack_eq (w := 4) (n := actionRun) (by decide),
    structPack_eq (w := 8) (by simpa using h), structPack_eq (w := 4) (by simpa using hl),
    structPack_eq (w := 4) (by simpa using he)]
  rfl

theorem header_error (h : ¬ (call.batchId < 2 ^ 64 ∧ call.queryLines.length < 2 ^ 32 ∧ call.runEnv.length < 2 ^ 32)) :
    ∃ e, call.header = .error e := by
  unfold Call.header
  rw [structPack_eq (w := 4) (n := messageMagic) (by decide), structPack_eq (w := 4) (n := actionRun) (by decide)]
  by_cases hb : call.batchId < 2 ^ 64
  · rw [structPack_eq (w := 8) (by simpa using hb)]
    by_cases hl : call.queryLines.length < 2 ^ 32
    · have he : ¬ call.runEnv.length < 256 ^ 4 := by
        intro he
        exact h ⟨hb, hl, by simpa using he⟩
      rw [structPack_eq (w := 4) (by simpa using hl), structPack, if_neg he]
      exact ⟨_, rfl⟩
    · rw [structPack, if_neg (by simpa using hl)]
      exact ⟨_, rfl⟩
  · rw [structPack, if_neg (by simpa using hb)]
    exact ⟨_, rfl⟩

theorem fieldBytes_begins (fs : List String) : ∃ q, fieldBytes fs ++ q =
    (fs.map trimField).flatMap (fun f => wireString (utf8 f)) ∧
    ((∃ f ∈ fs, ¬ (utf8 f).length < 2 ^ 32) → q ≠ []) := by
  induction fs with
  | nil => exact ⟨[], rfl, fun h => by obtain ⟨f, hf, -⟩ := h; cases hf⟩
  | cons f fs ih =>
    by_cases hf : (utf8 f).length < 2 ^ 32
    · obtain ⟨q, hq, hne⟩ := ih
      refine ⟨q, ?_, fun ⟨g, hg, hlong⟩ => ?_⟩
      · rw [fieldBytes, pyWriteField_eq hf]
        dsimp only
        rw [List.append_assoc, hq, List.map_cons, List.flatMap_cons, trimField, if_pos hf]
      · rcases List.mem_cons.1 hg with rfl | hg
        · exact absurd hf hlong
        · exact hne ⟨g, hg, hlong⟩
    · refine ⟨((f :: fs).map trimField).flatMap fun f => wireString (utf8 f), ?_, fun _ => ?_⟩
      · have herr : ∃ e, pyWriteField f = .error e := by
          unfold pyWriteField structPack
          rw [if_neg (by simpa using hf)]
          exact ⟨_, rfl⟩
        obtain ⟨e, he⟩ := herr
        rw [fieldBytes, he]
        rfl
      · rw [List.map_cons, List.flatMap_cons]
        intro hnil
        have := congrArg List.length hnil
        simp [wireString] at this

theorem bytes_eq (h : InBounds call.message) : call.bytes = wire call.message := by
  have hb : call.batchId < 2 ^ 64 := h.batchId
  have hl : call.queryLines.length < 2 ^ 32 := by simpa [Call.message, pyMessage] using h.lines
  have he : call.runEnv.length < 2 ^ 32 := by simpa [Call.message, pyMessage] using h.env
  have hfit : ∀ f ∈ call.fields, (utf8 f).length < 2 ^ 32 := by
    intro f hf
    rcases List.mem_append.1 hf with hf | hf
    · exact h.line _ (List.mem_map_of_mem hf)
    · obtain ⟨kv, hkv, hf⟩ := List.mem_flatMap.1 hf
      have hpair := h.pair (utf8 kv.1, utf8 kv.2) (List.mem_map_of_mem hkv)
      rcases List.mem_cons.1 hf with rfl | hf
      · exact hpair.1
      · rw [List.mem_singleton.1 hf]
        exact hpair.2
  have hfields : ∀ fs : List String, (∀ f ∈ fs, (utf8 f).length < 2 ^ 32) →
      fieldBytes fs = fs.flatMap fun f => wireString (utf8 f) := by
    intro fs
    induction fs with
    | nil => intro _; rfl
    | cons f fs ih =>
      intro hfs
      rw [fieldBytes, pyWriteField_eq (hfs f List.mem_cons_self)]
      dsimp only
      rw [ih fun g hg => hfs g (List.mem_cons_of_mem _ hg), List.flatMap_cons]
  rw [wire_eq, Call.bytes, header_ok hb hl he]
  dsimp only
  rw [hfields _ hfit]

/-- The bytes of a message that does not fit are the beginning of one that does. -/
theorem bytes_unfinished (h : ¬ InBounds call.message) :
    ∃ msg q, InBounds msg ∧ msg.action = .run ∧ call.bytes ++ q = wire msg ∧ q ≠ [] := by
  by_cases hheader : call.batchId < 2 ^ 64 ∧ call.queryLines.length < 2 ^ 32 ∧ call.runEnv.length < 2 ^ 32
  · obtain ⟨hb, hl, he⟩ := hheader
    obtain ⟨q, hq, hne⟩ := fieldBytes_begins call.fields
    refine ⟨call.trimmed.message, q, ⟨hb, ?_, ?_, ?_, ?_⟩, rfl, ?_, hne ?_⟩
    · simpa [Call.message, pyMessage, Call.trimmed] using hl
    · simpa [Call.message, pyMessage, Call.trimmed] using he
    · intro l hl
      simp only [Call.message, pyMessage, Call.trimmed, List.map_map, List.mem_map] at hl
      obtain ⟨f, -, rfl⟩ := hl
      exact trimField_length f
    · intro kv hkv
      simp only [Call.message, pyMessage, Call.trimmed, List.map_map, List.mem_map] at hkv
      obtain ⟨p, -, rfl⟩ := hkv
      exact ⟨trimField_length p.1, trimField_length p.2⟩
    · rw [wire_eq, fields_trimmed, ← hq, Call.bytes, header_ok hb hl he]
      simp [Call.trimmed]
    · by_contra hall
      simp only [not_exists, not_and, not_not] at hall
      refine h ⟨hb, ?_, ?_, ?_, ?_⟩
      · simpa [Call.message, pyMessage] using hl
      · simpa [Call.message, pyMessage] using he
      · intro l hl
        obtain ⟨f, hf, rfl⟩ := List.mem_map.1 hl
        exact hall f (List.mem_append_left _ hf)
      · intro kv hkv
        obtain ⟨p, hp, rfl⟩ := List.mem_map.1 hkv
        have hfields : ∀ f ∈ [p.1, p.2], f ∈ call.fields := fun f hf =>
          List.mem_append_right _ (List.mem_flatMap.2 ⟨p, hp, hf⟩)
        exact ⟨hall _ (hfields _ (by simp)), hall _ (hfields _ (by simp))⟩
  · obtain ⟨e, he⟩ := header_error hheader
    let empty : Call := ⟨1, [], []⟩
    refine ⟨empty.message, wire empty.message, by decide, rfl, ?_, by decide⟩
    rw [Call.bytes, he]
    rfl

/-- Until the message is whole the child reads nothing of it. -/
theorem unread {p q : Bytes} (h : p ++ q = call.bytes) (hq : InBounds call.message → q ≠ []) :
    ∃ e, (readControlMessage order).run p = .error e := by
  obtain ⟨msg, more, hbounds, haction, hmore, hne⟩ : ∃ msg more, InBounds msg ∧ msg.action = .run ∧
      p ++ more = wire msg ∧ more ≠ [] := by
    by_cases hin : InBounds call.message
    · exact ⟨call.message, q, hin, rfl, by rw [h, bytes_eq hin], hq hin⟩
    · obtain ⟨msg, r, hbounds, haction, hr, hne⟩ := bytes_unfinished hin
      refine ⟨msg, q ++ r, hbounds, haction, ?_, fun hnil => hne (List.append_eq_nil_iff.1 hnil).2⟩
      rw [← List.append_assoc, h, hr]
  obtain ⟨action, batch⟩ := msg
  obtain rfl : action = .run := haction
  cases hrun : (readControlMessage order).run p with
  | error e => exact ⟨e, rfl⟩
  | ok x => exact absurd hrun ((reads_run order hbounds []).unfinished (local_readControlMessage order) hmore hne)

theorem run_message (h : InBounds call.message) :
    (readControlMessage order).run (wire call.message) = .ok (⟨.run, call.received order⟩, []) := by
  have hrun : Reader.Reads (readControlMessage order) (wire call.message) ⟨.run, call.received order⟩ [] :=
    reads_run order h []
  rw [Reader.Reads, List.append_nil] at hrun
  exact hrun

/-! ## A call under way -/

/-- Where the child and its pipes are in a phase of a call that began in step. -/
def Underway (F : AnswerFormat Res) (order : Nat → ArgOrder) (answers : List (RunBatch × Res)) (c : Child) : Phase → Prop
  | .idle => False
  | .writing call sent todo => sent ++ todo = call.bytes ∧ (InBounds call.message → todo ≠ []) ∧
      c.inbox = sent ∧ c.busy = none ∧ c.out = [] ∧ c.c2p = []
  | .reading call respBuf => InBounds call.message ∧ 10 ∉ respBuf ∧ (
      (c.inbox = wire call.message ∧ c.busy = none ∧ c.out = [] ∧ c.c2p = [] ∧ respBuf = []) ∨
      (c.inbox = [] ∧ c.busy = some (call.received order) ∧ c.out = [] ∧ c.c2p = [] ∧ respBuf = []) ∨
      (c.inbox = [] ∧ c.busy = none ∧ ∃ r, (call.received order, r) ∈ answers ∧
        respBuf ++ c.c2p ++ c.out = F.line call.batchId r ++ [10]))
  | .answered call line => c.InStep ∧ ∃ r, (call.received order, r) ∈ answers ∧ line = F.line call.batchId r

/-- The message has begun and its answer is not read. -/
def Phase.begun : Phase → Bool
  | .writing _ sent _ => !sent.isEmpty
  | .reading _ _ => true
  | _ => false

theorem not_inStep_of_begun (h : Underway F order answers c phase) (hbegun : phase.begun = true) : ¬ c.InStep := by
  intro hstep
  cases phase with
  | idle => cases hbegun
  | answered call line => cases hbegun
  | writing call sent todo =>
    obtain ⟨-, -, hinbox, -⟩ := h
    rw [hstep.inbox] at hinbox
    rw [← hinbox] at hbegun
    cases hbegun
  | reading call respBuf =>
    obtain ⟨hbounds, hnewline, ⟨hinbox, -⟩ | ⟨-, hbusy, -⟩ | ⟨-, -, r, -, hanswer⟩⟩ := h
    · rw [hstep.inbox] at hinbox
      have := congrArg List.length hinbox
      simp [wire_eq, wireHeader] at this
      omega
    · rw [hstep.busy] at hbusy
      cases hbusy
    · rw [hstep.c2p, hstep.out, List.append_nil, List.append_nil] at hanswer
      rw [hanswer] at hnewline
      exact hnewline (List.mem_append_right _ (List.mem_singleton_self _))

/-! ## Steps of the child -/

/-- A child with nothing to read and nothing to answer does nothing, but that it may die. -/
theorem child_waits (hbusy : c.busy = none) (hout : c.out = [])
    (hread : ∃ e, (readControlMessage order).run c.inbox = .error e) (hstep : c.step F order a = some (c', made)) :
    a = .die ∧ c' = { c with alive := false } ∧ made = [] := by
  cases a with
  | read =>
    obtain ⟨e, he⟩ := hread
    simp only [Child.step, he] at hstep
    split at hstep <;> cases hstep
  | answer r =>
    simp only [Child.step, hbusy] at hstep
    cases hstep
  | write n =>
    simp only [Child.step] at hstep
    split at hstep
    · rename_i hn
      rw [hout] at hn
      exact absurd hn.2.2 (by simpa using Nat.pos_iff_ne_zero.1 hn.2.1)
    · cases hstep
  | die =>
    cases hstep
    exact ⟨rfl, rfl, rfl⟩

theorem Child.InStep.waits (h : c.InStep) (hstep : c.step F order a = some (c', made)) :
    a = .die ∧ c' = { c with alive := false } ∧ made = [] := by
  refine child_waits h.busy h.out ?_ hstep
  rw [h.inbox]
  exact ⟨_, rfl⟩

theorem inStep_child (h : c.InStep) (hstep : c.step F order a = some (c', made)) :
    c'.InStep ∧ c'.abandoned = c.abandoned ∧ made = [] := by
  obtain ⟨-, rfl, rfl⟩ := h.waits hstep
  exact ⟨⟨h.inbox, h.busy, h.out, h.c2p⟩, rfl, rfl⟩

/-- The child carries a call on that is under way. -/
theorem underway_child (h : Underway F order answers c phase) (hstep : c.step F order a = some (c', made)) :
    Underway F order (made ++ answers) c' phase ∧ c'.abandoned = c.abandoned := by
  cases phase with
  | idle => exact h.elim
  | answered call line =>
    obtain ⟨hin, r, hr, hline⟩ := h
    obtain ⟨hin', habandoned, rfl⟩ := inStep_child hin hstep
    exact ⟨⟨hin', r, hr, hline⟩, habandoned⟩
  | writing call sent todo =>
    obtain ⟨hbytes, htodo, hinbox, hbusy, hout, hc2p⟩ := h
    obtain ⟨-, rfl, rfl⟩ := child_waits hbusy hout (by rw [hinbox]; exact unread hbytes htodo) hstep
    exact ⟨⟨hbytes, htodo, hinbox, hbusy, hout, hc2p⟩, rfl⟩
  | reading call respBuf =>
    obtain ⟨hbounds, hnewline, hwhere⟩ := h
    cases a with
    | read =>
      simp only [Child.step] at hstep
      split at hstep
      · rename_i hfree
        rcases hwhere with ⟨hinbox, -, hout, hc2p, hbuf⟩ | ⟨-, hbusy, -⟩ | ⟨hinbox, -⟩
        · rw [hinbox, run_message hbounds] at hstep
          cases hstep
          exact ⟨⟨hbounds, hnewline, .inr (.inl ⟨rfl, rfl, hout, hc2p, hbuf⟩)⟩, rfl⟩
        · rw [hbusy] at hfree
          cases hfree.2.1
        · rw [hinbox] at hstep
          cases hstep
      · cases hstep
    | answer r =>
      rcases hwhere with ⟨-, hbusy, -⟩ | ⟨hinbox, hbusy, hout, hc2p, hbuf⟩ | ⟨-, hbusy, -⟩
      · simp only [Child.step, hbusy] at hstep
        cases hstep
      · simp only [Child.step, hbusy] at hstep
        split at hstep
        · cases hstep
          refine ⟨⟨hbounds, hnewline, .inr
            (.inr ⟨hinbox, rfl, r, List.mem_append_left _ (List.mem_singleton_self _), ?_⟩)⟩,
            rfl⟩
          rw [hc2p, hbuf]
          rfl
        · cases hstep
      · simp only [Child.step, hbusy] at hstep
        cases hstep
    | write n =>
      simp only [Child.step] at hstep
      split at hstep
      · rename_i hn
        have hempty : c.out = [] → False := by
          intro hout
          rw [hout] at hn
          exact absurd hn.2.2 (by simpa using Nat.pos_iff_ne_zero.1 hn.2.1)
        rcases hwhere with ⟨-, -, hout, -⟩ | ⟨-, -, hout, -⟩ | ⟨hinbox, hbusy, r, hr, hanswer⟩
        · exact (hempty hout).elim
        · exact (hempty hout).elim
        · cases hstep
          refine ⟨⟨hbounds, hnewline, .inr (.inr ⟨hinbox, hbusy, r, hr, ?_⟩)⟩, rfl⟩
          dsimp only
          rw [← hanswer, List.append_assoc, List.append_assoc, List.append_assoc, List.take_append_drop]
      · cases hstep
    | die =>
      cases hstep
      exact ⟨⟨hbounds, hnewline, hwhere⟩, rfl⟩

/-! ## The invariant -/

/-- The call returned the results of its own batch, or the child had exited. -/
def Return.Own (order : Nat → ArgOrder) (answers : List (RunBatch × Res)) (ret : Return Res) : Prop :=
  ret.outcome = .exited ∨ ∃ r, ret.outcome = .results r ∧ (ret.call.received order, r) ∈ answers

/-- Between calls a child is in step, or it is where an exception left it. -/
def Rests (F : AnswerFormat Res) (order : Nat → ArgOrder) (answers : List (RunBatch × Res)) (c : Child) : Prop :=
  c.abandoned = false ∧ c.InStep ∨ c.abandoned = true ∧ ∃ phase, phase.begun = true ∧ Underway F order answers c phase

structure Inv (F : AnswerFormat Res) (order : Nat → ArgOrder) (s : State Res) : Prop where
  own : ∀ ret ∈ s.returns, ret.Own order s.answers
  noChild : s.child = none → s.phase = .idle
  idle : ∀ c, s.child = some c → s.phase = .idle → Rests F order s.answers c
  busy : ∀ c, s.child = some c → s.phase ≠ .idle → c.abandoned = false ∧ Underway F order s.answers c s.phase

theorem Underway.mono (h : Underway F order answers c phase) : Underway F order (made ++ answers) c phase := by
  cases phase with
  | idle => exact h
  | writing call sent todo => exact h
  | reading call respBuf =>
    obtain ⟨hbounds, hnewline, hwhere⟩ := h
    refine ⟨hbounds, hnewline, hwhere.imp_right (Or.imp_right ?_)⟩
    rintro ⟨hinbox, hbusy, r, hr, hanswer⟩
    exact ⟨hinbox, hbusy, r, List.mem_append_right _ hr, hanswer⟩
  | answered call line =>
    obtain ⟨hin, r, hr, hline⟩ := h
    exact ⟨hin, r, List.mem_append_right _ hr, hline⟩

theorem inStep_start (h : Inv F order s) (hidle : s.phase = .idle) (hsafe : ∀ c, s.child = some c → c.alive = true →
    c.abandoned = false) : s.start.abandoned = false ∧ s.start.InStep := by
  unfold State.start
  split
  · rename_i c hc
    split
    · rename_i halive
      rcases h.idle c hc hidle with hstep | ⟨habandoned, -⟩
      · exact hstep
      · rw [hsafe c hc halive] at habandoned
        cases habandoned
    · exact ⟨rfl, rfl, rfl, rfl, rfl⟩
  · exact ⟨rfl, rfl, rfl, rfl, rfl⟩

theorem bytes_ne_nil (h : InBounds call.message) : call.bytes ≠ [] := by
  rw [bytes_eq h]
  intro hnil
  have := congrArg List.length hnil
  simp [wire_eq, wireHeader] at this

theorem inv_call (h : Inv F order s) (hidle : s.phase = .idle) (hsafe : ∀ c, s.child = some c → c.alive = true →
    c.abandoned = false) (call : Call) (next : Nat) :
    Inv F order { s with nextBatchId := next, child := some s.start, phase := .writing call [] call.bytes } := by
  obtain ⟨habandoned, hstep⟩ := inStep_start h hidle hsafe
  refine ⟨h.own, fun hnone => (by cases hnone), fun c _ hphase => (by cases hphase), fun c hc _ => ?_⟩
  cases hc
  exact ⟨habandoned, rfl, bytes_ne_nil, hstep.inbox, hstep.busy, hstep.out, hstep.c2p⟩

theorem inv_write (h : Inv F order s) {call : Call} {sent todo : Bytes} (hphase : s.phase = .writing call sent todo)
    (hc : s.child = some c) {n : Nat} (hn : 0 < n ∧ n ≤ todo.length) :
    Inv F order { s with
      child := some { c with inbox := c.inbox ++ todo.take n }
      phase := if n = todo.length ∧ InBounds call.message then .reading call []
        else .writing call (sent ++ todo.take n) (todo.drop n) } := by
  have hbusy := h.busy c hc (by rw [hphase]; exact fun heq => by cases heq)
  rw [hphase] at hbusy
  obtain ⟨habandoned, hbytes, htodo, hinbox, hbusy, hout, hc2p⟩ := hbusy
  refine ⟨h.own, fun hnone => (by cases hnone), fun d hd hidle => ?_, fun d hd _ => ?_⟩
  · dsimp only at hidle
    split at hidle <;> cases hidle
  · cases hd
    refine ⟨habandoned, ?_⟩
    dsimp only
    split
    · rename_i hlast
      obtain ⟨rfl, hbounds⟩ := hlast
      refine ⟨hbounds, List.not_mem_nil, .inl ⟨?_, hbusy, hout, hc2p, rfl⟩⟩
      dsimp only
      rw [List.take_length, hinbox, hbytes, bytes_eq hbounds]
    · rename_i hmore
      refine ⟨?_, fun hbounds hnil => hmore ⟨?_, hbounds⟩, ?_, hbusy, hout, hc2p⟩
      · rw [List.append_assoc, List.take_append_drop, hbytes]
      · exact Nat.le_antisymm hn.2 (List.drop_eq_nil_iff.1 hnil)
      · dsimp only
        rw [hinbox]

/-- The line of the answer, its newline and nothing else. -/
theorem answer_whole {b : Nat} {r : Res} {u v : Bytes} (h : u ++ v = F.line b r ++ [10]) (hu : 10 ∈ u) :
    v = [] ∧ u.takeWhile (· ≠ 10) = F.line b r := by
  have hv : v = [] := by
    rcases List.append_eq_append_iff.1 h with ⟨w, hw, hv⟩ | ⟨w, hw, hv⟩
    · -- the newline is not in the line
      refine absurd ?_ (F.newline b r)
      rw [hw]
      exact List.mem_append_left _ hu
    · cases w with
      | nil =>
        rw [List.append_nil] at hw
        rw [hw] at hu
        exact absurd hu (F.newline b r)
      | cons x w =>
        have := congrArg List.length hv
        simp only [List.length_cons, List.length_nil, List.length_append, List.cons_append] at this
        exact List.eq_nil_of_length_eq_zero (by omega)
  refine ⟨hv, ?_⟩
  rw [hv, List.append_nil] at h
  rw [h, List.takeWhile_append_of_pos]
  · simp
  · intro x hx
    simp only [ne_eq, decide_not, Bool.not_eq_eq_eq_not, Bool.not_true, decide_eq_false_iff_not]
    rintro rfl
    exact F.newline b r hx

theorem inv_read (h : Inv F order s) {call : Call} {respBuf : Bytes} (hphase : s.phase = .reading call respBuf)
    (hc : s.child = some c) {n : Nat} (hn : 0 < n ∧ n ≤ c.c2p.length) :
    Inv F order { s with
      child := some { c with c2p := c.c2p.drop n }
      phase := if 10 ∈ respBuf ++ c.c2p.take n then .answered call ((respBuf ++ c.c2p.take n).takeWhile (· ≠ 10))
        else .reading call (respBuf ++ c.c2p.take n) } := by
  have hbusy := h.busy c hc (by rw [hphase]; exact fun heq => by cases heq)
  rw [hphase] at hbusy
  obtain ⟨habandoned, hbounds, -, hwhere⟩ := hbusy
  have hsome : c.c2p = [] → False := by
    intro hnil
    rw [hnil] at hn
    exact absurd hn.2 (by simpa using Nat.pos_iff_ne_zero.1 hn.1)
  refine ⟨h.own, fun hnone => (by cases hnone), fun d hd hidle => ?_, fun d hd _ => ?_⟩
  · dsimp only at hidle
    split at hidle <;> cases hidle
  · cases hd
    refine ⟨habandoned, ?_⟩
    rcases hwhere with ⟨-, -, -, hc2p, -⟩ | ⟨-, -, -, hc2p, -⟩ | ⟨hinbox, hbusy, r, hr, hanswer⟩
    · exact (hsome hc2p).elim
    · exact (hsome hc2p).elim
    · have hsplit : respBuf ++ c.c2p.take n ++ (c.c2p.drop n ++ c.out) = F.line call.batchId r ++ [10] := by
        rw [← hanswer]
        simp only [List.append_assoc]
        rw [← List.append_assoc (c.c2p.take n), List.take_append_drop]
      dsimp only
      split
      · rename_i hnewline
        obtain ⟨hnil, hline⟩ := answer_whole hsplit hnewline
        obtain ⟨hc2p, hout⟩ := List.append_eq_nil_iff.1 hnil
        exact ⟨⟨hinbox, hbusy, hout, hc2p⟩, r, hr, hline⟩
      · rename_i hnewline
        refine ⟨hbounds, hnewline, .inr (.inr ⟨hinbox, hbusy, r, hr, ?_⟩)⟩
        rw [← hsplit]
        simp only [List.append_assoc]

theorem inv_eof (h : Inv F order s) (call : Call) :
    Inv F order { s with child := none, phase := .idle, returns := ⟨call, .exited⟩ :: s.returns } := by
  refine ⟨fun ret hret => ?_, fun _ => rfl, fun c hc => (by cases hc), fun c hc => (by cases hc)⟩
  rcases List.mem_cons.1 hret with rfl | hret
  · exact .inl rfl
  · exact h.own ret hret

theorem inv_finish (h : Inv F order s) {call : Call} {line : Bytes} (hphase : s.phase = .answered call line) :
    Inv F order { s with phase := .idle, returns := ⟨call, call.outcome F line⟩ :: s.returns } := by
  have hne : s.phase ≠ .idle := by rw [hphase]; exact fun heq => by cases heq
  obtain ⟨c, hc⟩ : ∃ c, s.child = some c := Option.ne_none_iff_exists'.1 fun hnone => hne (h.noChild hnone)
  have hbusy := h.busy c hc hne
  rw [hphase] at hbusy
  obtain ⟨habandoned, hstep, r, hr, hline⟩ := hbusy
  refine ⟨fun ret hret => ?_, fun _ => rfl, fun d hd _ => ?_, fun d _ hidle => absurd rfl hidle⟩
  · rcases List.mem_cons.1 hret with rfl | hret
    · refine .inr ⟨r, ?_, hr⟩
      unfold Call.outcome
      rw [hline, F.loads_line]
      dsimp only
      rw [if_pos rfl]
    · exact h.own ret hret
  · have hd : some c = some d := hc.symm.trans hd
    cases hd
    exact .inl ⟨habandoned, hstep⟩

/-- An exception leaves the child in step, or marked. -/
theorem inv_raise (h : Inv F order s) (hstep : step F order s .raise = some s') : Inv F order s' := by
  simp only [step] at hstep
  cases hphase : s.phase with
  | idle => rw [hphase] at hstep; cases hstep
  | writing call sent todo =>
    rw [hphase] at hstep
    cases hstep
    obtain ⟨c, hc⟩ : ∃ c, s.child = some c := Option.ne_none_iff_exists'.1 fun hnone => by
      have := h.noChild hnone
      rw [hphase] at this
      cases this
    obtain ⟨habandoned, hway⟩ := h.busy c hc (by rw [hphase]; exact fun heq => by cases heq)
    rw [hphase] at hway
    refine ⟨h.own, fun _ => rfl, fun d hd _ => ?_, fun d _ hne => absurd rfl hne⟩
    dsimp only at hd
    rw [hc] at hd
    cases hd
    obtain ⟨hbytes, htodo, hinbox, hbusy, hout, hc2p⟩ := hway
    cases sent with
    | nil => exact .inl ⟨by simpa using habandoned, hinbox, hbusy, hout, hc2p⟩
    | cons b bs =>
      exact .inr ⟨by simp, .writing call (b :: bs) todo, rfl, hbytes, htodo, hinbox, hbusy, hout, hc2p⟩
  | reading call respBuf =>
    rw [hphase] at hstep
    cases hstep
    refine ⟨h.own, fun _ => rfl, fun d hd _ => ?_, fun d _ hne => absurd rfl hne⟩
    obtain ⟨c, hc, rfl⟩ := Option.map_eq_some_iff.1 hd
    obtain ⟨-, hway⟩ := h.busy c hc (by rw [hphase]; exact fun heq => by cases heq)
    rw [hphase] at hway
    exact .inr ⟨rfl, .reading call respBuf, rfl, hway⟩
  | answered call line =>
    rw [hphase] at hstep
    cases hstep
    refine ⟨h.own, fun _ => rfl, fun d hd _ => ?_, fun d _ hne => absurd rfl hne⟩
    obtain ⟨habandoned, hway⟩ := h.busy d hd (by rw [hphase]; exact fun heq => by cases heq)
    rw [hphase] at hway
    exact .inl ⟨habandoned, hway.1⟩

theorem inv_child (h : Inv F order s) (hc : s.child = some c) (hstep : c.step F order a = some (c', made)) :
    Inv F order { s with child := some c', answers := made ++ s.answers } := by
  refine ⟨fun ret hret => ?_, fun hnone => (by cases hnone), fun d hd hidle => ?_, fun d hd hne => ?_⟩
  · rcases h.own ret hret with hexit | ⟨r, hr, hmem⟩
    · exact .inl hexit
    · exact .inr ⟨r, hr, List.mem_append_right _ hmem⟩
  · cases hd
    rcases h.idle c hc hidle with ⟨hclean, hin⟩ | ⟨hleft, phase, hbegun, hway⟩
    · obtain ⟨hin', hsame, -⟩ := inStep_child hin hstep
      exact .inl ⟨hsame.trans hclean, hin'⟩
    · obtain ⟨hway', hsame⟩ := underway_child hway hstep
      exact .inr ⟨hsame.trans hleft, phase, hbegun, hway'⟩
  · cases hd
    obtain ⟨hclean, hway⟩ := h.busy c hc hne
    obtain ⟨hway', hsame⟩ := underway_child hway hstep
    exact ⟨hsame.trans hclean, hway'⟩

theorem inv_step {act : Act Res} (h : Inv F order s) (hsafe : Safe s act) (hstep : step F order s act = some s') :
    Inv F order s' := by
  cases act with
  | call queryLines runEnv =>
    simp only [step] at hstep
    split at hstep
    · rename_i hidle
      cases hstep
      exact inv_call h hidle hsafe _ _
    · cases hstep
  | startFails =>
    simp only [step] at hstep
    split at hstep
    · rename_i hidle
      split at hstep
      · cases hstep
      · cases hstep
        exact ⟨h.own, fun _ => hidle, fun c hc => (by cases hc), fun c hc => (by cases hc)⟩
    · cases hstep
  | write n =>
    simp only [step] at hstep
    split at hstep
    · rename_i call sent todo c hphase hc
      split at hstep
      · rename_i hn
        cases hstep
        exact inv_write h hphase hc hn
      · cases hstep
    · cases hstep
  | read n =>
    simp only [step] at hstep
    split at hstep
    · rename_i call respBuf c hphase hc
      split at hstep
      · rename_i hn
        cases hstep
        exact inv_read h hphase hc hn
      · cases hstep
    · cases hstep
  | eof =>
    simp only [step] at hstep
    split at hstep
    · split at hstep
      · cases hstep
        exact inv_eof h _
      · cases hstep
    · cases hstep
  | finish =>
    simp only [step] at hstep
    split at hstep
    · rename_i call line hphase
      cases hstep
      exact inv_finish h hphase
    · cases hstep
  | raise => exact inv_raise h hstep
  | child a =>
    simp only [step] at hstep
    split at hstep
    · rename_i c hc
      obtain ⟨⟨c', made⟩, hchild, rfl⟩ := Option.map_eq_some_iff.1 hstep
      exact inv_child h hc hchild
    · cases hstep

/-! ## A call with a healthy child comes to its end -/

/-- The call and the child go on: neither an exception, nor a death. -/
def Act.healthy : Act Res → Bool
  | .write _ | .read _ | .finish | .child .read | .child (.answer _) | .child (.write _) => true
  | _ => false

def Phase.call? : Phase → Option Call
  | .idle => none
  | .writing call _ _ | .reading call _ | .answered call _ => some call

/-- What is left to do after the message: the stage of the exchange, then bytes. -/
def Child.rank (c : Child) : Nat × Nat :=
  if c.inbox ≠ [] then (4, 0) else if c.busy.isSome then (3, 0) else (2, 2 * c.out.length + c.c2p.length)

def State.rank (s : State Res) : Nat × Nat :=
  match s.phase, s.child with
  | .writing _ _ todo, _ => (5, todo.length)
  | .reading _ _, some c => c.rank
  | .answered _ _, _ => (1, 0)
  | _, _ => (0, 0)

theorem healthy_enabled (h : Inv F order s) (hc : s.child = some c) (halive : c.alive = true)
    (hcall : s.phase.call? = some call) (hbounds : InBounds call.message) (r : Res) :
    ∃ act, act.healthy = true ∧ (step F order s act).isSome = true := by
  have hne : s.phase ≠ .idle := by
    intro hidle
    rw [hidle] at hcall
    cases hcall
  obtain ⟨-, hway⟩ := h.busy c hc hne
  cases hphase : s.phase with
  | idle => exact absurd hphase hne
  | writing call' sent todo =>
    rw [hphase] at hcall hway
    cases hcall
    have htodo : 0 < todo.length := List.length_pos_of_ne_nil (hway.2.1 hbounds)
    refine ⟨.write todo.length, rfl, ?_⟩
    simp only [step, hphase, hc]
    rw [if_pos ⟨htodo, Nat.le_refl _⟩]
    rfl
  | answered call' line =>
    refine ⟨.finish, rfl, ?_⟩
    simp only [step, hphase]
    rfl
  | reading call' respBuf =>
    rw [hphase] at hway
    obtain ⟨hbounds', hnewline, ⟨hinbox, hbusy, hout, -⟩ | ⟨-, hbusy, -⟩ | ⟨-, hbusy, r', -, hanswer⟩⟩ := hway
    · refine ⟨.child .read, rfl, ?_⟩
      simp only [step, hc, Child.step]
      rw [if_pos ⟨halive, hbusy, hout⟩, hinbox, run_message hbounds']
      rfl
    · refine ⟨.child (.answer r), rfl, ?_⟩
      simp only [step, hc, Child.step, hbusy]
      rw [if_pos halive]
      rfl
    · -- something of the line is still to come, since its newline is
      by_cases hc2p : c.c2p = []
      · have hout : 0 < c.out.length := by
          refine List.length_pos_of_ne_nil fun hnil => hnewline ?_
          rw [hc2p, hnil, List.append_nil, List.append_nil] at hanswer
          rw [hanswer]
          exact List.mem_append_right _ (List.mem_singleton_self _)
        refine ⟨.child (.write c.out.length), rfl, ?_⟩
        simp only [step, hc, Child.step]
        rw [if_pos ⟨halive, hout, Nat.le_refl _⟩]
        rfl
      · refine ⟨.read c.c2p.length, rfl, ?_⟩
        simp only [step, hphase, hc]
        rw [if_pos ⟨List.length_pos_of_ne_nil hc2p, Nat.le_refl _⟩]
        rfl

theorem Child.rank_lt (c : Child) : c.rank.1 < 5 := by
  unfold Child.rank
  split
  · exact Nat.lt_succ_self 4
  · split
    · exact (by decide : 3 < 5)
    · exact (by decide : 2 < 5)

theorem rank_answering (hinbox : c.inbox = []) (hbusy : c.busy = none) :
    c.rank = (2, 2 * c.out.length + c.c2p.length) := by
  simp [Child.rank, hinbox, hbusy]

/-- A child that answers a call gets ahead. -/
theorem child_decreases {respBuf : Bytes} (h : Underway F order answers c (.reading call respBuf)) (ha : a ≠ .die)
    (hstep : c.step F order a = some (c', made)) : Prod.Lex (· < ·) (· < ·) c'.rank c.rank := by
  obtain ⟨hbounds, hnewline, hwhere⟩ := h
  rcases hwhere with ⟨hinbox, hbusy, hout, -⟩ | ⟨hinbox, hbusy, hout, -⟩ | ⟨hinbox, hbusy, -⟩
  · have hne : c.inbox ≠ [] := by
      rw [hinbox, ← bytes_eq hbounds]
      exact bytes_ne_nil hbounds
    have hrank : c.rank = (4, 0) := if_pos hne
    rw [hrank]
    cases a with
    | die => exact absurd rfl ha
    | read =>
      simp only [Child.step, hinbox, run_message hbounds] at hstep
      split at hstep
      · cases hstep
        exact .left _ _ (by decide : 3 < 4)
      · cases hstep
    | answer r =>
      simp only [Child.step, hbusy] at hstep
      cases hstep
    | write n =>
      simp only [Child.step, hout] at hstep
      split at hstep
      · rename_i hn
        exact absurd hn.2.2 (by simpa using Nat.pos_iff_ne_zero.1 hn.2.1)
      · cases hstep
  · have hrank : c.rank = (3, 0) := by simp [Child.rank, hinbox, hbusy]
    rw [hrank]
    cases a with
    | die => exact absurd rfl ha
    | read =>
      simp only [Child.step] at hstep
      split at hstep
      · rename_i hfree
        rw [hbusy] at hfree
        cases hfree.2.1
      · cases hstep
    | answer r =>
      simp only [Child.step, hbusy] at hstep
      split at hstep
      · cases hstep
        rw [@rank_answering { c with busy := none, out := F.line (call.received order).batchId r ++ [10] } hinbox rfl]
        exact .left _ _ (by decide : 2 < 3)
      · cases hstep
    | write n =>
      simp only [Child.step, hout] at hstep
      split at hstep
      · rename_i hn
        exact absurd hn.2.2 (by simpa using Nat.pos_iff_ne_zero.1 hn.2.1)
      · cases hstep
  · rw [rank_answering hinbox hbusy]
    cases a with
    | die => exact absurd rfl ha
    | read =>
      simp only [Child.step, hinbox] at hstep
      split at hstep <;> cases hstep
    | answer r =>
      simp only [Child.step, hbusy] at hstep
      cases hstep
    | write n =>
      simp only [Child.step] at hstep
      split at hstep
      · rename_i hn
        cases hstep
        rw [@rank_answering { c with c2p := c.c2p ++ c.out.take n, out := c.out.drop n } hinbox hbusy]
        refine .right _ ?_
        rw [List.length_append, List.length_drop, List.length_take]
        omega
      · cases hstep

/-- Every step but an exception and a death brings a call nearer to its end. -/
theorem healthy_decreases (h : Inv F order s) (hcall : s.phase.call? = some call) {act : Act Res}
    (hact : act.healthy = true) (hstep : step F order s act = some s') :
    Prod.Lex (· < ·) (· < ·) s'.rank s.rank := by
  have hne : s.phase ≠ .idle := by
    intro hidle
    rw [hidle] at hcall
    cases hcall
  obtain ⟨c, hc⟩ : ∃ c, s.child = some c := Option.ne_none_iff_exists'.1 fun hnone => hne (h.noChild hnone)
  obtain ⟨-, hway⟩ := h.busy c hc hne
  cases act with
  | write n =>
    simp only [step] at hstep
    split at hstep
    · rename_i call' sent todo d hphase hd
      split at hstep
      · rename_i hn
        cases hstep
        have hrank : s.rank = (5, todo.length) := by simp only [State.rank, hphase]
        rw [hrank]
        split
        · exact .left _ _ (Child.rank_lt _)
        · refine .right _ ?_
          rw [List.length_drop]
          omega
      · cases hstep
    · cases hstep
  | read n =>
    simp only [step] at hstep
    split at hstep
    · rename_i call' respBuf d hphase hd
      rw [hc] at hd
      cases hd
      rw [hphase] at hway
      split at hstep
      · rename_i hn
        have hsome : c.c2p = [] → False := by
          intro hnil
          rw [hnil] at hn
          exact absurd hn.2 (by simpa using Nat.pos_iff_ne_zero.1 hn.1)
        obtain ⟨-, -, ⟨-, -, -, hc2p, -⟩ | ⟨-, -, -, hc2p, -⟩ | ⟨hinbox, hbusy, -⟩⟩ := hway
        · exact (hsome hc2p).elim
        · exact (hsome hc2p).elim
        · have hrank : s.rank = (2, 2 * c.out.length + c.c2p.length) := by
            simp only [State.rank, hphase, hc]
            exact rank_answering hinbox hbusy
          cases hstep
          rw [hrank]
          split
          · exact .left _ _ (by decide : 1 < 2)
          · simp only [State.rank]
            rw [@rank_answering { c with c2p := c.c2p.drop n } hinbox hbusy]
            refine .right _ ?_
            dsimp only
            rw [List.length_drop]
            omega
      · cases hstep
    · cases hstep
  | finish =>
    simp only [step] at hstep
    split at hstep
    · rename_i call' line hphase
      cases hstep
      have hrank : s.rank = (1, 0) := by simp only [State.rank, hphase]
      rw [hrank]
      exact .left _ _ (by decide : 0 < 1)
    · cases hstep
  | child a =>
    simp only [step, hc] at hstep
    obtain ⟨⟨c', made⟩, hchild, rfl⟩ := Option.map_eq_some_iff.1 hstep
    have ha : a ≠ .die := by
      rintro rfl
      cases hact
    cases hphase : s.phase with
    | idle => exact absurd hphase hne
    | answered call' line =>
      rw [hphase] at hway
      exact absurd (hway.1.waits hchild).1 ha
    | writing call' sent todo =>
      rw [hphase] at hway
      obtain ⟨hbytes, htodo, hinbox, hbusy, hout, -⟩ := hway
      exact absurd (child_waits hbusy hout (by rw [hinbox]; exact unread hbytes htodo) hchild).1 ha
    | reading call' respBuf =>
      rw [hphase] at hway
      simp only [State.rank, hphase, hc]
      exact child_decreases hway ha hchild
  | _ => cases hact

/-! ## Runs -/

def digitBytes (n : Nat) : Bytes := (Nat.toDigits 10 n).map fun c => UInt8.ofNat c.toNat

def isDigitByte (b : UInt8) : Bool := 48 ≤ b.toNat ∧ b.toNat ≤ 57

theorem digitBytes_digit {n : Nat} : ∀ b ∈ digitBytes n, isDigitByte b = true := by
  intro b hb
  obtain ⟨c, hc, rfl⟩ := List.mem_map.1 hb
  have hdigit := Nat.isDigit_of_mem_toDigits (by decide) (by decide) hc
  simp only [Char.isDigit, Bool.and_eq_true, decide_eq_true_eq, UInt32.le_iff_toNat_le, ge_iff_le] at hdigit
  have hlow : 48 ≤ c.toNat := hdigit.1
  have hhigh : c.toNat ≤ 57 := hdigit.2
  have hmod : (UInt8.ofNat c.toNat).toNat = c.toNat := by
    rw [UInt8.toNat_ofNat']
    exact Nat.mod_eq_of_lt (by omega)
  rw [isDigitByte, hmod, decide_eq_true_eq]
  exact ⟨hlow, hhigh⟩

/-- The number that begins a text, and what comes after it. -/
def readNumber (t : Bytes) : Nat × Bytes :=
  let ds := t.takeWhile isDigitByte
  (Nat.ofDigitChars 10 (ds.map fun b => Char.ofNat b.toNat) 0, t.drop ds.length)

theorem readNumber_digits {n : Nat} {b : UInt8} {t : Bytes} (hb : isDigitByte b = false) :
    readNumber (digitBytes n ++ b :: t) = (n, b :: t) := by
  have htake : (digitBytes n ++ b :: t).takeWhile isDigitByte = digitBytes n := by
    rw [List.takeWhile_append_of_pos digitBytes_digit, List.takeWhile_cons, hb]
    simp
  have hback : (digitBytes n).map (fun b => Char.ofNat b.toNat) = Nat.toDigits 10 n := by
    rw [digitBytes, List.map_map]
    conv_rhs => rw [← List.map_id (Nat.toDigits 10 n)]
    refine List.map_congr_left fun c hc => ?_
    have hdigit := Nat.isDigit_of_mem_toDigits (by decide) (by decide) hc
    simp only [Char.isDigit, Bool.and_eq_true, decide_eq_true_eq, UInt32.le_iff_toNat_le, ge_iff_le] at hdigit
    have hhigh : c.toNat ≤ 57 := hdigit.2
    simp only [Function.comp_apply, UInt8.toNat_ofNat', id_eq]
    rw [Nat.mod_eq_of_lt (by omega), Char.ofNat_toNat]
  rw [readNumber, htake, hback, Nat.ofDigitChars_ten_toDigits, List.drop_left]

def skip (p t : Bytes) : Option Bytes := if p.isPrefixOf t then some (t.drop p.length) else none

theorem skip_append (p t : Bytes) : skip p (p ++ t) = some t := by
  rw [skip, if_pos (List.isPrefixOf_iff_prefix.2 (List.prefix_append p t)), List.drop_left]

def beforeId : Bytes := utf8 "\x7b\"batch_id\":"
def beforeTime : Bytes := 44 :: utf8 "\"exit_code\":0,\"signal\":0,\"query_results\":[\x7b\"elapsed_ms\":"
def afterTime : Bytes := 125 :: utf8 "],\"stage_error\":\"\"\x7d"

def timedLine (batchId elapsed : Nat) : Bytes :=
  beforeId ++ (digitBytes batchId ++ (beforeTime ++ (digitBytes elapsed ++ afterTime)))

def loadsTimed (t : Bytes) : Option (Option Nat × Nat) :=
  (skip beforeId t).bind fun t => (skip beforeTime (readNumber t).2).bind fun u =>
    if (readNumber u).2 = afterTime then some (some (readNumber t).1, (readNumber u).1) else none

def timed : AnswerFormat Nat where
  line := timedLine
  loads := loadsTimed
  newline b r := by
    have hdigits : ∀ n, 10 ∉ digitBytes n := fun n h => absurd (digitBytes_digit _ h) (by decide)
    have hfixed : 10 ∉ beforeId ∧ 10 ∉ beforeTime ∧ 10 ∉ afterTime := by decide +kernel
    simp only [timedLine, List.mem_append, not_or]
    exact ⟨hfixed.1, hdigits b, hfixed.2.1, hdigits r, hfixed.2.2⟩
  loads_line b r := by
    have hid : readNumber (digitBytes b ++ (beforeTime ++ (digitBytes r ++ afterTime))) =
        (b, beforeTime ++ (digitBytes r ++ afterTime)) := readNumber_digits (by decide)
    have htime : readNumber (digitBytes r ++ afterTime) = (r, afterTime) := readNumber_digits (by decide)
    rw [loadsTimed, timedLine, skip_append, Option.bind_some, hid, skip_append, Option.bind_some, htime]
    exact if_pos rfl

def safeCheck (s : State Nat) : Act Nat → Bool
  | .call _ _ => s.child.all fun c => !c.alive || !c.abandoned
  | _ => true

theorem safe_of_check {s : State Nat} {act : Act Nat} (h : safeCheck s act = true) : Safe s act := by
  cases act with
  | call queryLines runEnv =>
    intro c hc halive
    simpa [safeCheck, hc, halive] using h
  | _ => trivial

/-- What a child and a call do when nothing goes wrong; `n` are the bytes of the message, `m` those of the answer. -/
def exchange (n m r : Nat) : List (Act Nat) :=
  [.write n, .child .read, .child (.answer r), .child (.write m), .read m, .finish]

def firstCall : Call := ⟨1, ["1 a"], []⟩

def secondCall : Call := ⟨2, ["2 b"], []⟩

/-- The first message breaks off with its first byte not yet written, and then goes through. -/
def interruptedBefore : List (Act Nat) :=
  [.call ["0 x"] [], .raise, .call ["2 b"] []] ++ exchange secondCall.bytes.length ((timedLine 2 8).length + 1) 8

/-- The first call is interrupted when it waits for the answer; the child finishes, and the second call reads what is
left. -/
def interruptedWaiting : List (Act Nat) :=
  [.call ["1 a"] [], .write firstCall.bytes.length, .raise, .child .read, .child (.answer 7),
    .child (.write ((timedLine 1 7).length + 1)), .call ["2 b"] [], .write secondCall.bytes.length, .child .read,
    .child (.answer 8), .read ((timedLine 1 7).length + 1), .finish, .child (.write ((timedLine 2 8).length + 1))]

end SynnoDB.Hotpatch.RunCalls
