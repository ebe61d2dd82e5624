import SynnoDB.Hotpatch.Wire
import SynnoDB.Lib.MapM

/-!
# What one control message turns into at the other end of a pipe

Both encoders produce `wire msg` for every message within the `uint32_t` limits
(`writeControlMessage_eq`, `pyWriteControlMessage_eq`), and `readControlMessage_wire` says exactly
what the decoder makes of it: the lines come back in order, and the `i`-th pair of `run_env` comes
back as `recvPair (order i)` of it, i.e. with key and value exchanged wherever the compiler evaluates
the two `read_string` arguments right to left (`pipeline.hpp:223`). A TERMINATE that carries a payload
is written with counts 0 and its payload bytes all the same (`:181-187`), so they are left in the pipe.
-/

namespace SynnoDB.Hotpatch

open Reader

/-! ## Fields -/

theorem reads_readExact {w n : Nat} (h : n < 256 ^ w) (rest : Bytes) :
    Reads (readExact w) (leBytes w n) n rest := by
  have ht : (leBytes w n ++ rest).take w = leBytes w n := List.take_left' (length_leBytes w n)
  have hd : (leBytes w n ++ rest).drop w = rest := List.drop_left' (length_leBytes w n)
  show readExact w (leBytes w n ++ rest) = _
  unfold readExact
  rw [if_pos (by simp), ht, hd, leValue_leBytes, Nat.mod_eq_of_lt h]

theorem reads_readBytes (value rest : Bytes) : Reads (readBytes value.length) value value rest := by
  show readBytes value.length (value ++ rest) = _
  unfold readBytes
  rw [if_pos (by simp), List.take_left, List.drop_left]

/-- The bytes of a length-prefixed string. -/
def wireString (value : Bytes) : Bytes := leBytes 4 value.length ++ value

theorem reads_readString {value : Bytes} (h : value.length < 2 ^ 32) (rest : Bytes) :
    Reads readString (wireString value) value rest :=
  (reads_readExact (by simpa using h) _).bind (reads_readBytes value rest)

theorem writeString_eq {value : Bytes} (h : value.length < 2 ^ 32) :
    writeString value = .ok (wireString value) := by
  have hle : ¬ value.length > uint32Max := by unfold uint32Max; omega
  simp [writeString, hle, wireString, writeExact]

def wirePair (kv : Bytes × Bytes) : Bytes := wireString kv.1 ++ wireString kv.2

/-- What `emplace_back(read_string(fd), read_string(fd))` makes of a key followed by a value. -/
def recvPair : ArgOrder → Bytes × Bytes → Bytes × Bytes
  | .leftToRight, kv => kv
  | .rightToLeft, kv => (kv.2, kv.1)

theorem recvPair_eq_iff {o : ArgOrder} {kv : Bytes × Bytes} :
    recvPair o kv = kv ↔ o = .leftToRight ∨ kv.1 = kv.2 := by
  obtain ⟨k, v⟩ := kv
  cases o
  · simp [recvPair]
  · simp only [recvPair, Prod.mk.injEq, reduceCtorEq, false_or]
    exact ⟨fun h => h.2, fun h => ⟨h.symm, h⟩⟩

theorem reads_readEnvPair (o : ArgOrder) {kv : Bytes × Bytes} (hk : kv.1.length < 2 ^ 32)
    (hv : kv.2.length < 2 ^ 32) (rest : Bytes) :
    Reads (readEnvPair o) (wirePair kv) (recvPair o kv) rest := by
  cases o
  · refine (reads_readString hk _).bind ?_
    exact (reads_readString hv rest).map (kv.1, ·)
  · refine (reads_readString hk _).bind ?_
    exact (reads_readString hv rest).map (·, kv.1)

/-! ## Whole messages -/

/-- The limits of the wire format: a 64-bit batch id, 32-bit counts and 32-bit string lengths. -/
structure InBounds (msg : ControlMessage) : Prop where
  batchId : msg.batch.batchId < 2 ^ 64
  lines : msg.batch.queryLines.length < 2 ^ 32
  env : msg.batch.runEnv.length < 2 ^ 32
  line : ∀ l ∈ msg.batch.queryLines, l.length < 2 ^ 32
  pair : ∀ kv ∈ msg.batch.runEnv, kv.1.length < 2 ^ 32 ∧ kv.2.length < 2 ^ 32

def wireHeader (action batchId lineCount envCount : Nat) : Bytes :=
  leBytes 4 messageMagic ++ leBytes 4 action ++ leBytes 8 batchId ++ leBytes 4 lineCount ++ leBytes 4 envCount

def wirePayload (batch : RunBatch) : Bytes :=
  batch.queryLines.flatMap wireString ++ batch.runEnv.flatMap wirePair

/-- The bytes of a message. -/
def wire (msg : ControlMessage) : Bytes :=
  (match msg.action with
    | .run => wireHeader actionRun msg.batch.batchId msg.batch.queryLines.length msg.batch.runEnv.length
    | .terminate => wireHeader actionTerminate msg.batch.batchId 0 0) ++ wirePayload msg.batch

theorem writeControlMessage_eq {msg : ControlMessage} (h : InBounds msg) :
    writeControlMessage msg = .ok (wire msg) := by
  have h1 : ¬ msg.batch.queryLines.length > uint32Max := by have := h.lines; unfold uint32Max; omega
  have h2 : ¬ msg.batch.runEnv.length > uint32Max := by have := h.env; unfold uint32Max; omega
  have hl : msg.batch.queryLines.mapM writeString = .ok (msg.batch.queryLines.map wireString) :=
    MapM.eq_ok_of_forall fun l hl => writeString_eq (h.line l hl)
  have he : (msg.batch.runEnv.mapM fun kv => do
      let key ← writeString kv.1
      let value ← writeString kv.2
      pure (key ++ value)) = .ok (msg.batch.runEnv.map wirePair) :=
    MapM.eq_ok_of_forall fun kv hkv => by
      rw [writeString_eq (h.pair kv hkv).1, writeString_eq (h.pair kv hkv).2]; rfl
  unfold writeControlMessage
  rw [if_neg h1, if_neg h2, hl, he]
  cases ha : msg.action <;>
    simp [ha, wire, wireHeader, wirePayload, writeExact, Action.code, List.flatMap_def, bind, Except.bind,
      pure, Except.pure, List.append_assoc]

theorem reads_readHeader {action batchId lineCount envCount : Nat} (ha : action < 2 ^ 32)
    (hb : batchId < 2 ^ 64) (hl : lineCount < 2 ^ 32) (he : envCount < 2 ^ 32) (rest : Bytes) :
    Reads readHeader (wireHeader action batchId lineCount envCount) (action, batchId, lineCount, envCount) rest := by
  have hm : Reads readHeader (leBytes 4 messageMagic ++ (leBytes 4 action ++ (leBytes 8 batchId ++
      (leBytes 4 lineCount ++ leBytes 4 envCount)))) (action, batchId, lineCount, envCount) rest := by
    refine (reads_readExact (by decide) _).bind ?_
    rw [if_neg (by simp)]
    refine (reads_readExact (by simpa using ha) _).bind ?_
    refine (reads_readExact (by simpa using hb) _).bind ?_
    refine (reads_readExact (by simpa using hl) _).bind ?_
    exact (reads_readExact (by simpa using he) _).map fun envCount => (action, batchId, lineCount, envCount)
  simpa only [wireHeader, List.append_assoc] using hm

/-- **A RUN message**: lines and batch id come back, the pairs as the argument order leaves them. -/
theorem reads_run (order : Nat → ArgOrder) {batch : RunBatch} (h : InBounds ⟨.run, batch⟩) (rest : Bytes) :
    Reads (readControlMessage order) (wire ⟨.run, batch⟩)
      ⟨.run, { batch with runEnv := batch.runEnv.mapIdx fun i => recvPair (order i) }⟩ rest := by
  have hid : batch.queryLines.mapIdx (fun _ l => l) = batch.queryLines := List.mapIdx_eq_iff.2 fun i => by simp
  have hlines := reads_times (fun _ => readString) wireString (fun _ l => l) batch.queryLines 0
    (batch.runEnv.flatMap wirePair ++ rest) fun _ l hl rest =>
      reads_readString (h.line l (List.mem_of_getElem? hl)) rest
  have henv := reads_times (fun i => readEnvPair (order i)) wirePair (fun i => recvPair (order i)) batch.runEnv 0
    rest fun _ kv hkv rest =>
      reads_readEnvPair _ (h.pair kv (List.mem_of_getElem? hkv)).1 (h.pair kv (List.mem_of_getElem? hkv)).2 rest
  rw [hid] at hlines
  simp only [Nat.zero_add] at henv
  refine (reads_readHeader (by decide) h.batchId h.lines h.env _).bind ?_
  refine hlines.bind ?_
  exact henv.map fun runEnv => (⟨.run, batch.batchId, batch.queryLines, runEnv⟩ : ControlMessage)

theorem reads_terminate (order : Nat → ArgOrder) {b : Nat} (hb : b < 2 ^ 64) (rest : Bytes) :
    Reads (readControlMessage order) (wireHeader actionTerminate b 0 0) ⟨.terminate, b, [], []⟩ rest := by
  have h : Reads readHeader (wireHeader actionTerminate b 0 0) (actionTerminate, b, 0, 0) ([] ++ rest) :=
    reads_readHeader (by decide) hb (by decide) (by decide) _
  have hend : Reads (readPayload order (actionTerminate, b, 0, 0)) [] ⟨.terminate, b, [], []⟩ rest := rfl
  have hmsg := h.bind hend
  rwa [List.append_nil] at hmsg

/-! ## Messages that have not come whole -/

theorem local_readExact (w : Nat) : Local (readExact w) := by
  intro s a s' t h
  unfold readExact StateT.run at h ⊢
  dsimp only at h ⊢
  split at h
  · rename_i hw
    cases h
    rw [if_pos (by rw [List.length_append]; omega), List.take_append_of_le_length hw, List.drop_append_of_le_length hw]
  · cases h

theorem local_readBytes (len : Nat) : Local (readBytes len) := by
  intro s a s' t h
  unfold readBytes StateT.run at h ⊢
  dsimp only at h ⊢
  split at h
  · rename_i hw
    cases h
    rw [if_pos (by rw [List.length_append]; omega), List.take_append_of_le_length hw, List.drop_append_of_le_length hw]
  · cases h

theorem local_readString : Local readString := (local_readExact 4).bind local_readBytes

theorem local_readEnvPair : ∀ o, Local (readEnvPair o)
  | .leftToRight => local_readString.bind fun _ => local_readString.bind fun _ => local_pure _
  | .rightToLeft => local_readString.bind fun _ => local_readString.bind fun _ => local_pure _

theorem local_readHeader : Local readHeader := by
  refine (local_readExact 4).bind fun magic => ?_
  split
  · exact local_throw _
  · exact (local_readExact 4).bind fun _ => (local_readExact 8).bind fun _ => (local_readExact 4).bind fun _ =>
      (local_readExact 4).bind fun _ => local_pure _

theorem local_readPayload (order : Nat → ArgOrder) : ∀ header, Local (readPayload order header)
  | (action, batchId, lineCount, envCount) => by
    unfold readPayload
    dsimp only
    split
    · exact (local_times (fun _ => local_readString) lineCount 0).bind fun _ =>
        (local_times (fun i => local_readEnvPair (order i)) envCount 0).bind fun _ => local_pure _
    · split
      · split
        · exact local_throw _
        · exact local_pure _
      · exact local_throw _

theorem local_readControlMessage (order : Nat → ArgOrder) : Local (readControlMessage order) :=
  local_readHeader.bind (local_readPayload order)

/-! ## Round trips -/

/-- The message arrives: its bytes are read back as it, whatever follows them in the pipe. -/
def RoundTrips (order : Nat → ArgOrder) (msg : ControlMessage) : Prop :=
  ∃ bs, writeControlMessage msg = .ok bs ∧ ∀ rest, Reads (readControlMessage order) bs msg rest

/-- The same for the Python side's `_write_control_message`. -/
def PyRoundTrips (order : Nat → ArgOrder) (action : Action) (batchId : Nat) (queryLines : List String)
    (runEnv : List (String × String)) : Prop :=
  ∃ bs, pyWriteControlMessage action batchId queryLines runEnv = .ok bs ∧
    ∀ rest, Reads (readControlMessage order) bs
      ⟨action, batchId, queryLines.map utf8, runEnv.map fun kv => (utf8 kv.1, utf8 kv.2)⟩ rest

/-- A TERMINATE is bare, and every pair either meets left-to-right evaluation or has equal halves. -/
def FramedRight (order : Nat → ArgOrder) (msg : ControlMessage) : Prop :=
  (msg.action = .terminate → msg.batch.queryLines = [] ∧ msg.batch.runEnv = []) ∧
  (msg.action = .run → ∀ i kv, msg.batch.runEnv[i]? = some kv → order i = .leftToRight ∨ kv.1 = kv.2)

theorem mapIdx_recvPair_iff (order : Nat → ArgOrder) (env : List (Bytes × Bytes)) :
    env.mapIdx (fun i => recvPair (order i)) = env ↔
      ∀ i kv, env[i]? = some kv → order i = .leftToRight ∨ kv.1 = kv.2 := by
  rw [List.mapIdx_eq_iff]
  constructor
  · intro h i kv hkv
    have := h i
    rw [hkv, Option.map_some, Option.some.injEq] at this
    exact recvPair_eq_iff.1 this.symm
  · intro h i
    cases hkv : env[i]? with
    | none => rfl
    | some kv => rw [Option.map_some, recvPair_eq_iff.2 (h i kv hkv)]

/-- What the decoder makes of the bytes of a message is the message iff it is framed right. -/
theorem reads_wire_iff (order : Nat → ArgOrder) {msg : ControlMessage} (h : InBounds msg) :
    (∀ rest, Reads (readControlMessage order) (wire msg) msg rest) ↔ FramedRight order msg := by
  obtain ⟨action, batch⟩ := msg
  cases action with
  | run =>
    simp only [FramedRight, reduceCtorEq, false_implies, true_and, forall_const]
    rw [← mapIdx_recvPair_iff]
    constructor
    · intro hr
      have := ((reads_run order h []).unique (hr [])).1
      simp only [ControlMessage.mk.injEq, true_and] at this
      exact (congrArg RunBatch.runEnv this).symm
    · intro henv rest
      have := reads_run order h rest
      rwa [henv] at this
  | terminate =>
    simp only [FramedRight, forall_const, reduceCtorEq, false_implies, and_true]
    constructor
    · intro hr
      have := ((reads_terminate order h.batchId (wirePayload batch)).unique (by simpa [wire, Reads] using hr [])).1
      simp only [ControlMessage.mk.injEq, true_and] at this
      exact ⟨congrArg RunBatch.queryLines this, congrArg RunBatch.runEnv this⟩
    · rintro ⟨hl, he⟩ rest
      obtain ⟨bid, lines, env⟩ := batch
      subst hl he
      simpa [wire, wirePayload] using reads_terminate order h.batchId rest

theorem roundTrips_iff (order : Nat → ArgOrder) {msg : ControlMessage} (h : InBounds msg) :
    RoundTrips order msg ↔ FramedRight order msg := by
  rw [← reads_wire_iff order h]
  constructor
  · rintro ⟨bs, hbs, hr⟩
    rw [writeControlMessage_eq h] at hbs
    cases hbs
    exact hr
  · exact fun hr => ⟨_, writeControlMessage_eq h, hr⟩

/-! ## The Python side -/

/-- The message that a call of `_write_control_message` stands for. -/
def pyMessage (action : Action) (batchId : Nat) (queryLines : List String) (runEnv : List (String × String)) :
    ControlMessage :=
  ⟨action, batchId, queryLines.map utf8, runEnv.map fun kv => (utf8 kv.1, utf8 kv.2)⟩

/-- Python drops the payload of a message that is not a RUN. -/
def pySent : ControlMessage → ControlMessage
  | ⟨.run, batch⟩ => ⟨.run, batch⟩
  | ⟨.terminate, batch⟩ => ⟨.terminate, batch.batchId, [], []⟩

theorem structPack_eq {w n : Nat} (h : n < 256 ^ w) : structPack w n = .ok (leBytes w n) := if_pos h

theorem pyWriteField_eq {field : String} (h : (utf8 field).length < 2 ^ 32) :
    pyWriteField field = .ok (wireString (utf8 field)) := by
  unfold pyWriteField
  rw [structPack_eq (by simpa using h)]
  rfl

/-- Apart from the payload of a TERMINATE both sides write the same bytes. -/
theorem pyWriteControlMessage_eq {action : Action} {batchId : Nat} {queryLines : List String}
    {runEnv : List (String × String)} (h : InBounds (pyMessage action batchId queryLines runEnv)) :
    pyWriteControlMessage action batchId queryLines runEnv =
      .ok (wire (pySent (pyMessage action batchId queryLines runEnv))) := by
  have hb : batchId < 256 ^ 8 := by simpa [pyMessage] using h.batchId
  have hm : structPack 4 messageMagic = .ok (leBytes 4 messageMagic) := structPack_eq (by decide)
  have hz : structPack 4 0 = .ok (leBytes 4 0) := structPack_eq (by decide)
  unfold pyWriteControlMessage
  cases action with
  | terminate =>
    have ha : structPack 4 Action.terminate.code = .ok (leBytes 4 actionTerminate) := structPack_eq (by decide)
    simp [hm, ha, structPack_eq hb, hz, bind, Except.bind, pure, Except.pure, wire, wireHeader, wirePayload,
      pySent, pyMessage]
  | run =>
    have ha : structPack 4 Action.run.code = .ok (leBytes 4 actionRun) := structPack_eq (by decide)
    have hl : queryLines.length < 256 ^ 4 := by simpa [pyMessage] using h.lines
    have he : runEnv.length < 256 ^ 4 := by simpa [pyMessage] using h.env
    have hlines : queryLines.mapM pyWriteField = .ok (queryLines.map fun l => wireString (utf8 l)) :=
      MapM.eq_ok_of_forall fun l hl => pyWriteField_eq (h.line _ (List.mem_map_of_mem hl))
    have henv : (runEnv.mapM fun kv => do
        let key ← pyWriteField kv.1
        let value ← pyWriteField kv.2
        pure (key ++ value)) = .ok (runEnv.map fun kv => wirePair (utf8 kv.1, utf8 kv.2)) :=
      MapM.eq_ok_of_forall fun kv hkv => by
        have hp := h.pair (utf8 kv.1, utf8 kv.2) (List.mem_map.2 ⟨kv, hkv, rfl⟩)
        rw [pyWriteField_eq hp.1, pyWriteField_eq hp.2]
        rfl
    simp only [↓reduceIte, hm, ha, structPack_eq hb, structPack_eq hl, structPack_eq he, hlines, henv]
    simp [bind, Except.bind, pure, Except.pure, wire, wireHeader, wirePayload, pySent, pyMessage,
      List.flatMap_def, Function.comp_def]

theorem pyRoundTrips_iff (order : Nat → ArgOrder) {action : Action} {batchId : Nat} {queryLines : List String}
    {runEnv : List (String × String)} (h : InBounds (pyMessage action batchId queryLines runEnv)) :
    PyRoundTrips order action batchId queryLines runEnv ↔
      FramedRight order (pyMessage action batchId queryLines runEnv) := by
  have hw := pyWriteControlMessage_eq h
  have hpy : PyRoundTrips order action batchId queryLines runEnv ↔ ∀ rest, Reads (readControlMessage order)
      (wire (pySent (pyMessage action batchId queryLines runEnv))) (pyMessage action batchId queryLines runEnv)
      rest := by
    constructor
    · rintro ⟨bs, hbs, hr⟩
      rw [hw] at hbs
      cases hbs
      exact hr
    · exact fun hr => ⟨_, hw, hr⟩
  rw [hpy]
  cases action with
  | run => exact reads_wire_iff order h
  | terminate =>
    have ht := fun rest => reads_terminate order (b := batchId) h.batchId rest
    simp only [FramedRight, pyMessage, forall_const, List.map_eq_nil_iff, reduceCtorEq, false_implies, and_true]
    constructor
    · intro hr
      have := ((ht []).unique (by simpa [wire, wirePayload, pySent, pyMessage, Reads] using hr [])).1
      simpa [pyMessage] using this
    · rintro ⟨rfl, rfl⟩ rest
      simpa [wire, wirePayload, pySent, pyMessage] using ht rest

/-! ## Sequences of messages over several hops -/

/-- One hop of the pipeline: decode `n` messages, the `k`-th with the argument orders `orders k`. -/
def readMessages (orders : Nat → Nat → ArgOrder) (n : Nat) : Reader String UInt8 (List ControlMessage) :=
  times (fun k => readControlMessage (orders k)) 0 n

/-- Re-encode what was decoded and pass it on, hop by hop (loader, builder, query). -/
def relay : List (Nat → Nat → ArgOrder) → Bytes → Nat → Except String (List ControlMessage)
  | [], _, _ => .ok []
  | [orders], bs, n => ((readMessages orders n).run bs).map (·.1)
  | orders :: hops, bs, n => do
    let (msgs, _) ← (readMessages orders n).run bs
    let out ← msgs.mapM writeControlMessage
    relay hops out.flatten n

theorem readMessages_eq (orders : Nat → Nat → ArgOrder) {msgs : List ControlMessage}
    (hb : ∀ m ∈ msgs, InBounds m) (hf : ∀ k m, msgs[k]? = some m → FramedRight (orders k) m) (rest : Bytes) :
    Reads (readMessages orders msgs.length) (msgs.flatMap wire) msgs rest := by
  have hid : msgs.mapIdx (fun _ m => m) = msgs := List.mapIdx_eq_iff.2 fun i => by simp
  have h := reads_times (fun k => readControlMessage (orders k)) wire (fun _ m => m) msgs 0 rest
    fun k m hm rest => by
      simpa using (reads_wire_iff (orders k) (hb m (List.mem_of_getElem? hm))).2 (hf k m hm) rest
  rwa [hid] at h

/-- Any number of hops passes a sequence on unchanged when each message is framed right at each hop. -/
theorem relay_eq {msgs : List ControlMessage} (hb : ∀ m ∈ msgs, InBounds m) :
    ∀ {hops : List (Nat → Nat → ArgOrder)}, hops ≠ [] →
      (∀ orders ∈ hops, ∀ k m, msgs[k]? = some m → FramedRight (orders k) m) →
      relay hops (msgs.flatMap wire) msgs.length = .ok msgs
  | [], hne, _ => absurd rfl hne
  | [orders], _, hf => by
    have h := readMessages_eq orders hb (hf orders (by simp)) []
    simp only [Reads, List.append_nil] at h
    rw [relay, h]
    rfl
  | orders :: next :: hops, _, hf => by
    have h := readMessages_eq orders hb (hf orders (by simp)) []
    simp only [Reads, List.append_nil] at h
    have hw : msgs.mapM writeControlMessage = .ok (msgs.map wire) :=
      MapM.eq_ok_of_forall fun m hm => writeControlMessage_eq (hb m hm)
    have ih := relay_eq hb (List.cons_ne_nil next hops) fun o ho => hf o (List.mem_cons_of_mem _ ho)
    rw [relay, h]
    · simp only [bind, Except.bind, hw, ← List.flatMap_def]
      exact ih
    · simp

/-! ## The framing of `run_env` is right exactly up to the argument order -/

/-- **Framing**: for every message within the limits and every evaluation order of the two
`read_string` calls, both encoders' bytes are decoded to that message iff a TERMINATE is bare and each
pair whose arguments are evaluated right to left has its key equal to its value; and such messages
cross any number of hops unchanged, in sequence. -/
theorem framing_roundTrip_iff (order : Nat → ArgOrder) (hops : List (Nat → Nat → ArgOrder)) (hne : hops ≠ []) :
    (∀ msg, InBounds msg → (RoundTrips order msg ↔ FramedRight order msg)) ∧
    (∀ action batchId queryLines runEnv, InBounds (pyMessage action batchId queryLines runEnv) →
      (PyRoundTrips order action batchId queryLines runEnv ↔
        FramedRight order (pyMessage action batchId queryLines runEnv))) ∧
    (∀ msgs : List ControlMessage, (∀ m ∈ msgs, InBounds m) →
      (∀ orders ∈ hops, ∀ k m, msgs[k]? = some m → FramedRight (orders k) m) →
      relay hops (msgs.flatMap wire) msgs.length = .ok msgs) :=
  ⟨fun _ h => roundTrips_iff order h, fun _ _ _ _ h => pyRoundTrips_iff order h, fun _ hb hf => relay_eq hb hne hf⟩

/-- RUN 1 with one pair `("K", "V")`. -/
def envRun : ControlMessage := pyMessage .run 1 [] [("K", "V")]

theorem envRun_inBounds : InBounds envRun where
  batchId := by decide
  lines := by decide
  env := by decide
  line := by simp [envRun, pyMessage]
  pair := by
    intro kv hkv
    simp only [envRun, pyMessage, List.map_cons, List.map_nil, List.mem_singleton] at hkv
    subst hkv
    exact ⟨by decide, by decide⟩

theorem framing_envRun_leftToRight :
    (RoundTrips (fun _ => .leftToRight) envRun ↔ FramedRight (fun _ => .leftToRight) envRun) ∧
    (PyRoundTrips (fun _ => .leftToRight) .run 1 [] [("K", "V")] ↔
      FramedRight (fun _ => .leftToRight) (pyMessage .run 1 [] [("K", "V")])) ∧
    relay [fun _ _ => .leftToRight] ([envRun].flatMap wire) [envRun].length = .ok [envRun] :=
  have h := framing_roundTrip_iff (fun _ => .leftToRight) [fun _ _ => .leftToRight] (by simp)
  ⟨h.1 envRun envRun_inBounds, h.2.1 .run 1 [] [("K", "V")] envRun_inBounds,
    h.2.2 [envRun] (by simpa using envRun_inBounds) (by
        intro orders ho k m hm
        obtain rfl : orders = fun _ _ => .leftToRight := by simpa using ho
        obtain rfl : m = envRun := by simpa using List.mem_of_getElem? hm
        exact ⟨by simp [envRun, pyMessage], fun _ _ _ _ => .inl rfl⟩)⟩

/-- A compiler that evaluates right to left hands the stage `V=K`. -/
theorem run_env_swapped :
    InBounds envRun ∧ ¬ RoundTrips (fun _ => .rightToLeft) envRun ∧
      ¬ PyRoundTrips (fun _ => .rightToLeft) .run 1 [] [("K", "V")] := by
  have hnot : ¬ FramedRight (fun _ => .rightToLeft) envRun := by
    intro h
    have hkv := h.2 rfl 0 (utf8 "K", utf8 "V") rfl
    revert hkv
    decide
  refine ⟨envRun_inBounds, ?_, ?_⟩
  · rwa [roundTrips_iff _ envRun_inBounds]
  · rwa [pyRoundTrips_iff _ (by simpa [envRun] using envRun_inBounds)]

end SynnoDB.Hotpatch
