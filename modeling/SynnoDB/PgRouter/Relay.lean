import Mathlib
import SynnoDB.Lib.Trace
import SynnoDB.PgRouter.Struct

/-!
# The relay between a client and the server (`pgrouter/protocols/postgres/server.py`)

| here | there |
| --- | --- |
| `Act`              | bytes arrive from either side, in any pieces; one of the two directions goes on; a side has closed |
| `packet`           | `relay_startup`: the length comes first |
| `message`          | the reading in `relay_message_loop`: a tag, then the length |
| `startup`          | `log_startup_packet`; `none`: it raises |
| `Hooks`            | `handle_frontend_message` with `maybe_handle_intercepted_message`, and `handle_backend_message` |
| `State.writing`    | what an intercepted message still writes to the client; the other direction goes on meanwhile |
| `up`, `down`       | `client_to_server`, `server_to_client`, and `handle_client` before they start |
| `Piece`            | ours: what was read at once, and what became of it |

**Nothing is changed, lost or reordered, and an answer of the router stands between two messages of the server**
(`relayed`), in every interleaving of the two directions and however the bytes arrive.

The answer to the first packet is a single byte, and read as one. The second packet is not looked at: where the
client asks for GSS encryption first and for SSL when that is refused, **the byte that answers the second request is
the tag of a message to the router, and is kept** (`second_answer_kept`).
-/

namespace SynnoDB.PgRouter.Relay

open Hotpatch (Bytes)
open Struct (signed unsigned)

/-- `i32(b, 0)`, of four bytes or more. -/
def i32 (b : Bytes) : Int := signed 4 (unsigned (b.take 4))

/-- What `readexactly` comes to. -/
inductive Cut where
  | more
  /-- A negative count: `ValueError`. -/
  | bad
  | frame (bytes rest : Bytes)
  deriving DecidableEq, Repr

def cut (total : Int) (buf : Bytes) : Cut :=
  if (buf.length : Int) < total then .more else .frame (buf.take total.toNat) (buf.drop total.toNat)

def packet (buf : Bytes) : Cut :=
  if buf.length < 4 then .more else if i32 buf < 4 then .bad else cut (i32 buf) buf

def message (buf : Bytes) : Cut :=
  if buf.length < 5 then .more else if i32 (buf.drop 1) < 4 then .bad else cut (i32 (buf.drop 1) + 1) buf

/-! ## The first packet -/

inductive Startup where
  | ssl
  | gssenc
  | cancel
  | parameters
  deriving DecidableEq, Repr

/-- `read_cstring`: what comes after the zero byte. -/
def afterCString : Bytes → Option Bytes
  | [] => none
  | b :: rest => if b = 0 then some rest else afterCString rest

/-- `parse_kv_cstrings` does not raise. -/
def kvCStrings : Nat → Bytes → Bool
  | 0, _ => true
  | _ + 1, [] => true
  | n + 1, b :: rest =>
    b = 0 || ((afterCString (b :: rest)).bind afterCString).any (kvCStrings n)

/-- `SSL_REQUEST_CODE`, `GSSENC_REQUEST_CODE` and `CANCEL_REQUEST_CODE`. -/
def startup (p : Bytes) : Option Startup :=
  if p.length < 8 then none
  else if i32 (p.drop 4) = 80877103 then some .ssl
  else if i32 (p.drop 4) = 80877104 then some .gssenc
  else if i32 (p.drop 4) = 80877102 then if p.length < 12 then none else some .cancel
  else if kvCStrings p.length (p.drop 8) = true then some .parameters else none

/-! ## The two directions -/

inductive Frontend (σ : Type) where
  /-- An exception before anything is written. -/
  | raised
  | forwarded (state : σ)
  /-- What is written to the client, piece by piece; `none`: then an exception. -/
  | answered (pieces : List Bytes) (state : Option σ)

structure Hooks (σ : Type) where
  frontend : σ → Bytes → Frontend σ
  /-- `none`: an exception, after the message is forwarded. -/
  backend : σ → Bytes → Option σ

inductive Phase where
  | first
  /-- `handle_ssl_or_gss_response`: the byte that accepts. -/
  | answer (accepts : UInt8)
  | second
  /-- `server_reader.read()` after a cancel request. -/
  | cancel
  | relaying
  | closed
  deriving DecidableEq, Repr

def Phase.readsClient : Phase → Bool
  | .first | .second | .relaying => true
  | _ => false

def Phase.readsServer : Phase → Bool
  | .answer _ | .relaying => true
  | _ => false

structure State (σ : Type) where
  phase : Phase
  /-- `tls_active or gss_active`. -/
  encrypted : Bool
  session : σ
  /-- What has arrived and was not read. -/
  fromClient : Bytes
  fromServer : Bytes
  writing : Option (List Bytes × Option σ)
  toServer : Bytes
  toClient : Bytes

inductive Act where
  | client (chunk : Bytes)
  | server (chunk : Bytes)
  | up
  | down
  | clientEof
  | serverEof
  deriving DecidableEq, Repr

section
variable {σ : Type} (hooks : Hooks σ)

def init (session : σ) : State σ := ⟨.first, false, session, [], [], none, [], []⟩

def afterFirst (p : Bytes) : Phase :=
  match startup p with
  | none => .closed
  | some .ssl => .answer 83
  | some .gssenc => .answer 71
  | some .cancel => .cancel
  | some .parameters => .relaying

/-- The code of the second packet is returned and not used. -/
def afterSecond (p : Bytes) : Phase := if startup p = none then .closed else .relaying

def upPacket (s : State σ) (next : Bytes → Phase) : Option (State σ) :=
  match packet s.fromClient with
  | .more => none
  | .bad => some { s with phase := .closed }
  | .frame p rest => some { s with phase := next p, fromClient := rest, toServer := s.toServer ++ p }

/-- `relay_message_loop` with `from_client=True`. -/
def upMessage (s : State σ) : Option (State σ) :=
  match s.writing with
  | some (p :: pieces, after) => some { s with toClient := s.toClient ++ p, writing := some (pieces, after) }
  | some ([], some session) => some { s with session := session, writing := none }
  | some ([], none) => some { s with phase := .closed, writing := none }
  | none =>
    if s.encrypted then
      if s.fromClient = [] then none
      else some { s with
        fromClient := s.fromClient.drop 65536, toServer := s.toServer ++ s.fromClient.take 65536 }
    else match message s.fromClient with
      | .more => none
      | .bad => some { s with phase := .closed }
      | .frame m rest =>
        match hooks.frontend s.session m with
        | .raised => some { s with phase := .closed, fromClient := rest }
        | .forwarded session =>
          some { s with session := session, fromClient := rest, toServer := s.toServer ++ m }
        | .answered pieces session => some { s with fromClient := rest, writing := some (pieces, session) }

def up (s : State σ) : Option (State σ) :=
  match s.phase with
  | .first => upPacket s afterFirst
  | .second => upPacket s afterSecond
  | .relaying => upMessage hooks s
  | _ => none

/-- `relay_message_loop` with `from_client=False`. -/
def downMessage (s : State σ) : Option (State σ) :=
  if s.encrypted then
    if s.fromServer = [] then none
    else some { s with
      fromServer := s.fromServer.drop 65536, toClient := s.toClient ++ s.fromServer.take 65536 }
  else match message s.fromServer with
    | .more => none
    | .bad => some { s with phase := .closed }
    | .frame m rest =>
      match hooks.backend s.session m with
      | some session => some { s with session := session, fromServer := rest, toClient := s.toClient ++ m }
      | none => some { s with phase := .closed, fromServer := rest, toClient := s.toClient ++ m }

def down (s : State σ) : Option (State σ) :=
  match s.phase with
  | .answer accepts =>
    match s.fromServer with
    | [] => none
    | b :: rest => some { s with
        phase := if b = accepts then .relaying else .second, encrypted := b = accepts, fromServer := rest,
        toClient := s.toClient ++ [b] }
  | .relaying => downMessage hooks s
  | _ => none

/-- An end of file is seen when what came before it is read. A session is over with either direction: nothing that the
other one still does reaches anybody. -/
def step (s : State σ) : Act → Option (State σ)
  | .client chunk => some { s with fromClient := s.fromClient ++ chunk }
  | .server chunk => some { s with fromServer := s.fromServer ++ chunk }
  | .up => up hooks s
  | .down => down hooks s
  | .clientEof =>
    if s.phase.readsClient = true ∧ (up hooks s).isNone = true then some { s with phase := .closed } else none
  | .serverEof =>
    if s.phase = .cancel then
      some { s with phase := .closed, fromServer := [], toClient := s.toClient ++ s.fromServer }
    else if s.phase.readsServer = true ∧ (down hooks s).isNone = true then some { s with phase := .closed } else none

end

/-! ## Frames -/

theorem cut_frame {total : Int} {buf m rest : Bytes} (h : cut total buf = .frame m rest) :
    total ≤ buf.length ∧ m = buf.take total.toNat ∧ rest = buf.drop total.toNat := by
  unfold cut at h
  split at h
  · cases h
  · next hlen =>
    injection h with hm hr
    exact ⟨not_lt.1 hlen, hm.symm, hr.symm⟩

theorem packet_append {buf p rest : Bytes} (h : packet buf = .frame p rest) : buf = p ++ rest := by
  unfold packet at h
  split at h
  · cases h
  · split at h
    · cases h
    · obtain ⟨-, rfl, rfl⟩ := cut_frame h
      exact (List.take_append_drop _ _).symm

/-- What is read as a message is all of one. -/
def Whole (m : Bytes) : Prop := message m = .frame m []

theorem message_append {buf m rest : Bytes} (h : message buf = .frame m rest) : buf = m ++ rest ∧ Whole m := by
  unfold message at h
  split at h
  · cases h
  · next h5 =>
    split at h
    · cases h
    · next h4 =>
      obtain ⟨htotal, rfl, rfl⟩ := cut_frame h
      refine ⟨(List.take_append_drop _ _).symm, ?_⟩
      obtain ⟨n, hn⟩ : ∃ n : Nat, i32 (buf.drop 1) = n := ⟨(i32 (buf.drop 1)).toNat, by omega⟩
      have hsum : (i32 (buf.drop 1) + 1).toNat = n + 1 := by omega
      have hlen : (buf.take (n + 1)).length = n + 1 := by
        rw [List.length_take]
        omega
      have hword : i32 ((buf.take (n + 1)).drop 1) = n := by
        rw [← hn, i32, i32, List.drop_take, List.take_take]
        congr 3
        omega
      rw [hsum, Whole, message, if_neg (by omega), hword, if_neg (by omega), cut, if_neg (by omega)]
      have hall : ((n : Int) + 1).toNat = (buf.take (n + 1)).length := by omega
      rw [hall, List.take_length, List.drop_length]

/-! ## What becomes of what is read -/

inductive Fate where
  | sent
  | answered (pieces : List Bytes)
  /-- Taken by an exception that ends the session. -/
  | lost
  deriving DecidableEq

def Fate.pieces : Fate → List Bytes
  | .answered pieces => pieces
  | _ => []

inductive Origin where
  | server
  | router
  deriving DecidableEq

/-- The pieces with a mark, put together. -/
def marked {μ : Type} [DecidableEq μ] (m : μ) (l : List (μ × Bytes)) : Bytes :=
  ((l.filter fun p => p.1 = m).map Prod.snd).flatten

def joined {μ : Type} (l : List (μ × Bytes)) : Bytes := (l.map Prod.snd).flatten

theorem marked_concat {μ : Type} [DecidableEq μ] (m m' : μ) (l : List (μ × Bytes)) (b : Bytes) :
    marked m (l ++ [(m', b)]) = if m' = m then marked m l ++ b else marked m l := by
  by_cases h : m' = m <;> simp [marked, h]

theorem marked_eq_joined {μ : Type} [DecidableEq μ] {m : μ} {l : List (μ × Bytes)} (h : ∀ p ∈ l, p.1 = m) :
    marked m l = joined l := by
  rw [marked, joined, List.filter_eq_self.2 fun p hp => by simpa using h p hp]

@[simp] theorem joined_concat {μ : Type} (m : μ) (l : List (μ × Bytes)) (b : Bytes) :
    joined (l ++ [(m, b)]) = joined l ++ b := by
  simp [joined]

/-- What an intercepted message has yet to write. -/
def State.pending {σ : Type} (s : State σ) : List Bytes := (s.writing.map Prod.fst).getD []

def ofRouter (l : List (Origin × Bytes)) : List Bytes := (l.filter fun p => p.1 = .router).map Prod.snd

/-- The two directions, piece by piece: `opening` is what the server sent before the first message. -/
structure Account {σ : Type} (hooks : Hooks σ) (s : State σ) (client server : Bytes) (ups : List (Fate × Bytes))
    (opening : Bytes) (downs : List (Origin × Bytes)) : Prop where
  read : client = joined ups ++ s.fromClient
  sent : s.toServer = marked .sent ups
  whole : ∀ p ∈ ups, p.1 ≠ .sent → Whole p.2
  lost : s.phase ≠ .closed → ∀ p ∈ ups, p.1 ≠ .lost
  passed : server = opening ++ marked .server downs ++ s.fromServer
  received : s.toClient = opening ++ joined downs
  between : ∀ p ∈ downs, p.1 = .server → Whole p.2
  opened : opening.length ≤ 1 ∨ downs = []
  asked : ∀ p ∈ ups, ∀ pieces, p.1 = .answered pieces → ∃ x after, hooks.frontend x p.2 = .answered pieces after
  written : ofRouter downs ++ s.pending = ups.flatMap fun p => p.1.pieces

/-- Where there are no messages to read, the router writes nothing of its own. -/
structure Early {σ : Type} (s : State σ) (opening : Bytes) (downs : List (Origin × Bytes)) : Prop where
  handshake : s.phase ≠ .relaying → s.phase ≠ .closed → downs = [] ∧ s.writing = none
  unread : s.encrypted = true → downs = [] ∧ s.writing = none
  unopened : s.phase = .first ∨ (∃ b, s.phase = .answer b) ∨ s.phase = .cancel → opening = []
  short : s.encrypted = false → s.phase ≠ .closed → opening.length ≤ 1

def Relayed {σ : Type} (hooks : Hooks σ) (s : State σ) (client server : Bytes) : Prop :=
  ∃ ups opening downs, Account hooks s client server ups opening downs ∧ Early s opening downs

def Act.fromClient : Act → Bytes
  | .client chunk => chunk
  | _ => []

def Act.fromServer : Act → Bytes
  | .server chunk => chunk
  | _ => []

section
variable {σ : Type} {hooks : Hooks σ} {s s' : State σ} {client server : Bytes} {ups : List (Fate × Bytes)}
  {opening : Bytes} {downs : List (Origin × Bytes)}

/-- Nothing is read or written. -/
theorem Account.rest (ha : Account hooks s client server ups opening downs) (hc : s'.fromClient = s.fromClient)
    (hv : s'.fromServer = s.fromServer) (hs : s'.toServer = s.toServer) (ht : s'.toClient = s.toClient)
    (hp : s'.pending = s.pending) (hl : s'.phase ≠ .closed → s.phase ≠ .closed) :
    Account hooks s' client server ups opening downs :=
  ⟨hc ▸ ha.read, hs ▸ ha.sent, ha.whole, fun h => ha.lost (hl h), hv ▸ ha.passed, ht ▸ ha.received, ha.between,
    ha.opened, ha.asked, hp ▸ ha.written⟩

/-- A piece is read from the client. -/
theorem Account.up (ha : Account hooks s client server ups opening downs) {f : Fate} {m : Bytes}
    (hc : s.fromClient = m ++ s'.fromClient) (hv : s'.fromServer = s.fromServer)
    (hs : s'.toServer = if f = .sent then s.toServer ++ m else s.toServer) (ht : s'.toClient = s.toClient)
    (hw : f ≠ .sent → Whole m) (hl : s'.phase ≠ .closed → f ≠ .lost ∧ s.phase ≠ .closed)
    (ha' : ∀ pieces, f = .answered pieces → ∃ x after, hooks.frontend x m = .answered pieces after)
    (hp : s'.pending = s.pending ++ f.pieces) :
    Account hooks s' client server (ups ++ [(f, m)]) opening downs := by
  refine ⟨?_, ?_, ?_, ?_, hv ▸ ha.passed, ht ▸ ha.received, ha.between, ha.opened, ?_, ?_⟩
  · rw [ha.read, hc]
    simp
  · rw [hs, marked_concat, ha.sent]
  · intro q hq hne
    rcases List.mem_append.1 hq with hq | hq
    · exact ha.whole q hq hne
    · obtain rfl := List.mem_singleton.1 hq
      exact hw hne
  · intro h q hq
    rcases List.mem_append.1 hq with hq | hq
    · exact ha.lost (hl h).2 q hq
    · obtain rfl := List.mem_singleton.1 hq
      exact (hl h).1
  · intro q hq pieces hf
    rcases List.mem_append.1 hq with hq | hq
    · exact ha.asked q hq pieces hf
    · obtain rfl := List.mem_singleton.1 hq
      exact ha' pieces hf
  · rw [hp, ← List.append_assoc, ha.written]
    simp

/-- A piece is written to the client: a message of the server, or something of the router's. -/
theorem Account.down (ha : Account hooks s client server ups opening downs) {o : Origin} {m : Bytes}
    (hc : s'.fromClient = s.fromClient) (hs : s'.toServer = s.toServer)
    (hv : s.fromServer = if o = .server then m ++ s'.fromServer else s'.fromServer) (ht : s'.toClient = s.toClient ++ m)
    (hw : o = .server → Whole m) (hshort : opening.length ≤ 1) (hl : s'.phase ≠ .closed → s.phase ≠ .closed)
    (hp : s.pending = if o = .router then m :: s'.pending else s'.pending) :
    Account hooks s' client server ups opening (downs ++ [(o, m)]) := by
  refine ⟨hc ▸ ha.read, hs ▸ ha.sent, ha.whole, fun h => ha.lost (hl h), ?_, ?_, ?_, .inl hshort, ha.asked, ?_⟩
  · rw [ha.passed, hv, marked_concat]
    split <;> simp
  · rw [ht, ha.received]
    simp
  · intro q hq ho
    rcases List.mem_append.1 hq with hq | hq
    · exact ha.between q hq ho
    · obtain rfl := List.mem_singleton.1 hq
      exact hw ho
  · rw [← ha.written, hp]
    cases o <;> simp [ofRouter]

/-- The server's bytes are passed on as they are, while the router has nothing of its own to say. -/
theorem Account.open (ha : Account hooks s client server ups opening downs) {m : Bytes} (hd : downs = [])
    (hc : s'.fromClient = s.fromClient) (hs : s'.toServer = s.toServer) (hv : s.fromServer = m ++ s'.fromServer)
    (ht : s'.toClient = s.toClient ++ m) (hp : s'.pending = s.pending) (hl : s'.phase ≠ .closed → s.phase ≠ .closed) :
    Account hooks s' client server ups (opening ++ m) downs := by
  subst hd
  refine ⟨hc ▸ ha.read, hs ▸ ha.sent, ha.whole, fun h => ha.lost (hl h), ?_, ?_, ha.between, .inr rfl, ha.asked,
    hp ▸ ha.written⟩
  · rw [ha.passed, hv]
    simp [marked]
  · rw [ht, ha.received]
    simp [joined]

theorem Early.closed (he : Early s opening downs) (hp : s'.phase = .closed) (henc : s'.encrypted = s.encrypted)
    (hw : s.encrypted = true → s'.writing = s.writing) : Early s' opening downs := by
  refine ⟨fun _ h => absurd hp h, ?_, by simp [hp], fun _ h => absurd hp h⟩
  intro h
  rw [henc] at h
  rw [hw h]
  exact he.unread h

theorem Relayed.close (h : Relayed hooks s client server) (hopen : s.phase ≠ .closed) :
    Relayed hooks { s with phase := .closed } client server := by
  obtain ⟨ups, opening, downs, ha, he⟩ := h
  exact ⟨ups, opening, downs, ha.rest rfl rfl rfl rfl rfl fun _ => hopen, he.closed rfl rfl fun _ => rfl⟩

/-- Bytes arrive from the two sides. -/
theorem Relayed.arrive (h : Relayed hooks s client server) (chunk chunk' : Bytes) :
    Relayed hooks { s with fromClient := s.fromClient ++ chunk, fromServer := s.fromServer ++ chunk' }
      (client ++ chunk) (server ++ chunk') := by
  obtain ⟨ups, opening, downs, ha, he⟩ := h
  refine ⟨ups, opening, downs, ⟨?_, ha.sent, ha.whole, ha.lost, ?_, ha.received, ha.between, ha.opened, ha.asked,
    ha.written⟩, ⟨he.handshake, he.unread, he.unopened, he.short⟩⟩
  · rw [ha.read, List.append_assoc]
  · rw [ha.passed, List.append_assoc]

theorem relayed_upPacket {next : Bytes → Phase} (h : Relayed hooks s client server)
    (hphase : s.phase = .first ∨ s.phase = .second ∧ ∀ p, next p = .closed ∨ next p = .relaying)
    (hstep : upPacket s next = some s') : Relayed hooks s' client server := by
  have hopen : s.phase ≠ .closed ∧ s.phase ≠ .relaying := by
    rcases hphase with h | ⟨h, -⟩ <;> simp [h]
  unfold upPacket at hstep
  split at hstep
  · cases hstep
  · cases hstep
    exact h.close hopen.1
  · next p rest hp =>
    cases hstep
    obtain ⟨ups, opening, downs, ha, he⟩ := h
    have hearly := he.handshake hopen.2 hopen.1
    refine ⟨ups ++ [(.sent, p)], opening, downs, ha.up (packet_append hp) rfl rfl rfl (fun h => absurd rfl h)
      (fun _ => ⟨by decide, hopen.1⟩) (fun _ h => by cases h) (List.append_nil _).symm,
      ⟨fun _ _ => hearly, he.unread, ?_, fun henc _ => he.short henc hopen.1⟩⟩
    intro hnext
    rcases hphase with h | ⟨-, hn⟩
    · exact he.unopened (.inl h)
    · rcases hn p with hn | hn <;> simp [hn] at hnext

theorem relayed_upMessage (h : Relayed hooks s client server) (hp : s.phase = .relaying)
    (hstep : upMessage hooks s = some s') : Relayed hooks s' client server := by
  have hclose := h.close
  obtain ⟨ups, opening, downs, ha, he⟩ := h
  have hopen : s.phase ≠ .closed := by simp [hp]
  have hwriting : s.writing ≠ none → s.encrypted = false := by
    intro hw
    cases henc : s.encrypted with
    | false => rfl
    | true => exact absurd (he.unread henc).2 hw
  unfold upMessage at hstep
  split at hstep
  · next b pieces after hw =>
    cases hstep
    have henc := hwriting (by simp [hw])
    refine ⟨ups, opening, downs ++ [(.router, b)], ha.down rfl rfl rfl rfl (fun h => by cases h) (he.short henc hopen)
      (fun _ => hopen) (by simp [State.pending, hw]), ⟨fun h => absurd hp h, ?_, he.unopened, he.short⟩⟩
    exact fun h => by simp [henc] at h
  · next session hw =>
    cases hstep
    have henc := hwriting (by simp [hw])
    refine ⟨ups, opening, downs, ha.rest rfl rfl rfl rfl (by simp [State.pending, hw]) fun _ => hopen,
      ⟨fun h => absurd hp h, ?_, he.unopened, he.short⟩⟩
    exact fun h => by simp [henc] at h
  · next hw =>
    cases hstep
    have henc := hwriting (by simp [hw])
    exact ⟨ups, opening, downs, ha.rest rfl rfl rfl rfl (by simp [State.pending, hw]) fun _ => hopen,
      he.closed rfl rfl fun h => by simp [henc] at h⟩
  · next hw =>
    split at hstep
    · next henc =>
      split at hstep
      · cases hstep
      · cases hstep
        refine ⟨ups ++ [(.sent, s.fromClient.take 65536)], opening, downs,
          ha.up (List.take_append_drop _ _).symm rfl rfl rfl (fun h => absurd rfl h) (fun _ => ⟨by decide, hopen⟩)
            (fun _ h => by cases h) (List.append_nil _).symm,
          ⟨fun h => absurd hp h, he.unread, he.unopened, he.short⟩⟩
    · next henc =>
      split at hstep
      · cases hstep
      · cases hstep
        exact hclose hopen
      · next m rest hm =>
        obtain ⟨hbuf, hwhole⟩ := message_append hm
        split at hstep
        · cases hstep
          refine ⟨ups ++ [(.lost, m)], opening, downs, ha.up hbuf rfl rfl rfl (fun _ => hwhole)
            (fun h => absurd rfl h) (fun _ h => by cases h) (List.append_nil _).symm, he.closed rfl rfl fun _ => rfl⟩
        · cases hstep
          refine ⟨ups ++ [(.sent, m)], opening, downs, ha.up hbuf rfl rfl rfl (fun h => absurd rfl h)
            (fun _ => ⟨by decide, hopen⟩) (fun _ h => by cases h) (List.append_nil _).symm,
            ⟨fun h => absurd hp h, he.unread, he.unopened, he.short⟩⟩
        · next pieces after hask =>
          cases hstep
          refine ⟨ups ++ [(.answered pieces, m)], opening, downs, ha.up hbuf rfl rfl rfl (fun _ => hwhole)
            (fun _ => ⟨Fate.noConfusion, hopen⟩) ?_ (by simp [State.pending, hw, Fate.pieces]),
            ⟨fun h => absurd hp h, ?_, he.unopened, he.short⟩⟩
          · intro _ h
            injection h with h
            exact ⟨_, _, h ▸ hask⟩
          · exact fun h => absurd h henc

theorem relayed_up (h : Relayed hooks s client server) (hstep : up hooks s = some s') : Relayed hooks s' client server := by
  unfold up at hstep
  split at hstep
  · next hp => exact relayed_upPacket h (.inl hp) hstep
  · next hp =>
    refine relayed_upPacket h (.inr ⟨hp, fun p => ?_⟩) hstep
    unfold afterSecond
    split
    · exact .inl rfl
    · exact .inr rfl
  · next hp => exact relayed_upMessage h hp hstep
  · cases hstep

theorem relayed_downMessage (h : Relayed hooks s client server) (hp : s.phase = .relaying)
    (hstep : downMessage hooks s = some s') : Relayed hooks s' client server := by
  have hclose := h.close
  obtain ⟨ups, opening, downs, ha, he⟩ := h
  have hopen : s.phase ≠ .closed := by simp [hp]
  unfold downMessage at hstep
  split at hstep
  · next henc =>
    have hnone := he.unread henc
    split at hstep
    · cases hstep
    · cases hstep
      refine ⟨ups, opening ++ s.fromServer.take 65536, downs, ha.open hnone.1 rfl rfl
        (List.take_append_drop _ _).symm rfl rfl fun _ => hopen, ⟨fun _ _ => hnone, fun _ => hnone, ?_, ?_⟩⟩
      · simp [hp]
      · exact fun h => by simp [henc] at h
  · next henc =>
    have hclear : s.encrypted = false := by simpa using henc
    have hshort := he.short hclear hopen
    split at hstep
    · cases hstep
    · cases hstep
      exact hclose hopen
    · next m rest hm =>
      obtain ⟨hbuf, hwhole⟩ := message_append hm
      split at hstep
      · cases hstep
        refine ⟨ups, opening, downs ++ [(.server, m)], ha.down rfl rfl (by simpa using hbuf) rfl (fun _ => hwhole) hshort
          (fun _ => hopen) rfl,
          ⟨fun h => absurd hp h, fun h => absurd h henc, he.unopened, fun _ _ => hshort⟩⟩
      · cases hstep
        refine ⟨ups, opening, downs ++ [(.server, m)], ha.down rfl rfl (by simpa using hbuf) rfl (fun _ => hwhole) hshort
          (fun _ => hopen) rfl,
          ⟨fun _ h => absurd rfl h, fun h => absurd h henc, by simp, fun _ _ => hshort⟩⟩

theorem relayed_answer (h : Relayed hooks s client server) {accepts b : UInt8} {rest : Bytes} (hp : s.phase = .answer accepts)
    (hb : s.fromServer = b :: rest) (phase : Phase) (hphase : phase = .relaying ∨ phase = .second) (encrypted : Bool) :
    Relayed hooks { s with phase, encrypted, fromServer := rest, toClient := s.toClient ++ [b] } client server := by
  obtain ⟨ups, opening, downs, ha, he⟩ := h
  have hopen : s.phase ≠ .closed := by rw [hp]; exact Phase.noConfusion
  have hnone := he.handshake (by rw [hp]; exact Phase.noConfusion) hopen
  have hnil := he.unopened (.inr (.inl ⟨accepts, hp⟩))
  refine ⟨ups, opening ++ [b], downs, ha.open hnone.1 rfl rfl hb rfl rfl fun _ => hopen,
    ⟨fun _ _ => hnone, fun _ => hnone, ?_, fun _ _ => by simp [hnil]⟩⟩
  rcases hphase with rfl | rfl <;> simp

theorem relayed_down (h : Relayed hooks s client server) (hstep : down hooks s = some s') : Relayed hooks s' client server := by
  unfold down at hstep
  cases hp : s.phase with
  | answer accepts =>
    simp only [hp] at hstep
    cases hb : s.fromServer with
    | nil => simp [hb] at hstep
    | cons b rest =>
      simp only [hb, Option.some.injEq] at hstep
      rw [← hstep]
      exact relayed_answer h hp hb _ (by split <;> simp) _
  | relaying =>
    simp only [hp] at hstep
    exact relayed_downMessage h hp hstep
  | _ => simp [hp] at hstep

theorem relayed_step (h : Relayed hooks s client server) {a : Act} (hstep : step hooks s a = some s') :
    Relayed hooks s' (client ++ a.fromClient) (server ++ a.fromServer) := by
  cases a with
  | client chunk =>
    cases hstep
    simpa only [Act.fromClient, Act.fromServer, List.append_nil] using h.arrive chunk []
  | server chunk =>
    cases hstep
    simpa only [Act.fromClient, Act.fromServer, List.append_nil] using h.arrive [] chunk
  | up => simpa [Act.fromClient, Act.fromServer] using relayed_up h hstep
  | down => simpa [Act.fromClient, Act.fromServer] using relayed_down h hstep
  | clientEof =>
    simp only [Act.fromClient, Act.fromServer, List.append_nil]
    rw [step] at hstep
    split at hstep
    · next hreads =>
      cases hstep
      refine h.close fun hp => ?_
      rw [hp] at hreads
      exact absurd hreads.1 (by decide)
    · cases hstep
  | serverEof =>
    simp only [Act.fromClient, Act.fromServer, List.append_nil]
    rw [step] at hstep
    split at hstep
    · next hp =>
      cases hstep
      obtain ⟨ups, opening, downs, ha, he⟩ := h
      have hnone := he.handshake (by simp [hp]) (by simp [hp])
      exact ⟨ups, opening ++ s.fromServer, downs, ha.open hnone.1 rfl rfl (by simp) rfl rfl fun _ => by simp [hp],
        ⟨fun _ h => absurd rfl h, fun _ => hnone, by simp, fun _ h => absurd rfl h⟩⟩
    · split at hstep
      · next hreads =>
        cases hstep
        refine h.close fun hp => ?_
        rw [hp] at hreads
        exact absurd hreads.1 (by decide)
      · cases hstep

theorem run_relayed {session : σ} {as : List Act} (h : Trace.exec (step hooks) (init session) as = some s) :
    Relayed hooks s (as.flatMap Act.fromClient) (as.flatMap Act.fromServer) := by
  induction as using List.reverseRecOn generalizing s with
  | nil =>
    cases h
    refine ⟨[], [], [], ⟨rfl, rfl, by simp, by simp, rfl, rfl, by simp, .inr rfl, by simp, rfl⟩,
      ⟨fun _ _ => ⟨rfl, rfl⟩, fun _ => ⟨rfl, rfl⟩, fun _ => rfl, fun _ _ => Nat.zero_le 1⟩⟩
  | append_singleton as a ih =>
    obtain ⟨t, ht, hlast⟩ := Trace.exec_append.1 h
    obtain ⟨t', ha, hnil⟩ := Trace.exec_cons.1 hlast
    cases hnil
    have hstep := relayed_step (ih ht) ha
    simpa using hstep

/-- **The streams of a run**, piece by piece. -/
theorem relayed {session : σ} {as : List Act} (h : Trace.exec (step hooks) (init session) as = some s) :
    ∃ ups opening downs,
      Account hooks s (as.flatMap Act.fromClient) (as.flatMap Act.fromServer) ups opening downs := by
  obtain ⟨ups, opening, downs, ha, -⟩ := run_relayed h
  exact ⟨ups, opening, downs, ha⟩

/-- Without interception the two streams are the two streams, and only part of a message is ever kept back. -/
theorem transparent {session : σ} {as : List Act}
    (hnever : ∀ x m pieces after, hooks.frontend x m ≠ .answered pieces after)
    (h : Trace.exec (step hooks) (init session) as = some s) (hopen : s.phase ≠ .closed) :
    ∃ rest rest', as.flatMap Act.fromClient = s.toServer ++ rest ∧ as.flatMap Act.fromServer = s.toClient ++ rest' ∧
      (s.phase = .relaying → up hooks s = none → down hooks s = none →
        if s.encrypted = true then rest = [] ∧ rest' = [] else message rest = .more ∧ message rest' = .more) := by
  obtain ⟨ups, opening, downs, ha, -⟩ := run_relayed h
  have hsent : ∀ p ∈ ups, p.1 = .sent := by
    intro p hp
    cases hf : p.1 with
    | sent => rfl
    | answered pieces =>
      obtain ⟨x, after, hx⟩ := ha.asked p hp pieces hf
      exact absurd hx (hnever x p.2 pieces after)
    | lost => exact absurd hf (ha.lost hopen p hp)
  have hpieces : ups.flatMap (fun p => p.1.pieces) = [] := by
    rw [List.flatMap_eq_nil_iff]
    intro p hp
    rw [hsent p hp]
    rfl
  have hwritten := ha.written
  rw [hpieces, List.append_eq_nil_iff] at hwritten
  have hserver : ∀ p ∈ downs, p.1 = .server := by
    intro p hp
    cases ho : p.1 with
    | server => rfl
    | router =>
      have hmem : p.2 ∈ ofRouter downs := List.mem_map.2 ⟨p, List.mem_filter.2 ⟨hp, by simpa using ho⟩, rfl⟩
      rw [hwritten.1] at hmem
      cases hmem
  refine ⟨s.fromClient, s.fromServer, ?_, ?_, ?_⟩
  · rw [ha.read, ha.sent, marked_eq_joined hsent]
  · rw [ha.passed, ha.received, marked_eq_joined hserver]
  · intro hp hup hdown
    simp only [up, hp] at hup
    simp only [down, hp] at hdown
    unfold upMessage at hup
    unfold downMessage at hdown
    split at hup
    · cases hup
    · cases hup
    · cases hup
    · split at hup
      · next henc =>
        rw [if_pos henc] at hdown ⊢
        refine ⟨?_, ?_⟩
        · by_contra hne
          rw [if_neg hne] at hup
          cases hup
        · by_contra hne
          rw [if_neg hne] at hdown
          cases hdown
      · next henc =>
        rw [if_neg henc] at hdown ⊢
        constructor
        · split at hup
          · next hm => exact hm
          · cases hup
          · split at hup <;> cases hup
        · split at hdown
          · next hm => exact hm
          · cases hdown
          · split at hdown <;> cases hdown

/-! ## Two requests before the first message -/

/-- `GSSENCRequest`. -/
def gssencRequest : Bytes := [0, 0, 0, 8, 4, 210, 22, 48]

/-- `SSLRequest`. -/
def sslRequest : Bytes := [0, 0, 0, 8, 4, 210, 22, 47]

/-- What has been read of the two requests and of the two answers. -/
def Waits (s : State σ) (client server : Bytes) : Prop :=
  s.writing = none ∧ s.encrypted = false ∧
    match s.phase with
    | .first => s.toClient = [] ∧ s.fromClient = client ∧ s.fromServer = server
    | .answer accepts => accepts = 71 ∧ s.toClient = [] ∧ client = gssencRequest ++ s.fromClient ∧ s.fromServer = server
    | .second => s.toClient = [78] ∧ client = gssencRequest ++ s.fromClient ∧ server = 78 :: s.fromServer
    | .relaying => s.toClient = [78] ∧ client = gssencRequest ++ sslRequest ∧ s.fromClient = [] ∧ server = 78 :: s.fromServer
    | .closed => s.toClient = [] ∨ s.toClient = [78]
    | .cancel => False

/-- What is there of the requests, and what is read of it. -/
theorem packet_requests (n : Nat) (hn : n ≤ 16) : packet ((gssencRequest ++ sslRequest).take n) =
    if n < 8 then .more else .frame gssencRequest (sslRequest.take (n - 8)) := by
  interval_cases n <;> decide

theorem packet_request (n : Nat) (hn : n ≤ 8) : packet (sslRequest.take n) = if n < 8 then .more else .frame sslRequest [] := by
  interval_cases n <;> decide

theorem eq_take_of_prefix {l m : Bytes} (h : l <+: m) : ∃ n, n ≤ m.length ∧ l = m.take n :=
  ⟨l.length, h.length_le, (List.prefix_iff_eq_take.1 h)⟩

theorem Waits.toClient (h : Waits s client server) : s.toClient = [] ∨ s.toClient = [78] := by
  obtain ⟨-, -, hphase⟩ := h
  cases hp : s.phase with
  | first =>
    simp only [hp] at hphase
    exact .inl hphase.1
  | answer accepts =>
    simp only [hp] at hphase
    exact .inl hphase.2.1
  | second =>
    simp only [hp] at hphase
    exact .inr hphase.1
  | relaying =>
    simp only [hp] at hphase
    exact .inr hphase.1
  | closed => simpa only [hp] using hphase
  | cancel => simp only [hp] at hphase

theorem Waits.close (h : Waits s client server) : Waits { s with phase := .closed } client server :=
  ⟨h.1, h.2.1, h.toClient⟩

/-- Once both requests are read, either direction waits for more. -/
theorem Waits.blocked {answer : Bytes} (h : Waits s client server) (hv : server <+: 78 :: answer)
    (hlen : answer.length ≤ 4) (hp : s.phase = .relaying) : up hooks s = none ∧ down hooks s = none := by
  obtain ⟨hw, henc, hphase⟩ := h
  simp only [hp] at hphase
  have hshort : s.fromServer.length < 5 := by
    have hle := hv.length_le
    rw [hphase.2.2.2] at hle
    simp only [List.length_cons] at hle
    omega
  constructor
  · simp [up, hp, upMessage, hw, henc, hphase.2.2.1, message]
  · simp [down, hp, downMessage, henc, message, hshort]

theorem waits_up (h : Waits s client server) (hc : client <+: gssencRequest ++ sslRequest)
    (hstep : up hooks s = some s') : Waits s' client server := by
  obtain ⟨hw, henc, hphase⟩ := h
  cases hp : s.phase with
  | first =>
    simp only [hp] at hphase
    simp only [up, hp, upPacket] at hstep
    obtain ⟨n, hn, hcn⟩ := eq_take_of_prefix hc
    rw [hphase.2.1, hcn, packet_requests n hn] at hstep
    by_cases h8 : n < 8
    · simp [h8] at hstep
    · rw [if_neg h8] at hstep
      simp only [Option.some.injEq] at hstep
      have hnext : afterFirst gssencRequest = .answer 71 := by decide
      rw [← hstep, hnext]
      refine ⟨hw, henc, rfl, hphase.1, ?_, hphase.2.2⟩
      rw [hcn, List.take_append, List.take_of_length_le (by simpa [gssencRequest] using h8)]
      rfl
  | second =>
    simp only [hp] at hphase
    simp only [up, hp, upPacket] at hstep
    have hrest : s.fromClient <+: sslRequest := by
      have := hc
      rw [hphase.2.1] at this
      exact (List.prefix_append_right_inj _).1 this
    obtain ⟨n, hn, hcn⟩ := eq_take_of_prefix hrest
    rw [hcn, packet_request n hn] at hstep
    by_cases h8 : n < 8
    · simp [h8] at hstep
    · rw [if_neg h8] at hstep
      simp only [Option.some.injEq] at hstep
      have hnext : afterSecond sslRequest = .relaying := by decide
      rw [← hstep, hnext]
      have hall : sslRequest.take n = sslRequest := List.take_of_length_le (by simpa [sslRequest] using h8)
      refine ⟨hw, henc, hphase.1, ?_, rfl, hphase.2.2⟩
      rw [hphase.2.1, hcn, hall]
  | relaying =>
    simp only [hp] at hphase
    simp [up, hp, upMessage, hw, henc, hphase.2.2.1, message] at hstep
  | answer accepts => simp [up, hp] at hstep
  | cancel => simp [up, hp] at hstep
  | closed => simp [up, hp] at hstep

theorem waits_down {answer : Bytes} (h : Waits s client server) (hv : server <+: 78 :: answer)
    (hlen : answer.length ≤ 4) (hstep : down hooks s = some s') : Waits s' client server := by
  have hblocked := @Waits.blocked _ hooks s client server answer h hv hlen
  obtain ⟨hw, henc, hphase⟩ := h
  cases hp : s.phase with
  | answer accepts =>
    simp only [hp] at hphase
    simp only [down, hp] at hstep
    obtain ⟨rfl, ht, hc, hs⟩ := hphase
    cases hb : s.fromServer with
    | nil => simp [hb] at hstep
    | cons b rest =>
      have h78 : b = 78 := by
        rw [← hs, hb] at hv
        exact (List.cons_prefix_cons.1 hv).1
      subst h78
      have hne : (78 : UInt8) ≠ 71 := by decide
      simp only [hb, Option.some.injEq] at hstep
      rw [← hstep]
      refine ⟨hw, decide_eq_false hne, ?_⟩
      rw [if_neg hne]
      exact ⟨by rw [ht]; rfl, hc, by rw [← hs, hb]⟩
  | relaying =>
    rw [(hblocked hp).2] at hstep
    cases hstep
  | first => simp [down, hp] at hstep
  | second => simp [down, hp] at hstep
  | cancel => simp [down, hp] at hstep
  | closed => simp [down, hp] at hstep

theorem waits_client {chunk : Bytes} (h : Waits s client server) (hc : client ++ chunk <+: gssencRequest ++ sslRequest) :
    Waits { s with fromClient := s.fromClient ++ chunk } (client ++ chunk) server := by
  obtain ⟨hw, henc, hphase⟩ := h
  refine ⟨hw, henc, ?_⟩
  cases hp : s.phase with
  | first =>
    simp only [hp] at hphase ⊢
    exact ⟨hphase.1, by rw [hphase.2.1], hphase.2.2⟩
  | answer accepts =>
    simp only [hp] at hphase ⊢
    exact ⟨hphase.1, hphase.2.1, by rw [hphase.2.2.1, List.append_assoc], hphase.2.2.2⟩
  | second =>
    simp only [hp] at hphase ⊢
    exact ⟨hphase.1, by rw [hphase.2.1, List.append_assoc], hphase.2.2⟩
  | relaying =>
    simp only [hp] at hphase ⊢
    have hnil : chunk = [] := by
      have hle := hc.length_le
      rw [hphase.2.1, List.length_append] at hle
      exact List.length_eq_zero_iff.1 (by omega)
    rw [hnil, List.append_nil, List.append_nil]
    exact hphase
  | closed =>
    simp only [hp] at hphase ⊢
    exact hphase
  | cancel => simp only [hp] at hphase

theorem waits_server {chunk : Bytes} (h : Waits s client server) :
    Waits { s with fromServer := s.fromServer ++ chunk } client (server ++ chunk) := by
  obtain ⟨hw, henc, hphase⟩ := h
  refine ⟨hw, henc, ?_⟩
  cases hp : s.phase with
  | first =>
    simp only [hp] at hphase ⊢
    exact ⟨hphase.1, hphase.2.1, by rw [hphase.2.2]⟩
  | answer accepts =>
    simp only [hp] at hphase ⊢
    exact ⟨hphase.1, hphase.2.1, hphase.2.2.1, by rw [hphase.2.2.2]⟩
  | second =>
    simp only [hp] at hphase ⊢
    exact ⟨hphase.1, hphase.2.1, by rw [hphase.2.2, List.cons_append]⟩
  | relaying =>
    simp only [hp] at hphase ⊢
    exact ⟨hphase.1, hphase.2.1, hphase.2.2.1, by rw [hphase.2.2.2, List.cons_append]⟩
  | closed =>
    simp only [hp] at hphase ⊢
    exact hphase
  | cancel => simp only [hp] at hphase

theorem waits_step {a : Act} {answer : Bytes} (h : Waits s client server)
    (hc : client ++ a.fromClient <+: gssencRequest ++ sslRequest) (hv : server ++ a.fromServer <+: 78 :: answer)
    (hlen : answer.length ≤ 4) (hstep : step hooks s a = some s') :
    Waits s' (client ++ a.fromClient) (server ++ a.fromServer) := by
  cases a with
  | client chunk =>
    cases hstep
    simpa only [Act.fromClient, Act.fromServer, List.append_nil] using waits_client h hc
  | server chunk =>
    cases hstep
    simpa only [Act.fromClient, Act.fromServer, List.append_nil] using waits_server h
  | up =>
    simp only [Act.fromClient, Act.fromServer, List.append_nil] at hc hv ⊢
    exact waits_up h hc hstep
  | down =>
    simp only [Act.fromClient, Act.fromServer, List.append_nil] at hc hv ⊢
    exact waits_down h hv hlen hstep
  | clientEof =>
    simp only [Act.fromClient, Act.fromServer, List.append_nil] at hc hv ⊢
    rw [step] at hstep
    split at hstep
    · cases hstep
      exact h.close
    · cases hstep
  | serverEof =>
    simp only [Act.fromClient, Act.fromServer, List.append_nil] at hc hv ⊢
    rw [step] at hstep
    split at hstep
    · next hp =>
      obtain ⟨-, -, hphase⟩ := h
      simp only [hp] at hphase
    · split at hstep
      · cases hstep
        exact h.close
      · cases hstep

theorem run_waits {session : σ} {as : List Act} {answer : Bytes} (hlen : answer.length ≤ 4)
    (h : Trace.exec (step hooks) (init session) as = some s)
    (hc : as.flatMap Act.fromClient <+: gssencRequest ++ sslRequest)
    (hv : as.flatMap Act.fromServer <+: 78 :: answer) :
    Waits s (as.flatMap Act.fromClient) (as.flatMap Act.fromServer) := by
  induction as using List.reverseRecOn generalizing s with
  | nil =>
    cases h
    exact ⟨rfl, rfl, rfl, rfl, rfl⟩
  | append_singleton as a ih =>
    obtain ⟨t, ht, hlast⟩ := Trace.exec_append.1 h
    obtain ⟨t', ha, hnil⟩ := Trace.exec_cons.1 hlast
    cases hnil
    rw [List.flatMap_append, List.flatMap_singleton] at hc hv ⊢
    rw [List.flatMap_append, List.flatMap_singleton]
    have hbefore := ih ht ((List.prefix_append _ _).trans hc) ((List.prefix_append _ _).trans hv)
    exact waits_step hbefore hc hv hlen ha

/-- **The second answer is kept**: the server refuses GSS encryption with `N`, and its answer to the SSL request that
follows is not passed on, however long the client waits for it. -/
theorem second_answer_kept {session : σ} {as : List Act} {answer : Bytes} (hlen : answer.length ≤ 4)
    (h : Trace.exec (step hooks) (init session) as = some s)
    (hc : as.flatMap Act.fromClient <+: gssencRequest ++ sslRequest)
    (hv : as.flatMap Act.fromServer <+: 78 :: answer) :
    (s.toClient = [] ∨ s.toClient = [78]) ∧ (s.phase = .relaying → up hooks s = none ∧ down hooks s = none) := by
  have hw := run_waits hlen h hc hv
  exact ⟨hw.toClient, hw.blocked hv hlen⟩

end

/-! ## A run -/

/-- No message is intercepted. -/
def passing : Hooks Unit := ⟨fun _ _ => .forwarded (), fun _ _ => some ()⟩

/-- GSS encryption is refused, SSL is accepted. -/
def requests : List Act :=
  [.client gssencRequest, .up, .server [78], .down, .client sslRequest, .up, .server [83]]

def waiting : State Unit := ⟨.relaying, false, (), [], [83], none, gssencRequest ++ sslRequest, [78]⟩

theorem requests_exec : Trace.exec (step passing) (init ()) requests = some waiting := by rfl

theorem relayed_requests : ∃ ups opening downs,
    Account passing waiting (requests.flatMap Act.fromClient) (requests.flatMap Act.fromServer) ups opening downs :=
  relayed requests_exec

theorem transparent_requests : ∃ rest rest', requests.flatMap Act.fromClient = waiting.toServer ++ rest ∧
    requests.flatMap Act.fromServer = waiting.toClient ++ rest' ∧
    (waiting.phase = .relaying → up passing waiting = none → down passing waiting = none →
      if waiting.encrypted = true then rest = [] ∧ rest' = [] else message rest = .more ∧ message rest' = .more) :=
  transparent (fun _ _ _ _ h => by cases h) requests_exec (by decide)

theorem second_answer_kept_ssl : (waiting.toClient = [] ∨ waiting.toClient = [78]) ∧
    (waiting.phase = .relaying → up passing waiting = none ∧ down passing waiting = none) :=
  @second_answer_kept _ passing waiting () requests [83] (by decide) requests_exec (by decide) (by decide)

end SynnoDB.PgRouter.Relay
