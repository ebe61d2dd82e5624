import Mathlib
import SynnoDB.Lib.Trace
import SynnoDB.Hotpatch.Pipeline
import SynnoDB.Hotpatch.Response

/-!
# The trace pipe and `read_done_and_trace` (`db.cpp:44-171`, `:205-257`, `db_usecase.hpp:33-81`)

| here | there |
| --- | --- |
| `frame`              | `write_length_prefixed`: the length as a `uint32_t`, and that many bytes |
| `State.pipe`         | what was written to the trace pipe and not yet read; **each byte with the RUN it was written for, which the code does not know** |
| `State.running`      | the RUNs that a query child works on; a child that was cut off may be among them |
| `State.writers`      | the children in the middle of their frame, and what they have not written yet |
| `token`, `buf`, `trace` | the locals of `read_done_and_trace`: the token, `trace_buf`, and `trace_data` once `have_trace` |
| `round`              | one turn of its loop: `poll` says which pipes are readable, at most 8192 bytes are read |
| `responses`          | the lines that `run_parent` has written |

A RUN has one done token (`DoneToken.lean` says when); one that reports success comes after the frame. The pipe holds
`capacity` bytes at most.

`read_done_and_trace` returns on a token that reports a failure although the frame may still be under way. **What is
then left in the pipe is read as the frame of the next RUN** (`stale_results`). `Clear` is the condition on a return;
in a run whose returns are clear every answer is that of its own RUN, in whatever pieces the frames are written and
read (`responses_own`), and a RUN that ends well is always answered (`run_answered`).
-/

namespace SynnoDB.Hotpatch.TraceFrames

open Response (QueryResult Reported)

abbrev Payload := List QueryResult × Bytes

def data (p : Payload) : Bytes := Response.payload p.1 p.2

/-- `write_length_prefixed` (`db.cpp:45-59`). -/
def frame (p : Payload) : Bytes := leBytes 4 (data p).length ++ (data p).take ((data p).length % 2 ^ 32)

/-- `trace_len` is known and that many bytes are there. -/
def frameOf (buf : Bytes) : Option Bytes :=
  if 4 ≤ buf.length ∧ 4 + leValue (buf.take 4) ≤ buf.length then some ((buf.drop 4).take (leValue (buf.take 4))) else none

/-- A byte in the trace pipe, and the RUN it was written for. -/
abbrev Tagged := Nat × UInt8

def bytesOf (t : List Tagged) : Bytes := t.map Prod.snd

def tagged (batch : Nat) (bs : Bytes) : List Tagged := bs.map fun b => (batch, b)

inductive Phase where
  | idle
  /-- In `read_done_and_trace`. -/
  | waiting
  /-- An exception has left `run_parent`. -/
  | dead
  deriving DecidableEq, Repr

structure Line where
  batch : Nat
  token : DoneToken
  traceData : Bytes
  deriving DecidableEq, Repr

structure State where
  phase : Phase := .idle
  batch : Nat := 0
  token : Option DoneToken := none
  buf : List Tagged := []
  trace : Option Bytes := none
  done : List DoneToken := []
  pipe : List Tagged := []
  /-- The token of the RUN is not written yet. -/
  owed : Bool := false
  running : List Nat := []
  writers : List (Nat × Bytes) := []
  /-- The RUNs whose frame is written whole. -/
  framed : List Nat := []
  /-- All processes of the pipeline have ended. -/
  gone : Bool := false
  produced : List (Nat × Payload) := []
  responses : List Line := []
  deriving DecidableEq

/-- What a turn of the loop finds at the trace pipe. -/
inductive Event where
  | none
  | read (n : Nat)
  /-- `read` returns 0, or `POLLHUP` without `POLLIN`. -/
  | eof
  deriving DecidableEq, Repr

inductive Act where
  | run
  /-- `query` has returned. -/
  | produce (k : Nat) (p : Payload)
  | write (i n : Nat)
  /-- The RUN does not get to the query child, or the child dies. -/
  | lost (k : Nat)
  | token (t : DoneToken)
  | gone
  | round (done : Bool) (trace : Event)
  /-- The done pipe hangs up, or cannot be written to. -/
  | throw

namespace State

/-- The first half of a turn: the done pipe. -/
def takeToken (s : State) (done : Bool) : Option State :=
  if done then
    match s.done with
    | t :: ts => some { s with token := some t, done := ts }
    | [] => none
  else some s

/-- The second half: the trace pipe, which is polled until `have_trace`. -/
def takeTrace (s : State) : Event → Option State
  | .none => some s
  | .read n =>
    if s.trace = none ∧ 0 < n ∧ n ≤ s.pipe.length ∧ n ≤ 8192 then
      some { s with
        buf := s.buf ++ s.pipe.take n
        pipe := s.pipe.drop n
        trace := frameOf (bytesOf (s.buf ++ s.pipe.take n)) }
    else none
  | .eof => if s.trace = none ∧ s.gone = true ∧ s.pipe = [] then some { s with trace := some [] } else none

/-- The end of a turn: `run_parent` gets token and trace data and writes its line. -/
def settle (s : State) : State :=
  match s.token with
  | some t =>
    if Sys.endsWait t ∨ s.trace.isSome then
      { s with phase := .idle, responses := ⟨s.batch, t, s.trace.getD []⟩ :: s.responses }
    else s
  | none => s

def round (s : State) (done : Bool) (trace : Event) : Option State :=
  if s.phase = .waiting ∧ (done = true ∨ trace ≠ .none) then
    (s.takeToken done).bind fun s => (s.takeTrace trace).map settle
  else none

end State

section
variable (capacity : Nat)

def step (s : State) : Act → Option State
  | .run =>
    if s.phase = .idle ∧ s.gone = false then
      some { s with
        phase := .waiting, batch := s.batch + 1, token := none, buf := [], trace := none, owed := true
        running := (s.batch + 1) :: s.running }
    else none
  | .produce k p =>
    if k ∈ s.running ∧ s.gone = false then
      some { s with
        running := s.running.filter (· ≠ k), writers := s.writers ++ [(k, frame p)], produced := (k, p) :: s.produced }
    else none
  | .write i n =>
    match s.writers[i]? with
    | some w =>
      if 0 < n ∧ n ≤ w.2.length ∧ s.pipe.length + n ≤ capacity then
        some { s with
          pipe := s.pipe ++ tagged w.1 (w.2.take n)
          writers := if n = w.2.length then s.writers.eraseIdx i else s.writers.set i (w.1, w.2.drop n)
          framed := if n = w.2.length then w.1 :: s.framed else s.framed }
      else none
    | none => none
  | .lost k => some { s with running := s.running.filter (· ≠ k), writers := s.writers.filter (·.1 ≠ k) }
  | .token t =>
    if s.owed = true ∧ s.gone = false ∧ (Sys.endsWait t = true ∨ s.batch ∈ s.framed) then
      some { s with owed := false, done := s.done ++ [t] }
    else none
  | .gone => some { s with gone := true, running := [], writers := [] }
  | .round done trace => s.round done trace
  | .throw => if s.gone = true ∧ s.done = [] ∧ s.phase ≠ .dead then some { s with phase := .dead } else none

end

/-! ## The condition -/

/-- Nothing of a RUN is under way in the trace pipe. -/
structure State.Clean (s : State) : Prop where
  pipe : s.pipe = []
  running : s.running = []
  writers : s.writers = []

/-- A turn that returns before the frame is complete leaves nothing of it behind; the length of a payload fits. -/
def Clear (s : State) : Act → Prop
  | .round done trace => ∀ s', s.round done trace = some s' → s'.phase = .idle → s'.trace = none → s'.Clean
  | .produce _ p => (data p).length < 2 ^ 32
  | _ => True

/-! ## Frames -/

theorem length_frame {p : Payload} (h : (data p).length < 2 ^ 32) : (frame p).length = 4 + (data p).length := by
  rw [frame, List.length_append, length_leBytes, Nat.mod_eq_of_lt h, List.take_length]

theorem leValue_frame {p : Payload} (h : (data p).length < 2 ^ 32) : leValue ((frame p).take 4) = (data p).length := by
  have hlen : (leBytes 4 (data p).length).length = 4 := length_leBytes _ _
  rw [frame, List.take_append_of_le_length (Nat.le_of_eq hlen.symm), List.take_of_length_le (Nat.le_of_eq hlen),
    leValue_leBytes]
  exact Nat.mod_eq_of_lt (by norm_num at h ⊢; exact h)

theorem drop_frame {p : Payload} (h : (data p).length < 2 ^ 32) : (frame p).drop 4 = data p := by
  have hlen : (leBytes 4 (data p).length).length = 4 := length_leBytes _ _
  rw [frame, List.drop_append_of_le_length (Nat.le_of_eq hlen.symm), List.drop_of_length_le (Nat.le_of_eq hlen),
    List.nil_append, Nat.mod_eq_of_lt h, List.take_length]

/-- What is read of a frame is complete when all of it is, and then it is the payload. -/
theorem frameOf_read {p : Payload} (h : (data p).length < 2 ^ 32) {b rest : Bytes} (hb : b ++ rest = frame p) :
    frameOf b = if rest = [] then some (data p) else none := by
  have hlength := congrArg List.length hb
  rw [List.length_append, length_frame h] at hlength
  have htake : 4 ≤ b.length → b.take 4 = (frame p).take 4 := by
    intro hle
    rw [← hb, List.take_append_of_le_length hle]
  by_cases hrest : rest = []
  · subst hrest
    rw [List.append_nil] at hb
    rw [List.length_nil] at hlength
    rw [frameOf, if_pos rfl, hb, leValue_frame h, drop_frame h, List.take_length, if_pos]
    rw [length_frame h]
    omega
  · have hpos := List.length_pos_iff.2 hrest
    rw [frameOf, if_neg hrest, if_neg]
    rintro ⟨hfour, hlen⟩
    rw [htake hfour, leValue_frame h] at hlen
    omega

theorem frameOf_nil : frameOf [] = none := by simp [frameOf]

theorem frame_ne_nil (p : Payload) : frame p ≠ [] := by
  intro h
  have := congrArg List.length h
  simp [frame] at this

@[simp] theorem bytesOf_append (a b : List Tagged) : bytesOf (a ++ b) = bytesOf a ++ bytesOf b := List.map_append

@[simp] theorem bytesOf_tagged (k : Nat) (bs : Bytes) : bytesOf (tagged k bs) = bs := by
  simp [bytesOf, tagged]

@[simp] theorem bytesOf_eq_nil {t : List Tagged} : bytesOf t = [] ↔ t = [] := by simp [bytesOf]

/-! ## The invariant -/

/-- How far the frame of the RUN has got: `p` is what it is of, `rest` what is not written yet. -/
structure FrameAt (s : State) (p : Payload) (rest : Bytes) : Prop where
  produced : (s.batch, p) ∈ s.produced
  fits : (data p).length < 2 ^ 32
  bytes : bytesOf (s.buf ++ s.pipe) ++ rest = frame p
  running : s.running = []
  writers : s.writers = [(s.batch, rest)] ∧ rest ≠ [] ∧ s.batch ∉ s.framed ∨
    s.writers = [] ∧ (s.batch ∈ s.framed → rest = [])

/-- Nothing of the frame of the RUN is written. -/
structure Unbegun (s : State) : Prop where
  buf : s.buf = []
  pipe : s.pipe = []
  writers : s.writers = []
  framed : s.batch ∉ s.framed
  running : s.running = [] ∨ s.running = [s.batch]

def FrameState (s : State) : Prop := Unbegun s ∨ ∃ p rest, FrameAt s p rest

/-- The token of the RUN: not written, in the pipe, or read. -/
inductive TokenAt (s : State) : Prop
  | owed (owed : s.owed = true) (done : s.done = []) (token : s.token = none)
  | sent (t : DoneToken) (owed : s.owed = false) (done : s.done = [t]) (token : s.token = none)
      (good : Sys.endsWait t = true ∨ s.batch ∈ s.framed)
  | read (t : DoneToken) (owed : s.owed = false) (done : s.done = []) (token : s.token = some t)
      (good : Sys.endsWait t = true ∨ s.batch ∈ s.framed)

/-- In a turn of `read_done_and_trace`. -/
structure Reading (s : State) : Prop where
  frame : FrameState s
  token : TokenAt s
  trace : s.trace = frameOf (bytesOf s.buf) ∨ s.trace = some [] ∧ s.gone = true ∧ s.pipe = []

/-- Between two turns: the turn that ends the wait has returned. -/
structure Waiting (s : State) : Prop where
  reading : Reading s
  pending : ∀ t, s.token = some t → Sys.endsWait t = false ∧ s.trace = none

/-- A line is of its own RUN. -/
def Line.Own (s : State) (l : Line) : Prop :=
  l.traceData = [] ∨ ∃ p, (l.batch, p) ∈ s.produced ∧ l.traceData = data p

/-- What holds also after an exception. -/
structure Base (s : State) : Prop where
  own : ∀ l ∈ s.responses, l.Own s
  gone : s.gone = true → s.running = [] ∧ s.writers = []
  framed : ∀ k ∈ s.framed, k ≤ s.batch
  running : ∀ k ∈ s.running, k ≤ s.batch ∧ k ∉ s.produced.map Prod.fst
  produced : ∀ k ∈ s.produced.map Prod.fst, k ≤ s.batch
  once : (s.produced.map Prod.fst).Nodup
  writers : ∀ w ∈ s.writers, w.1 ≤ s.batch

/-- Between two RUNs. -/
structure Resting (s : State) : Prop where
  clean : s.Clean
  owed : s.owed = false
  done : s.done = []

structure Inv (s : State) : Prop where
  base : Base s
  idle : s.phase = .idle → Resting s
  waiting : s.phase = .waiting → Waiting s

theorem inv_start : Inv {} where
  base := by constructor <;> simp
  idle _ := ⟨⟨rfl, rfl, rfl⟩, rfl, rfl⟩
  waiting h := by cases h

section
variable {s s' : State}

theorem FrameState.congr (h : FrameState s) (batch : s'.batch = s.batch) (buf : s'.buf = s.buf) (pipe : s'.pipe = s.pipe)
    (running : s'.running = s.running) (writers : s'.writers = s.writers) (framed : s'.framed = s.framed)
    (produced : s'.produced = s.produced) : FrameState s' := by
  rcases h with h | ⟨p, rest, h⟩
  · refine .inl ⟨?_, ?_, ?_, ?_, ?_⟩
    · rw [buf, h.buf]
    · rw [pipe, h.pipe]
    · rw [writers, h.writers]
    · rw [batch, framed]
      exact h.framed
    · rw [running, batch]
      exact h.running
  · refine .inr ⟨p, rest, ?_, h.fits, ?_, ?_, ?_⟩
    · rw [batch, produced]
      exact h.produced
    · rw [buf, pipe, h.bytes]
    · rw [running, h.running]
    · rw [writers, batch, framed]
      exact h.writers

theorem TokenAt.congr (h : TokenAt s) (owed : s'.owed = s.owed) (done : s'.done = s.done) (token : s'.token = s.token)
    (framed : s.batch ∈ s.framed → s'.batch ∈ s'.framed) : TokenAt s' := by
  cases h with
  | owed ho hd ht => exact .owed (owed.trans ho) (done.trans hd) (token.trans ht)
  | sent t ho hd ht hg => exact .sent t (owed.trans ho) (done.trans hd) (token.trans ht) (hg.imp_right framed)
  | read t ho hd ht hg => exact .read t (owed.trans ho) (done.trans hd) (token.trans ht) (hg.imp_right framed)

/-! ## The steps of the children -/

/-- A RUN meets nothing of an earlier one. -/
theorem inv_run {capacity : Nat} (h : Inv s) (hs : step capacity s .run = some s') : Inv s' := by
  simp only [step] at hs
  split at hs
  · rename_i hphase
    have hrest := h.idle hphase.1
    have hclean := hrest.clean
    cases hs
    refine ⟨⟨h.base.own, ?_, ?_, ?_, ?_, h.base.once, ?_⟩, (fun hidle => by cases hidle), fun _ => ⟨⟨?_, ?_, ?_⟩, ?_⟩⟩
    · intro hgone
      simp only at hgone
      rw [hphase.2] at hgone
      cases hgone
    · exact fun k hk => Nat.le_succ_of_le (h.base.framed k hk)
    · intro k hk
      simp only [hclean.running, List.mem_singleton] at hk
      subst hk
      exact ⟨Nat.le_refl _, fun hmem => absurd (h.base.produced _ hmem) (Nat.not_succ_le_self _)⟩
    · exact fun k hk => Nat.le_succ_of_le (h.base.produced k hk)
    · exact fun w hw => Nat.le_succ_of_le (h.base.writers w hw)
    · refine .inl ⟨rfl, hclean.pipe, hclean.writers, ?_, .inr ?_⟩
      · exact fun hmem => absurd (h.base.framed _ hmem) (Nat.not_succ_le_self _)
      · simp only [hclean.running]
    · exact .owed rfl hrest.done rfl
    · exact .inl frameOf_nil.symm
    · intro t ht
      cases ht
  · cases hs

theorem inv_produce {capacity : Nat} {k : Nat} {p : Payload} (h : Inv s) (hfits : (data p).length < 2 ^ 32)
    (hs : step capacity s (.produce k p) = some s') : Inv s' := by
  simp only [step] at hs
  split at hs
  · rename_i hk
    cases hs
    have hown : ∀ l : Line, l.Own s → l.Own { s with produced := (k, p) :: s.produced } := by
      rintro l (hl | ⟨q, hq, hl⟩)
      · exact .inl hl
      · exact .inr ⟨q, List.mem_cons_of_mem _ hq, hl⟩
    refine ⟨⟨fun l hl => hown l (h.base.own l hl), ?_, h.base.framed, ?_, ?_, ?_, ?_⟩, ?_, ?_⟩
    · intro hgone
      simp only at hgone
      rw [hk.2] at hgone
      cases hgone
    · intro j hj
      simp only [List.mem_filter, decide_eq_true_eq] at hj
      have hold := h.base.running j hj.1
      refine ⟨hold.1, ?_⟩
      simp only [List.map_cons, List.mem_cons, not_or]
      exact ⟨hj.2, hold.2⟩
    · intro j hj
      simp only [List.map_cons, List.mem_cons] at hj
      rcases hj with rfl | hj
      · exact (h.base.running j hk.1).1
      · exact h.base.produced j hj
    · simp only [List.map_cons, List.nodup_cons]
      exact ⟨(h.base.running k hk.1).2, h.base.once⟩
    · intro w hw
      simp only [List.mem_append, List.mem_singleton] at hw
      rcases hw with hw | rfl
      · exact h.base.writers w hw
      · exact (h.base.running k hk.1).1
    · intro hphase
      have hrunning := (h.idle hphase).clean.running
      rw [hrunning] at hk
      cases hk.1
    · intro hphase
      have hw := h.waiting hphase
      rcases hw.reading.frame with hun | ⟨q, rest, hat⟩
      · have hrunning : s.running = [s.batch] := by
          rcases hun.running with hr | hr
          · rw [hr] at hk
            cases hk.1
          · exact hr
        have hbatch : k = s.batch := by
          rw [hrunning] at hk
          exact List.mem_singleton.1 hk.1
        subst hbatch
        refine ⟨⟨.inr ⟨p, frame p, ?_⟩, ?_, hw.reading.trace⟩, hw.pending⟩
        · refine ⟨List.mem_cons_self .., hfits, ?_, ?_, .inl ⟨?_, frame_ne_nil p, hun.framed⟩⟩
          · simp [hun.buf, hun.pipe, bytesOf]
          · simp [hrunning]
          · simp [hun.writers]
        · exact hw.reading.token.congr rfl rfl rfl id
      · rw [hat.running] at hk
        cases hk.1
  · cases hs

theorem inv_write {capacity : Nat} {i n : Nat} (h : Inv s) (hs : step capacity s (.write i n) = some s') : Inv s' := by
  simp only [step] at hs
  cases hw : s.writers[i]? with
  | none =>
    rw [hw] at hs
    cases hs
  | some w =>
    rw [hw] at hs
    dsimp only at hs
    split at hs
    · rename_i hn
      cases hs
      have hmem : w ∈ s.writers := List.mem_of_getElem? hw
      have hsub : ∀ v ∈ (if n = w.2.length then s.writers.eraseIdx i else s.writers.set i (w.1, w.2.drop n)),
          v ∈ s.writers ∨ v.1 = w.1 := by
        intro v hv
        split at hv
        · exact .inl (List.mem_of_mem_eraseIdx hv)
        · rcases List.mem_or_eq_of_mem_set hv with hv | rfl
          · exact .inl hv
          · exact .inr rfl
      refine ⟨⟨h.base.own, ?_, ?_, h.base.running, h.base.produced, h.base.once, ?_⟩, ?_, ?_⟩
      · intro hgone
        rw [(h.base.gone hgone).2] at hmem
        cases hmem
      · intro k hk
        simp only at hk
        split at hk
        · rcases List.mem_cons.1 hk with rfl | hk
          · exact h.base.writers w hmem
          · exact h.base.framed k hk
        · exact h.base.framed k hk
      · intro v hv
        rcases hsub v hv with hv | hv
        · exact h.base.writers v hv
        · rw [hv]
          exact h.base.writers w hmem
      · intro hphase
        rw [(h.idle hphase).clean.writers] at hmem
        cases hmem
      · intro hphase
        have hwait := h.waiting hphase
        rcases hwait.reading.frame with hun | ⟨p, rest, hat⟩
        · rw [hun.writers] at hmem
          cases hmem
        · rcases hat.writers with ⟨hwriters, hrest, hframed⟩ | ⟨hwriters, -⟩
          · rw [hwriters] at hw hmem ⊢
            have hi : i = 0 := by
              cases i with
              | zero => rfl
              | succ i => simp at hw
            subst hi
            have hwv : w = (s.batch, rest) := List.mem_singleton.1 hmem
            subst hwv
            have hbytes : bytesOf (s.buf ++ (s.pipe ++ tagged s.batch (rest.take n))) ++ rest.drop n = frame p := by
              rw [← hat.bytes]
              simp only [bytesOf_append, bytesOf_tagged, List.append_assoc, List.take_append_drop]
            refine ⟨⟨.inr ⟨p, rest.drop n, hat.produced, hat.fits, hbytes, hat.running, ?_⟩, ?_, ?_⟩, hwait.pending⟩
            · by_cases hlast : n = rest.length
              · refine .inr ⟨?_, fun _ => ?_⟩
                · simp [hlast]
                · simp [hlast]
              · refine .inl ⟨?_, ?_, ?_⟩
                · simp [hlast]
                · intro hnil
                  have hle := List.drop_eq_nil_iff.1 hnil
                  have hn' : n ≤ rest.length := hn.2.1
                  omega
                · simpa [hlast] using hframed
            · have hmono : s.batch ∈ s.framed → s.batch ∈ (if n = rest.length then s.batch :: s.framed else s.framed) := by
                intro hm
                split
                · exact List.mem_cons_of_mem _ hm
                · exact hm
              exact hwait.reading.token.congr rfl rfl rfl hmono
            · rcases hwait.reading.trace with htr | ⟨htr, hgone, hpipe⟩
              · exact .inl htr
              · have hempty := (h.base.gone hgone).2
                rw [hwriters] at hempty
                cases hempty
          · rw [hwriters] at hmem
            cases hmem
    · cases hs

theorem inv_lost {capacity : Nat} {k : Nat} (h : Inv s) (hs : step capacity s (.lost k) = some s') : Inv s' := by
  simp only [step, Option.some.injEq] at hs
  subst hs
  have hrunning : ∀ j ∈ s.running.filter (· ≠ k), j ∈ s.running := fun j hj => List.mem_of_mem_filter hj
  refine ⟨⟨h.base.own, ?_, h.base.framed, fun j hj => h.base.running j (hrunning j hj), h.base.produced, h.base.once,
    fun w hw => h.base.writers w (List.mem_of_mem_filter hw)⟩, ?_, ?_⟩
  · intro hgone
    have := h.base.gone hgone
    simp [this]
  · intro hphase
    have hrest := h.idle hphase
    exact ⟨⟨hrest.clean.pipe, by simp [hrest.clean.running], by simp [hrest.clean.writers]⟩, hrest.owed, hrest.done⟩
  · intro hphase
    have hwait := h.waiting hphase
    refine ⟨⟨?_, ?_, hwait.reading.trace⟩, hwait.pending⟩
    · rcases hwait.reading.frame with hun | ⟨p, rest, hat⟩
      · refine .inl ⟨hun.buf, hun.pipe, by simp [hun.writers], hun.framed, ?_⟩
        rcases hun.running with hr | hr
        · exact .inl (by simp [hr])
        · by_cases hk : s.batch = k <;> simp [hr, hk]
      · refine .inr ⟨p, rest, hat.produced, hat.fits, hat.bytes, by simp [hat.running], ?_⟩
        rcases hat.writers with ⟨hwriters, hrest, hframed⟩ | ⟨hwriters, hframed⟩
        · by_cases hk : s.batch = k
          · exact .inr ⟨by simp [hwriters, hk], fun hm => absurd hm hframed⟩
          · exact .inl ⟨by simp [hwriters, hk], hrest, hframed⟩
        · exact .inr ⟨by simp [hwriters], hframed⟩
    · exact hwait.reading.token.congr rfl rfl rfl id

theorem inv_token {capacity : Nat} {t : DoneToken} (h : Inv s) (hs : step capacity s (.token t) = some s') : Inv s' := by
  simp only [step] at hs
  split at hs
  · rename_i ht
    cases hs
    refine ⟨⟨h.base.own, h.base.gone, h.base.framed, h.base.running, h.base.produced, h.base.once, h.base.writers⟩, ?_, ?_⟩
    · intro hphase
      rw [(h.idle hphase).owed] at ht
      cases ht.1
    · intro hphase
      have hwait := h.waiting hphase
      refine ⟨⟨?_, ?_, hwait.reading.trace⟩, hwait.pending⟩
      · exact hwait.reading.frame.congr rfl rfl rfl rfl rfl rfl rfl
      · cases hwait.reading.token with
        | owed ho hd htok => exact .sent t rfl (by simp [hd]) htok ht.2.2
        | sent t' ho hd htok hg =>
          rw [ho] at ht
          cases ht.1
        | read t' ho hd htok hg =>
          rw [ho] at ht
          cases ht.1
  · cases hs

theorem inv_gone {capacity : Nat} (h : Inv s) (hs : step capacity s .gone = some s') : Inv s' := by
  simp only [step, Option.some.injEq] at hs
  subst hs
  refine ⟨⟨h.base.own, fun _ => ⟨rfl, rfl⟩, h.base.framed, ?_, h.base.produced, h.base.once, ?_⟩, ?_, ?_⟩
  · intro k hk
    cases hk
  · intro w hw
    cases hw
  · intro hphase
    have hrest := h.idle hphase
    exact ⟨⟨hrest.clean.pipe, rfl, rfl⟩, hrest.owed, hrest.done⟩
  · intro hphase
    have hwait := h.waiting hphase
    refine ⟨⟨?_, ?_, ?_⟩, hwait.pending⟩
    · rcases hwait.reading.frame with hun | ⟨p, rest, hat⟩
      · exact .inl ⟨hun.buf, hun.pipe, rfl, hun.framed, .inl rfl⟩
      · refine .inr ⟨p, rest, hat.produced, hat.fits, hat.bytes, rfl, .inr ⟨rfl, ?_⟩⟩
        rcases hat.writers with ⟨-, -, hframed⟩ | ⟨-, hframed⟩
        · exact fun hm => absurd hm hframed
        · exact hframed
    · exact hwait.reading.token.congr rfl rfl rfl id
    · rcases hwait.reading.trace with htr | ⟨htr, -, hpipe⟩
      · exact .inl htr
      · exact .inr ⟨htr, rfl, hpipe⟩

theorem inv_throw {capacity : Nat} (h : Inv s) (hs : step capacity s .throw = some s') : Inv s' := by
  simp only [step] at hs
  split at hs
  · cases hs
    refine ⟨⟨h.base.own, h.base.gone, h.base.framed, h.base.running, h.base.produced, h.base.once, h.base.writers⟩, ?_, ?_⟩
    · intro hphase
      cases hphase
    · intro hphase
      cases hphase
  · cases hs

/-! ## A turn of the loop -/

theorem takeToken_spec (h : Reading s) (hbase : Base s) {done : Bool} (hs : s.takeToken done = some s') :
    Reading s' ∧ Base s' ∧ s'.phase = s.phase := by
  unfold State.takeToken at hs
  split at hs
  · cases hd : s.done with
    | nil =>
      rw [hd] at hs
      cases hs
    | cons t ts =>
      rw [hd] at hs
      cases hs
      refine ⟨⟨?_, ?_, h.trace⟩, ⟨hbase.own, hbase.gone, hbase.framed, hbase.running, hbase.produced, hbase.once,
        hbase.writers⟩, rfl⟩
      · exact h.frame.congr rfl rfl rfl rfl rfl rfl rfl
      · cases h.token with
        | owed ho hdone ht =>
          rw [hd] at hdone
          cases hdone
        | sent t' ho hdone ht hg =>
          rw [hd] at hdone
          cases hdone
          exact .read t ho rfl rfl hg
        | read t' ho hdone ht hg =>
          rw [hd] at hdone
          cases hdone
  · cases hs
    exact ⟨h, hbase, rfl⟩

theorem takeTrace_spec (h : Reading s) (hbase : Base s) {e : Event} (hs : s.takeTrace e = some s') :
    Reading s' ∧ Base s' ∧ s'.phase = s.phase := by
  cases e with
  | none =>
    cases hs
    exact ⟨h, hbase, rfl⟩
  | read n =>
    simp only [State.takeTrace] at hs
    split at hs
    · rename_i hn
      cases hs
      refine ⟨⟨?_, ?_, .inl rfl⟩, ⟨hbase.own, hbase.gone, hbase.framed, hbase.running, hbase.produced, hbase.once,
        hbase.writers⟩, rfl⟩
      · rcases h.frame with hun | ⟨p, rest, hat⟩
        · have hlen := hn.2.2.1
          rw [hun.pipe] at hlen
          have hpos := hn.2.1
          simp at hlen
          omega
        · refine .inr ⟨p, rest, hat.produced, hat.fits, ?_, hat.running, hat.writers⟩
          rw [← hat.bytes]
          simp only [List.append_assoc, List.take_append_drop]
      · exact h.token.congr rfl rfl rfl id
    · cases hs
  | eof =>
    simp only [State.takeTrace] at hs
    split at hs
    · rename_i he
      cases hs
      refine ⟨⟨?_, ?_, .inr ⟨rfl, he.2⟩⟩, ⟨hbase.own, hbase.gone, hbase.framed, hbase.running, hbase.produced, hbase.once,
        hbase.writers⟩, rfl⟩
      · exact h.frame.congr rfl rfl rfl rfl rfl rfl rfl
      · exact h.token.congr rfl rfl rfl id
    · cases hs

/-- **The trace data of a complete frame is the payload of the RUN, and nothing of the frame is left anywhere.** -/
theorem traceData_spec (h : Reading s) (hbase : Base s) {d : Bytes} (htrace : s.trace = some d) :
    s.Clean ∧ (d = [] ∨ ∃ p, (s.batch, p) ∈ s.produced ∧ d = data p) := by
  rcases h.trace with htr | ⟨htr, hgone, hpipe⟩
  · rw [htr] at htrace
    rcases h.frame with hun | ⟨p, rest, hat⟩
    · rw [hun.buf] at htrace
      simp [bytesOf, frameOf_nil] at htrace
    · have hbytes := hat.bytes
      rw [bytesOf_append, List.append_assoc] at hbytes
      have hread := frameOf_read hat.fits hbytes
      rw [htrace] at hread
      by_cases hrest : bytesOf s.pipe ++ rest = []
      · rw [if_pos hrest] at hread
        cases hread
        have hempty := List.append_eq_nil_iff.1 hrest
        refine ⟨⟨bytesOf_eq_nil.1 hempty.1, hat.running, ?_⟩, .inr ⟨p, hat.produced, rfl⟩⟩
        rcases hat.writers with ⟨-, hne, -⟩ | ⟨hwriters, -⟩
        · exact absurd hempty.2 hne
        · exact hwriters
      · rw [if_neg hrest] at hread
        cases hread
  · rw [htr] at htrace
    cases htrace
    have hempty := hbase.gone hgone
    exact ⟨⟨hpipe, hempty.1, hempty.2⟩, .inl rfl⟩

theorem inv_settle (h : Reading s) (hbase : Base s) (hphase : s.phase = .waiting)
    (hclear : s.settle.phase = .idle → s.settle.trace = none → s.settle.Clean) : Inv s.settle := by
  unfold State.settle at hclear ⊢
  cases htok : s.token with
  | none =>
    refine ⟨hbase, fun hidle => ?_, fun _ => ⟨h, fun t ht => ?_⟩⟩
    · dsimp only at hidle
      rw [hphase] at hidle
      cases hidle
    · dsimp only at ht
      rw [htok] at ht
      cases ht
  | some t =>
    rw [htok] at hclear
    dsimp only at hclear ⊢
    have hread : s.owed = false ∧ s.done = [] := by
      cases h.token with
      | owed ho hd ht =>
        rw [htok] at ht
        cases ht
      | sent t' ho hd ht hg =>
        rw [htok] at ht
        cases ht
      | read t' ho hd ht hg => exact ⟨ho, hd⟩
    by_cases hret : Sys.endsWait t = true ∨ s.trace.isSome = true
    · rw [if_pos hret] at hclear ⊢
      have hspec : s.Clean ∧ (s.trace.getD [] = [] ∨ ∃ p, (s.batch, p) ∈ s.produced ∧ s.trace.getD [] = data p) := by
        cases htrace : s.trace with
        | none =>
          have hc := hclear rfl htrace
          exact ⟨⟨hc.pipe, hc.running, hc.writers⟩, .inl rfl⟩
        | some d => exact traceData_spec h hbase htrace
      refine ⟨⟨?_, hbase.gone, hbase.framed, hbase.running, hbase.produced, hbase.once, hbase.writers⟩, fun _ => ?_,
        fun hw => by cases hw⟩
      · intro l hl
        rcases List.mem_cons.1 hl with rfl | hl
        · exact hspec.2
        · exact hbase.own l hl
      · exact ⟨⟨hspec.1.pipe, hspec.1.running, hspec.1.writers⟩, hread.1, hread.2⟩
    · rw [if_neg hret]
      refine ⟨hbase, fun hidle => ?_, fun _ => ⟨h, fun t' ht => ?_⟩⟩
      · rw [hphase] at hidle
        cases hidle
      · rw [htok] at ht
        cases ht
        simp only [not_or, Bool.not_eq_true, Option.isSome_eq_false_iff, Option.isNone_iff_eq_none] at hret
        exact hret

theorem inv_round {done : Bool} {e : Event} (h : Inv s) (hclear : Clear s (.round done e))
    (hs : s.round done e = some s') : Inv s' := by
  have hc := hclear s' hs
  unfold State.round at hs
  split at hs
  · rename_i hw
    obtain ⟨s₁, h₁, hs⟩ := Option.bind_eq_some_iff.1 hs
    obtain ⟨s₂, h₂, rfl⟩ := Option.map_eq_some_iff.1 hs
    have hread := (h.waiting hw.1).reading
    obtain ⟨hread₁, hbase₁, hphase₁⟩ := takeToken_spec hread h.base h₁
    obtain ⟨hread₂, hbase₂, hphase₂⟩ := takeTrace_spec hread₁ hbase₁ h₂
    exact inv_settle hread₂ hbase₂ (by rw [hphase₂, hphase₁, hw.1]) hc
  · cases hs

theorem inv_step {capacity : Nat} (s : State) (a : Act) (s' : State) (h : Inv s) (hclear : Clear s a)
    (hs : step capacity s a = some s') : Inv s' := by
  cases a with
  | run => exact inv_run h hs
  | produce k p => exact inv_produce h hclear hs
  | write i n => exact inv_write h hs
  | lost k => exact inv_lost h hs
  | token t => exact inv_token h hs
  | gone => exact inv_gone h hs
  | round done e => exact inv_round h hclear hs
  | throw => exact inv_throw h hs

end

/-! ## Every answer is that of its own RUN -/

/-- `Clear`, computed. -/
def clearCheck (s : State) : Act → Bool
  | .round done trace => (s.round done trace).all fun s' =>
      s'.phase ≠ .idle ∨ s'.trace ≠ none ∨ (s'.pipe = [] ∧ s'.running = [] ∧ s'.writers = [])
  | .produce _ p => (data p).length < 2 ^ 32
  | _ => true

theorem clear_of_check {s : State} {a : Act} (h : clearCheck s a = true) : Clear s a := by
  cases a with
  | round done trace =>
    intro s' hs hidle htrace
    rw [clearCheck, hs, Option.all_some, decide_eq_true_eq] at h
    rcases h with h | h | h
    · exact absurd hidle h
    · exact absurd htrace h
    · exact ⟨h.1, h.2.1, h.2.2⟩
  | produce k p =>
    have hfits : (data p).length < 2 ^ 32 := of_decide_eq_true h
    exact hfits
  | run => trivial
  | write i n => trivial
  | lost k => trivial
  | token t => trivial
  | gone => trivial
  | throw => trivial

def success : DoneToken := ⟨0, 0⟩

def noPayload : Payload := ([], [])

/-- A RUN that reports no result; its frame is written in two pieces, and the token comes while it is read. -/
def pieces : List Act :=
  [.run, .produce 1 noPayload, .write 0 3, .round false (.read 2), .write 0 ((frame noPayload).length - 3), .token success,
    .round true (.read 1), .round false (.read ((frame noPayload).length - 3))]

/-- The query child of the first RUN is killed after its frame and before it has been read; the second RUN ends well. -/
def stale : List Act :=
  [.run, .produce 1 ([], [97]), .write 0 (frame ([], [97])).length, .token ⟨0, 11⟩, .round true .none, .run,
    .produce 2 noPayload, .write 0 (frame noPayload).length, .token success,
    .round true (.read ((frame ([], [97])).length + (frame noPayload).length))]

/-- **A return that is not clear**: the second line is written from the payload of the first RUN. -/
theorem stale_results : (Trace.exec (step 4096) {} stale).map (fun s => (s.produced, s.responses)) =
    some ([(2, noPayload), (1, ([], [97]))], [⟨2, success, data ([], [97])⟩, ⟨1, ⟨0, 11⟩, []⟩]) := by
  decide +kernel

/-! ## Every RUN is answered -/

/-- No process dies or reports a failure. -/
def Act.healthy : Act → Bool
  | .produce _ _ => true
  | .write _ _ => true
  | .token t => !Sys.endsWait t
  | .round _ trace => trace ≠ .eof
  | _ => false

/-- What the children still have to write of their frames. -/
def unwritten (writers : List (Nat × Bytes)) : Nat := (writers.map fun w => w.2.length).sum

def State.rank (s : State) : Nat × Nat :=
  (s.running.length, 2 * unwritten s.writers + s.pipe.length + 2 * s.owed.toNat + s.done.length)

theorem unwritten_eraseIdx {writers : List (Nat × Bytes)} {i : Nat} {w : Nat × Bytes} (h : writers[i]? = some w) :
    unwritten (writers.eraseIdx i) + w.2.length = unwritten writers := by
  induction writers generalizing i with
  | nil => simp at h
  | cons v writers ih =>
    cases i with
    | zero =>
      simp only [List.getElem?_cons_zero, Option.some.injEq] at h
      subst h
      simp [unwritten, Nat.add_comm]
    | succ i =>
      have := ih h
      simp only [unwritten, List.eraseIdx_cons_succ, List.map_cons, List.sum_cons] at this ⊢
      omega

theorem unwritten_set {writers : List (Nat × Bytes)} {i : Nat} {w v : Nat × Bytes} (h : writers[i]? = some w) :
    unwritten (writers.set i v) + w.2.length = unwritten writers + v.2.length := by
  induction writers generalizing i with
  | nil => simp at h
  | cons u writers ih =>
    cases i with
    | zero =>
      simp only [List.getElem?_cons_zero, Option.some.injEq] at h
      subst h
      simp only [unwritten, List.set_cons_zero, List.map_cons, List.sum_cons]
      omega
    | succ i =>
      have := ih h
      simp only [unwritten, List.set_cons_succ, List.map_cons, List.sum_cons] at this ⊢
      omega

section
variable {capacity : Nat} {s s' : State}

theorem settle_rank (s : State) : s.settle.rank = s.rank := by
  unfold State.settle
  cases s.token with
  | none => rfl
  | some t =>
    dsimp only
    split <;> rfl

theorem takeToken_rank {done : Bool} (hs : s.takeToken done = some s') :
    s'.running = s.running ∧ s'.writers = s.writers ∧ s'.pipe = s.pipe ∧ s'.owed = s.owed ∧
      s'.done.length + done.toNat = s.done.length := by
  unfold State.takeToken at hs
  split at hs
  · rename_i hdone
    cases hd : s.done with
    | nil =>
      rw [hd] at hs
      cases hs
    | cons t ts =>
      rw [hd] at hs
      cases hs
      simp [hdone]
  · rename_i hdone
    cases hs
    simp [hdone]

theorem takeTrace_rank {e : Event} (hs : s.takeTrace e = some s') (he : e ≠ .eof) :
    s'.running = s.running ∧ s'.writers = s.writers ∧ s'.done = s.done ∧ s'.owed = s.owed ∧
      s'.pipe.length ≤ s.pipe.length ∧ (e ≠ .none → s'.pipe.length < s.pipe.length) := by
  cases e with
  | none =>
    cases hs
    simp
  | read n =>
    simp only [State.takeTrace] at hs
    split at hs
    · rename_i hn
      cases hs
      refine ⟨rfl, rfl, rfl, rfl, by simp, fun _ => ?_⟩
      simp only [List.length_drop]
      omega
    · cases hs
  | eof => exact absurd rfl he

/-- Every such step brings the answer nearer. -/
theorem healthy_rank {a : Act} (ha : a.healthy = true) (hs : step capacity s a = some s') :
    Prod.Lex (· < ·) (· < ·) s'.rank s.rank := by
  cases a with
  | run => cases ha
  | lost k => cases ha
  | gone => cases ha
  | throw => cases ha
  | produce k p =>
    simp only [step] at hs
    split at hs
    · rename_i hk
      cases hs
      refine Prod.Lex.left _ _ ?_
      exact List.length_filter_lt_length_iff_exists.2 ⟨k, hk.1, by simp⟩
    · cases hs
  | write i n =>
    simp only [step] at hs
    cases hw : s.writers[i]? with
    | none =>
      rw [hw] at hs
      cases hs
    | some w =>
      rw [hw] at hs
      dsimp only at hs
      split at hs
      · rename_i hn
        cases hs
        refine Prod.Lex.right _ ?_
        have herase := unwritten_eraseIdx hw
        have hset := unwritten_set (v := (w.1, w.2.drop n)) hw
        simp only [List.length_append, tagged, List.length_map, List.length_take, List.length_drop] at hset ⊢
        split <;> omega
      · cases hs
  | token t =>
    simp only [step] at hs
    split at hs
    · rename_i ht
      cases hs
      refine Prod.Lex.right _ ?_
      simp only [ht.1, List.length_append, List.length_singleton, Bool.toNat_true, Bool.toNat_false]
      omega
    · cases hs
  | round done e =>
    have he : e ≠ .eof := by simpa [Act.healthy] using ha
    simp only [step, State.round] at hs
    split at hs
    · rename_i hw
      obtain ⟨s₁, h₁, hs⟩ := Option.bind_eq_some_iff.1 hs
      obtain ⟨s₂, h₂, rfl⟩ := Option.map_eq_some_iff.1 hs
      obtain ⟨hr₁, hw₁, hp₁, ho₁, hd₁⟩ := takeToken_rank h₁
      obtain ⟨hr₂, hw₂, hd₂, ho₂, hp₂, hlt⟩ := takeTrace_rank h₂ he
      rw [settle_rank, State.rank, State.rank, hr₂, hr₁, hw₂, hw₁, ho₂, ho₁, hd₂]
      refine Prod.Lex.right _ ?_
      rw [hp₁] at hp₂ hlt
      rcases hw.2 with rfl | hne
      · simp only [Bool.toNat_true] at hd₁
        omega
      · have := hlt hne
        omega
    · cases hs

theorem round_token {t : DoneToken} (hphase : s.phase = .waiting) (hdone : s.done = [t]) :
    (step capacity s (.round true .none)).isSome = true := by
  simp [step, State.round, hphase, State.takeToken, hdone, State.takeTrace]

theorem round_byte (hphase : s.phase = .waiting) (htrace : s.trace = none) (hpipe : s.pipe ≠ []) :
    (step capacity s (.round false (.read 1))).isSome = true := by
  have := List.length_pos_iff.2 hpipe
  simp [step, State.round, hphase, State.takeToken, State.takeTrace, htrace]
  omega

/-- The query child has the RUN, is writing its frame or has written it, or a token says what became of it. -/
def Well (s : State) : Prop := s.owed = true → s.running ≠ [] ∨ s.writers ≠ [] ∨ s.batch ∈ s.framed

/-- A frame that does not fit into the pipe is read while it is written. -/
theorem unfinished_enabled (hcapacity : 0 < capacity) (h : Waiting s) (hphase : s.phase = .waiting) {p : Payload}
    {rest : Bytes} (hat : FrameAt s p rest) (hwriters : s.writers = [(s.batch, rest)]) (hrest : rest ≠ []) :
    ∃ a, a.healthy = true ∧ (step capacity s a).isSome = true := by
  have hpos := List.length_pos_iff.2 hrest
  by_cases hroom : s.pipe.length + 1 ≤ capacity
  · refine ⟨.write 0 1, rfl, ?_⟩
    simp [step, hwriters, hroom]
    omega
  · have hpipe : s.pipe ≠ [] := by
      rintro hnil
      rw [hnil, List.length_nil] at hroom
      omega
    refine ⟨.round false (.read 1), rfl, round_byte hphase ?_ hpipe⟩
    rcases h.reading.trace with htr | ⟨-, -, hnil⟩
    · have hbytes := hat.bytes
      rw [bytesOf_append, List.append_assoc] at hbytes
      rw [htr, frameOf_read hat.fits hbytes, if_neg]
      intro hempty
      exact hrest (List.append_eq_nil_iff.1 hempty).2
    · exact absurd hnil hpipe

/-- While a RUN that is well is waited for, something can go on. -/
theorem healthy_enabled (hcapacity : 0 < capacity) (h : Waiting s) (hphase : s.phase = .waiting) (hgone : s.gone = false)
    (hwell : Well s) : ∃ a, a.healthy = true ∧ (step capacity s a).isSome = true := by
  cases h.reading.token with
  | owed ho hd ht =>
    have htoken : s.batch ∈ s.framed → ∃ a, a.healthy = true ∧ (step capacity s a).isSome = true := by
      intro hframed
      refine ⟨.token ⟨0, 0⟩, rfl, ?_⟩
      simp [step, ho, hgone, hframed]
    rcases h.reading.frame with hun | ⟨p, rest, hat⟩
    · rcases hun.running with hr | hr
      · rcases hwell ho with hne | hne | hframed
        · exact absurd hr hne
        · exact absurd hun.writers hne
        · exact htoken hframed
      · refine ⟨.produce s.batch ([], []), rfl, ?_⟩
        simp [step, hr, hgone]
    · rcases hat.writers with ⟨hwriters, hrest, -⟩ | ⟨hwriters, -⟩
      · exact unfinished_enabled hcapacity h hphase hat hwriters hrest
      · rcases hwell ho with hne | hne | hframed
        · exact absurd hat.running hne
        · exact absurd hwriters hne
        · exact htoken hframed
  | sent t ho hd ht hg => exact ⟨.round true .none, rfl, round_token hphase hd⟩
  | read t ho hd ht hg =>
    obtain ⟨hends, htrace⟩ := h.pending t ht
    have hframed : s.batch ∈ s.framed := by
      rcases hg with hg | hg
      · rw [hends] at hg
        cases hg
      · exact hg
    refine ⟨.round false (.read 1), rfl, round_byte hphase htrace ?_⟩
    intro hpipe
    rcases h.reading.frame with hun | ⟨p, rest, hat⟩
    · exact hun.framed hframed
    · have hrest : rest = [] := by
        rcases hat.writers with ⟨-, -, hnot⟩ | ⟨-, hdone⟩
        · exact absurd hframed hnot
        · exact hdone hframed
      have hbytes := hat.bytes
      rw [hpipe, List.append_nil] at hbytes
      have hread := frameOf_read hat.fits hbytes
      rw [if_pos hrest] at hread
      rcases h.reading.trace with htr | ⟨htr, -, -⟩
      · rw [htr, hread] at htrace
        cases htrace
      · rw [htr] at htrace
        cases htrace

theorem settle_frame (s : State) : s.settle.owed = s.owed ∧ s.settle.running = s.running ∧ s.settle.writers = s.writers ∧
    s.settle.framed = s.framed ∧ s.settle.batch = s.batch := by
  unfold State.settle
  cases s.token with
  | none => exact ⟨rfl, rfl, rfl, rfl, rfl⟩
  | some t =>
    dsimp only
    split <;> exact ⟨rfl, rfl, rfl, rfl, rfl⟩

theorem takeToken_framed {done : Bool} (hs : s.takeToken done = some s') : s'.framed = s.framed ∧ s'.batch = s.batch := by
  unfold State.takeToken at hs
  split at hs
  · cases hd : s.done with
    | nil =>
      rw [hd] at hs
      cases hs
    | cons t ts =>
      rw [hd] at hs
      cases hs
      exact ⟨rfl, rfl⟩
  · cases hs
    exact ⟨rfl, rfl⟩

theorem takeTrace_framed {e : Event} (hs : s.takeTrace e = some s') : s'.framed = s.framed ∧ s'.batch = s.batch := by
  cases e with
  | none =>
    cases hs
    exact ⟨rfl, rfl⟩
  | read n =>
    simp only [State.takeTrace] at hs
    split at hs
    · cases hs
      exact ⟨rfl, rfl⟩
    · cases hs
  | eof =>
    simp only [State.takeTrace] at hs
    split at hs
    · cases hs
      exact ⟨rfl, rfl⟩
    · cases hs

theorem well_step (h : Waiting s) (hwell : Well s) {a : Act} (ha : a.healthy = true) (hs : step capacity s a = some s') :
    Well s' := by
  cases a with
  | run => cases ha
  | lost k => cases ha
  | gone => cases ha
  | throw => cases ha
  | produce k p =>
    simp only [step] at hs
    split at hs
    · cases hs
      exact fun _ => .inr (.inl (by simp))
    · cases hs
  | write i n =>
    simp only [step] at hs
    cases hw : s.writers[i]? with
    | none =>
      rw [hw] at hs
      cases hs
    | some w =>
      have hmem : w ∈ s.writers := List.mem_of_getElem? hw
      rw [hw] at hs
      dsimp only at hs
      split at hs
      · cases hs
        intro ho
        by_cases hlast : n = w.2.length
        · have hbatch : w.1 = s.batch := by
            rcases h.reading.frame with hun | ⟨p, rest, hat⟩
            · rw [hun.writers] at hmem
              cases hmem
            · rcases hat.writers with ⟨hwriters, -, -⟩ | ⟨hwriters, -⟩
              · rw [hwriters, List.mem_singleton] at hmem
                rw [hmem]
              · rw [hwriters] at hmem
                cases hmem
          exact .inr (.inr (by simp [hlast, hbatch]))
        · refine .inr (.inl ?_)
          simp only [if_neg hlast]
          intro hnil
          have := congrArg List.length hnil
          simp only [List.length_set, List.length_nil] at this
          rw [List.eq_nil_of_length_eq_zero this] at hmem
          cases hmem
      · cases hs
  | token t =>
    simp only [step] at hs
    split at hs
    · cases hs
      intro ho
      cases ho
    · cases hs
  | round done e =>
    have he : e ≠ .eof := by simpa [Act.healthy] using ha
    simp only [step, State.round] at hs
    split at hs
    · obtain ⟨s₁, h₁, hs⟩ := Option.bind_eq_some_iff.1 hs
      obtain ⟨s₂, h₂, rfl⟩ := Option.map_eq_some_iff.1 hs
      obtain ⟨hr₁, hw₁, -, ho₁, -⟩ := takeToken_rank h₁
      obtain ⟨hr₂, hw₂, -, ho₂, -⟩ := takeTrace_rank h₂ he
      obtain ⟨hf₁, hb₁⟩ := takeToken_framed h₁
      obtain ⟨hf₂, hb₂⟩ := takeTrace_framed h₂
      obtain ⟨ho₃, hr₃, hw₃, hf₃, hb₃⟩ := settle_frame s₂
      unfold Well
      rw [ho₃, ho₂, ho₁, hr₃, hr₂, hr₁, hw₃, hw₂, hw₁, hf₃, hf₂, hf₁, hb₃, hb₂, hb₁]
      exact hwell
    · cases hs

end

/-- **A RUN that is well is answered**, however small the pipe is: while `run_parent` waits some process can go on,
every step brings the answer nearer, and the RUN stays well. -/
theorem run_answered (capacity : Nat) (acts : List Act) (s : State) (hcapacity : 0 < capacity)
    (hclear : Trace.Meets (step capacity) Clear {} acts) (hrun : Trace.exec (step capacity) {} acts = some s)
    (hphase : s.phase = .waiting) (hgone : s.gone = false) (hwell : Well s) :
    (∃ a, a.healthy = true ∧ (step capacity s a).isSome = true) ∧
    ∀ a s', a.healthy = true → step capacity s a = some s' →
      Prod.Lex (· < ·) (· < ·) s'.rank s.rank ∧ Well s' := by
  have hwaiting := (Trace.exec_invariant inv_step inv_start hclear hrun).waiting hphase
  refine ⟨healthy_enabled hcapacity hwaiting hphase hgone hwell, fun a s' ha hs => ?_⟩
  exact ⟨healthy_rank ha hs, well_step hwaiting hwell ha hs⟩

/-- A pipe that holds one byte. -/
theorem run_answered_tight : ∃ s, Trace.exec (step 1) {} [.run, .produce 1 noPayload, .write 0 1] = some s ∧
    (∃ a, a.healthy = true ∧ (step 1 s a).isSome = true) ∧
    ∀ a s', a.healthy = true → step 1 s a = some s' → Prod.Lex (· < ·) (· < ·) s'.rank s.rank ∧ Well s' := by
  have hcheck : Trace.meetsCheck (step 1) clearCheck {} [.run, .produce 1 noPayload, .write 0 1] = true := by
    decide +kernel
  have hclear := (Trace.meets_of_check hcheck).mono fun _ _ => clear_of_check
  refine ⟨_, rfl, run_answered 1 _ _ (by decide) hclear rfl rfl rfl fun _ => .inr (.inl ?_)⟩
  decide +kernel

end SynnoDB.Hotpatch.TraceFrames
