import Mathlib
import SynnoDB.Lib.Dict
import SynnoDB.Lib.Trace
import SynnoDB.Workload.ArgsLine

/-!
# Result files of engines over one workspace (`router/process_engine.py:46-95`, `:171-241`)

| here | there |
| --- | --- |
| `Fs`          | the results directory: names, and files by inode; `unlink` leaves the file to who has it open |
| `resultPath`  | `_result_dir / f"result_{req_id}.arrow"`, the id from query and bindings alone |
| `Run`         | one call of `run` with the engine process that serves it; each `Pc` is one access to the directory |
| `Fs.openTrunc`, `Fs.writeAt` | `FileOutputStream::Open` and the growth of the file in `WriteArrowTableToShm` |

Steps of different runs come in any order. A file is a list of cells, `none` where a writer skipped over a
truncation; `readable` is the Arrow reader. Two runs of one request meet on one name: the second deletes the
result of the first before it is read (`result_taken`).
-/

namespace SynnoDB.Router.ResultFiles

open SynnoDB.Workload

variable {β : Type}

abbrev Cells (β : Type) := List (Option β)

structure Fs (β : Type) where
  names : Dict Text Nat := []
  files : List (Cells β) := []

namespace Fs

variable (fs : Fs β)

def content (ino : Nat) : Cells β := fs.files[ino]?.getD []

def unlink (path : Text) : Fs β := { fs with names := fs.names.erase path }

/-- `O_CREAT | O_TRUNC`. -/
def openTrunc (path : Text) : Fs β × Nat :=
  match fs.names.get path with
  | some ino => ({ fs with files := fs.files.set ino [] }, ino)
  | none => ({ names := fs.names.set path fs.files.length, files := fs.files ++ [[]] }, fs.files.length)

/-- A cell at an offset of the writer's own. -/
def writeCell (cells : Cells β) (k : Nat) (b : β) : Cells β :=
  if k < cells.length then cells.set k (some b) else cells ++ List.replicate (k - cells.length) none ++ [some b]

def writeAt (ino k : Nat) (b : β) : Fs β := { fs with files := fs.files.set ino (writeCell (fs.content ino) k b) }

end Fs

def resultPath (sha12 : Text → Text) (dir : Text) (qid : Text) (placeholders : List (Text × Value)) : Text :=
  dir ++ "/result_".toList ++ genReqId sha12 qid placeholders none ++ ".arrow".toList

inductive Result (β : Type) where
  | table (cells : Cells β)
  | raised (message : String)

/-- What the run does next. -/
inductive Pc (β : Type) where
  | clear | unlinkOld
  | create
  | write (ino : Nat)
  | answered | openNew
  | read (ino : Nat)
  | unlinkNew (r : Result β)
  | done (r : Result β)

/-- `bytes` is the table of the engine, `wrote` how much of it is written, `failed`: the engine gave up. -/
structure Run (β : Type) where
  path : Text
  bytes : List β
  pc : Pc β := .clear
  wrote : Nat := 0
  failed : Bool := false

namespace Run

variable (readable : Cells β → Bool) (fs : Fs β) (r : Run β)

def goto (pc : Pc β) : Run β := { r with pc }

/-- One access; `fails`: the engine fails here, or (at `answered`) a failed engine reports its error. -/
def step (fails : Bool) : Option (Fs β × Run β) :=
  match r.pc with
  | .clear => some (fs, r.goto (if (fs.names.get r.path).isSome then .unlinkOld else .create))
  | .unlinkOld =>
    if (fs.names.get r.path).isSome then some (fs.unlink r.path, r.goto .create)
    else some (fs, r.goto (.done (.raised "FileNotFoundError")))
  | .create =>
    if fails then some (fs, { r with failed := true, pc := .answered })
    else some ((fs.openTrunc r.path).1, r.goto (.write (fs.openTrunc r.path).2))
  | .write ino =>
    if fails then some (fs, { r with failed := true, pc := .answered })
    else match r.bytes[r.wrote]? with
      | some b => some (fs.writeAt ino r.wrote b, { r with wrote := r.wrote + 1 })
      | none => some (fs, r.goto .answered)
  | .answered =>
    if r.failed && fails then some (fs, r.goto (.done (.raised "engine reported an error for query")))
    else if (fs.names.get r.path).isSome then some (fs, r.goto .openNew)
    else some (fs, r.goto (.done (.raised "engine produced no result file (result_<req_id>.arrow)")))
  | .openNew => match fs.names.get r.path with
    | some ino => some (fs, r.goto (.read ino))
    | none => some (fs, r.goto (.unlinkNew (.raised "failed to read engine result")))
  | .read ino =>
    let cells := fs.content ino
    some (fs, r.goto (.unlinkNew (if readable cells then .table cells else .raised "failed to read engine result")))
  | .unlinkNew res => some (fs.unlink r.path, r.goto (.done res))
  | .done _ => none

def active : Bool := match r.pc with
  | .done _ => false
  | _ => true

/-- The result is the engine's own: its table, or an error if the engine failed. -/
def Own (res : Result β) : Prop :=
  match res with
  | .table cells => cells = (r.bytes.take r.wrote).map some ∧ (r.failed = false → r.wrote = r.bytes.length)
  | .raised _ => r.failed = true

def ReturnsOwn : Prop := ∀ res, r.pc = .done res → r.Own res

end Run

structure Dir (β : Type) where
  fs : Fs β
  runs : List (Run β) := []

inductive Act (β : Type) where
  | start (path : Text) (bytes : List β)
  | access (i : Nat) (fails : Bool)

namespace Dir

variable (readable : Cells β → Bool) (s : Dir β)

def step : Act β → Option (Dir β)
  | .start path bytes =>
    if readable (bytes.map some) then some { s with runs := s.runs ++ [{ path, bytes }] } else none
  | .access i fails => match s.runs[i]? with
    | none => none
    | some r => (r.step readable s.fs fails).map fun p => { fs := p.1, runs := s.runs.set i p.2 }

/-- A run starts when no other run on its file is under way. -/
def startsAlone : Act β → Bool
  | .start path _ => s.runs.all fun r => !(r.active && r.path = path)
  | _ => true

end Dir

/-! ## The directory -/

variable {fs fs' : Fs β} {p q : Text} {ino k : Nat}

/-- Names have files, and no two names have one file. -/
structure Fs.Wf (fs : Fs β) : Prop where
  bound : ∀ p ino, fs.names.get p = some ino → ino < fs.files.length
  inj : ∀ p q ino, fs.names.get p = some ino → fs.names.get q = some ino → p = q

/-- Another run's access leaves the name and its file alone. -/
structure Fs.SameAt (fs fs' : Fs β) (p : Text) : Prop where
  name : fs'.names.get p = fs.names.get p
  file : ∀ ino, fs.names.get p = some ino → fs'.content ino = fs.content ino

theorem Fs.SameAt.refl (fs : Fs β) (p : Text) : fs.SameAt fs p := ⟨rfl, fun _ _ => rfl⟩

theorem Fs.Wf.unlink (h : fs.Wf) (p : Text) : (fs.unlink p).Wf := by
  constructor
  · intro q ino hq
    simp only [Fs.unlink, Dict.get_erase] at hq
    split at hq
    · cases hq
    · exact h.bound q ino hq
  · intro q q' ino hq hq'
    simp only [Fs.unlink, Dict.get_erase] at hq hq'
    split at hq
    · cases hq
    · split at hq'
      · cases hq'
      · exact h.inj q q' ino hq hq'

theorem Fs.sameAt_unlink (hne : q ≠ p) : fs.SameAt (fs.unlink p) q := by
  constructor
  · simp only [Fs.unlink, Dict.get_erase]
    rw [if_neg (Ne.symm hne)]
  · intro ino _
    rfl

theorem Fs.content_set_ne {cells : Cells β} {j : Nat} (hne : j ≠ ino) :
    Fs.content { fs with files := fs.files.set ino cells } j = fs.content j := by
  simp only [Fs.content]
  rw [List.getElem?_set_ne (Ne.symm hne)]

theorem Fs.content_set_eq {cells : Cells β} (h : ino < fs.files.length) :
    Fs.content { fs with files := fs.files.set ino cells } ino = cells := by
  simp [Fs.content, h]

theorem Fs.Wf.setFile (h : fs.Wf) (cells : Cells β) : Fs.Wf { fs with files := fs.files.set ino cells } := by
  constructor
  · intro p i hp
    rw [List.length_set]
    exact h.bound p i hp
  · exact h.inj

theorem Fs.sameAt_setFile (h : fs.Wf) (hp : fs.names.get p = some ino) (hne : q ≠ p) (cells : Cells β) :
    fs.SameAt { fs with files := fs.files.set ino cells } q := by
  constructor
  · rfl
  · intro j hj
    refine Fs.content_set_ne ?_
    rintro rfl
    exact hne (h.inj q p j hj hp)

theorem Fs.openTrunc_spec (h : fs.Wf) (p : Text) : (fs.openTrunc p).1.Wf ∧
    (fs.openTrunc p).1.names.get p = some (fs.openTrunc p).2 ∧
    (fs.openTrunc p).1.content (fs.openTrunc p).2 = [] ∧
    ∀ q, q ≠ p → fs.SameAt (fs.openTrunc p).1 q := by
  unfold Fs.openTrunc
  split
  · rename_i ino hp
    refine ⟨h.setFile [], hp, Fs.content_set_eq (h.bound p ino hp), fun q hq => Fs.sameAt_setFile h hp hq []⟩
  · rename_i hp
    refine ⟨?_, ?_, ?_, ?_⟩
    · constructor
      · intro q ino hq
        rw [Dict.get_set] at hq
        rw [List.length_append, List.length_singleton]
        split at hq
        · cases hq
          omega
        · have := h.bound q ino hq
          omega
      · intro q q' ino hq hq'
        rw [Dict.get_set] at hq hq'
        split at hq
        · rename_i hpq
          cases hq
          split at hq'
          · rename_i hpq'
            exact hpq.symm.trans hpq'
          · have := h.bound q' _ hq'
            omega
        · split at hq'
          · cases hq'
            have := h.bound q _ hq
            omega
          · exact h.inj q q' ino hq hq'
    · rw [Dict.get_set, if_pos rfl]
    · simp [Fs.content]
    · intro q hq
      constructor
      · rw [Dict.get_set, if_neg (Ne.symm hq)]
      · intro ino hino
        simp only [Fs.content]
        rw [List.getElem?_append_left (h.bound q ino hino)]

/-! ## One run -/

variable {readable : Cells β → Bool} {r r' : Run β} {fails : Bool}

def Run.written (r : Run β) : Cells β := (r.bytes.take r.wrote).map some

theorem writeCell_written {b : β} (hle : r.wrote ≤ r.bytes.length) (hb : r.bytes[r.wrote]? = some b) :
    Fs.writeCell r.written r.wrote b = (r.bytes.take (r.wrote + 1)).map some := by
  have hlen : r.written.length = r.wrote := by
    rw [Run.written, List.length_map, List.length_take]
    omega
  rw [Fs.writeCell, hlen, if_neg (by omega), Nat.sub_self, List.take_add_one, hb]
  simp [Run.written]

/-- Complete, unless the engine gave up. -/
def Run.Complete (r : Run β) : Prop := r.failed = false → r.wrote = r.bytes.length

/-- What the directory holds for a run, by what the run does next. -/
def Run.Inv (fs : Fs β) (r : Run β) : Prop :=
  match r.pc with
  | .clear => r.wrote = 0 ∧ r.failed = false
  | .unlinkOld => (fs.names.get r.path).isSome = true ∧ r.wrote = 0 ∧ r.failed = false
  | .create => fs.names.get r.path = none ∧ r.wrote = 0 ∧ r.failed = false
  | .write ino => fs.names.get r.path = some ino ∧ fs.content ino = r.written ∧ r.failed = false ∧
      r.wrote ≤ r.bytes.length
  | .answered => fs.names.get r.path = none ∧ r.failed = true ∨
      ∃ ino, fs.names.get r.path = some ino ∧ fs.content ino = r.written ∧ r.Complete
  | .openNew => ∃ ino, fs.names.get r.path = some ino ∧ fs.content ino = r.written ∧ r.Complete
  | .read ino => fs.names.get r.path = some ino ∧ fs.content ino = r.written ∧ r.Complete
  | .unlinkNew res | .done res => r.Own res

/-- The other runs' accesses do not concern it. -/
theorem Run.Inv.frame (h : r.Inv fs) (hs : fs.SameAt fs' r.path) : r.Inv fs' := by
  have hfile : ∀ ino cells, fs.names.get r.path = some ino → fs.content ino = cells → fs'.content ino = cells :=
    fun ino cells hn hc => (hs.file ino hn).trans hc
  unfold Run.Inv at h ⊢
  rw [hs.name]
  cases hpc : r.pc with
  | clear | unlinkOld | create | unlinkNew _ | done _ =>
    rw [hpc] at h
    exact h
  | write ino =>
    rw [hpc] at h
    exact ⟨h.1, hfile ino _ h.1 h.2.1, h.2.2⟩
  | answered =>
    rw [hpc] at h
    rcases h with h | ⟨ino, hn, hc, hd⟩
    · exact .inl h
    · exact .inr ⟨ino, hn, hfile ino _ hn hc, hd⟩
  | openNew =>
    rw [hpc] at h
    obtain ⟨ino, hn, hc, hd⟩ := h
    exact ⟨ino, hn, hfile ino _ hn hc, hd⟩
  | read ino =>
    rw [hpc] at h
    exact ⟨h.1, hfile ino _ h.1 h.2.1, h.2.2⟩

/-- **One access** keeps the invariant of its run and leaves every other name alone. -/
theorem inv_access (hwf : fs.Wf) (h : r.Inv fs) (hread : readable (r.bytes.map some) = true)
    (hs : r.step readable fs fails = some (fs', r')) :
    fs'.Wf ∧ r'.Inv fs' ∧ r'.path = r.path ∧ r'.bytes = r.bytes ∧ (r'.active = true → r.active = true) ∧
      ∀ q, q ≠ r.path → fs.SameAt fs' q := by
  have hsame : ∀ q, q ≠ r.path → fs.SameAt fs q := fun q _ => Fs.SameAt.refl fs q
  unfold Run.step at hs
  unfold Run.Inv at h
  cases hpc : r.pc with
  | clear =>
    simp only [hpc, Option.some.injEq, Prod.mk.injEq] at hs h
    obtain ⟨rfl, rfl⟩ := hs
    refine ⟨hwf, ?_, rfl, rfl, fun _ => by simp [Run.active, hpc], hsame⟩
    cases hn : fs.names.get r.path with
    | none => exact ⟨hn, h⟩
    | some ino => exact ⟨by rw [Run.goto, hn, Option.isSome_some], h⟩
  | unlinkOld =>
    simp only [hpc] at hs h
    rw [if_pos h.1, Option.some.injEq, Prod.mk.injEq] at hs
    obtain ⟨rfl, rfl⟩ := hs
    refine ⟨hwf.unlink _, ?_, rfl, rfl, fun _ => by simp [Run.active, hpc], fun q hq => Fs.sameAt_unlink hq⟩
    refine ⟨?_, h.2⟩
    simp [Fs.unlink, Run.goto]
  | create =>
    simp only [hpc] at hs h
    split at hs
    · simp only [Option.some.injEq, Prod.mk.injEq] at hs
      obtain ⟨rfl, rfl⟩ := hs
      exact ⟨hwf, .inl ⟨h.1, rfl⟩, rfl, rfl, fun _ => by simp [Run.active, hpc], hsame⟩
    · simp only [Option.some.injEq, Prod.mk.injEq] at hs
      obtain ⟨rfl, rfl⟩ := hs
      obtain ⟨hwf', hname, hempty, hother⟩ := Fs.openTrunc_spec hwf r.path
      refine ⟨hwf', ⟨hname, ?_, h.2.2, ?_⟩, rfl, rfl, fun _ => by simp [Run.active, hpc], hother⟩
      · rw [hempty]
        simp [Run.written, Run.goto, h.2.1]
      · show r.wrote ≤ _
        omega
  | write ino =>
    simp only [hpc] at hs h
    obtain ⟨hn, hc, hf, hle⟩ := h
    split at hs
    · simp only [Option.some.injEq, Prod.mk.injEq] at hs
      obtain ⟨rfl, rfl⟩ := hs
      exact ⟨hwf, .inr ⟨ino, hn, hc, fun hf => by cases hf⟩, rfl, rfl, fun _ => by simp [Run.active, hpc], hsame⟩
    · split at hs
      · rename_i b hb
        simp only [Option.some.injEq, Prod.mk.injEq] at hs
        obtain ⟨rfl, rfl⟩ := hs
        have hlt := (List.getElem?_eq_some_iff.1 hb).1
        refine ⟨hwf.setFile _, ?_, rfl, rfl, fun _ => by simp [Run.active, hpc],
          fun q hq => Fs.sameAt_setFile hwf hn hq _⟩
        unfold Run.Inv
        simp only
        refine ⟨hn, ?_, hf, hlt⟩
        rw [Fs.writeAt, Fs.content_set_eq (hwf.bound _ _ hn), hc, writeCell_written hle hb]
        rfl
      · rename_i hb
        simp only [Option.some.injEq, Prod.mk.injEq] at hs
        obtain ⟨rfl, rfl⟩ := hs
        refine ⟨hwf, .inr ⟨ino, hn, hc, fun _ => ?_⟩, rfl, rfl, fun _ => by simp [Run.active, hpc], hsame⟩
        have hge := List.getElem?_eq_none_iff.1 hb
        show r.wrote = r.bytes.length
        omega
  | answered =>
    simp only [hpc] at hs h
    split at hs
    · rename_i hfail
      simp only [Option.some.injEq, Prod.mk.injEq] at hs
      obtain ⟨rfl, rfl⟩ := hs
      rw [Bool.and_eq_true] at hfail
      exact ⟨hwf, hfail.1, rfl, rfl, fun _ => by simp [Run.active, hpc], hsame⟩
    · split at hs
      · rename_i hsome
        simp only [Option.some.injEq, Prod.mk.injEq] at hs
        obtain ⟨rfl, rfl⟩ := hs
        refine ⟨hwf, ?_, rfl, rfl, fun _ => by simp [Run.active, hpc], hsame⟩
        rcases h with ⟨hn, -⟩ | h
        · rw [hn] at hsome
          cases hsome
        · exact h
      · rename_i hnone
        simp only [Option.some.injEq, Prod.mk.injEq] at hs
        obtain ⟨rfl, rfl⟩ := hs
        refine ⟨hwf, ?_, rfl, rfl, fun _ => by simp [Run.active, hpc], hsame⟩
        rcases h with ⟨-, hf⟩ | ⟨ino, hn, -⟩
        · exact hf
        · rw [hn] at hnone
          exact absurd rfl hnone
  | openNew =>
    simp only [hpc] at hs h
    obtain ⟨ino, hn, hc, hd⟩ := h
    simp only [hn, Option.some.injEq, Prod.mk.injEq] at hs
    obtain ⟨rfl, rfl⟩ := hs
    exact ⟨hwf, ⟨hn, hc, hd⟩, rfl, rfl, fun _ => by simp [Run.active, hpc], hsame⟩
  | read ino =>
    simp only [hpc, Option.some.injEq, Prod.mk.injEq] at hs h
    obtain ⟨rfl, rfl⟩ := hs
    obtain ⟨hn, hc, hd⟩ := h
    refine ⟨hwf, ?_, rfl, rfl, fun _ => by simp [Run.active, hpc], hsame⟩
    show Run.Own _ _
    rw [hc]
    split
    · exact ⟨rfl, hd⟩
    · rename_i hbad
      show r.failed = true
      by_contra hf
      rw [Bool.not_eq_true] at hf
      -- the table of an engine that did not fail is readable
      have hall : r.written = r.bytes.map some := by
        rw [Run.written, hd hf, List.take_length]
      rw [hall] at hbad
      exact hbad hread
  | unlinkNew res =>
    simp only [hpc, Option.some.injEq, Prod.mk.injEq] at hs h
    obtain ⟨rfl, rfl⟩ := hs
    refine ⟨hwf.unlink _, ?_, rfl, rfl, fun _ => by simp [Run.active, hpc], fun q hq => Fs.sameAt_unlink hq⟩
    exact h
  | done res =>
    rw [hpc] at hs
    cases hs

/-! ## All runs -/

variable {s s' : Dir β}

structure Dir.Inv (readable : Cells β → Bool) (s : Dir β) : Prop where
  wf : s.fs.Wf
  run : ∀ r ∈ s.runs, r.Inv s.fs ∧ readable (r.bytes.map some) = true
  alone : ∀ (i j : Nat) (r r' : Run β), s.runs[i]? = some r → s.runs[j]? = some r' → r.active = true →
    r'.active = true → r.path = r'.path → i = j

theorem inv_init : Dir.Inv readable ({ fs := {} } : Dir β) := by
  constructor
  · constructor <;> simp
  · simp
  · simp

/-- A finished run does not depend on the directory. -/
theorem Run.Inv.inactive (h : r.Inv fs) (ha : r.active = false) (fs' : Fs β) : r.Inv fs' := by
  unfold Run.Inv at h ⊢
  unfold Run.active at ha
  split at ha
  · rename_i res hpc
    rw [hpc] at h ⊢
    exact h
  · cases ha

theorem inv_step {a : Act β} (h : s.Inv readable) (hok : s.startsAlone a = true)
    (hs : s.step readable a = some s') : s'.Inv readable := by
  cases a with
  | start path bytes =>
    simp only [Dir.step, Option.ite_none_right_eq_some, Option.some.injEq] at hs
    obtain ⟨hread, rfl⟩ := hs
    have halone : ∀ r ∈ s.runs, r.active = true → r.path ≠ path := by
      intro r hr ha hp
      have := List.all_eq_true.1 hok r hr
      simp [ha, hp] at this
    constructor
    · exact h.wf
    · intro r hr
      rcases List.mem_append.1 hr with hr | hr
      · exact h.run r hr
      · cases List.mem_singleton.1 hr
        exact ⟨⟨rfl, rfl⟩, hread⟩
    · intro i j r r' hi hj ha ha' hp
      simp only [List.getElem?_append, List.getElem?_singleton] at hi hj
      split at hi
      · split at hj
        · exact h.alone i j r r' hi hj ha ha' hp
        · split at hj
          · cases hj
            exact absurd hp (halone r (List.mem_of_getElem? hi) ha)
          · cases hj
      · split at hi
        · cases hi
          split at hj
          · exact absurd hp.symm (halone r' (List.mem_of_getElem? hj) ha')
          · split at hj
            · omega
            · cases hj
        · cases hi
  | access i fails =>
    simp only [Dir.step] at hs
    split at hs
    · cases hs
    · rename_i r hr
      obtain ⟨⟨fs', r'⟩, hstep, rfl⟩ := Option.map_eq_some_iff.1 hs
      have hmem := List.mem_of_getElem? hr
      obtain ⟨hinv, hread⟩ := h.run r hmem
      obtain ⟨hwf, hinv', hpath, hbytes, hact, hsame⟩ := inv_access h.wf hinv hread hstep
      have hractive : r.active = true := by
        unfold Run.active
        unfold Run.step at hstep
        split
        · rename_i res hpc
          rw [hpc] at hstep
          cases hstep
        · rfl
      have hget : ∀ j q, (s.runs.set i r')[j]? = some q → j ≠ i ∧ s.runs[j]? = some q ∨ j = i ∧ q = r' := by
        intro j q hj
        by_cases hji : j = i
        · subst hji
          rw [List.getElem?_set_self (List.getElem?_eq_some_iff.1 hr).1] at hj
          exact .inr ⟨rfl, (Option.some.inj hj).symm⟩
        · rw [List.getElem?_set_ne (Ne.symm hji)] at hj
          exact .inl ⟨hji, hj⟩
      constructor
      · exact hwf
      · intro q hq
        obtain ⟨j, hj⟩ := List.mem_iff_getElem?.1 hq
        rcases hget j q hj with ⟨hne, hj⟩ | ⟨-, rfl⟩
        · obtain ⟨hq', hqr⟩ := h.run q (List.mem_of_getElem? hj)
          refine ⟨?_, hqr⟩
          cases ha : q.active with
          | false => exact hq'.inactive ha fs'
          | true =>
            refine hq'.frame (hsame _ ?_)
            intro hp
            exact hne (h.alone j i q r hj hr ha hractive hp)
        · exact ⟨hinv', by rw [hbytes]; exact hread⟩
      · intro j k q q' hj hk ha ha' hp
        rcases hget j q hj with ⟨hne, hqj⟩ | ⟨rfl, rfl⟩
        · rcases hget k q' hk with ⟨hne', hqk⟩ | ⟨rfl, rfl⟩
          · exact h.alone j k q q' hqj hqk ha ha' hp
          · exact h.alone j k q r hqj hr ha hractive (hp.trans hpath)
        · rcases hget k q' hk with ⟨hne', hqk⟩ | ⟨rfl, rfl⟩
          · exact h.alone j k r q' hr hqk hractive ha' (hpath.symm.trans hp)
          · rfl

/-- **Every run returns what its engine wrote**, and raises only if its engine failed, in every interleaving in
which no run starts while another one on the same result file is under way. -/
theorem runs_return_own (readable : Cells β → Bool) (acts : List (Act β)) (s : Dir β)
    (hok : Trace.Meets (Dir.step readable) (fun s a => s.startsAlone a = true) { fs := {} } acts)
    (hrun : Trace.exec (Dir.step readable) { fs := {} } acts = some s) : ∀ r ∈ s.runs, r.ReturnsOwn := by
  have hinv := Trace.exec_invariant (I := Dir.Inv readable) (fun _ _ _ hi hok hs => inv_step hi hok hs)
    inv_init hok hrun
  intro r hr res hres
  have h := (hinv.run r hr).1
  rw [Run.Inv, hres] at h
  exact h

/-- The result file of `1` without bindings, in the directory that all engines over `/w` share. -/
def sharedPath : Text := resultPath (fun t => t.take 12) "/w/results".toList "1".toList []

def wholeFile (cells : Cells Nat) : Bool := cells ≠ [] && cells.all Option.isSome

/-- All accesses of the `i`-th run, for a table of one cell. -/
def wholeRun (i : Nat) : List (Act Nat) := List.replicate 8 (.access i false)

theorem runs_return_own_twice : ∃ s, Trace.exec (Dir.step wholeFile) { fs := {} }
      ([.start sharedPath [7]] ++ wholeRun 0 ++ [.start sharedPath [8]] ++ wholeRun 1) = some s ∧
    ∀ r ∈ s.runs, r.ReturnsOwn :=
  ⟨_, rfl, runs_return_own wholeFile
    ([.start sharedPath [7]] ++ wholeRun 0 ++ [.start sharedPath [8]] ++ wholeRun 1) _
    (Trace.meets_of_check (by decide)) rfl⟩

/-- The second run of a request clears away what the engine of the first has just written. -/
theorem result_taken : ∃ s r, Trace.exec (Dir.step wholeFile) { fs := {} }
      ([.start sharedPath [7]] ++ List.replicate 4 (.access 0 false) ++
        [.start sharedPath [7], .access 1 false, .access 1 false, .access 0 false]) = some s ∧
    r ∈ s.runs ∧ r.failed = false ∧ r.wrote = r.bytes.length ∧
    r.pc = .done (.raised "engine produced no result file (result_<req_id>.arrow)") ∧ ¬ r.ReturnsOwn := by
  refine ⟨_, _, rfl, List.mem_cons_self, rfl, rfl, rfl, ?_⟩
  intro h
  have hfailed := h _ rfl
  cases hfailed

end SynnoDB.Router.ResultFiles
