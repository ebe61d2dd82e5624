import Mathlib
import SynnoDB.Lib.Trace

/-!
# `ShmHotLoadEngine` (`router/process_engine.py:152-287`, `:323-428`, `shm_transport.py:90-120`)

| here | there |
| --- | --- |
| `Child`         | the `./db` process tree; `ingested` is the segment directory its loader mapped at its first run |
| `proc`          | `_proc`: `none` before the first run and after `close`, `some none` when the process is dead |
| `ingestDir`, `shmIngest`, `resultDir` | `_ingest_dir`, `extra_env["SYNNODB_SHM_INGEST"]`, `_result_dir` |
| `dirs`          | the `synno-ingest-*` directories of this engine that exist |
| `lastIngest`    | the directory of the last `ingest`, if it succeeded and no `close` came after it |

`ingest` is cut where it touches the file system; a crash may come at any point. The loader reads
`SYNNODB_SHM_INGEST` at the first run of a process only. `ingest` sets the new directory but leaves the warm
process alone, so the next run is answered from the segments that were just deleted (`run_on_old_segments`).
-/

namespace SynnoDB.Router.HotLoad

variable {α : Type}

abbrev Tables (α : Type) := List (String × α)

/-- Where `ingest` stands. -/
inductive Pc (α : Type) where
  | idle
  /-- The prior snapshot is dropped. -/
  | dropped (tables : Tables α)
  /-- `mkdtemp` has made the directory. -/
  | made (dir : Nat) (tables : Tables α)

structure Child where
  ingested : Option Nat := none
deriving DecidableEq, Repr

inductive ResultDir where
  | workspace | scratch
  | shm (dir : Nat)
deriving DecidableEq, Repr

inductive Outcome where
  | none
  | raised (message : String)
  /-- A table, computed by a process that ingested this directory. -/
  | table (dir : Nat)
deriving DecidableEq, Repr

structure Engine (α : Type) where
  pc : Pc α := .idle
  dirs : List (Nat × Tables α) := []
  nextDir : Nat := 0
  proc : Option (Option Child) := none
  closed : Bool := false
  loaded : Bool := false
  loadedData : Bool := false
  ingestDir : Option Nat := none
  shmIngest : Option Nat := none
  resultDir : ResultDir := .workspace
  lastIngest : Option Nat := none
  outcome : Outcome := .none

/-- What a call of the runner meets: a writable `build/`, a process that starts, a loader that succeeds, an
error in the answer, a readable result file, a process alive at the end. -/
structure World where
  writable : Bool := true
  launches : Bool := true
  loads : Bool := true
  reportsError : Bool := false
  writesResult : Bool := true
  survives : Bool := true

inductive Act (α : Type) where
  | ingest (tables : Tables α)
  /-- The sweep and the budget, then `mkdtemp`: `total`, `free` of the file system, and whether it is there. -/
  | reserve (total free : Nat) (baseOk mkdtempOk : Bool)
  | write (ok : Bool)
  | run (w : World)
  | loadData (w : World)
  | crash
  | close

namespace Engine

variable (nbytes : α → Nat) (s : Engine α)

/-- `check_shm_budget`. -/
def fits (total free needed : Nat) : Bool := needed + max (64 * 1024 * 1024) (total / 20) ≤ free

/-- `shutil.rmtree` of the current snapshot. -/
def removeDir (dirs : List (Nat × Tables α)) (d : Option Nat) : List (Nat × Tables α) :=
  dirs.filter fun p => some p.1 ≠ d

def beginIngest (tables : Tables α) : Engine α :=
  let s := { s with lastIngest := none, pc := .dropped tables, outcome := .none }
  if s.ingestDir.isSome then
    { s with dirs := removeDir s.dirs s.ingestDir, ingestDir := none, loaded := false, loadedData := false }
  else s

def raise (message : String) : Engine α := { s with pc := .idle, outcome := .raised message }

def reserve (tables : Tables α) (total free : Nat) (baseOk mkdtempOk : Bool) : Engine α :=
  let needed := (tables.map fun p => nbytes p.2).sum
  if !baseOk then s.raise "OSError"
  else if !fits total free needed then s.raise "not enough shared memory to hot-load this database"
  else if !mkdtempOk then s.raise "OSError"
  else { s with dirs := (s.nextDir, tables) :: s.dirs, nextDir := s.nextDir + 1, pc := .made s.nextDir tables }

/-- `write_arrow_segments` and what follows it; on a failure the partial directory is removed. -/
def write (d : Nat) (ok : Bool) : Engine α :=
  if ok then
    { s with
      pc := .idle, ingestDir := some d, shmIngest := some d, resultDir := .shm d, loaded := true
      lastIngest := some d }
  else { s with dirs := removeDir s.dirs (some d) }.raise "OSError"

/-- `_runner`: the scratch directory of another user's engine takes the results too. -/
def runner (w : World) : Engine α :=
  match s.proc with
  | some _ => s
  | none => { s with proc := some none, resultDir := if w.writable then s.resultDir else .scratch }

/-- What a process has mapped after a batch: at its first run the loader takes the segments that
`SYNNODB_SHM_INGEST` names, if they still exist. -/
def mapped (w : World) (c : Child) : Option Nat :=
  match c.ingested with
  | some d => some d
  | none => if w.loads then s.shmIngest.filter fun d => s.dirs.any (·.1 = d) else none

def serve (w : World) (c : Child) : Engine α × Option Child :=
  ({ s with proc := some (if w.survives then some ⟨s.mapped w c⟩ else none) }, some ⟨s.mapped w c⟩)

/-- One batch: a dead process is started again. Answers the process that ran it, if there was one. -/
def batch (w : World) : Engine α × Option Child :=
  let s := s.runner w
  match s.proc.bind id with
  | some c => s.serve w c
  | none => if w.launches then s.serve w {} else (s, none)

def run (w : World) : Engine α :=
  if !s.loaded then s.raise "run() called before ingest()"
  else match s.batch w with
    | (s, some { ingested := some d }) =>
      if w.reportsError then s.raise "engine reported an error for query"
      else if !w.writesResult then s.raise "engine produced no result file (result_<req_id>.arrow)"
      else { s with outcome := .table d }
    | (s, _) => s.raise "engine produced no result file (result_<req_id>.arrow)"

def loadData (w : World) : Engine α :=
  if !s.loaded then s.raise "load_data() called before ingest()"
  else if s.loadedData then { s with outcome := .none }
  else match s.batch w with
    | (s, none) => s.raise "OSError"
    | (s, some _) =>
      if w.survives then { s with loadedData := true, outcome := .none }
      else s.raise "engine crashed during data loading"

def close : Engine α :=
  let s := { s with closed := true, loadedData := false, proc := none, loaded := false, lastIngest := none,
                    outcome := .none }
  { s with dirs := if s.ingestDir.isSome then removeDir s.dirs s.ingestDir else s.dirs, ingestDir := none }

def step : Act α → Option (Engine α)
  | .ingest tables => match s.pc with
    | .idle => some (s.beginIngest tables)
    | _ => none
  | .reserve total free baseOk mkdtempOk => match s.pc with
    | .dropped tables => some (s.reserve nbytes tables total free baseOk mkdtempOk)
    | _ => none
  | .write ok => match s.pc with
    | .made d _ => some (s.write d ok)
    | _ => none
  | .run w => match s.pc with
    | .idle => some (s.run w)
    | _ => none
  | .loadData w => match s.pc with
    | .idle => some (s.loadData w)
    | _ => none
  | .crash => some { s with proc := s.proc.map fun _ => none }
  | .close => match s.pc with
    | .idle => some s.close
    | _ => none

/-- The process that is up has mapped some segments. -/
def warm : Bool := (s.proc.bind id).any (·.ingested.isSome)

/-- No `ingest` completes under a process that has ingested before. -/
def ingestsCold : Act α → Bool
  | .write true => !s.warm
  | _ => true

structure LatestIngest : Prop where
  /-- Every table comes from the segments of the last ingest. -/
  table : ∀ d, s.outcome = .table d → s.lastIngest = some d
  /-- Without one, `run` and `load_data` raise. -/
  refuses : s.lastIngest = none → ∀ w, (∃ m, (s.run w).outcome = .raised m) ∧ ∃ m, (s.loadData w).outcome = .raised m
  oneDir : s.dirs.length ≤ 1
  /-- After `close`, and after an `ingest` that did not succeed. -/
  noDir : (∀ d tables, s.pc ≠ .made d tables) → s.lastIngest = none → s.dirs = []

end Engine

open Engine

variable {nbytes : α → Nat} {s s' : Engine α} {w : World}

/-! ## The invariant -/

structure Inv (s : Engine α) : Prop where
  dirs : s.dirs.map Prod.fst = match s.pc with
    | .idle => s.lastIngest.toList
    | .dropped _ => []
    | .made d _ => [d]
  busy : (∃ tables, s.pc = .dropped tables) ∨ (∃ d tables, s.pc = .made d tables) → s.lastIngest = none
  ingestDir : s.ingestDir = s.lastIngest
  loaded : s.loaded = s.lastIngest.isSome
  env : ∀ d, s.lastIngest = some d → s.shmIngest = some d
  child : ∀ c d, s.proc = some (some c) → c.ingested = some d → s.lastIngest = some d ∨ s.lastIngest = none
  outcome : ∀ d, s.outcome = .table d → s.lastIngest = some d

theorem inv_init : Inv ({} : Engine α) := by
  constructor <;> simp

theorem removeDir_only {dirs : List (Nat × Tables α)} {d : Nat} (h : dirs.map Prod.fst = [d]) :
    removeDir dirs (some d) = [] := by
  unfold removeDir
  rw [List.filter_eq_nil_iff]
  intro p hp
  have hmem : p.1 ∈ dirs.map Prod.fst := List.mem_map.2 ⟨p, hp, rfl⟩
  rw [h, List.mem_singleton] at hmem
  simp [hmem]

/-- A call that raises ends idle. -/
theorem inv_raise (h : Inv s) (hd : s.dirs.map Prod.fst = s.lastIngest.toList) (m : String) : Inv (s.raise m) where
  dirs := hd
  busy := by
    rintro (⟨_, h⟩ | ⟨_, _, h⟩) <;> cases h
  ingestDir := h.ingestDir
  loaded := h.loaded
  env := h.env
  child := h.child
  outcome := by
    intro d hd
    cases hd

theorem inv_beginIngest (h : Inv s) (hpc : s.pc = .idle) (tables : Tables α) : Inv (s.beginIngest tables) := by
  have hdirs := h.dirs
  have hdir := h.ingestDir
  have hloaded := h.loaded
  rw [hpc] at hdirs
  unfold beginIngest
  cases hl : s.lastIngest with
  | some d =>
    rw [hl] at hdirs hdir
    simp only [hdir, Option.isSome_some, if_true]
    constructor
    · simp [removeDir_only hdirs]
    · intro _
      rfl
    · rfl
    · rfl
    · nofun
    · intro c d _ _
      exact .inr rfl
    · nofun
  | none =>
    rw [hl] at hdirs hdir hloaded
    simp only [hdir, Option.isSome_none, Bool.false_eq_true, if_false]
    constructor
    · exact hdirs
    · intro _
      rfl
    · rfl
    · exact hloaded
    · nofun
    · intro c d _ _
      exact .inr rfl
    · nofun

theorem inv_reserve {tables : Tables α} {total free : Nat} {baseOk mkdtempOk : Bool} (h : Inv s)
    (hpc : s.pc = .dropped tables) : Inv (s.reserve nbytes tables total free baseOk mkdtempOk) := by
  have hdirs := h.dirs
  have hlast := h.busy (.inl ⟨tables, hpc⟩)
  rw [hpc] at hdirs
  have hraise : ∀ m, Inv (s.raise m) := fun m => inv_raise h (by rw [hdirs, hlast]; rfl) m
  unfold reserve
  dsimp only
  split
  · exact hraise _
  · split
    · exact hraise _
    · split
      · exact hraise _
      · constructor
        · simp [hdirs]
        · intro _
          exact hlast
        · exact h.ingestDir
        · exact h.loaded
        · exact h.env
        · exact h.child
        · exact h.outcome

theorem inv_write {d : Nat} {tables : Tables α} {ok : Bool} (h : Inv s) (hpc : s.pc = .made d tables)
    (hcold : ok = true → s.warm = false) : Inv (s.write d ok) := by
  have hdirs := h.dirs
  have hlast := h.busy (.inr ⟨d, tables, hpc⟩)
  rw [hpc] at hdirs
  unfold write
  split
  · rename_i hok
    constructor
    · exact hdirs
    · rintro (⟨_, h⟩ | ⟨_, _, h⟩) <;> cases h
    · rfl
    · rfl
    · intro d' hd'
      cases hd'
      rfl
    · intro c d' hc hd'
      have hw := hcold hok
      have hp : s.proc = some (some c) := hc
      simp [warm, hp, hd'] at hw
    · intro d' hd'
      have := h.outcome d' hd'
      rw [hlast] at this
      cases this
  · constructor
    · rw [hlast]
      simpa [Engine.raise] using removeDir_only hdirs
    · rintro (⟨_, h⟩ | ⟨_, _, h⟩) <;> cases h
    · exact h.ingestDir
    · exact h.loaded
    · exact h.env
    · exact h.child
    · intro d' hd'
      cases hd'

/-! ## Batches -/

theorem inv_runner (h : Inv s) : Inv (s.runner w) := by
  unfold runner
  split
  · exact h
  · constructor
    · exact h.dirs
    · exact h.busy
    · exact h.ingestDir
    · exact h.loaded
    · exact h.env
    · intro c d hc
      cases hc
    · exact h.outcome

theorem runner_lastIngest : (s.runner w).lastIngest = s.lastIngest ∧ (s.runner w).pc = s.pc := by
  unfold runner
  split <;> exact ⟨rfl, rfl⟩

/-- What a process has mapped is the last snapshot, unless there is none. -/
theorem mapped_last {c : Child} {d : Nat} (h : Inv s)
    (hc : ∀ d, c.ingested = some d → s.lastIngest = some d ∨ s.lastIngest = none) (hd : s.mapped w c = some d) :
    s.lastIngest = some d ∨ s.lastIngest = none := by
  unfold mapped at hd
  split at hd
  · rename_i d' hd'
    cases hd
    exact hc _ hd'
  · simp only [Option.ite_none_right_eq_some, Option.filter_eq_some_iff] at hd
    cases hl : s.lastIngest with
    | none => exact .inr rfl
    | some d' =>
      left
      rw [← h.env d' hl]
      exact hd.2.1

theorem inv_serve {c : Child} (h : Inv s)
    (hc : ∀ d, c.ingested = some d → s.lastIngest = some d ∨ s.lastIngest = none) : Inv (s.serve w c).1 where
  dirs := h.dirs
  busy := h.busy
  ingestDir := h.ingestDir
  loaded := h.loaded
  env := h.env
  child := by
    intro c' d hc' hd
    simp only [serve, Option.some.injEq, Option.ite_none_right_eq_some] at hc'
    obtain ⟨-, rfl⟩ := hc'
    have hlast := mapped_last h hc hd
    exact hlast
  outcome := h.outcome

/-- After a batch the invariant holds, and the process that ran it has mapped the last snapshot, if there is one. -/
theorem inv_batch (h : Inv s) : Inv (s.batch w).1 ∧ (s.batch w).1.lastIngest = s.lastIngest ∧
    (s.batch w).1.pc = s.pc ∧
    ∀ c d, (s.batch w).2 = some c → c.ingested = some d → s.lastIngest = some d ∨ s.lastIngest = none := by
  have hr := inv_runner (w := w) h
  obtain ⟨hl, hpc⟩ := runner_lastIngest (s := s) (w := w)
  have hserve : ∀ c : Child, (∀ d, c.ingested = some d → s.lastIngest = some d ∨ s.lastIngest = none) →
      Inv ((s.runner w).serve w c).1 ∧ ∀ c' d, ((s.runner w).serve w c).2 = some c' → c'.ingested = some d →
        s.lastIngest = some d ∨ s.lastIngest = none := by
    intro c hc
    rw [← hl] at hc ⊢
    refine ⟨inv_serve hr hc, ?_⟩
    intro c' d hc' hd
    cases hc'
    exact mapped_last hr hc hd
  unfold batch
  dsimp only
  split
  · rename_i c hc
    obtain ⟨p, hp, hpc'⟩ := Option.bind_eq_some_iff.1 hc
    obtain ⟨h1, h2⟩ := hserve c fun d hd => hl ▸ hr.child c d (by rw [hp]; exact congrArg some hpc') hd
    exact ⟨h1, hl, hpc, h2⟩
  · split
    · obtain ⟨h1, h2⟩ := hserve {} nofun
      exact ⟨h1, hl, hpc, h2⟩
    · exact ⟨hr, hl, hpc, nofun⟩

/-! ## Steps -/

/-- A batch ran: the call raises or sets what does not matter to the invariant. -/
theorem inv_afterBatch (h : Inv s) (hpc : s.pc = .idle) :
    (∀ m, Inv ((s.batch w).1.raise m)) ∧
    ∀ o l, (∀ d, o = .table d → s.lastIngest = some d) → Inv { (s.batch w).1 with outcome := o, loadedData := l } := by
  obtain ⟨hb, hl, hpc', -⟩ := inv_batch (w := w) h
  have hdirs := hb.dirs
  rw [hpc', hpc] at hdirs
  refine ⟨fun m => inv_raise hb hdirs m, fun o l ho => ?_⟩
  constructor
  · exact hb.dirs
  · exact hb.busy
  · exact hb.ingestDir
  · exact hb.loaded
  · exact hb.env
  · exact hb.child
  · intro d hd
    exact hl.trans (ho d hd)

theorem inv_run (h : Inv s) (hpc : s.pc = .idle) : Inv (s.run w) := by
  have hidle : ∀ m, Inv (s.raise m) := fun m => inv_raise h (by rw [h.dirs, hpc]) m
  obtain ⟨hraise, hset⟩ := inv_afterBatch (w := w) h hpc
  obtain ⟨-, -, -, hlast⟩ := inv_batch (w := w) h
  unfold run
  split
  · exact hidle _
  · rename_i hloaded
    have hsome : s.lastIngest ≠ none := by
      intro hnone
      rw [h.loaded, hnone] at hloaded
      exact hloaded rfl
    split
    · rename_i s' d hb
      rw [hb] at hraise hset hlast
      split
      · exact hraise _
      · split
        · exact hraise _
        · refine hset (.table d) s'.loadedData ?_
          intro d' hd'
          cases hd'
          exact (hlast _ d rfl rfl).resolve_right hsome
    · rename_i s' c _ hb
      rw [hb] at hraise
      exact hraise _

theorem inv_loadData (h : Inv s) (hpc : s.pc = .idle) : Inv (s.loadData w) := by
  have hidle : ∀ m, Inv (s.raise m) := fun m => inv_raise h (by rw [h.dirs, hpc]) m
  obtain ⟨hraise, hset⟩ := inv_afterBatch (w := w) h hpc
  unfold loadData
  split
  · exact hidle _
  · split
    · constructor
      · exact h.dirs
      · exact h.busy
      · exact h.ingestDir
      · exact h.loaded
      · exact h.env
      · exact h.child
      · nofun
    · split
      · rename_i s' hb
        rw [hb] at hraise
        exact hraise _
      · rename_i s' c hb
        rw [hb] at hraise hset
        split
        · exact hset .none true nofun
        · exact hraise _

theorem inv_close (h : Inv s) (hpc : s.pc = .idle) : Inv s.close := by
  have hdirs := h.dirs
  have hdir := h.ingestDir
  rw [hpc] at hdirs
  unfold close
  constructor
  · dsimp only
    rw [hpc, hdir]
    cases hl : s.lastIngest with
    | some d =>
      rw [hl] at hdirs
      simp [removeDir_only hdirs]
    | none =>
      rw [hl] at hdirs
      simpa using hdirs
  · intro _
    rfl
  · rfl
  · rfl
  · nofun
  · nofun
  · nofun

theorem inv_crash (h : Inv s) : Inv { s with proc := s.proc.map fun _ => none } where
  dirs := h.dirs
  busy := h.busy
  ingestDir := h.ingestDir
  loaded := h.loaded
  env := h.env
  child := by
    intro c d hc
    obtain ⟨_, _, h⟩ := Option.map_eq_some_iff.1 hc
    cases h
  outcome := h.outcome

theorem inv_step {a : Act α} (h : Inv s) (hok : s.ingestsCold a = true) (hs : s.step nbytes a = some s') : Inv s' := by
  cases a with
  | ingest tables =>
    cases hpc : s.pc <;> simp only [step, hpc, Option.some.injEq, reduceCtorEq] at hs
    exact hs ▸ inv_beginIngest h hpc tables
  | reserve total free baseOk mkdtempOk =>
    cases hpc : s.pc <;> simp only [step, hpc, Option.some.injEq, reduceCtorEq] at hs
    exact hs ▸ inv_reserve h hpc
  | write ok =>
    cases hpc : s.pc <;> simp only [step, hpc, Option.some.injEq, reduceCtorEq] at hs
    refine hs ▸ inv_write h hpc ?_
    rintro rfl
    simpa [ingestsCold] using hok
  | run w =>
    cases hpc : s.pc <;> simp only [step, hpc, Option.some.injEq, reduceCtorEq] at hs
    exact hs ▸ inv_run h hpc
  | loadData w =>
    cases hpc : s.pc <;> simp only [step, hpc, Option.some.injEq, reduceCtorEq] at hs
    exact hs ▸ inv_loadData h hpc
  | crash =>
    cases hs
    exact inv_crash h
  | close =>
    cases hpc : s.pc <;> simp only [step, hpc, Option.some.injEq, reduceCtorEq] at hs
    exact hs ▸ inv_close h hpc

theorem Inv.latestIngest (h : Inv s) : s.LatestIngest := by
  have hloaded : s.lastIngest = none → s.loaded = false := by
    intro hn
    rw [h.loaded, hn]
    rfl
  constructor
  · exact h.outcome
  · intro hn w
    simp only [run, loadData, hloaded hn]
    exact ⟨⟨_, rfl⟩, _, rfl⟩
  · have hdirs := congrArg List.length h.dirs
    rw [List.length_map] at hdirs
    rw [hdirs]
    cases s.pc with
    | idle => cases s.lastIngest <;> simp
    | dropped tables => simp
    | made d tables => simp
  · intro hpc hn
    have hdirs := h.dirs
    cases hp : s.pc with
    | idle => simpa [hp, hn] using hdirs
    | dropped tables => simpa [hp] using hdirs
    | made d tables => exact absurd hp (hpc d tables)

/-- **The latest ingest** is what every table comes from, in every run in which no `ingest` completes while a
process of the engine is up that has ingested before. -/
theorem answers_latest_ingest (nbytes : α → Nat) (acts : List (Act α)) (s : Engine α)
    (hok : Trace.Meets (step nbytes) (fun s a => s.ingestsCold a = true) {} acts)
    (hrun : Trace.exec (step nbytes) {} acts = some s) : s.LatestIngest := by
  have hinv := Trace.exec_invariant (I := Inv) (fun _ _ _ hi hok hs => inv_step hi hok hs) inv_init hok hrun
  exact hinv.latestIngest

/-- A successful `ingest` on a file system with room. -/
def ingestOf (tables : Tables Nat) : List (Act Nat) :=
  [.ingest tables, .reserve (2 ^ 30) (2 ^ 29) true true, .write true]

theorem answers_after_reingest : ∃ s,
    Trace.exec (step id) {} (ingestOf [("t", 8)] ++ [.run {}, .close] ++ ingestOf [("t", 16)] ++ [.run {}]) = some s ∧
    s.outcome = .table 1 ∧ s.LatestIngest :=
  ⟨_, rfl, rfl, answers_latest_ingest id
    (ingestOf [("t", 8)] ++ [.run {}, .close] ++ ingestOf [("t", 16)] ++ [.run {}]) _
    (Trace.meets_of_check (by decide)) rfl⟩

/-- Re-ingested while warm: the table comes from the segments that are gone. -/
theorem run_on_old_segments : ∃ s,
    Trace.exec (step id) {} (ingestOf [("t", 8)] ++ [.run {}] ++ ingestOf [("t", 16)] ++ [.run {}]) = some s ∧
    s.outcome = .table 0 ∧ s.lastIngest = some 1 ∧ s.dirs.map Prod.fst = [1] ∧ ¬ s.LatestIngest := by
  refine ⟨_, rfl, rfl, rfl, rfl, ?_⟩
  intro h
  have := h.table 0 rfl
  cases this

end SynnoDB.Router.HotLoad
