import Mathlib
import SynnoDB.Lib.Trace
import SynnoDB.Workload.Subsets

/-!
# A resync beside a run (`runtime_reset.py:39-78`, `byo_workload.py:944-1004`, `run.py:371-419,590-640`, `shm_stage.py`)

| here | there |
| --- | --- |
| `Batch`            | a batch as `run_query_batch` needs it: its pool key and the directory of its subset |
| `RunPhase`         | where `run_worker` is: batches produced, in `warm_runtime_in_use`, a runner in hand |
| `ResyncPhase`      | where `register_workload_from_duckdb` is, step by step after the probe |
| `State.pool`       | `HotpatchPool`: for each key what its process has ingested (`none`: not started, or not yet) |
| `State.staged`     | `_STAGED`: the segments by content fingerprint, with the data that they were made of |
| `Root.versionAt`   | the source data that a directory is a subset of |
| `State.log`        | **what each batch of each run read**; the code keeps no such record |

One thread runs, the other registers; every step below is atomic. The guard is a count that `reset_warm_runtime`
looks at under the lock, and the lock is free again while the files are swapped.
-/

namespace SynnoDB.Workload

variable {Data : Type}

/-- The source data behind a directory in this representation. -/
def Root.versionAt (r : Root Data) (p : Rat × ServeFrom) : Option Data :=
  match r.subsets.get p.1, p.2 with
  | some (.link source), .duckdb => r.file source
  | some (.duckdb _), .duckdb | some (.parquet _), .parquet => (r.built.get p).map Origin.data
  | _, _ => none

namespace Resync

structure Batch where
  key : String
  place : Rat × ServeFrom

inductive RunPhase where
  | idle
  | produced (batches : List Batch)
  | active (todo : List Batch)
  /-- `HotpatchPool.get` has returned the runner of `b`. -/
  | called (b : Batch) (todo : List Batch)

inductive ResyncPhase (Data : Type) where
  | idle
  /-- The probe found nothing to reuse. -/
  | probed (a : RegisterArgs Data)
  | reset (a : RegisterArgs Data)
  | frozen (a : RegisterArgs Data) (d : Data) (relationships : List Relationship)
  | cleared (a : RegisterArgs Data) (d : Data) (relationships : List Relationship)
  | built (a : RegisterArgs Data) (d : Data) (relationships : List Relationship)

/-- The runtime is reset and the call has not returned. -/
def ResyncPhase.window : ResyncPhase Data → Bool
  | .idle | .probed _ => false
  | _ => true

/-- `run` is the number of the run. -/
structure Read (Data : Type) where
  run : Nat
  data : Data

structure State (Data : Type) where
  root : Root Data
  specs : List WorkloadSpec := []
  activeRuns : Nat := 0
  runs : Nat := 0
  run : RunPhase := .idle
  resync : ResyncPhase Data := .idle
  pool : Dict String (Option Data) := []
  staged : Dict Nat Data := []
  log : List (Read Data) := []

inductive Act (Data : Type) where
  | register (a : RegisterArgs Data)
  | reset
  | freeze
  | clear
  | build
  | writeManifest
  /-- `produce_workload`, with `prepare`; it returns `batches`. -/
  | produce (spec : WorkloadSpec) (benchmarkSf : Rat) (batches : List Batch)
  | enter
  | get
  /-- The batch is executed, or answered by a cache; `stamp` is the content fingerprint of its subset now. -/
  | execute (stamp : Nat) (cached : Bool)
  | leave
  /-- The process of this key is gone. -/
  | died (key : String)
  /-- Another Python process works on the root. -/
  | restart

section
variable (M : Scaler Data)

namespace State

variable (s : State Data)

/-- `stage_subset_duckdb_to_shm`, for a batch that needs it; `none`: it raises. -/
def stage (b : Batch) (stamp : Nat) : Option (Dict Nat Data) :=
  match b.place.2, s.staged.get stamp with
  | .parquet, _ | .duckdb, some _ => some s.staged
  | .duckdb, none => (s.root.versionAt b.place).map fun d => s.staged.set stamp d

/-- What a process that starts now ingests. -/
def source (b : Batch) (staged : Dict Nat Data) (stamp : Nat) : Option Data :=
  match b.place.2 with
  | .parquet => s.root.versionAt b.place
  | .duckdb => staged.get stamp

/-- An execution of `b`; an exception, or no answer, ends the run. -/
def executeBatch (b : Batch) (todo : List Batch) (stamp : Nat) : State Data :=
  match s.stage b stamp with
  | none => { s with run := .active [] }
  | some staged => match ((s.pool.get b.key).join).or (s.source b staged stamp) with
    | none => { s with run := .active [], staged }
    | some d => { s with
        run := .active todo
        staged
        pool := s.pool.set b.key (some d)
        log := ⟨s.runs, d⟩ :: s.log }

/-- `register_workload_from_duckdb` up to the resync: the spec of what is reused, or the next phase. -/
def probe (a : RegisterArgs Data) : State Data :=
  if a.downscaleFractions.any fun f => !decide (0 < f ∧ f < 1) then s
  else match a.probed s.root with
    | none => s
    | some d => match M.relationships d a.sqlById a.joinRelationships with
      | none => s
      | some relationships =>
        if a.reuses M d relationships s.root then { s with specs := a.spec M d relationships :: s.specs }
        else { s with resync := .probed a }

/-- The source as the resync reads it. -/
def freezes (a : RegisterArgs Data) : Option (Data × List Relationship) :=
  (a.toFreeze s.root).bind fun d => (M.relationships d a.sqlById a.joinRelationships).map fun relationships => (d, relationships)

end State

def step (s : State Data) : Act Data → Option (State Data)
  | .register a => match s.resync with
    | .idle => some (s.probe M a)
    | _ => none
  | .reset => match s.resync with
    | .probed a =>
      -- `ResyncInFlightError`
      if 0 < s.activeRuns then some { s with resync := .idle }
      else some { s with resync := .reset a, pool := [], staged := [] }
    | _ => none
  | .freeze => match s.resync with
    | .reset a => match s.freezes M a with
      | none => some { s with resync := .idle, root := a.freeze s.root }
      | some (d, relationships) => some { s with resync := .frozen a d relationships, root := a.freeze s.root }
    | _ => none
  | .clear => match s.resync with
    | .frozen a d relationships =>
      some { s with resync := .cleared a d relationships, root := { s.root with subsets := [], manifest := none } }
    | _ => none
  | .build => match s.resync with
    | .cleared a d relationships => some { s with
        resync := .built a d relationships
        root := { s.root with
          subsets := s.root.subsets.set 1 (a.benchmarkSubset d)
          built := s.root.built.set (1, a.serveFrom) { data := d, params := none } } }
    | _ => none
  | .writeManifest => match s.resync with
    | .built a d relationships => some { s with
        resync := .idle
        root := { s.root with manifest := some (a.version M d relationships), frozen := some d }
        specs := a.spec M d relationships :: s.specs }
    | _ => none
  | .produce spec benchmarkSf batches => match s.run with
    | .idle =>
      if spec ∈ s.specs then
        match spec.prepare M benchmarkSf s.root with
        | (false, root) => some { s with root }
        | (true, root) => some { s with root, run := .produced batches }
      else none
    | _ => none
  | .enter => match s.run with
    | .produced batches => some { s with run := .active batches, activeRuns := s.activeRuns + 1, runs := s.runs + 1 }
    | _ => none
  | .get => match s.run with
    | .active (b :: todo) => some { s with
        run := .called b todo
        pool := if (s.pool.get b.key).isSome then s.pool else s.pool.set b.key none }
    | _ => none
  | .execute stamp cached => match s.run with
    | .called b todo => some (if cached then { s with run := .active todo } else s.executeBatch b todo stamp)
    | _ => none
  | .leave => match s.run with
    | .active _ => some { s with run := .idle, activeRuns := s.activeRuns - 1 }
    | _ => none
  | .died key => some { s with pool := if (s.pool.get key).isSome then s.pool.set key none else s.pool }
  | .restart => some { s with activeRuns := 0, specs := [], run := .idle, resync := .idle, pool := [], staged := [] }

/-- A process that starts on an empty root. -/
def start (outside : Dict String Data) : State Data := { root := { outside } }

/-- A run holds the runtime. -/
def RunPhase.active? : RunPhase → Bool
  | .active _ | .called _ _ => true
  | _ => false

/-- The source that a resync has frozen, with the call. -/
def ResyncPhase.new : ResyncPhase Data → Option (RegisterArgs Data × Data)
  | .frozen a d _ | .cleared a d _ | .built a d _ => some (a, d)
  | _ => none

/-- The directories hold nothing but this. -/
def ResyncPhase.swapped : ResyncPhase Data → Option Data
  | .cleared _ d _ | .built _ d _ => some d
  | _ => none

/-! ## The condition -/

/-- What a directory that is built now will be read with: the data of the last resync, or after the directories are
cleared that of the present one. What is built before they are cleared is not read. -/
def Target (s : State Data) (d : Data) : Prop :=
  match s.resync with
  | .idle | .probed _ => s.root.frozen = some d
  | .reset _ | .frozen _ _ _ => True
  | .cleared _ new _ | .built _ new _ => d = new

/-- No batch is executed between the reset and the return of the call, `prepare` builds from the source that is current,
and a resync that has reset the runtime comes to its end. -/
def Safe (s : State Data) : Act Data → Prop
  | .execute _ cached => cached = true ∨ s.resync.window = false
  | .restart => s.resync.window = false
  | .freeze => ∀ a, s.resync = .reset a → (s.freezes M a).isSome = true
  | .produce spec benchmarkSf _ => spec.missing M benchmarkSf s.root ≠ [] →
      ∀ o, spec.origin M s.root = some o → Target s o.data
  | _ => True

end

variable {M : Scaler Data} {s s' : State Data} {r : Root Data} {a : RegisterArgs Data} {p : Rat × ServeFrom}
  {d d' : Data}

/-! ## Directories -/

theorem versionAt_clear {manifest : Option DatasetVersion} :
    ({ r with subsets := [], manifest } : Root Data).versionAt p = none := rfl

/-- Only the file of a link and the record of the last build count. -/
theorem versionAt_set {f : Rat} {sub : Subset Data} {sf : ServeFrom} {o : Origin Data} (hsf : sub.serveFrom = sf) :
    ({ r with subsets := r.subsets.set f sub, built := r.built.set (f, sf) o } : Root Data).versionAt p =
      if f = p.1 then
        if sf = p.2 then match sub with
          | .link source => r.file source
          | _ => some o.data
        else none
      else r.versionAt p := by
  obtain ⟨g, sg⟩ := p
  unfold Root.versionAt
  dsimp only
  rw [Dict.get_set, Dict.get_set]
  by_cases hfg : f = g
  · subst hfg
    rw [if_pos rfl, if_pos rfl]
    subst hsf
    cases sub with
    | link source => cases sg <;> rfl
    | duckdb x => cases sg <;> simp [Subset.serveFrom]
    | parquet x => cases sg <;> simp [Subset.serveFrom]
  · rw [if_neg hfg, if_neg hfg, if_neg (by rintro ⟨⟩; exact hfg rfl)]
    rfl

theorem versionAt_erase {f : Rat} :
    ({ r with subsets := r.subsets.erase f } : Root Data).versionAt p = if f = p.1 then none else r.versionAt p := by
  unfold Root.versionAt
  dsimp only
  rw [Dict.get_erase]
  by_cases hf : f = p.1
  · rw [if_pos hf, if_pos hf]
  · rw [if_neg hf, if_neg hf]
    rfl

theorem versionAt_materialize {spec : WorkloadSpec} {o : Origin Data} : ∀ {fs : List Rat} {r : Root Data},
    (spec.materialize M o fs r).2.versionAt p = some d → r.versionAt p = some d ∨ o.data = d
  | [], _, h => .inl h
  | f :: fs, r, h => by
    unfold WorkloadSpec.materialize at h
    split at h
    · rw [versionAt_erase] at h
      split at h
      · cases h
      · exact .inl h
    · rename_i x hx
      rcases versionAt_materialize h with h | h
      · rw [versionAt_set (by cases spec.serveFrom <;> rfl)] at h
        split at h
        · split at h
          · cases hsf : spec.serveFrom <;> rw [hsf] at h <;> exact .inr (Option.some.inj h)
          · cases h
        · exact .inl h
      · exact .inr h

theorem file_materialize {spec : WorkloadSpec} {o : Origin Data} {source : FrozenSource} :
    ∀ {fs : List Rat} {r : Root Data},
    (spec.materialize M o fs r).2.file source = r.file source ∧ (spec.materialize M o fs r).2.frozen = r.frozen
  | [], _ => ⟨rfl, rfl⟩
  | f :: fs, r => by
    unfold WorkloadSpec.materialize
    split
    · exact ⟨by cases source <;> rfl, rfl⟩
    · refine ⟨file_materialize.1.trans ?_, (@file_materialize spec o source _ _).2.trans ?_⟩
      · cases source <;> rfl
      · rfl

/-- What a directory holds after `prepare` it held before, or it is of the source that `prepare` read. -/
theorem prepare_versionAt {spec : WorkloadSpec} {benchmarkSf : Rat}
    (h : (spec.prepare M benchmarkSf r).2.versionAt p = some d) : r.versionAt p = some d ∨
      spec.missing M benchmarkSf r ≠ [] ∧ ∃ o, spec.origin M r = some o ∧ o.data = d := by
  unfold WorkloadSpec.prepare at h
  split at h
  · exact .inl h
  · rename_i missing hmissing
    split at h
    · exact .inl h
    · rename_i o ho
      rcases versionAt_materialize h with h | h
      · exact .inl h
      · exact .inr ⟨hmissing, o, ho, h⟩

theorem prepare_file {spec : WorkloadSpec} {benchmarkSf : Rat} {source : FrozenSource} :
    (spec.prepare M benchmarkSf r).2.file source = r.file source ∧
      (spec.prepare M benchmarkSf r).2.frozen = r.frozen := by
  unfold WorkloadSpec.prepare
  split
  · exact ⟨rfl, rfl⟩
  · split
    · exact ⟨rfl, rfl⟩
    · exact file_materialize

/-! ## The invariant -/

/-- Nothing is warm, and the run that holds the runtime, if any, has not read yet. -/
structure Quiet (s : State Data) : Prop where
  pool : ∀ k d, s.pool.get k ≠ some (some d)
  staged : s.staged = []
  unread : s.run.active? = true → ∀ x ∈ s.log, x.run ≠ s.runs

structure Inv (s : State Data) : Prop where
  counted : s.run.active? = true → 0 < s.activeRuns
  past : ∀ x ∈ s.log, x.run ≤ s.runs
  same : ∀ x ∈ s.log, ∀ y ∈ s.log, x.run = y.run → x.data = y.data
  reading : s.run.active? = true → ∀ x ∈ s.log, x.run = s.runs → s.root.frozen = some x.data
  pool : ∀ k d, s.pool.get k = some (some d) → s.root.frozen = some d
  staged : ∀ t d, s.staged.get t = some d → s.root.frozen = some d
  window : s.resync.window = true → Quiet s
  settled : s.resync.window = false → ∀ p d, s.root.versionAt p = some d → s.root.frozen = some d
  file : ∀ a d, s.resync.new = some (a, d) → s.root.file a.frozenSource = some d
  rebuilt : ∀ d, s.resync.swapped = some d → ∀ p d', s.root.versionAt p = some d' → d' = d

theorem inv_start (outside : Dict String Data) : Inv (start outside) where
  counted h := by cases h
  past x hx := by cases hx
  same x hx := by cases hx
  reading h := by cases h
  pool k d h := by cases h
  staged t d h := by cases h
  window h := by cases h
  settled _ p d h := by cases h
  file a d h := by cases h
  rebuilt d h := by cases h

/-- The thread that registers is in another phase outside the window. -/
theorem Inv.idle {specs : List WorkloadSpec} {phase : ResyncPhase Data} (h : Inv s) (hnow : s.resync.window = false)
    (hphase : phase.window = false) (hnew : phase.new = none) (hswapped : phase.swapped = none) :
    Inv { s with resync := phase, specs } where
  counted := h.counted
  past := h.past
  same := h.same
  reading := h.reading
  pool := h.pool
  staged := h.staged
  window hw := by rw [hphase] at hw; cases hw
  settled _ := h.settled hnow
  file a d hn := by rw [hnew] at hn; cases hn
  rebuilt d hs := by rw [hswapped] at hs; cases hs

theorem inv_probe (h : Inv s) (hidle : s.resync = .idle) : Inv (s.probe M a) := by
  have hnow : s.resync.window = false := by rw [hidle]; rfl
  have hkeep : ∀ specs, Inv { s with specs } := by
    intro specs
    have hsame : Inv { s with resync := .idle, specs } := h.idle hnow rfl rfl rfl
    rw [← hidle] at hsame
    exact hsame
  unfold State.probe
  split
  · exact h
  split
  · exact h
  split
  · exact h
  split
  · exact hkeep _
  · exact h.idle hnow rfl rfl rfl

theorem inv_reset (h : Inv s) (hfree : ¬ 0 < s.activeRuns) :
    Inv { s with resync := .reset a, pool := [], staged := [] } := by
  have hrun : s.run.active? ≠ true := fun hactive => hfree (h.counted hactive)
  exact {
    counted := h.counted
    past := h.past
    same := h.same
    reading := h.reading
    pool := fun k d hk => by cases hk
    staged := fun t d ht => by cases ht
    window := fun _ => ⟨fun k d hk => (by cases hk), rfl, fun hactive => absurd hactive hrun⟩
    settled := fun hw => by cases hw
    file := fun a d hn => by cases hn
    rebuilt := fun d hs => by cases hs }

theorem inv_freeze (h : Inv s) (hreset : s.resync = .reset a) {relationships : List Relationship}
    (hd : s.freezes M a = some (d, relationships)) :
    Inv { s with resync := .frozen a d relationships, root := a.freeze s.root } := by
  have hquiet : Quiet s := h.window (by rw [hreset]; rfl)
  have hfrozen : (a.freeze s.root).frozen = s.root.frozen := freeze_frozen
  refine {
    counted := h.counted
    past := h.past
    same := h.same
    reading := fun hactive x hx hrun => absurd hrun (hquiet.unread hactive x hx)
    pool := fun k d hk => absurd hk (hquiet.pool k d)
    staged := fun t d ht => ?_
    window := fun _ => ⟨hquiet.pool, hquiet.staged, hquiet.unread⟩
    settled := fun hw => by cases hw
    file := fun b e hn => ?_
    rebuilt := fun d hs => by cases hs }
  · dsimp only at ht
    rw [hquiet.staged] at ht
    cases ht
  · cases hn
    obtain ⟨x, hx, hmap⟩ := Option.bind_eq_some_iff.1 hd
    obtain ⟨rel, -, heq⟩ := Option.map_eq_some_iff.1 hmap
    cases heq
    exact file_freeze.trans hx

/-- A step of the resync that leaves the runtime and the record alone. -/
theorem Inv.swap {root : Root Data} {phase : ResyncPhase Data} {specs : List WorkloadSpec} (h : Inv s)
    (hwindow : s.resync.window = true)
    (hsettled : phase.window = false → ∀ p d, root.versionAt p = some d → root.frozen = some d)
    (hfile : ∀ a d, phase.new = some (a, d) → root.file a.frozenSource = some d)
    (hrebuilt : ∀ d, phase.swapped = some d → ∀ p d', root.versionAt p = some d' → d' = d) :
    Inv { s with root, resync := phase, specs } := by
  have hquiet : Quiet s := h.window hwindow
  refine {
    counted := h.counted
    past := h.past
    same := h.same
    reading := fun hactive x hx hrun => absurd hrun (hquiet.unread hactive x hx)
    pool := fun k d hk => absurd hk (hquiet.pool k d)
    staged := fun t d ht => ?_
    window := fun _ => ⟨hquiet.pool, hquiet.staged, hquiet.unread⟩
    settled := hsettled
    file := hfile
    rebuilt := hrebuilt }
  dsimp only at ht
  rw [hquiet.staged] at ht
  cases ht

/-- A process of the pool is started over, or a runner is added. -/
theorem Inv.put_none (h : Inv s) (key : String) : Inv { s with pool := s.pool.set key none } := by
  have hpool : ∀ k d, (s.pool.set key none).get k = some (some d) → s.pool.get k = some (some d) := by
    intro k d hk
    rw [Dict.get_set] at hk
    split at hk
    · cases hk
    · exact hk
  exact {
    counted := h.counted
    past := h.past
    same := h.same
    reading := h.reading
    pool := fun k d hk => h.pool k d (hpool k d hk)
    staged := h.staged
    window := fun hw => ⟨fun k d hk => (h.window hw).pool k d (hpool k d hk), (h.window hw).staged,
      (h.window hw).unread⟩
    settled := h.settled
    file := h.file
    rebuilt := h.rebuilt }

/-- The run goes on, or gives the runtime back. -/
theorem Inv.run (h : Inv s) {run : RunPhase} {activeRuns : Nat}
    (hrun : run.active? = true → s.run.active? = true ∧ 0 < activeRuns) : Inv { s with run, activeRuns } where
  counted hactive := (hrun hactive).2
  past := h.past
  same := h.same
  reading hactive := h.reading (hrun hactive).1
  pool := h.pool
  staged := h.staged
  window hw := ⟨(h.window hw).pool, (h.window hw).staged, fun hactive => (h.window hw).unread (hrun hactive).1⟩
  settled := h.settled
  file := h.file
  rebuilt := h.rebuilt

theorem Inv.enter (h : Inv s) (batches : List Batch) :
    Inv { s with run := .active batches, activeRuns := s.activeRuns + 1, runs := s.runs + 1 } := by
  have hnew : ∀ x ∈ s.log, x.run ≠ s.runs + 1 := fun x hx heq => absurd (h.past x hx) (by omega)
  exact {
    counted := fun _ => Nat.succ_pos _
    past := fun x hx => Nat.le_succ_of_le (h.past x hx)
    same := h.same
    reading := fun _ x hx hrun => absurd hrun (hnew x hx)
    pool := h.pool
    staged := h.staged
    window := fun hw => ⟨(h.window hw).pool, (h.window hw).staged, fun _ => hnew⟩
    settled := h.settled
    file := h.file
    rebuilt := h.rebuilt }

theorem stage_frozen (h : Inv s) (hnow : s.resync.window = false) {b : Batch} {stamp : Nat} {staged : Dict Nat Data}
    (hstage : s.stage b stamp = some staged) : ∀ t d, staged.get t = some d → s.root.frozen = some d := by
  unfold State.stage at hstage
  split at hstage
  · cases hstage
    exact h.staged
  · cases hstage
    exact h.staged
  · obtain ⟨x, hx, rfl⟩ := Option.map_eq_some_iff.1 hstage
    intro t d ht
    rw [Dict.get_set] at ht
    split at ht
    · cases ht
      exact h.settled hnow _ _ hx
    · exact h.staged t d ht

/-- What an execution reads outside the window is current: a process or a segment that is warm, or the directory. -/
theorem read_frozen (h : Inv s) (hnow : s.resync.window = false) {b : Batch} {stamp : Nat} {staged : Dict Nat Data}
    (hstage : s.stage b stamp = some staged)
    (hread : ((s.pool.get b.key).join).or (s.source b staged stamp) = some d) : s.root.frozen = some d := by
  rcases Option.or_eq_some_iff.1 hread with hwarm | ⟨-, hsource⟩
  · exact h.pool b.key d (Option.join_eq_some_iff.1 hwarm)
  · unfold State.source at hsource
    split at hsource
    · exact h.settled hnow _ _ hsource
    · exact stage_frozen h hnow hstage _ _ hsource

theorem Inv.executeBatch (h : Inv s) (hnow : s.resync.window = false) (hactive : s.run.active? = true) (b : Batch)
    (todo : List Batch) (stamp : Nat) : Inv (s.executeBatch b todo stamp) := by
  unfold State.executeBatch
  have hcounted := h.counted hactive
  split
  · exact h.run fun _ => ⟨hactive, hcounted⟩
  · rename_i staged hstage
    have hstaged := stage_frozen h hnow hstage
    split
    · have hended : Inv { s with run := .active [] } := h.run fun _ => ⟨hactive, hcounted⟩
      exact { hended with
        staged := hstaged
        window := fun hw => absurd hw (by rw [hnow]; exact Bool.false_ne_true) }
    · rename_i d hread
      have hd := read_frozen h hnow hstage hread
      have hcurrent : ∀ x ∈ s.log, x.run = s.runs → x.data = d := by
        intro x hx hrun
        have := h.reading hactive x hx hrun
        rw [hd] at this
        exact (Option.some.inj this).symm
      refine {
        counted := fun _ => hcounted
        past := fun x hx => ?_
        same := fun x hx y hy hrun => ?_
        reading := fun _ x hx hrun => ?_
        pool := fun k e hk => ?_
        staged := hstaged
        window := fun hw => absurd hw (by rw [hnow]; exact Bool.false_ne_true)
        settled := h.settled
        file := h.file
        rebuilt := h.rebuilt }
      · rcases List.mem_cons.1 hx with rfl | hx
        · exact Nat.le_refl _
        · exact h.past x hx
      · rcases List.mem_cons.1 hx with rfl | hx <;> rcases List.mem_cons.1 hy with rfl | hy
        · rfl
        · exact (hcurrent y hy hrun.symm).symm
        · exact hcurrent x hx hrun
        · exact h.same x hx y hy hrun
      · rcases List.mem_cons.1 hx with rfl | hx
        · exact hd
        · exact h.reading hactive x hx hrun
      · dsimp only at hk
        rw [Dict.get_set] at hk
        split at hk
        · cases hk
          exact hd
        · exact h.pool k e hk

theorem Inv.prepare (h : Inv s) {spec : WorkloadSpec} {benchmarkSf : Rat}
    (hsafe : spec.missing M benchmarkSf s.root ≠ [] → ∀ o, spec.origin M s.root = some o → Target s o.data) :
    Inv { s with root := (spec.prepare M benchmarkSf s.root).2 } := by
  have hfrozen : (spec.prepare M benchmarkSf s.root).2.frozen = s.root.frozen :=
    (@prepare_file _ M s.root spec benchmarkSf .snapshot).2
  exact {
    counted := h.counted
    past := h.past
    same := h.same
    reading := fun hactive x hx hrun => hfrozen.trans (h.reading hactive x hx hrun)
    pool := fun k d hk => hfrozen.trans (h.pool k d hk)
    staged := fun t d ht => hfrozen.trans (h.staged t d ht)
    window := fun hw => ⟨(h.window hw).pool, (h.window hw).staged, (h.window hw).unread⟩
    settled := fun hw p d hp => by
      refine hfrozen.trans ?_
      rcases prepare_versionAt hp with hp | ⟨hmissing, o, ho, rfl⟩
      · exact h.settled hw p d hp
      · have := hsafe hmissing o ho
        unfold Target at this
        cases hphase : s.resync with
        | idle => rw [hphase] at this; exact this
        | probed a => rw [hphase] at this; exact this
        | _ => dsimp only at hw; rw [hphase] at hw; cases hw
    file := fun a d hn => prepare_file.1.trans (h.file a d hn)
    rebuilt := fun d hs p d' hp => by
      rcases prepare_versionAt hp with hp | ⟨hmissing, o, ho, rfl⟩
      · exact h.rebuilt d hs p d' hp
      · have := hsafe hmissing o ho
        unfold Target at this
        dsimp only at hs
        cases hphase : s.resync with
        | cleared a new rel => rw [hphase] at this hs; cases hs; exact this
        | built a new rel => rw [hphase] at this hs; cases hs; exact this
        | _ => rw [hphase] at hs; cases hs }

/-! ## Runs -/

theorem inv_step {act : Act Data} (h : Inv s) (hsafe : Safe M s act) (hstep : step M s act = some s') : Inv s' := by
  cases act with
  | register a =>
    simp only [step] at hstep
    split at hstep
    · rename_i hidle
      cases hstep
      exact inv_probe h hidle
    · cases hstep
  | reset =>
    simp only [step] at hstep
    split at hstep
    · rename_i a hprobed
      have hnow : s.resync.window = false := by rw [hprobed]; rfl
      split at hstep
      · cases hstep
        exact h.idle hnow rfl rfl rfl
      · rename_i hfree
        cases hstep
        exact inv_reset h hfree
    · cases hstep
  | freeze =>
    simp only [step] at hstep
    split at hstep
    · rename_i a hreset
      obtain ⟨⟨d, relationships⟩, hd⟩ := Option.isSome_iff_exists.1 (hsafe a hreset)
      rw [hd] at hstep
      cases hstep
      exact inv_freeze h hreset hd
    · cases hstep
  | clear =>
    simp only [step] at hstep
    split at hstep
    · rename_i a d relationships hfrozen
      cases hstep
      refine h.swap (by rw [hfrozen]; rfl) (fun hw => by cases hw) (fun b e hn => ?_) (fun e hs p d' hp => ?_)
      · cases hn
        exact h.file a d (by rw [hfrozen]; rfl)
      · rw [versionAt_clear] at hp
        cases hp
    · cases hstep
  | build =>
    simp only [step] at hstep
    split at hstep
    · rename_i a d relationships hcleared
      cases hstep
      have hfile : s.root.file a.frozenSource = some d := h.file a d (by rw [hcleared]; rfl)
      refine h.swap (by rw [hcleared]; rfl) (fun hw => by cases hw) (fun b e hn => ?_) (fun e hs p d' hp => ?_)
      · cases hn
        exact hfile
      · cases hs
        rw [versionAt_set (by unfold RegisterArgs.benchmarkSubset; cases a.serveFrom <;> rfl)] at hp
        split at hp
        · split at hp
          · unfold RegisterArgs.benchmarkSubset at hp
            cases hsf : a.serveFrom with
            | duckdb =>
              rw [hsf] at hp
              dsimp only at hp
              rw [hfile] at hp
              exact (Option.some.inj hp).symm
            | parquet =>
              rw [hsf] at hp
              exact (Option.some.inj hp).symm
          · cases hp
        · exact h.rebuilt d (by rw [hcleared]; rfl) p d' hp
    · cases hstep
  | writeManifest =>
    simp only [step] at hstep
    split at hstep
    · rename_i a d relationships hbuilt
      cases hstep
      refine h.swap (by rw [hbuilt]; rfl) (fun _ p d' hp => ?_) (fun b e hn => by cases hn) (fun e hs => by cases hs)
      exact congrArg some (h.rebuilt d (by rw [hbuilt]; rfl) p d' hp).symm
    · cases hstep
  | produce spec benchmarkSf batches =>
    simp only [step] at hstep
    split at hstep
    · rename_i hidle
      have hprepared := h.prepare hsafe
      split at hstep
      · split at hstep
        · rename_i root hroot
          rw [hroot] at hprepared
          cases hstep
          exact hprepared
        · rename_i root hroot
          rw [hroot] at hprepared
          cases hstep
          exact hprepared.run fun hactive => by cases hactive
      · cases hstep
    · cases hstep
  | enter =>
    simp only [step] at hstep
    split at hstep
    · cases hstep
      exact h.enter _
    · cases hstep
  | get =>
    simp only [step] at hstep
    split at hstep
    · rename_i b todo hrun
      have hactive : s.run.active? = true := by rw [hrun]; rfl
      cases hstep
      split
      · exact h.run fun _ => ⟨hactive, h.counted hactive⟩
      · exact (h.put_none b.key).run fun _ => ⟨hactive, h.counted hactive⟩
    · cases hstep
  | execute stamp cached =>
    simp only [step] at hstep
    split at hstep
    · rename_i b todo hrun
      have hactive : s.run.active? = true := by rw [hrun]; rfl
      cases hstep
      split
      · exact h.run fun _ => ⟨hactive, h.counted hactive⟩
      · rename_i hlive
        exact h.executeBatch (hsafe.resolve_left hlive) hactive b todo stamp
    · cases hstep
  | leave =>
    simp only [step] at hstep
    split at hstep
    · cases hstep
      exact h.run fun hactive => by cases hactive
    · cases hstep
  | died key =>
    cases hstep
    split
    · exact h.put_none key
    · exact h
  | restart =>
    cases hstep
    exact {
      counted := fun hactive => by cases hactive
      past := h.past
      same := h.same
      reading := fun hactive => by cases hactive
      pool := fun k d hk => by cases hk
      staged := fun t d ht => by cases ht
      window := fun hw => by cases hw
      settled := fun _ => h.settled hsafe
      file := fun a d hn => by cases hn
      rebuilt := fun d hs => by cases hs }

/-- **A resync and a run do not mix data** in a process whose steps are safe: the batches of a run read one version, and
what is warm or staged is of the last resync that has returned. -/
theorem resync_unmixed (M : Scaler Data) (outside : Dict String Data) (acts : List (Act Data)) (s : State Data)
    (hsafe : Trace.Meets (step M) (Safe M) (start outside) acts) (hrun : Trace.exec (step M) (start outside) acts = some s) :
    (∀ x ∈ s.log, ∀ y ∈ s.log, x.run = y.run → x.data = y.data) ∧
      (∀ k d, s.pool.get k = some (some d) → s.root.frozen = some d) ∧
      ∀ t d, s.staged.get t = some d → s.root.frozen = some d := by
  have hinv : Inv s := Trace.exec_invariant (fun _ _ _ => inv_step) (inv_start outside) hsafe hrun
  exact ⟨hinv.same, hinv.pool, hinv.staged⟩

/-- The steps of a resync, one after the other, are the resync. -/
theorem steps_resync {relationships : List Relationship} (hreset : s.resync = .reset a)
    (hd : s.freezes M a = some (d, relationships)) :
    (Trace.exec (step M) s [.freeze, .clear, .build, .writeManifest]).map State.root = some (a.resync M s.root).2 := by
  obtain ⟨x, hx, hmap⟩ := Option.bind_eq_some_iff.1 hd
  obtain ⟨rel, hrel, heq⟩ := Option.map_eq_some_iff.1 hmap
  cases heq
  have hresync : (a.resync M s.root).2 = { a.freeze s.root with
      subsets := [(1, a.benchmarkSubset d)]
      manifest := some (a.version M d relationships)
      frozen := some d
      built := s.root.built.set (1, a.serveFrom) { data := d, params := none } } := by
    unfold RegisterArgs.resync
    dsimp only
    rw [file_freeze, hx]
    dsimp only
    rw [hrel, freeze_built]
  rw [hresync]
  simp only [Trace.exec, step, hreset, hd, Option.map_some, freeze_built]
  rfl

/-! ## A run in the window -/

/-- Data is the number of rows of one table. -/
def rowsScaler : Scaler Nat where
  tables _ := ["t"]
  rowCounts n := [("t", n)]
  relationships _ _ _ := some []
  sample n _ _ _ _ := some n

def liveRows (n : Nat) : RegisterArgs Nat where
  sqlById := []
  downscaleFractions := [1 / 10]
  source := .live n n
  duckdb := "1"

def registerRows (n : Nat) : List (Act Nat) := [.register (liveRows n), .reset, .freeze, .clear, .build, .writeManifest]

/-- The sample, then the whole table. -/
def twoBatches : List Batch := [⟨"./db fraction0.1", (1 / 10, .duckdb)⟩, ⟨"./db fraction1", (1, .duckdb)⟩]

def produceRows (n : Nat) : Act Nat := .produce ((liveRows n).spec rowsScaler n []) 1 twoBatches

def safeCheck (s : State Nat) : Act Nat → Bool
  | .execute _ cached => cached || !s.resync.window
  | .restart => !s.resync.window
  | .freeze => match s.resync with
    | .reset a => (s.freezes rowsScaler a).isSome
    | _ => true
  | .produce spec benchmarkSf _ => (spec.missing rowsScaler benchmarkSf s.root).isEmpty ||
    (spec.origin rowsScaler s.root).all fun o => !s.resync.window && s.root.frozen == some o.data
  | _ => true

theorem safe_of_check {s : State Nat} {act : Act Nat} (h : safeCheck s act = true) : Safe rowsScaler s act := by
  cases act with
  | execute stamp cached => simpa [safeCheck, Safe] using h
  | restart => simpa [safeCheck, Safe] using h
  | freeze =>
    intro a hreset
    simp only [safeCheck, hreset] at h
    exact h
  | produce spec benchmarkSf batches =>
    intro hmissing o ho
    simp only [safeCheck, ho, Option.all_some, Bool.or_eq_true, Bool.and_eq_true, Bool.not_eq_true', beq_iff_eq,
      List.isEmpty_iff] at h
    obtain ⟨hnow, hfrozen⟩ := h.resolve_left hmissing
    unfold Target
    cases hphase : s.resync with
    | idle => exact hfrozen
    | probed a => exact hfrozen
    | _ => rw [hphase] at hnow; cases hnow
  | _ => trivial

/-- The run comes before the resync. -/
def runThenResync : List (Act Nat) :=
  registerRows 1 ++ [produceRows 1, .enter, .get, .execute 0 false, .get, .execute 1 false, .leave] ++ registerRows 2

theorem resync_unmixed_once : ∃ s, Trace.exec (step rowsScaler) (start []) runThenResync = some s ∧ s.log.length = 2 ∧
    s.root.frozen = some 2 ∧ ∀ x ∈ s.log, ∀ y ∈ s.log, x.run = y.run → x.data = y.data := by
  have hrun : ((Trace.exec (step rowsScaler) (start []) runThenResync).any fun s =>
      s.log.length == 2 && s.root.frozen == some 2) = true := by decide +kernel
  obtain ⟨s, hs, hlog⟩ := (Option.any_eq_true _ _).1 hrun
  rw [Bool.and_eq_true, beq_iff_eq, beq_iff_eq] at hlog
  have hcheck : Trace.meetsCheck (step rowsScaler) safeCheck (start []) runThenResync = true := by decide +kernel
  have hsafe := (Trace.meets_of_check hcheck).mono fun _ _ => safe_of_check
  exact ⟨s, hs, hlog.1, hlog.2, (resync_unmixed rowsScaler [] runThenResync s hsafe hs).1⟩

/-- The run enters after the reset, reads its first batch before the source is frozen and the second one after. -/
def runInWindow : List (Act Nat) :=
  registerRows 1 ++ [produceRows 1, .register (liveRows 2), .reset, .enter, .get, .execute 0 false, .freeze, .get,
    .execute 1 false, .clear, .build, .writeManifest, .leave]

theorem run_in_window_mixes : ∃ s, Trace.exec (step rowsScaler) (start []) runInWindow = some s ∧
    s.root.frozen = some 2 ∧ s.log.map (fun x => (x.run, x.data)) = [(1, 2), (1, 1)] ∧
    s.pool.get "./db fraction0.1" = some (some 1) ∧ s.staged.get 0 = some 1 := by
  have hrun : ((Trace.exec (step rowsScaler) (start []) runInWindow).any fun s =>
      s.root.frozen == some 2 && s.log.map (fun x => (x.run, x.data)) == [(1, 2), (1, 1)] &&
        s.pool.get "./db fraction0.1" == some (some 1) && s.staged.get 0 == some 1) = true := by decide +kernel
  obtain ⟨s, hs, h⟩ := (Option.any_eq_true _ _).1 hrun
  simp only [Bool.and_eq_true, beq_iff_eq] at h
  exact ⟨s, hs, h.1.1.1, h.1.1.2, h.1.2, h.2⟩

end Resync

end SynnoDB.Workload
