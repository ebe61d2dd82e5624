import Mathlib
import SynnoDB.Tools.Snapshotter

/-!
# The edit cache (`workspace_editor.py:325-440`)

| here | there |
| --- | --- |
| `Entry`     | `ApplyPatchCacheType`; `activitySummaryEntry = none`: the legacy format, without the attribute |
| `Edit.impl` | `run_impl`: what it makes of the files, and its result unless it raises |
| `Edit.key`  | the digest of the payload, in which `current_hash` is all there is of the workspace |
| `State`     | the snapshot repository, the cache directory and the activity summary |
| `runCached` | `_run_cached`, and the result unless it raises |

An edit goes through three stores: the implementation changes the files, then `snapshot` takes a ref named after
the key, then the entry is written. **The ref's name may be taken although there is no entry**: the cache directory
was wiped, or the entry is a legacy one that is dropped to be recomputed. Then the files are changed and the edit
raises (`wiped_cache_raises`).
-/

namespace SynnoDB.Tools.EditCache

open Snapshotter

variable {Path Content : Type} [DecidableEq Path] [DecidableEq Content]

structure ApplyPatchResult where
  status : String
  output : String
  deriving DecidableEq, Repr

structure Entry where
  result : ApplyPatchResult
  snapshotHash : Nat
  activitySummaryEntry : Option (Option String)
  deriving DecidableEq, Repr

structure Edit (Path Content : Type) where
  opType : String
  path : String
  key : Option Nat → String
  impl : Snapshotter.Tree Path Content → Snapshotter.Tree Path Content × Except String (ApplyPatchResult × Option String)

structure State (Path Content : Type) where
  repo : Repo Path Content
  cache : Dict String Entry := []
  activitySummary : List String := []

/-- What the run of an implementation is reported as. -/
def Edit.report (op : Edit Path Content) :
    Except String (ApplyPatchResult × Option String) → ApplyPatchResult × Option String
  | .ok result => result
  | .error e => (⟨"failed", "Error applying patch: " ++ e⟩, some ("Apply_patch called: " ++ op.opType ++ " " ++ op.path ++ " (FAILED - " ++ e ++ ")"))

section
variable (S : Setup Path Content) (onlyFromCache : Bool) (op : Edit Path Content) (st : State Path Content)
  (confirm : Bool)

/-- The branch that runs the implementation. -/
def recompute (key : String) : State Path Content × Option ApplyPatchResult :=
  let (files, outcome) := op.impl st.repo.files
  let (result, activity) := op.report outcome
  let st := { st with
    repo := { st.repo with files }
    cache := st.cache.erase key
    activitySummary := st.activitySummary ++ activity.toList }
  match st.repo.snapshot S key true with
  | (repo, none) => ({ st with repo }, none)
  | (repo, some (_, commit)) =>
    ({ st with repo, cache := st.cache.set key ⟨result, commit, some activity⟩ }, some result)

def runCached : State Path Content × Option ApplyPatchResult :=
  let key := op.key st.repo.currentHash
  let miss := if onlyFromCache then (st, none) else recompute S op st key
  match st.cache.get key with
  | some cached => match cached.activitySummaryEntry with
    | some activity =>
      let (repo, returned) := st.repo.restore S cached.snapshotHash confirm
      if returned then ({ st with repo, activitySummary := st.activitySummary ++ activity.toList }, some cached.result)
      else ({ st with repo }, none)
    | none => miss
  | none => miss

/-- The entry that is replayed. -/
def replayable : Option Entry := (st.cache.get (op.key st.repo.currentHash)).filter fun e => e.activitySummaryEntry.isSome

/-- **Replayed**: the stores are as they were, and the workspace is at the entry's snapshot. -/
def Replayed : Prop :=
  ∃ e, replayable op st = some e ∧ (runCached S false op st confirm).2 = some e.result ∧
    (runCached S false op st confirm).1.cache = st.cache ∧
    (runCached S false op st confirm).1.repo.commits = st.repo.commits ∧
    (runCached S false op st confirm).1.repo.refs = st.repo.refs ∧
    (runCached S false op st confirm).1.repo.currentHash = some e.snapshotHash

/-- **Recorded**: the files are what the implementation makes of them, and the new entry's snapshot is these files. -/
def Recorded : Prop :=
  replayable op st = none ∧ ∃ result e t, (runCached S false op st confirm).2 = some result ∧
    (runCached S false op st confirm).1.cache.get (op.key st.repo.currentHash) = some e ∧ e.result = result ∧
    e.activitySummaryEntry.isSome = true ∧
    (runCached S false op st confirm).1.repo.currentHash = some e.snapshotHash ∧
    (runCached S false op st confirm).1.repo.commits[e.snapshotHash]? = some t ∧
    Names S t (runCached S false op st confirm).1.repo.files ∧
    ∀ p, (runCached S false op st confirm).1.repo.files.get p = (op.impl st.repo.files).1.get p

/-- The workspace can be brought to a commit, with the user's help if need be. -/
def CanRestore (r : Repo Path Content) (h : Nat) : Prop :=
  ∃ t, r.commits[h]? = some t ∧
    (S.refuses r t = false ∨ confirm = true ∧ S.refuses (r.clearUntracked S false).resetChanges t = false)

/-- The name of a new snapshot is free, and `HEAD` is a commit of the repository. -/
def CanSnapshot (r : Repo Path Content) (name : String) : Prop :=
  S.doNotSnapshot = false ∧ r.refs.get (S.sanitize ("snapshot-" ++ name)) = none ∧
    ∀ h, r.head = some h → h < r.commits.length

/-- **The condition**: what is to be replayed can be restored, and what is not has no snapshot yet. -/
def Free : Prop :=
  match replayable op st with
  | some e => CanRestore S confirm st.repo e.snapshotHash
  | none => CanSnapshot S st.repo (op.key st.repo.currentHash)

end

/-! ## What the snapshotter needs to return -/
section
variable {S : Setup Path Content} {r r' : Repo Path Content}

theorem switch_isSome {h : Nat} : (r.switch S h).isSome = true ↔
    ∃ t, r.commits[h]? = some t ∧ S.refuses r t = false := by
  unfold Repo.switch
  cases r.commits[h]? with
  | none => simp
  | some t => cases hr : S.refuses r t <;> simp [hr]

omit [DecidableEq Content] in
theorem resetChanges_kept (r : Repo Path Content) : r.resetChanges.commits = r.commits ∧
    r.resetChanges.refs = r.refs := by
  unfold Repo.resetChanges
  split <;> exact ⟨rfl, rfl⟩

theorem restore_returns {h : Nat} {confirm : Bool} : (r.restore S h confirm).2 = true ↔ CanRestore S confirm r h := by
  have hcommits : ((r.clearUntracked S false).resetChanges).commits = r.commits := (resetChanges_kept _).1
  unfold Repo.restore CanRestore
  cases hs : r.switch S h with
  | some r' =>
    obtain ⟨t, ht, hrefuses⟩ := switch_isSome.1 (Option.isSome_of_eq_some hs)
    exact iff_of_true rfl ⟨t, ht, .inl hrefuses⟩
  | none =>
    have hnot : ¬∃ t, r.commits[h]? = some t ∧ S.refuses r t = false := by
      rw [← switch_isSome, hs]
      exact Bool.false_ne_true
    cases confirm with
    | false =>
      refine iff_of_false Bool.false_ne_true ?_
      rintro ⟨t, ht, hrefuses | ⟨hc, -⟩⟩
      · exact hnot ⟨t, ht, hrefuses⟩
      · cases hc
    | true =>
      dsimp only [Bool.not_true, Bool.false_eq_true, if_false]
      cases hs' : ((r.clearUntracked S false).resetChanges).switch S h with
      | some r' =>
        obtain ⟨t, ht, hrefuses⟩ := switch_isSome.1 (Option.isSome_of_eq_some hs')
        rw [hcommits] at ht
        exact iff_of_true rfl ⟨t, ht, .inr ⟨rfl, hrefuses⟩⟩
      | none =>
        refine iff_of_false Bool.false_ne_true ?_
        rintro ⟨t, ht, hrefuses | ⟨-, hrefuses⟩⟩
        · exact hnot ⟨t, ht, hrefuses⟩
        · have hsome := switch_isSome.2 ⟨t, hcommits ▸ ht, hrefuses⟩
          rw [hs'] at hsome
          cases hsome

theorem restore_kept {h : Nat} {confirm : Bool} (hr : r.restore S h confirm = (r', true)) :
    r'.commits = r.commits ∧ r'.refs = r.refs ∧ r'.currentHash = some h := by
  unfold Repo.restore at hr
  split at hr
  · next r₁ hs =>
    cases hr
    obtain ⟨-, -, -, hcommits, -, hrefs, -⟩ := Repo.switch_spec hs
    exact ⟨hcommits, hrefs, rfl⟩
  · split at hr
    · cases hr
    · dsimp only at hr
      split at hr
      · next r₁ hs =>
        cases hr
        obtain ⟨-, -, -, hcommits, -, hrefs, -⟩ := Repo.switch_spec hs
        obtain ⟨hcommits', hrefs'⟩ := resetChanges_kept (r.clearUntracked S false)
        exact ⟨hcommits.trans hcommits', hrefs.trans hrefs', rfl⟩
      · cases hr

/-- To go where one is changes no file. -/
theorem switch_head_files {h : Nat} (hs : r.switch S h = some r') (hhead : r.head = some h) (p : Path) :
    r'.files.get p = r.files.get p := by
  obtain ⟨t, ht, -, -, -, -, -, hfiles⟩ := Repo.switch_spec hs
  have htree : r.headTree = t := by rw [Repo.headTree, hhead, Option.bind_some, ht]; rfl
  rw [hfiles p, if_pos (by rw [htree])]

/-- A commit at the branch or at `HEAD`. -/
theorem commit_returns (hgit : ∀ r : Repo Path Content, S.refuses r r.headTree = false) (safe : String) :
    ∃ r' result, r.commit S safe = (r', some result) ∧ ∀ p, r'.files.get p = r.files.get p := by
  unfold Repo.commit
  cases hhead : r.head with
  | some parent => exact ⟨_, _, rfl, fun p => rfl⟩
  | none =>
    dsimp only
    obtain ⟨r₁, hr₁⟩ : ∃ r₁ : Repo Path Content, r₁ = { r with
        commits := r.commits ++ [r.index], head := some r.commits.length, refs :=
          r.refs.set safe r.commits.length } := ⟨_, rfl⟩
    have hnew : r₁.commits[r.commits.length]? = some r₁.headTree := by
      rw [hr₁]
      simp [Repo.headTree]
    obtain ⟨r₂, hs⟩ := Option.isSome_iff_exists.1 (switch_isSome.2 ⟨r₁.headTree, hnew, hgit r₁⟩)
    rw [← hr₁, hs]
    refine ⟨_, _, rfl, fun p => ?_⟩
    have hfiles := switch_head_files hs (by rw [hr₁]) p
    rw [hr₁] at hfiles
    exact hfiles

/-- **A snapshot returns** for a free name, with the files as they are. -/
theorem snapshot_returns (hgit : ∀ r : Repo Path Content, S.refuses r r.headTree = false) {name : String}
    (hcan : CanSnapshot S r name) :
    ∃ r' result, r.snapshot S name true = (r', some result) ∧ ∀ p, r'.files.get p = r.files.get p := by
  obtain ⟨hdo, href, hhead⟩ := hcan
  unfold Repo.snapshot
  simp only [hdo, href, Option.isSome_none, Bool.or_self, Bool.false_eq_true, if_false]
  have hswitch : ∀ parent, r.head = some parent → ∃ r₁, r.switch S parent = some r₁ := by
    intro parent hh
    have ht : r.commits[parent]? = some r.headTree := by
      rw [Repo.headTree, hh, Option.bind_some, List.getElem?_eq_getElem (hhead parent hh)]
      rfl
    exact Option.isSome_iff_exists.1 (switch_isSome.2 ⟨r.headTree, ht, hgit r⟩)
  split
  · rename_i hnone
    split at hnone
    · rename_i parent hh
      obtain ⟨r₁, hs⟩ := hswitch parent hh
      cases hnone.symm.trans hs
    · cases hnone
  · rename_i r₁ hr₁
    have hfiles : ∀ p, r₁.files.get p = r.files.get p := by
      split at hr₁
      · rename_i parent hh
        exact switch_head_files hr₁ hh
      · cases hr₁
        exact fun p => rfl
    have hcommit := commit_returns (r := (r₁.rmCached S).addAll S) hgit (S.sanitize ("snapshot-" ++ name))
    obtain ⟨r₂, result, hr₂, hfiles₂⟩ := hcommit
    have hend : ∀ p, r₂.files.get p = r.files.get p := fun p => (hfiles₂ p).trans (hfiles p)
    split
    · split
      · exact ⟨_, _, rfl, hfiles⟩
      · exact ⟨r₂, result, hr₂, hend⟩
    · exact ⟨r₂, result, hr₂, hend⟩

theorem snapshot_isSome (hgit : ∀ r : Repo Path Content, S.refuses r r.headTree = false) {name : String} :
    (r.snapshot S name true).2.isSome = true ↔ CanSnapshot S r name := by
  constructor
  · intro hsome
    unfold Repo.snapshot at hsome
    dsimp only at hsome
    split at hsome
    · cases hsome
    · rename_i hfree
      simp only [Bool.or_eq_true, not_or, Bool.not_eq_true, Option.isSome_eq_false_iff,
        Option.isNone_iff_eq_none] at hfree
      refine ⟨hfree.1, hfree.2, fun h hh => ?_⟩
      rw [hh] at hsome
      dsimp only at hsome
      by_contra hlt
      have hnone : r.switch S h = none := by
        rw [Repo.switch, List.getElem?_eq_none (Nat.le_of_not_lt hlt)]
        rfl
      rw [hnone] at hsome
      cases hsome
  · intro hcan
    obtain ⟨r', result, hr, -⟩ := snapshot_returns hgit hcan
    rw [hr]
    rfl

end

/-! ## The edit -/
section
variable {S : Setup Path Content} {op : Edit Path Content} {st : State Path Content} {confirm : Bool}

theorem runCached_hit {e : Entry} (he : replayable op st = some e) :
    runCached S false op st confirm = (match st.repo.restore S e.snapshotHash confirm with
      | (repo, true) => ({ st with repo, activitySummary := st.activitySummary ++
          (e.activitySummaryEntry.join).toList },
          some e.result)
      | (repo, false) => ({ st with repo }, none)) := by
  obtain ⟨hget, hsome⟩ := Option.filter_eq_some_iff.1 he
  obtain ⟨activity, hactivity⟩ := Option.isSome_iff_exists.1 hsome
  unfold runCached
  simp only [hget, hactivity]
  obtain ⟨repo, returned⟩ := st.repo.restore S e.snapshotHash confirm
  cases returned <;> rfl

theorem runCached_miss (hnone : replayable op st = none) :
    runCached S false op st confirm = recompute S op st (op.key st.repo.currentHash) := by
  unfold runCached
  cases hget : st.cache.get (op.key st.repo.currentHash) with
  | none => simp only [hget, Bool.false_eq_true, if_false]
  | some cached =>
    have hlegacy : cached.activitySummaryEntry = none := by
      unfold replayable at hnone
      rw [hget] at hnone
      cases ha : cached.activitySummaryEntry with
      | none => rfl
      | some activity => simp [Option.filter, ha] at hnone
    simp only [hget, hlegacy, Bool.false_eq_true, if_false]

/-- **A cache miss completes the edit and records it exactly when** the name of its snapshot is free, and a hit is
replayed exactly when its snapshot can be restored. -/
theorem edit_recorded_iff (S : Setup Path Content) (hgit : ∀ r : Repo Path Content, S.refuses r r.headTree = false)
    (op : Edit Path Content) (st : State Path Content) (confirm : Bool) :
    Replayed S op st confirm ∨ Recorded S op st confirm ↔ Free S op st confirm := by
  unfold Free
  cases hreplay : replayable op st with
  | some e =>
    dsimp only
    rw [← restore_returns]
    have hrun : runCached S false op st confirm = _ := runCached_hit hreplay
    cases hr : st.repo.restore S e.snapshotHash confirm with
    | mk repo returned =>
      rw [hr] at hrun
      cases returned with
      | true =>
        obtain ⟨hcommits, hrefs, hcurrent⟩ := restore_kept hr
        refine iff_of_true (.inl ⟨e, hreplay, ?_, ?_, ?_, ?_, ?_⟩) rfl <;> rw [hrun]
        · exact hcommits
        · exact hrefs
        · exact hcurrent
      | false =>
        refine iff_of_false ?_ Bool.false_ne_true
        rintro (⟨_, -, hresult, -⟩ | ⟨hnone, -⟩)
        · rw [hrun] at hresult
          cases hresult
        · rw [hreplay] at hnone
          cases hnone
  | none =>
    dsimp only
    have hrun : runCached S false op st confirm = _ := runCached_miss hreplay
    obtain ⟨repo, hrepo⟩ : ∃ repo : Repo Path Content, repo = { st.repo with files := (op.impl st.repo.files).1 } := ⟨_, rfl⟩
    have hsame : CanSnapshot S st.repo (op.key st.repo.currentHash) ↔ CanSnapshot S repo (op.key st.repo.currentHash) := by
      rw [hrepo]
      exact Iff.rfl
    rw [hsame]
    constructor
    · rintro (⟨e, he, -⟩ | ⟨-, result, -, -, hresult, -⟩)
      · rw [hreplay] at he
        cases he
      · rw [← snapshot_isSome hgit, hrepo]
        rw [hrun] at hresult
        unfold recompute at hresult
        dsimp only at hresult
        split at hresult
        · cases hresult
        · rename_i hsnap
          rw [hsnap]
          rfl
    · intro hcan
      obtain ⟨repo', ⟨parent, commit⟩, hsnap, hfiles⟩ := snapshot_returns hgit hcan
      obtain ⟨t, hcurrent, ht, -, hnames⟩ := Repo.snapshot_spec hsnap
      rw [hrepo] at hsnap hfiles
      obtain ⟨⟨result, activity⟩, hreport⟩ : ∃ x, op.report (op.impl st.repo.files).2 = x := ⟨_, rfl⟩
      refine .inr ⟨hreplay, result, ⟨result, commit, some activity⟩, t, ?_⟩
      rw [hrun]
      unfold recompute
      simp only [hreport, hsnap]
      exact ⟨trivial, by simp, trivial, rfl, hcurrent, ht, hnames, hfiles⟩

end

/-! ## A cache directory that was wiped -/

def createFile (path content : String) : Edit String String where
  opType := "create_file"
  path := path
  key := fun current => "create " ++ path ++ " at " ++ (current.elim "none" toString)
  impl := fun files => (files.set path content, .ok (⟨"completed", "Created " ++ path⟩, some ("create_file called: " ++ path)))

/-- A workspace at its first snapshot. -/
def started : State String String := { repo := (({ files := [("b.cpp", "")] } : Repo String String).snapshot logsIgnored "base" true).1 }

/-- After an edit the workspace goes back to the first snapshot, and the cache directory is wiped. -/
def wiped : State String String :=
  let st := (runCached logsIgnored false (createFile "a.cpp" "int x;") started false).1
  { st with repo := (st.repo.restore logsIgnored 0 false).1, cache := [] }

/-- To go where one is is not refused. -/
theorem inTheWay_head (r : Repo String String) : logsIgnored.refuses r r.headTree = false := by
  simp [logsIgnored, inTheWay]

theorem edit_recorded_started : Replayed logsIgnored (createFile "a.cpp" "int x;") started false ∨
    Recorded logsIgnored (createFile "a.cpp" "int x;") started false := by
  refine (edit_recorded_iff logsIgnored inTheWay_head _ started false).2 ?_
  have hnone : replayable (createFile "a.cpp" "int x;") started = none := by decide +kernel
  have hhead : started.repo.head = some 0 := by decide +kernel
  rw [Free, hnone]
  refine ⟨rfl, by decide +kernel, fun h hh => ?_⟩
  cases hhead.symm.trans hh
  decide +kernel

theorem wiped_cache_raises :
    (runCached logsIgnored false (createFile "a.cpp" "int x;") wiped false).2 = none ∧
      wiped.repo.files.get "a.cpp" = none ∧
      (runCached logsIgnored false (createFile "a.cpp" "int x;") wiped false).1.repo.files.get "a.cpp" = some "int x;" ∧
      ¬(Replayed logsIgnored (createFile "a.cpp" "int x;") wiped false ∨
        Recorded logsIgnored (createFile "a.cpp" "int x;") wiped false) := by
  have hraised : (runCached logsIgnored false (createFile "a.cpp" "int x;") wiped false).2 = none := by decide +kernel
  refine ⟨hraised, by decide +kernel, by decide +kernel, ?_⟩
  rintro (⟨e, -, hresult, -⟩ | ⟨-, result, -, -, hresult, -⟩)
  · rw [hraised] at hresult
    cases hresult
  · rw [hraised] at hresult
    cases hresult

end SynnoDB.Tools.EditCache
