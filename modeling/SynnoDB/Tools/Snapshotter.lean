import SynnoDB.Lib.Dict
import SynnoDB.Lib.Trace

/-!
# Snapshots of a workspace (`git_snapshotter.py:108-267`, `:330-383`)

| here | there |
| --- | --- |
| `Repo`     | a workspace and its git directory: the work tree, the index, `HEAD`, the commits, `refs/snapshots/*` and `current_hash` |
| `Setup`    | the patterns of the ignore files and `exclude_files`, which are patterns as well; `sanitize` is `_sanitize_ref_component` |
| `refuses`  | `git switch` aborts: local changes or untracked files are in its way |
| `confirm`  | the answer of `await_user_confirmation` |
| `Moment`   | `current_hash` and the files, directly after a `snapshot`, `restore` or `create_empty_snapshot` that did not raise |

Commits are numbered in the order of their creation. A `.gitignore` in the workspace, directories, file modes and
the pushes are left out. `reset --hard` takes what the index has, so **an untracked file outlives a `restore`**
(`restore_keeps_untracked`); the branch that asks the user first clears such files, and so does `create_empty_snapshot`.
-/

namespace SynnoDB.Tools.Snapshotter

variable {Path Content : Type} [DecidableEq Path] [DecidableEq Content]

abbrev Tree (Path Content : Type) := Dict Path Content

structure Repo (Path Content : Type) where
  files : Tree Path Content
  index : Tree Path Content := []
  /-- `none`: the branch is unborn. -/
  head : Option Nat := none
  commits : List (Tree Path Content) := []
  refs : Dict String Nat := []
  currentHash : Option Nat := none

structure Setup (Path Content : Type) where
  ignored : Path → Bool
  excluded : Path → Bool
  doNotSnapshot : Bool := false
  sanitize : String → String
  refuses : Repo Path Content → Tree Path Content → Bool

namespace Repo

/-! ## What git does -/

def headTree (r : Repo Path Content) : Tree Path Content := (r.head.bind fun h => r.commits[h]?).getD []

def tracked (r : Repo Path Content) (p : Path) : Bool := (r.index.get p).isSome

/-- `git switch --detach`: what differs between the commits is replaced, the rest is carried along. -/
def switch (S : Setup Path Content) (r : Repo Path Content) (h : Nat) : Option (Repo Path Content) :=
  r.commits[h]?.bind fun t =>
    if S.refuses r t then none
    else some { r with
      head := some h
      index := (t.filter fun e => r.headTree.get e.1 ≠ t.get e.1) ++ r.index.filter fun e => r.headTree.get e.1 = t.get e.1
      files := (t.filter fun e => r.headTree.get e.1 ≠ t.get e.1) ++
        r.files.filter fun e => r.headTree.get e.1 = t.get e.1 || !r.tracked e.1 }

/-- `git reset --hard` of the index and the work tree. -/
def resetHard (r : Repo Path Content) (t : Tree Path Content) : Repo Path Content :=
  { r with index := t, files := t ++ r.files.filter fun e => !r.tracked e.1 }

/-- `git rm -r --cached --ignore-unmatch` of the excluded files. -/
def rmCached (S : Setup Path Content) (r : Repo Path Content) : Repo Path Content :=
  { r with index := r.index.filter fun e => !S.excluded e.1 }

/-- `git add -A`. -/
def addAll (S : Setup Path Content) (r : Repo Path Content) : Repo Path Content :=
  { r with index := r.files.filter fun e => r.tracked e.1 || !(S.ignored e.1 || S.excluded e.1) }

/-! ## The snapshotter -/

/-- `clear_untracked`. -/
def clearUntracked (S : Setup Path Content) (r : Repo Path Content) (includeIgnored : Bool) : Repo Path Content :=
  { r with files := r.files.filter fun e => r.tracked e.1 || S.excluded e.1 || (!includeIgnored && S.ignored e.1) }

/-- `reset_changes`. -/
def resetChanges (r : Repo Path Content) : Repo Path Content :=
  match r.head with
  | none => { r with index := [], files := r.files.filter fun e => !r.tracked e.1 }
  | some _ => r.resetHard r.headTree

/-- The end of `restore`. -/
def arrive (r : Repo Path Content) (h : Nat) : Repo Path Content :=
  { r.resetHard (r.commits[h]?.getD []) with currentHash := some h }

/-- `restore`, and whether it returned. -/
def restore (S : Setup Path Content) (r : Repo Path Content) (h : Nat) (confirm : Bool) : Repo Path Content × Bool :=
  match r.switch S h with
  | some r' => (r'.arrive h, true)
  | none =>
    if !confirm then (r, false)
    else
      let r := (r.clearUntracked S false).resetChanges
      match r.switch S h with
      | some r' => (r'.arrive h, true)
      | none => (r, false)

/-- `snapshot` from its `commit` on. -/
def commit (S : Setup Path Content) (r : Repo Path Content) (safe : String) : Repo Path Content × Option (Option Nat × Nat) :=
  let new := r.commits.length
  let r' := { r with commits := r.commits ++ [r.index], head := some new, refs := r.refs.set safe new }
  match r.head with
  | some parent => ({ r' with currentHash := some new }, some (some parent, new))
  | none => match r'.switch S new with
    | none => (r', none)
    | some r' => ({ r' with currentHash := some new }, some (none, new))

/-- `snapshot`: the parent and the new hash, unless it raised. -/
def snapshot (S : Setup Path Content) (r : Repo Path Content) (name : String) (reuseParentIfUnchanged : Bool) :
    Repo Path Content × Option (Option Nat × Nat) :=
  let safe := S.sanitize ("snapshot-" ++ name)
  if S.doNotSnapshot || (r.refs.get safe).isSome then (r, none)
  else match (match r.head with
    | some parent => r.switch S parent
    | none => some r) with
  | none => (r, none)
  | some r =>
    let r := (r.rmCached S).addAll S
    match r.head with
    | some parent =>
      if reuseParentIfUnchanged && r.index.agree r.headTree then
        ({ r with refs := r.refs.set safe parent, currentHash := some parent }, some (some parent, parent))
      else r.commit S safe
    | none => r.commit S safe

/-- `create_empty_snapshot`. -/
def createEmptySnapshot (S : Setup Path Content) (r : Repo Path Content) (name : String) (confirm : Bool) :
    Repo Path Content × Option Nat :=
  let safe := S.sanitize ("empty-" ++ name)
  let r := r.clearUntracked S true
  match r.refs.get safe with
  | some existing =>
    let (r, returned) := r.restore S existing confirm
    (r, if returned then some existing else none)
  | none =>
    let new := r.commits.length
    let r := { r with commits := r.commits ++ [[]], refs := r.refs.set safe new }
    match r.switch S new with
    | none => (r, none)
    | some r => (r.arrive new, some new)

end Repo

/-! ## Runs -/

structure Moment (Path Content : Type) where
  hash : Nat
  files : Tree Path Content

structure State (Path Content : Type) where
  repo : Repo Path Content
  moments : List (Moment Path Content) := []

inductive Act (Path Content : Type) where
  | write (p : Path) (content : Content)
  | delete (p : Path)
  | snapshot (name : String) (reuseParentIfUnchanged : Bool)
  | restore (h : Nat) (confirm : Bool)
  | createEmptySnapshot (name : String) (confirm : Bool)
  | resetChanges
  | clearUntracked (includeIgnored : Bool)

/-- The state after an operation that names the workspace if it returned. -/
def State.named (st : State Path Content) (r : Repo Path Content) (returned : Bool) : State Path Content :=
  { repo := r, moments := st.moments ++ if returned then (r.currentHash.map fun h => ⟨h, r.files⟩).toList else [] }

def step (S : Setup Path Content) (st : State Path Content) : Act Path Content → Option (State Path Content)
  | .write p content => some { st with repo := { st.repo with files := st.repo.files.set p content } }
  | .delete p => some { st with repo := { st.repo with files := st.repo.files.erase p } }
  | .snapshot name reuse =>
    let (r, result) := st.repo.snapshot S name reuse
    some (st.named r result.isSome)
  | .restore h confirm =>
    let (r, returned) := st.repo.restore S h confirm
    some (st.named r returned)
  | .createEmptySnapshot name confirm =>
    let (r, result) := st.repo.createEmptySnapshot S name confirm
    some (st.named r result.isSome)
  | .resetChanges => some { st with repo := st.repo.resetChanges }
  | .clearUntracked includeIgnored => some { st with repo := st.repo.clearUntracked S includeIgnored }

/-- The tree has what the workspace has, but for excluded files and for ignored ones that it does not track. -/
def Names (S : Setup Path Content) (t files : Tree Path Content) : Prop :=
  ∀ p, S.excluded p = false → t.get p = files.get p ∨ t.get p = none ∧ S.ignored p = true

/-- `current_hash` names the workspace at every moment, and equal ones name equal workspaces. -/
structure Named (S : Setup Path Content) (st : State Path Content) : Prop where
  tree : ∀ m ∈ st.moments, ∃ t, st.repo.commits[m.hash]? = some t ∧ Names S t m.files
  equal : ∀ m ∈ st.moments, ∀ m' ∈ st.moments, m.hash = m'.hash → ∀ p, S.excluded p = false → S.ignored p = false →
    m.files.get p = m'.files.get p

/-- Every untracked file that the commit does not have is an ignored or an excluded one. -/
def Repo.Clear (S : Setup Path Content) (r : Repo Path Content) (t : Tree Path Content) : Prop :=
  ∀ p, S.excluded p = false → S.ignored p = false → r.index.get p = none → t.get p = none → r.files.get p = none

/-- **The condition on a step**: a `restore` that `git switch` does not refuse finds no untracked file. -/
def Tidy (S : Setup Path Content) (st : State Path Content) : Act Path Content → Prop
  | .restore h _ => ∀ t, st.repo.commits[h]? = some t → S.refuses st.repo t = true ∨ st.repo.Clear S t
  | _ => True

/-! ## What the operations leave behind -/

variable {S : Setup Path Content} {r r' : Repo Path Content} {t files : Tree Path Content} {h : Nat}

namespace Repo

theorem switch_spec (hs : r.switch S h = some r') :
    ∃ t, r.commits[h]? = some t ∧ S.refuses r t = false ∧ r'.commits = r.commits ∧ r'.head = some h ∧ r'.refs = r.refs ∧
      (∀ p, r'.index.get p = if r.headTree.get p = t.get p then r.index.get p else t.get p) ∧
      ∀ p, r'.files.get p = if r.headTree.get p = t.get p then r.files.get p
        else (t.get p).or (if r.tracked p then none else r.files.get p) := by
  obtain ⟨t, ht, hs⟩ := Option.bind_eq_some_iff.1 hs
  split at hs
  · cases hs
  · next hrefuses =>
    cases hs
    refine ⟨t, ht, by simpa using hrefuses, rfl, rfl, rfl, fun p => ?_, fun p => ?_⟩
    · show Dict.get (_ ++ _) p = _
      rw [Dict.get_append, Dict.get_filter t fun p => decide (r.headTree.get p ≠ t.get p),
        Dict.get_filter r.index fun p => decide (r.headTree.get p = t.get p)]
      by_cases hp : r.headTree.get p = t.get p <;> simp [hp]
    · show Dict.get (_ ++ _) p = _
      rw [Dict.get_append, Dict.get_filter t fun p => decide (r.headTree.get p ≠ t.get p),
        Dict.get_filter r.files fun p => decide (r.headTree.get p = t.get p) || !r.tracked p]
      by_cases hp : r.headTree.get p = t.get p
      · simp [hp]
      · by_cases ht : r.tracked p = true <;> simp [hp, ht]

omit [DecidableEq Content] in
theorem resetHard_files (r : Repo Path Content) (t : Tree Path Content) (p : Path) :
    (r.resetHard t).files.get p = (t.get p).or (if r.tracked p then none else r.files.get p) := by
  show Dict.get (_ ++ _) p = _
  rw [Dict.get_append, Dict.get_filter r.files fun p => !r.tracked p]
  cases hp : r.tracked p <;> simp

/-- After `switch` and `reset --hard` the files are those of the commit and what was not tracked. -/
theorem arrive_spec (hs : r.switch S h = some r') :
    ∃ t, r.commits[h]? = some t ∧ S.refuses r t = false ∧ (r'.arrive h).currentHash = some h ∧
      (r'.arrive h).commits = r.commits ∧
      ∀ p, (r'.arrive h).files.get p = (t.get p).or (if r.tracked p then none else r.files.get p) := by
  obtain ⟨t, ht, hrefuses, hcommits, -, -, hindex, hfiles⟩ := switch_spec hs
  refine ⟨t, ht, hrefuses, rfl, hcommits, fun p => ?_⟩
  have htree : r'.commits[h]?.getD [] = t := by rw [hcommits, ht]; rfl
  show (r'.resetHard (r'.commits[h]?.getD [])).files.get p = _
  rw [htree, resetHard_files, tracked, hindex, hfiles]
  cases hp : t.get p with
  | some c => simp
  | none =>
    by_cases hh : r.headTree.get p = none
    · rw [if_pos hh, if_pos hh]
      rfl
    · by_cases htr : (r.index.get p).isSome = true <;> simp [hh, htr, tracked]

omit [DecidableEq Content] in
theorem Clear.names (hc : r.Clear S t) (hf : ∀ p, files.get p =
    (t.get p).or (if r.tracked p then none else r.files.get p)) :
    Names S t files := by
  intro p hp
  rw [hf p]
  cases ht : t.get p with
  | some c => exact .inl rfl
  | none =>
    by_cases hi : S.ignored p = true
    · exact .inr ⟨rfl, hi⟩
    · left
      cases hx : r.index.get p with
      | some c => simp [tracked, hx]
      | none => simp [tracked, hx, hc p hp (by simpa using hi) hx ht]

/-- **What a `restore` needs** for its hash to name the workspace, where `git switch` goes through. -/
theorem arrive_names_iff (hs : r.switch S h = some r') (ht : r.commits[h]? = some t) :
    Names S t (r'.arrive h).files ↔ r.Clear S t := by
  obtain ⟨t', ht', -, -, -, hfiles⟩ := arrive_spec hs
  cases ht.symm.trans ht'
  refine ⟨fun hn p hx hi hp htp => ?_, fun hc => hc.names hfiles⟩
  have hsame := (hn p hx).resolve_right fun h => by simp [hi] at h
  simpa [hfiles p, htp, tracked, hp] using hsame.symm

omit [DecidableEq Content] in
theorem clearUntracked_files (r : Repo Path Content) (b : Bool) (p : Path) : (r.clearUntracked S b).files.get p =
    if r.tracked p || S.excluded p || (!b && S.ignored p) then r.files.get p else none :=
  Dict.get_filter r.files (fun p => r.tracked p || S.excluded p || (!b && S.ignored p)) p

omit [DecidableEq Content] in
/-- Nothing that is not tracked is in the way of a commit after `clear_untracked` and `reset_changes`. -/
theorem clear_reset (r : Repo Path Content) (t : Tree Path Content) :
    ((r.clearUntracked S false).resetChanges).Clear S t := by
  intro p hx hi hindex ht
  have hfiles := clearUntracked_files (S := S) r false p
  have htracked : (r.clearUntracked S false).tracked p = r.tracked p := rfl
  simp only [hx, hi, Bool.or_false, Bool.not_false, Bool.and_false] at hfiles
  unfold resetChanges at hindex ⊢
  split at hindex
  · next hhead =>
    simp only
    rw [Dict.get_filter _ fun p => !(r.clearUntracked S false).tracked p, htracked, hfiles]
    cases r.tracked p <;> rfl
  · next h hhead =>
    rw [resetHard_files]
    replace hindex : ((r.clearUntracked S false).headTree).get p = none := hindex
    rw [hindex, htracked, hfiles]
    cases r.tracked p <;> rfl

theorem restore_spec {confirm : Bool} (hs : r.restore S h confirm = (r', true))
    (hclear : ∀ t, r.commits[h]? = some t → S.refuses r t = true ∨ r.Clear S t) :
    ∃ t, r'.currentHash = some h ∧ r.commits[h]? = some t ∧ r'.commits = r.commits ∧ Names S t r'.files := by
  unfold restore at hs
  split at hs
  · next r₁ hswitch =>
    cases hs
    obtain ⟨t, ht, hrefuses, hcur, hcommits, hfiles⟩ := arrive_spec hswitch
    have hc : r.Clear S t := (hclear t ht).resolve_left (by rw [hrefuses]; simp)
    exact ⟨t, hcur, ht, hcommits, hc.names hfiles⟩
  · split at hs
    · cases hs
    · simp only at hs
      split at hs
      · next r₁ hswitch =>
        cases hs
        obtain ⟨t, ht, -, hcur, hcommits, hfiles⟩ := arrive_spec hswitch
        have hkept : ((r.clearUntracked S false).resetChanges).commits = r.commits := by
          unfold resetChanges
          split <;> rfl
        rw [hkept] at ht hcommits
        exact ⟨t, hcur, ht, hcommits, (clear_reset r t).names hfiles⟩
      · cases hs

/-- The rollback of a stage: what `reset_changes`, `clear_untracked` and `restore` leave is the snapshot. -/
theorem rollback_names {confirm : Bool} (hs : ((r.resetChanges).clearUntracked S false).restore S h confirm =
    (r', true)) :
    ∃ t, r.commits[h]? = some t ∧ Names S t r'.files := by
  have hclear : ∀ t, ((r.resetChanges).clearUntracked S false).Clear S t := by
    intro t p hx hi hp ht
    replace hp : r.resetChanges.index.get p = none := hp
    rw [clearUntracked_files, hx, hi]
    simp [tracked, hp]
  obtain ⟨t, -, ht, -, hn⟩ := restore_spec hs fun t _ => .inr (hclear t)
  have hkept : ((r.resetChanges).clearUntracked S false).commits = r.commits := by
    unfold resetChanges
    split <;> rfl
  rw [hkept] at ht
  exact ⟨t, ht, hn⟩

omit [DecidableEq Content] in
/-- The index after `rm --cached` and `add -A` names the workspace. -/
theorem addAll_names (r : Repo Path Content) : Names S ((r.rmCached S).addAll S).index r.files := by
  intro p hp
  have hget : ((r.rmCached S).addAll S).index.get p =
      if (r.rmCached S).tracked p || !(S.ignored p || S.excluded p) then r.files.get p else none :=
    Dict.get_filter r.files (fun p => (r.rmCached S).tracked p || !(S.ignored p || S.excluded p)) p
  rw [hget, hp]
  cases htracked : (r.rmCached S).tracked p <;> cases hi : S.ignored p <;> simp

theorem commit_spec {safe : String} {result : Option Nat × Nat} (hn : Names S r.index r.files)
    (hs : r.commit S safe = (r', some result)) :
    ∃ t, r'.currentHash = some result.2 ∧ r'.commits[result.2]? = some t ∧ r.commits <+: r'.commits ∧
      Names S t r'.files := by
  have hnew : (r.commits ++ [r.index])[r.commits.length]? = some r.index := by simp
  unfold commit at hs
  simp only at hs
  split at hs
  · cases hs
    exact ⟨r.index, rfl, hnew, List.prefix_append _ _, hn⟩
  · split at hs
    · cases hs
    · next r₁ hswitch =>
      cases hs
      obtain ⟨t, ht, -, hcommits, -, -, -, hfiles⟩ := switch_spec hswitch
      have hti : t = r.index := Option.some.inj (ht.symm.trans hnew)
      subst hti
      refine ⟨r.index, rfl, by rw [hcommits]; exact hnew, hcommits ▸ List.prefix_append _ _, fun p hp => ?_⟩
      -- the commit is `HEAD` already
      have hkept : r₁.files.get p = r.files.get p := by
        rw [hfiles p, if_pos]
        simp [headTree]
      show r.index.get p = r₁.files.get p ∨ _
      rw [hkept]
      exact hn p hp

theorem snapshot_spec {name : String} {reuse : Bool} {result : Option Nat × Nat}
    (hs : r.snapshot S name reuse = (r', some result)) :
    ∃ t, r'.currentHash = some result.2 ∧ r'.commits[result.2]? = some t ∧ r.commits <+: r'.commits ∧
      Names S t r'.files := by
  unfold snapshot at hs
  simp only at hs
  split at hs
  · cases hs
  · split at hs
    · cases hs
    · next r₁ hpre =>
      have hcommits : r₁.commits = r.commits ∧ ∀ parent, r₁.head = some parent → r₁.commits[parent]?.isSome := by
        split at hpre
        · next parent hhead =>
          obtain ⟨t, ht, -, hcommits, hhead', -⟩ := switch_spec hpre
          refine ⟨hcommits, fun q hq => ?_⟩
          cases hhead'.symm.trans hq
          rw [hcommits, ht]
          rfl
        · next hhead =>
          cases hpre
          exact ⟨rfl, fun q hq => by rw [hhead] at hq; cases hq⟩
      have hn : Names S ((r₁.rmCached S).addAll S).index ((r₁.rmCached S).addAll S).files := addAll_names r₁
      have hkept : ((r₁.rmCached S).addAll S).commits = r₁.commits := rfl
      split at hs
      · next parent hhead =>
        split at hs
        · next hsame =>
          cases hs
          simp only [Bool.and_eq_true] at hsame
          obtain ⟨t, ht⟩ := Option.isSome_iff_exists.1 (hcommits.2 parent hhead)
          refine ⟨t, rfl, ht, hcommits.1 ▸ List.prefix_rfl, fun p hp => ?_⟩
          have htree : ((r₁.rmCached S).addAll S).headTree = t := by
            rw [headTree, hhead, Option.bind_some, hkept, ht]
            rfl
          have hp' := hn p hp
          rw [Dict.agree_iff.1 hsame.2 p, htree] at hp'
          exact hp'
        · obtain ⟨t, hcur, ht, hpre, hnames⟩ := commit_spec hn hs
          exact ⟨t, hcur, ht, by rwa [hkept, hcommits.1] at hpre, hnames⟩
      · obtain ⟨t, hcur, ht, hpre, hnames⟩ := commit_spec hn hs
        exact ⟨t, hcur, ht, by rwa [hkept, hcommits.1] at hpre, hnames⟩

theorem createEmpty_spec {name : String} {confirm : Bool} (hs : r.createEmptySnapshot S name confirm = (r', some h)) :
    ∃ t, r'.currentHash = some h ∧ r'.commits[h]? = some t ∧ r.commits <+: r'.commits ∧ Names S t r'.files := by
  -- `clean -x` leaves nothing untracked but excluded files
  have hclear : ∀ (r₀ : Repo Path Content) (t : Tree Path Content), r₀.files = (r.clearUntracked S true).files →
      r₀.index = r.index → r₀.Clear S t := by
    intro r₀ t hfiles hindex p hx hi hp ht
    rw [hfiles, clearUntracked_files, hx]
    rw [hindex] at hp
    simp [tracked, hp]
  unfold createEmptySnapshot at hs
  simp only at hs
  split at hs
  · next existing href =>
    cases hret : (r.clearUntracked S true).restore S existing confirm with
    | mk r₁ returned =>
      rw [hret] at hs
      cases returned with
      | false => cases hs
      | true =>
        cases hs
        obtain ⟨t, hcur, ht, hcommits, hnames⟩ := restore_spec hret fun t _ => .inr (hclear _ t rfl rfl)
        exact ⟨t, hcur, by rw [hcommits]; exact ht, hcommits ▸ List.prefix_rfl, hnames⟩
  · split at hs
    · cases hs
    · next r₁ hswitch =>
      cases hs
      obtain ⟨t, ht, -, hcur, hcommits, hfiles⟩ := arrive_spec hswitch
      refine ⟨t, hcur, by rw [hcommits]; exact ht, hcommits ▸ List.prefix_append _ _, ?_⟩
      exact (hclear _ t rfl rfl).names hfiles

/-! Whether they return or not, commits are only ever added. -/

theorem switch_commits (hs : r.switch S h = some r') : r'.commits = r.commits := by
  obtain ⟨_, _, _, hcommits, _⟩ := switch_spec hs
  exact hcommits

omit [DecidableEq Content] in
theorem resetChanges_commits (r : Repo Path Content) : r.resetChanges.commits = r.commits := by
  unfold resetChanges
  split <;> rfl

theorem restore_commits (r : Repo Path Content) (h : Nat) (confirm : Bool) :
    (r.restore S h confirm).1.commits = r.commits := by
  unfold restore
  split
  · next r₁ hswitch =>
    show r₁.commits = r.commits
    exact switch_commits hswitch
  · split
    · rfl
    · simp only
      split
      · next r₁ hswitch =>
        show r₁.commits = r.commits
        exact (switch_commits hswitch).trans (resetChanges_commits _)
      · exact resetChanges_commits _

theorem commit_commits (r : Repo Path Content) (safe : String) : r.commits <+: (r.commit S safe).1.commits := by
  unfold commit
  simp only
  split
  · exact List.prefix_append _ _
  · split
    · exact List.prefix_append _ _
    · next hswitch => exact switch_commits hswitch ▸ List.prefix_append _ _

theorem snapshot_commits (r : Repo Path Content) (name : String) (reuse : Bool) :
    r.commits <+: (r.snapshot S name reuse).1.commits := by
  unfold snapshot
  simp only
  split
  · exact List.prefix_rfl
  · split
    · exact List.prefix_rfl
    · next r₁ hpre =>
      have hcommits : ((r₁.rmCached S).addAll S).commits = r.commits := by
        show r₁.commits = r.commits
        split at hpre
        · exact switch_commits hpre
        · cases hpre
          rfl
      split
      · split
        · exact hcommits ▸ List.prefix_rfl
        · exact hcommits ▸ commit_commits _ _
      · exact hcommits ▸ commit_commits _ _

theorem createEmpty_commits (r : Repo Path Content) (name : String) (confirm : Bool) :
    r.commits <+: (r.createEmptySnapshot S name confirm).1.commits := by
  unfold createEmptySnapshot
  simp only
  split
  · exact (restore_commits (r.clearUntracked S true) _ confirm) ▸ List.prefix_rfl
  · split
    · exact List.prefix_append _ _
    · next hswitch =>
      have hcommits := switch_commits hswitch
      exact hcommits ▸ List.prefix_append _ _

end Repo

/-! ## Every run -/

variable {st st' : State Path Content} {a : Act Path Content}

/-- Every moment was named by a commit that is still there. -/
def Recorded (S : Setup Path Content) (st : State Path Content) : Prop :=
  ∀ m ∈ st.moments, ∃ t, st.repo.commits[m.hash]? = some t ∧ Names S t m.files

omit [DecidableEq Content] in
theorem Recorded.kept (hR : Recorded S st) {r : Repo Path Content} (hc : st.repo.commits <+: r.commits) :
    Recorded S { st with repo := r } := by
  intro m hm
  obtain ⟨t, ht, hn⟩ := hR m hm
  obtain ⟨later, hlater⟩ := hc
  obtain ⟨hlt, -⟩ := List.getElem?_eq_some_iff.1 ht
  exact ⟨t, by rw [← hlater, List.getElem?_append_left hlt, ht], hn⟩

omit [DecidableEq Content] in
theorem Recorded.named (hR : Recorded S st) {r : Repo Path Content} (hc : st.repo.commits <+: r.commits)
    {returned : Bool}
    (hn : returned = true → ∃ h t, r.currentHash = some h ∧ r.commits[h]? = some t ∧ Names S t r.files) :
    Recorded S (st.named r returned) := by
  intro m hm
  rcases List.mem_append.1 hm with hm | hm
  · exact hR.kept hc m hm
  · cases returned with
    | false => cases hm
    | true =>
      obtain ⟨h, t, hcur, ht, hnames⟩ := hn rfl
      simp only [hcur, if_true, Option.map_some, Option.toList_some, List.mem_singleton] at hm
      subst hm
      exact ⟨t, ht, hnames⟩

/-- **Step lemma**. -/
theorem Recorded.step (hR : Recorded S st) (hok : Tidy S st a) (hs : step S st a = some st') : Recorded S st' := by
  cases a with
  | write p content =>
    cases hs
    exact hR.kept List.prefix_rfl
  | delete p =>
    cases hs
    exact hR.kept List.prefix_rfl
  | resetChanges =>
    cases hs
    exact hR.kept (Repo.resetChanges_commits st.repo ▸ List.prefix_rfl)
  | clearUntracked b =>
    cases hs
    exact hR.kept List.prefix_rfl
  | snapshot name reuse =>
    cases hs
    refine hR.named (Repo.snapshot_commits _ _ _) fun hret => ?_
    obtain ⟨result, hresult⟩ := Option.isSome_iff_exists.1 hret
    obtain ⟨t, hcur, ht, -, hn⟩ := Repo.snapshot_spec (Prod.ext rfl hresult)
    exact ⟨_, t, hcur, ht, hn⟩
  | restore h confirm =>
    cases hs
    refine hR.named (Repo.restore_commits st.repo h confirm ▸ List.prefix_rfl) fun hret => ?_
    obtain ⟨t, hcur, ht, hcommits, hn⟩ := Repo.restore_spec (Prod.ext rfl hret) hok
    exact ⟨h, t, hcur, hcommits ▸ ht, hn⟩
  | createEmptySnapshot name confirm =>
    cases hs
    refine hR.named (Repo.createEmpty_commits _ _ _) fun hret => ?_
    obtain ⟨h, hresult⟩ := Option.isSome_iff_exists.1 hret
    obtain ⟨t, hcur, ht, -, hn⟩ := Repo.createEmpty_spec (Prod.ext rfl hresult)
    exact ⟨h, t, hcur, ht, hn⟩

omit [DecidableEq Content] in
/-- Two moments of one commit show the same files. -/
theorem Recorded.named_all (hR : Recorded S st) : Named S st where
  tree := hR
  equal := by
    intro m hm m' hm' heq p hx hi
    obtain ⟨t, ht, hn⟩ := hR m hm
    obtain ⟨t', ht', hn'⟩ := hR m' hm'
    have htt : t = t' := by
      rw [heq] at ht
      exact Option.some.inj (ht.symm.trans ht')
    subst htt
    have hp : t.get p = m.files.get p := (hn p hx).resolve_right fun h => by simp [hi] at h
    have hp' : t.get p = m'.files.get p := (hn' p hx).resolve_right fun h => by simp [hi] at h
    exact hp.symm.trans hp'

/-- **`current_hash` names the workspace** in every run whose restores find nothing untracked, from any repository. -/
theorem hash_names_workspace (S : Setup Path Content) (r : Repo Path Content) {acts : List (Act Path Content)}
    {st : State Path Content} (hrun : Trace.exec (step S) { repo := r } acts = some st)
    (hok : Trace.Meets (step S) (Tidy S) { repo := r } acts) : Named S st := by
  have hstart : Recorded S { repo := r } := fun m hm => by cases hm
  have hR : Recorded S st := Trace.exec_invariant (fun _ _ _ hR hok hs => hR.step hok hs) hstart hok hrun
  exact hR.named_all

/-! ## Two workspaces -/

/-- A path that the commits have differently is not as `HEAD` has it. -/
def inTheWay (r : Repo Path Content) (t : Tree Path Content) : Bool :=
  ((r.headTree ++ t).map Prod.fst).any fun p => r.headTree.get p ≠ t.get p &&
    (r.index.get p ≠ r.headTree.get p || r.files.get p ≠ r.index.get p)

def logsIgnored : Setup String String :=
  { ignored := fun p => p = "debug.log", excluded := fun p => p = "data", sanitize := id, refuses := inTheWay }

/-- Edits, new files, ignored files and all three operations. -/
def editedActs : List (Act String String) :=
  [.write "a" "1", .write "debug.log" "x", .write "data" "d", .snapshot "s" true, .write "a" "2", .write "b" "3",
    .snapshot "t" true, .delete "debug.log", .restore 0 false, .write "a" "4", .resetChanges, .snapshot "u" true,
    .write "c" "5", .createEmptySnapshot "e" false, .restore 1 false]

/-- `Tidy`, over the files that are there. -/
def tidyCheck (S : Setup Path Content) (st : State Path Content) : Act Path Content → Bool
  | .restore h _ => st.repo.commits[h]?.all fun t => st.repo.files.all fun e =>
      S.excluded e.1 || S.ignored e.1 || st.repo.tracked e.1 || (t.get e.1).isSome
  | _ => true

omit [DecidableEq Content] in
theorem tidy_of_check (hcheck : tidyCheck S st a = true) : Tidy S st a := by
  cases a with
  | restore h confirm =>
    intro t ht
    simp only [tidyCheck, ht, Option.all_some, List.all_eq_true] at hcheck
    refine .inr fun p hx hi hp htp => ?_
    cases hfile : st.repo.files.get p with
    | none => rfl
    | some c =>
      have := hcheck _ (Dict.mem_of_get hfile)
      simp [hx, hi, Repo.tracked, hp, htp] at this
  | _ => trivial

theorem hash_names_workspace_edited : ∃ st, Trace.exec (step logsIgnored) { repo := { files := [] } } editedActs = some st ∧
    st.moments.map (fun m => (m.hash, m.files.get "a", m.files.get "b")) =
      [(0, some "1", none), (1, some "2", some "3"), (0, some "1", none), (0, some "1", none), (2, none, none),
        (1, some "2", some "3")] ∧
    Named logsIgnored st := by
  have hmoments : (Trace.exec (step logsIgnored) { repo := { files := [] } } editedActs).map
      (fun st => st.moments.map fun m => (m.hash, m.files.get "a", m.files.get "b")) =
      some [(0, some "1", none), (1, some "2", some "3"), (0, some "1", none), (0, some "1", none), (2, none, none),
        (1, some "2", some "3")] := by decide +kernel
  obtain ⟨st, hrun, hst⟩ := Option.map_eq_some_iff.1 hmoments
  have hcheck : Trace.meetsCheck (step logsIgnored) (tidyCheck logsIgnored) { repo := { files := [] } } editedActs = true := by
    decide +kernel
  have hok := (Trace.meets_of_check hcheck).mono fun _ _ => tidy_of_check
  exact ⟨st, hrun, hst, hash_names_workspace logsIgnored { files := [] } hrun hok⟩

/-- A file is written after the snapshot that is restored. -/
def restoredActs : List (Act String String) := [.write "a" "1", .snapshot "s" true, .write "b" "2", .restore 0 false]

theorem restore_keeps_untracked :
    (Trace.exec (step logsIgnored) { repo := { files := [] } } restoredActs).map
        (fun st => st.moments.map fun m => (m.hash, m.files)) =
      some [(0, [("a", "1")]), (0, [("a", "1"), ("b", "2")])] ∧
    ¬ ∀ (S : Setup String String) (r : Repo String String) (acts : List (Act String String)) (st : State String String),
      Trace.exec (step S) { repo := r } acts = some st → Named S st := by
  have hmoments : (Trace.exec (step logsIgnored) { repo := { files := [] } } restoredActs).map
      (fun st => st.moments.map fun m => (m.hash, m.files)) =
      some [(0, [("a", "1")]), (0, [("a", "1"), ("b", "2")])] := by decide +kernel
  refine ⟨hmoments, fun hall => ?_⟩
  obtain ⟨st, hrun, hst⟩ := Option.map_eq_some_iff.1 hmoments
  have hequal := (hall _ _ _ _ hrun).equal
  rcases hm : st.moments with _ | ⟨m, _ | ⟨m', rest⟩⟩
  all_goals simp only [hm, List.map_cons, List.map_nil, List.cons.injEq, Prod.mk.injEq, reduceCtorEq, and_false] at hst
  obtain ⟨⟨hh, hf⟩, ⟨hh', hf'⟩, -⟩ := hst
  have := hequal m (by simp [hm]) m' (by simp [hm]) (hh.trans hh'.symm) "b" rfl rfl
  rw [hf, hf'] at this
  cases this

end SynnoDB.Tools.Snapshotter
