import Mathlib
import SynnoDB.Lib.Trace
import SynnoDB.Tools.ReplaceInFile

/-!
# Edits with and without the cache (`workspace_editor.py:137-440`, `:547-979`)

| here | there |
| --- | --- |
| `Toolbox`    | `_resolve`, `apply_diff`, `normalize_diff_payload`, `repair_diff_context`, `read_text`, the texts of exceptions |
| `Workspace`  | the files and the read-only ones |
| `tracked`    | a commit is the content of its files: all but those that git ignores or the snapshotter excludes |
| `Op`         | a call of the editor; with the hash it is all that the key has |
| `Record`     | a cache entry; `origin` is the workspace in which it was recorded, which the code does not keep |
| `perform`    | the implementations; `Editor.step` has the cache before them |

The implementations read one thing that is in no key, the read-only files, and one that the hash leaves out, the
ignored files.
**A run with the cache is one without it while the entries that are replayed were recorded under the same permission**
(`cached_run_live`); a rejection outlives its lock (`rejection_replayed`).
-/

namespace SynnoDB.Tools.CachedEditing

open ReplaceInFile (replaceInFile Request)

variable {Name Content : Type}

structure Toolbox (Name Content : Type) where
  resolve : String → Except String Name
  relative : Name → String
  readText : Content → Except String String
  /-- The exception of `read_text` on a file that is not there. -/
  notFound : Name → String
  encode : String → Content
  normalizeDiff : String → String
  deletions : String → Nat
  applyCreate : String → Except String String
  repairDiff : String → String → String
  applyDiff : String → String → Except String String
  contentBlock : String → String → String
  numberedLines : String → Option Int → Option Int → String

structure Result where
  status : String
  output : String
  deriving DecidableEq, Repr

/-- The result and the line of the activity summary. -/
abbrev Outcome := Result × Option String

inductive Edit where
  | createFile (path : String) (diff : Option String)
  | updateFile (path : String) (diff : Option String)
  | deleteFile (path : String) (diff : Option String)
  | replaceInFile (path old new : String) (replaceAll : Bool)
  | writeFile (path content : String)
  deriving DecidableEq, Repr

def Edit.path : Edit → String
  | createFile path _ | updateFile path _ | deleteFile path _ | replaceInFile path _ _ _ | writeFile path _ => path

def Edit.opType : Edit → String
  | createFile .. => "create_file"
  | updateFile .. => "update_file"
  | deleteFile .. => "delete_file"
  | replaceInFile .. => "replace_in_file"
  | writeFile .. => "write_file"

/-! ## The implementations -/

section
variable (T : Toolbox Name Content) (path : String) (target : Name) (readonly : Bool) (file : Option Content)

def failed (output : String) : Result := ⟨"failed", output⟩

def completed (output : String) : Result := ⟨"completed", output⟩

/-- `read_text` of the target. -/
def readTarget : Except String String :=
  match file with
  | none => .error (T.notFound target)
  | some content => T.readText content

def createFile (diff : Option String) : Option Content × Except String Outcome :=
  let diff := diff.getD ""
  if readonly then
    (file, .ok (failed ("Error: Attempting to create read-only file: " ++ T.relative target),
      some ("Apply_patch called: Create file " ++ path ++ " (FAILED - read-only)")))
  else match T.applyCreate diff with
    | .error e => (file, .error e)
    | .ok content =>
      -- the file is written before the assertion
      if T.deletions diff ≠ 0 then (some (T.encode content), .error "Create operation should not have deleted lines")
      else
        let verb := if file.isSome then "Overwrote existing file" else "Created"
        let suffix := if file.isSome then " (overwrote existing file)" else ""
        (some (T.encode content), .ok (completed (verb ++ " " ++ T.relative target),
          some ("Apply_patch called: Create file " ++ path ++ suffix)))

def updateFailed (original e : String) : String :=
  "Error applying patch to " ++ T.relative target ++ ": " ++ e ++
    ". The workspace may have been reverted since you last read this file — your cached version is likely stale. " ++
    "Rebuild the diff using the CURRENT file content shown below. " ++
    "Context lines must EXACTLY match. Do not wrap the diff in markdown code fences.\n\n" ++
    T.contentBlock (T.relative target) original

def updateFile (diff : Option String) : Option Content × Except String Outcome :=
  let diff := T.normalizeDiff (diff.getD "")
  if readonly then
    (file, .ok (failed ("Error: Attempting to update read-only file: " ++ T.relative target),
      some ("Apply_patch called: Update file " ++ path ++ " (FAILED - read-only)")))
  else match readTarget T target file with
    | .error e => (file, .error e)
    | .ok original => match T.applyDiff original (T.repairDiff original diff) with
      | .error e => (file, .ok (failed (updateFailed T target original e), none))
      | .ok patched => (some (T.encode patched), .ok (completed ("Updated " ++ T.relative target),
          some ("Apply_patch called: Update file " ++ path)))

def deleteFile : Option Content × Except String Outcome :=
  if readonly then
    (file, .ok (failed ("Error: Attempting to delete read-only file: " ++ T.relative target),
      some ("Apply_patch called: Delete file " ++ path ++ " (FAILED - read-only)")))
  else match readTarget T target file with
    | .error e => (file, .error e)
    | .ok _ => (none, .ok (completed ("Deleted " ++ T.relative target), some ("Apply_patch called: Delete file " ++ path)))

/-- The texts of `_replace_in_file_impl`; `original` is the text that was searched. -/
def replaceFailure (original summary : String) : String :=
  let relative := T.relative target
  match summary with
  | "read-only" => "Error: Attempting to modify read-only file: " ++ relative
  | "empty old_string" => "Error: old_string must not be empty. Use apply_patch create_file to create a new file."
  | "no-op" => "Error: old_string and new_string are identical; nothing to change."
  | "missing file" => "Error: file " ++ relative ++ " does not exist. Use apply_patch create_file to create it."
  | "string not found" => "String to replace was not found in " ++ relative ++ ". The file may have " ++
      "changed since you last read it. Re-anchor old_string on the CURRENT " ++
      "content shown below; it must match exactly.\n\n" ++ T.contentBlock relative original
  | "no change" => "Error: replace produced no change in " ++ relative ++ "."
  | summary => "Found " ++ String.ofList (summary.toList.takeWhile Char.isDigit) ++ " occurrences of old_string in " ++
      relative ++ ", but replace_all is false. Add surrounding lines so old_string uniquely identifies ONE location, " ++
      "or set replace_all=true to change all of them."

def replaceImpl (old new : String) (replaceAll : Bool) : Option Content × Except String Outcome :=
  let request : Request := ⟨T.relative target, readonly, old.toList, new.toList, replaceAll⟩
  let report (original : String) (result : ReplaceInFile.Result) : Outcome :=
    match result with
    | .completed n => (completed ("Replaced " ++ toString n ++ (if n ≠ 1 then " occurrences in " else " occurrence in ") ++
        T.relative target), some ("replace_in_file called: " ++ path))
    | .failed summary => (failed (replaceFailure T target original summary),
        some ("replace_in_file called: " ++ path ++ " (FAILED - " ++ summary ++ ")"))
  let checked := readonly || old = "" || old = new
  match (if checked then none else file) with
  | none => (file, .ok (report "" (replaceInFile request none).2))
  | some content => match T.readText content with
    | .error e => (file, .error e)
    | .ok original => match replaceInFile request (some original.toList) with
      | (some patched, .completed n) => (some (T.encode (String.ofList patched)), .ok (report original (.completed n)))
      | (_, result) => (file, .ok (report original result))

def writeFailed (output summary : String) : Outcome :=
  (failed output, some ("write_file called: " ++ path ++ " (FAILED - " ++ summary ++ ")"))

def writeFile (content : String) : Option Content × Except String Outcome :=
  if readonly then
    (file, .ok (writeFailed path ("Error: Attempting to write read-only file: " ++ T.relative target) "read-only"))
  else match file.map T.readText with
    | some (.error e) => (file, .error e)
    | original =>
      if original = some (.ok content) then
        (file, .ok (writeFailed path ("Error: write produced no change in " ++ T.relative target ++ ".") "no change"))
      else (some (T.encode content), .ok (completed ((if file.isSome then "Overwrote " else "Wrote ") ++ T.relative target),
        some ("write_file called: " ++ path)))

def Edit.impl : Edit → Option Content × Except String Outcome
  | .createFile path diff => CachedEditing.createFile T path target readonly file diff
  | .updateFile path diff => CachedEditing.updateFile T path target readonly file diff
  | .deleteFile path _ => CachedEditing.deleteFile T path target readonly file
  | .replaceInFile path old new replaceAll => replaceImpl T path target readonly file old new replaceAll
  | .writeFile path content => CachedEditing.writeFile T path target readonly file content

/-- `_read_file_impl`. -/
def readImpl (offset limit : Option Int) : String × Option String :=
  match file with
  | none => ("Error: file " ++ T.relative target ++ " does not exist.", none)
  | some content => match T.readText content with
    | .error e => ("Error: could not read " ++ T.relative target ++ " as UTF-8 text: " ++ e,
        some ("read_file called: " ++ path ++ " (FAILED - " ++ e ++ ")"))
    | .ok text => (T.numberedLines text offset limit, some ("read_file called: " ++ path))

end

/-! ## Operations on a workspace -/

abbrev Files (Name Content : Type) := Name → Option Content

structure Workspace (Name Content : Type) where
  files : Files Name Content
  readonly : List Name

inductive Op where
  | edit (e : Edit)
  | readFile (path : String) (offset limit : Option Int)
  deriving DecidableEq, Repr

def Op.path : Op → String
  | .edit e => e.path
  | .readFile path _ _ => path

structure Reply where
  /-- A read has no status. -/
  status : Option String
  output : String
  activity : Option String
  deriving DecidableEq, Repr

section
variable [DecidableEq Name] (T : Toolbox Name Content)

/-- What an edit that raises is reported as. -/
def Edit.report (e : Edit) : Except String Outcome → Reply
  | .ok (result, activity) => ⟨some result.status, result.output, activity⟩
  | .error text => ⟨some "failed", "Error applying patch: " ++ text,
      some ("Apply_patch called: " ++ e.opType ++ " " ++ e.path ++ " (FAILED - " ++ text ++ ")")⟩

def perform (w : Workspace Name Content) : Op → Workspace Name Content × Reply
  | .edit e => match T.resolve e.path with
    | .error text => (w, e.report (.error text))
    | .ok target =>
      let (file, outcome) := e.impl T target (w.readonly.contains target) (w.files target)
      ({ w with files := Function.update w.files target file }, e.report outcome)
  | .readFile path offset limit => match T.resolve path with
    | .error text => (w, ⟨none, "Error: " ++ text, some ("read_file called: " ++ path ++ " (FAILED - " ++ text ++ ")")⟩)
    | .ok target =>
      let (text, activity) := readImpl T path target (w.files target) offset limit
      (w, ⟨none, text, activity⟩)

/-- `set_readonly`. -/
def Workspace.setReadonly (w : Workspace Name Content) (name : Name) (lock : Bool) : Workspace Name Content :=
  { w with readonly :=
      if lock then (if name ∈ w.readonly then w.readonly else w.readonly ++ [name]) else w.readonly.erase name }

inductive Step (Name : Type) where
  | op (op : Op)
  | setReadonly (name : Name) (lock : Bool)
  deriving DecidableEq

/-- A run without a cache. -/
structure Live (Name Content : Type) where
  workspace : Workspace Name Content
  replies : List Reply := []

def Live.step (s : Live Name Content) : Step Name → Live Name Content
  | .op op =>
    let (workspace, reply) := perform T s.workspace op
    { workspace, replies := s.replies ++ [reply] }
  | .setReadonly name lock => { s with workspace := s.workspace.setReadonly name lock }

/-! ## The cache -/

/-- The content of a commit. -/
def tracked (ignored : Name → Bool) (files : Files Name Content) : Files Name Content :=
  fun p => if ignored p then none else files p

structure Record (Name Content : Type) where
  hash : Files Name Content
  op : Op
  reply : Reply
  snapshot : Files Name Content
  origin : Workspace Name Content

structure Editor (Name Content : Type) where
  workspace : Workspace Name Content
  currentHash : Files Name Content
  cache : List (Record Name Content) := []
  replies : List Reply := []

variable (ignored : Name → Bool)

/-- `restore`: the files of the commit, and the ignored ones as they are. -/
def restore (w : Workspace Name Content) (snapshot : Files Name Content) : Workspace Name Content :=
  { w with files := fun p => if ignored p then w.files p else snapshot p }

variable [DecidableEq (Files Name Content)]

def Editor.lookup (s : Editor Name Content) (op : Op) : Option (Record Name Content) :=
  s.cache.find? fun r => r.hash = s.currentHash && r.op = op

/-- `_run_cached` and `read_file`; a read neither takes a snapshot nor restores one. -/
def Editor.step (s : Editor Name Content) : Step Name → Editor Name Content
  | .setReadonly name lock => { s with workspace := s.workspace.setReadonly name lock }
  | .op op => match s.lookup op with
    | some r => match op with
      | .edit _ => { s with
          workspace := restore ignored s.workspace r.snapshot
          currentHash := r.snapshot
          replies := s.replies ++ [r.reply] }
      | .readFile .. => { s with replies := s.replies ++ [r.reply] }
    | none =>
      let (workspace, reply) := perform T s.workspace op
      let snapshot := match op with
        | .edit _ => tracked ignored workspace.files
        | .readFile .. => s.currentHash
      { workspace, currentHash := snapshot, replies := s.replies ++ [reply]
        cache := ⟨s.currentHash, op, reply, snapshot, s.workspace⟩ :: s.cache }

/-- The editor of a workspace that is at its snapshot. -/
def Editor.start (w : Workspace Name Content) (cache : List (Record Name Content)) : Editor Name Content :=
  { workspace := w, currentHash := tracked ignored w.files, cache }

/-- The entry was recorded by this editor. -/
structure Record.Genuine (r : Record Name Content) : Prop where
  hash : r.hash = tracked ignored r.origin.files
  reply : r.reply = (perform T r.origin r.op).2
  snapshot : ∀ e, r.op = .edit e → r.snapshot = tracked ignored (perform T r.origin r.op).1.files

/-- **The condition on a step**: what would be replayed was recorded with the file as read-only as it is, and an
ignored file has the content it had, which the operation leaves. -/
def Unchanged (s : Editor Name Content) : Step Name → Prop
  | .setReadonly .. => True
  | .op op => ∀ r, s.lookup op = some r → ∀ target, T.resolve op.path = .ok target →
      ((∃ e, op = .edit e) → (target ∈ r.origin.readonly ↔ target ∈ s.workspace.readonly)) ∧
      (ignored target = true → r.origin.files target = s.workspace.files target ∧
        (perform T s.workspace op).1.files target = s.workspace.files target)

end

/-! ## A step -/

section
variable [DecidableEq Name] {T : Toolbox Name Content} {ignored : Name → Bool} {w w' : Workspace Name Content} {op : Op}
  {r : Record Name Content}

omit [DecidableEq Name] in
theorem tracked_eq_iff {files files' : Files Name Content} :
    tracked ignored files = tracked ignored files' ↔ ∀ p, ignored p = false → files p = files' p := by
  constructor
  · intro h p hp
    have hp' := congrFun h p
    simpa [tracked, hp] using hp'
  · intro h
    funext p
    cases hp : ignored p with
    | true => simp [tracked, hp]
    | false => simp [tracked, hp, h p hp]

/-- An operation depends on its file and, if it is an edit, on the permission. -/
theorem perform_congr {target : Name} (ht : T.resolve op.path = .ok target) (hfile : w.files target = w'.files target)
    (hperm : (∃ e, op = .edit e) → (target ∈ w.readonly ↔ target ∈ w'.readonly)) :
    (perform T w op).2 = (perform T w' op).2 ∧
      (perform T w op).1.files target = (perform T w' op).1.files target := by
  cases op with
  | edit e =>
    have hlocked : w.readonly.contains target = w'.readonly.contains target := by
      rw [Bool.eq_iff_iff, List.contains_iff_mem, List.contains_iff_mem]
      exact hperm ⟨e, rfl⟩
    have ht' : T.resolve e.path = .ok target := ht
    simp only [perform, ht', hlocked, hfile, Function.update_self]
    exact ⟨trivial, trivial⟩
  | readFile path offset limit =>
    have ht' : T.resolve path = .ok target := ht
    simp only [perform, ht', hfile]
    exact ⟨trivial, trivial⟩

/-- A path that does not resolve to a file of the workspace. -/
theorem perform_unresolved (w w' : Workspace Name Content) {text : String} (ht : T.resolve op.path = .error text) :
    (perform T w op).2 = (perform T w' op).2 ∧ (perform T w op).1 = w := by
  cases op with
  | edit e =>
    have ht' : T.resolve e.path = .error text := ht
    simp only [perform, ht']
    exact ⟨trivial, trivial⟩
  | readFile path offset limit =>
    have ht' : T.resolve path = .error text := ht
    simp only [perform, ht']
    exact ⟨trivial, trivial⟩

/-- The other files and the permissions stay. -/
theorem perform_frame : (perform T w op).1.readonly = w.readonly ∧
    ∀ target p, T.resolve op.path = .ok target → p ≠ target → (perform T w op).1.files p = w.files p := by
  cases op with
  | edit e =>
    cases ht : T.resolve e.path with
    | error text =>
      simp only [perform, ht]
      exact ⟨trivial, fun _ _ _ _ => trivial⟩
    | ok target =>
      simp only [perform, ht]
      refine ⟨trivial, fun target' p ht' hp => ?_⟩
      have heq : target = target' := Except.ok.inj (ht.symm.trans ht')
      exact Function.update_of_ne (heq ▸ hp) _ _
  | readFile path offset limit =>
    cases ht : T.resolve path with
    | error text =>
      simp only [perform, ht]
      exact ⟨trivial, fun _ _ _ _ => trivial⟩
    | ok target =>
      simp only [perform, ht]
      exact ⟨trivial, fun _ _ _ _ => trivial⟩

theorem perform_read {path : String} {offset limit : Option Int} :
    (perform T w (.readFile path offset limit)).1 = w := by
  cases ht : T.resolve path with
  | error text => simp only [perform, ht]
  | ok target => simp only [perform, ht]

/-- What `Unchanged` says of an entry that is replayed. -/
def Replayable (T : Toolbox Name Content) (ignored : Name → Bool) (origin w : Workspace Name Content) (op : Op) : Prop :=
  ∀ target, T.resolve op.path = .ok target →
    ((∃ e, op = .edit e) → (target ∈ origin.readonly ↔ target ∈ w.readonly)) ∧
    (ignored target = true → origin.files target = w.files target ∧ (perform T w op).1.files target = w.files target)

/-- Two workspaces with one hash answer alike, and have one hash after it. -/
theorem perform_alike (h : Replayable T ignored w' w op) (hhash : tracked ignored w'.files = tracked ignored w.files) :
    (perform T w' op).2 = (perform T w op).2 ∧
      tracked ignored (perform T w' op).1.files = tracked ignored (perform T w op).1.files := by
  have hsame := tracked_eq_iff.mp hhash
  cases ht : T.resolve op.path with
  | error text =>
    obtain ⟨hreply, hstay'⟩ := perform_unresolved w' w ht
    obtain ⟨-, hstay⟩ := perform_unresolved w w ht
    rw [hstay', hstay]
    exact ⟨hreply, hhash⟩
  | ok target =>
    obtain ⟨hperm, hignored⟩ := h target ht
    have hfile : w'.files target = w.files target := by
      cases hi : ignored target with
      | true => exact (hignored hi).1
      | false => exact hsame target hi
    obtain ⟨hreply, htarget⟩ := perform_congr ht hfile hperm
    refine ⟨hreply, tracked_eq_iff.mpr fun p hp => ?_⟩
    by_cases hpt : p = target
    · rw [hpt]
      exact htarget
    · rw [perform_frame.2 target p ht hpt, perform_frame.2 target p ht hpt, hsame p hp]

/-- An ignored file is as it was. -/
theorem perform_ignored (h : Replayable T ignored w' w op) {p : Name} (hp : ignored p = true) :
    (perform T w op).1.files p = w.files p := by
  cases ht : T.resolve op.path with
  | error text => rw [(perform_unresolved w w ht).2]
  | ok target =>
    by_cases hpt : p = target
    · subst hpt
      exact ((h p ht).2 hp).2
    · exact perform_frame.2 target p ht hpt

/-- Restoring the snapshot does what the operation does. -/
theorem restore_eq (h : Replayable T ignored w' w op) (hhash : tracked ignored w'.files = tracked ignored w.files) :
    restore ignored w (tracked ignored (perform T w' op).1.files) = (perform T w op).1 := by
  have hfiles : (fun p => if ignored p then w.files p else tracked ignored (perform T w' op).1.files p) =
      (perform T w op).1.files := by
    funext p
    rw [(perform_alike h hhash).2]
    cases hp : ignored p with
    | true =>
      simp only [↓reduceIte]
      exact (perform_ignored h hp).symm
    | false => simp [tracked, hp]
  have hreadonly : (perform T w op).1.readonly = w.readonly := perform_frame.1
  unfold restore
  rw [hfiles, ← hreadonly]

variable [DecidableEq (Files Name Content)] {s : Editor Name Content} {l : Live Name Content} {step : Step Name}

/-- The hash is that of the workspace, and the entries are the editor's own. -/
structure Editor.Inv (T : Toolbox Name Content) (ignored : Name → Bool) (s : Editor Name Content) : Prop where
  hash : s.currentHash = tracked ignored s.workspace.files
  cache : ∀ r ∈ s.cache, r.Genuine T ignored

/-- An editor and a run without a cache. -/
structure Agree (s : Editor Name Content) (l : Live Name Content) : Prop where
  workspace : s.workspace = l.workspace
  replies : s.replies = l.replies

omit [DecidableEq Name] in
theorem lookup_some (hr : s.lookup op = some r) : r ∈ s.cache ∧ r.hash = s.currentHash ∧ r.op = op := by
  have hfound := List.find?_some hr
  rw [Bool.and_eq_true, decide_eq_true_eq, decide_eq_true_eq] at hfound
  exact ⟨List.mem_of_find?_eq_some hr, hfound⟩

/-- **A miss** performs the operation and records what it did. -/
theorem miss_inv (hs : s.Inv T ignored) (ho : s.lookup op = none) : (s.step T ignored (.op op)).Inv T ignored := by
  cases op with
  | edit e =>
    simp only [Editor.step, ho]
    refine ⟨rfl, fun r hr => ?_⟩
    cases hr with
    | head => exact ⟨hs.hash, rfl, fun _ _ => rfl⟩
    | tail _ hr => exact hs.cache r hr
  | readFile path offset limit =>
    simp only [Editor.step, ho]
    refine ⟨?_, fun r hr => ?_⟩
    · rw [perform_read]
      exact hs.hash
    · cases hr with
      | head => exact ⟨hs.hash, rfl, fun e he => nomatch he⟩
      | tail _ hr => exact hs.cache r hr

/-- The editor's invariant, whatever is replayed. -/
theorem step_inv (hs : s.Inv T ignored) : (s.step T ignored step).Inv T ignored := by
  cases step with
  | setReadonly name lock => exact ⟨hs.hash, hs.cache⟩
  | op op =>
    cases hr : s.lookup op with
    | none => exact miss_inv hs hr
    | some r =>
      obtain ⟨hmem, hhash, hop⟩ := lookup_some hr
      cases op with
      | edit e =>
        simp only [Editor.step, hr]
        refine ⟨?_, hs.cache⟩
        have hsnapshot := (hs.cache r hmem).snapshot e hop
        rw [hsnapshot]
        funext p
        cases hp : ignored p with
        | true => simp [tracked, hp]
        | false => simp [tracked, restore, hp]
      | readFile path offset limit =>
        simp only [Editor.step, hr]
        exact ⟨hs.hash, hs.cache⟩

/-- **A step with the cache is one without.** -/
theorem step_agree (hs : s.Inv T ignored) (ha : Agree s l) (hu : Unchanged T ignored s step) :
    Agree (s.step T ignored step) (l.step T step) := by
  obtain ⟨hw, hreplies⟩ := ha
  cases step with
  | setReadonly name lock =>
    refine ⟨?_, hreplies⟩
    simp only [Editor.step, Live.step, hw]
  | op op =>
    cases hr : s.lookup op with
    | none =>
      simp only [Editor.step, Live.step, hr, ← hw]
      exact ⟨rfl, by rw [hreplies]⟩
    | some r =>
      obtain ⟨hmem, hhash, hop⟩ := lookup_some hr
      have hg := hs.cache r hmem
      have hreplay : Replayable T ignored r.origin s.workspace op := hu r hr
      have hsame : tracked ignored r.origin.files = tracked ignored s.workspace.files := by
        rw [← hg.hash, hhash, hs.hash]
      have hreply : r.reply = (perform T s.workspace op).2 := by
        rw [hg.reply, hop]
        exact (perform_alike hreplay hsame).1
      cases op with
      | edit e =>
        have hsnapshot := hg.snapshot e hop
        rw [hop] at hsnapshot
        simp only [Editor.step, Live.step, hr, ← hw]
        refine ⟨?_, ?_⟩
        · simp only [hsnapshot]
          exact restore_eq hreplay hsame
        · simp only [hreplies, hreply]
      | readFile path offset limit =>
        simp only [Editor.step, Live.step, hr, ← hw]
        refine ⟨?_, ?_⟩
        · exact perform_read.symm
        · simp only [hreplies, hreply]

/-! ## Runs -/

variable (T ignored) in
/-- The condition on every step of a run. -/
def Throughout : Editor Name Content → List (Step Name) → Prop
  | _, [] => True
  | s, step :: steps => Unchanged T ignored s step ∧ Throughout (s.step T ignored step) steps

theorem run_agree {steps : List (Step Name)} (hs : s.Inv T ignored) (ha : Agree s l)
    (hu : Throughout T ignored s steps) :
    Agree (steps.foldl (Editor.step T ignored) s) (steps.foldl (Live.step T) l) := by
  induction steps generalizing s l with
  | nil => exact ha
  | cons step steps ih => exact ih (step_inv hs) (step_agree hs ha hu.1) hu.2

theorem run_inv {steps : List (Step Name)} (hs : s.Inv T ignored) :
    (steps.foldl (Editor.step T ignored) s).Inv T ignored := by
  induction steps generalizing s with
  | nil => exact hs
  | cons step steps ih => exact ih (step_inv hs)

/-- The cache that a run leaves is one that another may start with. -/
theorem cache_genuine {steps : List (Step Name)} :
    ∀ r ∈ (steps.foldl (Editor.step T ignored) (.start ignored w [])).cache, r.Genuine T ignored := by
  have hstart : (Editor.start ignored w []).Inv T ignored := ⟨rfl, fun r hr => nomatch hr⟩
  exact (run_inv hstart).cache

/-- **A run with the cache replies as one without, and leaves the workspace that it leaves**. -/
theorem cached_run_live (T : Toolbox Name Content) (ignored : Name → Bool) (w : Workspace Name Content)
    (cache : List (Record Name Content)) (steps : List (Step Name)) (hcache : ∀ r ∈ cache, r.Genuine T ignored)
    (hu : Throughout T ignored (.start ignored w cache) steps) :
    Agree (steps.foldl (Editor.step T ignored) (.start ignored w cache)) (steps.foldl (Live.step T) { workspace := w }) :=
  run_agree ⟨rfl, hcache⟩ ⟨rfl, rfl⟩ hu

/-- Two files, `false` and `true`, whose texts are their contents; diffs do not apply. -/
def notes : Toolbox Bool String where
  resolve path := if path = "a" then .ok false else if path = "b" then .ok true else .error "outside"
  relative p := if p then "b" else "a"
  readText := .ok
  notFound _ := "missing"
  encode := id
  normalizeDiff := id
  deletions _ := 0
  applyCreate _ := .error "bad diff"
  repairDiff _ := id
  applyDiff _ _ := .error "bad diff"
  contentBlock _ := id
  numberedLines text _ _ := text

/-- A workspace with no files. -/
def blank : Workspace Bool String := { files := fun _ => none, readonly := [] }

def noneIgnored : Bool → Bool := fun _ => false

def writing : Op := .edit (.writeFile "b" "x")

/-- The second run takes the write from the cache of the first. -/
theorem cached_run_live_blank :
    Agree ([Step.op writing].foldl (Editor.step notes noneIgnored) (.start noneIgnored blank
        ([Step.op writing].foldl (Editor.step notes noneIgnored) (.start noneIgnored blank [])).cache))
      ([Step.op writing].foldl (Live.step notes) { workspace := blank }) := by
  refine cached_run_live notes noneIgnored blank _ _ cache_genuine ⟨fun r hr target _ => ?_, trivial⟩
  have hmem := (lookup_some hr).1
  have horigin : r.origin = blank := by
    simp only [List.foldl_cons, List.foldl_nil, Editor.step, Editor.lookup, Editor.start, List.find?_nil,
      List.mem_singleton] at hmem
    rw [hmem]
  refine ⟨fun _ => ?_, fun h => by cases h⟩
  rw [horigin]
  rfl

/-- The write is refused while the file is locked, and then twice when it no longer is: in the run that recorded the
refusal, and in one that starts with its cache. -/
def locking : List (Step Bool) := [.setReadonly true true, .op writing, .setReadonly true false]

/-- **A released file stays locked for the operation that it refused**. -/
theorem rejection_replayed :
    let recorded := locking.foldl (Editor.step notes noneIgnored) (.start noneIgnored blank [])
    let same := Editor.step notes noneIgnored recorded (.op writing)
    let later := Editor.step notes noneIgnored (.start noneIgnored blank recorded.cache) (.op writing)
    let live := Live.step notes { workspace := blank } (.op writing)
    same.workspace.readonly = [] ∧ same.replies.map (·.status) = [some "failed", some "failed"] ∧
      same.workspace.files true = none ∧
      later.replies.map (·.status) = [some "failed"] ∧ later.workspace.files true = none ∧
      live.replies.map (·.status) = [some "completed"] ∧ live.workspace.files true = some "x" := by
  decide +kernel

end

end SynnoDB.Tools.CachedEditing
