import Mathlib.Data.List.Basic
import Mathlib.Logic.Function.Basic

/-!
# The scratch workspace of a shared engine (`router/process_engine.py:97-169`)

| here | there |
| --- | --- |
| `Dir`, `File`   | the paths that engines are served from, and the files that paths resolve to |
| `Listing`       | `os.listdir` of a directory, and the file that each entry resolves to |
| `Disk`          | the engine directories as they are at a call; `none`: there is no such directory |
| `Entry.link d`  | in `scratch` under `name`: a link to `d/name`; in its `build`: one to `d/build/name` |
| `Scratch`       | `<tmp>/synnodb-<uid>/<engine_id>`, without its `build` and `build/.reload`, which are its own directories |
| `Call`          | one call of `_ensure_writable_cwd` for an engine with this id |

A link is made where nothing resolves under its name and never changed again. **The scratch directory mirrors the
engine in every call of a run iff no call finds a link to another file or a dangling one in its way**
(`mirrors_iff`): two packages of one content share the directory, and the second is served the files of the first
(`two_packages`). Under one path nothing goes wrong (`one_path`).
-/

namespace SynnoDB.Router.ScratchWorkspace

/-! ## The disk -/

structure Listing (File : Type) where
  names : List String
  file : String → Option File
  nodup : names.Nodup

structure Engine (File : Type) where
  top : Listing File
  build : Option (Listing File)

abbrev Disk (Dir File : Type) := Dir → Option (Engine File)

inductive Entry (Dir : Type) where
  | link (target : Dir)
  | dir

abbrev Entries (Dir : Type) := String → Option (Entry Dir)

structure Scratch (Dir : Type) where
  top : Entries Dir := fun _ => none
  build : Entries Dir := fun _ => none

variable {Dir File : Type}

/-- What the path of an entry resolves to. -/
def Listing.resolve (l : Listing File) (name : String) : Option File := if name ∈ l.names then l.file name else none

def noListing : Listing File := ⟨[], fun _ => none, List.nodup_nil⟩

/-- The entries of `build`. -/
def Engine.built (engine : Engine File) : Listing File := engine.build.getD noListing

def tops (disk : Disk Dir File) (d : Dir) : Option (Listing File) := (disk d).map Engine.top

def builds (disk : Disk Dir File) (d : Dir) : Option (Listing File) := (disk d).map Engine.built

def resolve (lists : Dir → Option (Listing File)) (name : String) : Entry Dir → Option File
  | .link d => (lists d).bind fun l => l.resolve name
  | .dir => none

/-- `dst.exists()` of an entry that is there. -/
def present (lists : Dir → Option (Listing File)) (name : String) : Entry Dir → Bool
  | .link d => ((lists d).bind fun l => l.resolve name).isSome
  | .dir => true

/-! ## `_ensure_writable_cwd` -/

/-- The loop over a listing; `false` is the `FileExistsError` of `symlink_to`. -/
def linkLoop (lists : Dir → Option (Listing File)) (workspace : Dir) (skip : String) :
    List String → Entries Dir → Entries Dir × Bool
  | [], es => (es, true)
  | name :: names, es =>
    if name = skip then linkLoop lists workspace skip names es
    else
      match es name with
      | none => linkLoop lists workspace skip names (Function.update es name (some (.link workspace)))
      | some e => if present lists name e then linkLoop lists workspace skip names es else (es, false)

/-- `(scratch / "results").mkdir(exist_ok=True)`. -/
def makeResults (isDir : File → Bool) (disk : Disk Dir File) (es : Entries Dir) : Entries Dir × Bool :=
  match es "results" with
  | none => (Function.update es "results" (some .dir), true)
  | some .dir => (es, true)
  | some (.link d) => (es, (resolve (tops disk) "results" (.link d)).any isDir)

/-- The answers of `os.access` and of `reload_dir.exists()`. -/
structure Access where
  reloadWritable : Bool
  reloadExists : Bool
  buildWritable : Bool

def Access.writable (a : Access) : Bool := a.reloadWritable || (!a.reloadExists && a.buildWritable)

/-- What `_cwd` is afterwards. -/
inductive Outcome where
  | workspace
  | scratch
  | raised
  deriving DecidableEq

structure Call (Dir File : Type) where
  disk : Disk Dir File
  workspace : Dir
  access : Access

section
variable (isDir : File → Bool)

def ensureWritableCwd (c : Call Dir File) (s : Scratch Dir) : Scratch Dir × Outcome :=
  if c.access.writable then (s, .workspace)
  else
    match c.disk c.workspace with
    | none => (s, .raised)
    | some engine =>
      let (top, ok) := linkLoop (tops c.disk) c.workspace "build" engine.top.names s.top
      if ok = false then ({ s with top }, .raised)
      else
        let (build, ok) :=
          match engine.build with
          | none => (s.build, true)
          | some listing => linkLoop (builds c.disk) c.workspace ".reload" listing.names s.build
        if ok = false then ({ top, build }, .raised)
        else
          let (top, ok) := makeResults isDir c.disk top
          ({ top, build }, if ok then .scratch else .raised)

/-! ## What it is for -/

/-- Every entry but the excepted ones is there and resolves to its file, and none resolves to another file. -/
def MirrorsIn (lists : Dir → Option (Listing File)) (l : Listing File) (except : List String) (es : Entries Dir) : Prop :=
  (∀ name ∈ l.names, name ∉ except → ∃ e, es name = some e ∧ resolve lists name e = l.file name) ∧
    ∀ name e f, name ∉ except → es name = some e → resolve lists name e = some f → l.resolve name = some f

def Mirrors (disk : Disk Dir File) (engine : Engine File) (s : Scratch Dir) : Prop :=
  MirrorsIn (tops disk) engine.top ["build", "results"] s.top ∧ MirrorsIn (builds disk) engine.built [".reload"] s.build

/-- The call does what it is for: where the engine's directory is there and not writable. -/
def Call.Good (c : Call Dir File) (s : Scratch Dir) : Prop :=
  c.access.writable = false → ∀ engine, c.disk c.workspace = some engine →
    (ensureWritableCwd isDir c s).2 ≠ .raised ∧ Mirrors c.disk engine (ensureWritableCwd isDir c s).1

/-- The links found resolve to the file of the engine; one that dangles has a name that the engine has not. -/
def CleanIn (lists : Dir → Option (Listing File)) (l : Listing File) (except : List String) (es : Entries Dir) : Prop :=
  ∀ name e, name ∉ except → es name = some e →
    match resolve lists name e with
    | none => name ∉ l.names
    | some f => l.resolve name = some f

/-- `results` is a directory, or nothing. -/
def CleanResults (disk : Disk Dir File) (engine : Engine File) (es : Entries Dir) : Prop :=
  match es "results" with
  | none => "results" ∈ engine.top.names → (engine.top.file "results").any isDir = true
  | some .dir => True
  | some (.link d) => (resolve (tops disk) "results" (.link d)).any isDir = true

def Call.Clean (c : Call Dir File) (s : Scratch Dir) : Prop :=
  c.access.writable = false → ∀ engine, c.disk c.workspace = some engine →
    CleanIn (tops c.disk) engine.top ["build", "results"] s.top ∧
      CleanIn (builds c.disk) engine.built [".reload"] s.build ∧ CleanResults isDir c.disk engine s.top

/-- Every call of the run, in the state it finds. -/
def Throughout (P : Call Dir File → Scratch Dir → Prop) : Scratch Dir → List (Call Dir File) → Prop
  | _, [] => True
  | s, c :: calls => P c s ∧ Throughout P (ensureWritableCwd isDir c s).1 calls

end

/-! ## One loop -/

section
variable {lists : Dir → Option (Listing File)} {workspace : Dir} {skip : String}

variable (lists workspace skip) in
/-- The loop ends iff nothing that dangles is in its way, and then each name that was free is linked. -/
theorem linkLoop_spec : ∀ {names : List String}, names.Nodup → ∀ es : Entries Dir,
    ((linkLoop lists workspace skip names es).2 = true ↔
      ∀ name ∈ names, name ≠ skip → ∀ e, es name = some e → present lists name e = true) ∧
    ((linkLoop lists workspace skip names es).2 = true → ∀ name, (linkLoop lists workspace skip names es).1 name =
      if name ∈ names ∧ name ≠ skip ∧ es name = none then some (.link workspace) else es name)
  | [], _, es => ⟨by simp [linkLoop], fun _ name => by simp [linkLoop]⟩
  | head :: names, hnodup, es => by
    obtain ⟨hhead, hnodup⟩ := List.nodup_cons.1 hnodup
    rw [linkLoop]
    by_cases hskip : head = skip
    · rw [if_pos hskip]
      obtain ⟨hok, hentries⟩ := linkLoop_spec hnodup es
      refine ⟨hok.trans ⟨fun h name hname hne => ?_, fun h name hname => h name (List.mem_cons_of_mem _ hname)⟩,
        fun h name => (hentries h name).trans (if_congr ?_ rfl rfl)⟩
      · rcases List.mem_cons.1 hname with rfl | hname
        · exact absurd hskip hne
        · exact h name hname hne
      · rw [List.mem_cons]
        exact ⟨fun ⟨h1, h2⟩ => ⟨.inr h1, h2⟩, fun ⟨h1, h2⟩ => ⟨h1.resolve_left fun h => h2.1 (h.trans hskip), h2⟩⟩
    · rw [if_neg hskip]
      cases hes : es head with
      | none =>
        obtain ⟨hok, hentries⟩ := linkLoop_spec hnodup (Function.update es head (some (.link workspace)))
        have hother : ∀ name ∈ names, Function.update es head (some (Entry.link workspace)) name = es name :=
          fun name hname =>
          Function.update_of_ne (fun h : name = head => hhead (h ▸ hname)) _ _
        refine ⟨hok.trans ⟨fun h name hname hne e he => ?_, fun h name hname hne e he => ?_⟩, fun h name => ?_⟩
        · rcases List.mem_cons.1 hname with rfl | hname
          · rw [hes] at he
            cases he
          · exact h name hname hne e ((hother name hname).trans he)
        · exact h name (List.mem_cons_of_mem _ hname) hne e ((hother name hname).symm.trans he)
        · dsimp only
          rw [hentries h name]
          by_cases hname : name = head
          · subst hname
            rw [if_neg fun h => hhead h.1, Function.update_self, if_pos ⟨List.mem_cons_self .., hskip, hes⟩]
          · rw [Function.update_of_ne hname]
            refine if_congr ?_ rfl rfl
            rw [List.mem_cons, or_iff_right hname]
      | some e =>
        dsimp only
        by_cases hpresent : present lists head e = true
        · rw [if_pos hpresent]
          obtain ⟨hok, hentries⟩ := linkLoop_spec hnodup es
          refine ⟨hok.trans ⟨fun h name hname hne e' he => ?_, fun h name hname =>
            h name (List.mem_cons_of_mem _ hname)⟩,
            fun h name => (hentries h name).trans (if_congr ?_ rfl rfl)⟩
          · rcases List.mem_cons.1 hname with rfl | hname
            · rw [hes, Option.some.injEq] at he
              exact he ▸ hpresent
            · exact h name hname hne e' he
          · rw [List.mem_cons]
            refine ⟨fun ⟨h1, h2⟩ => ⟨.inr h1, h2⟩, fun ⟨h1, h2⟩ => ⟨h1.resolve_left fun h => ?_, h2⟩⟩
            rw [h, hes] at h2
            cases h2.2
        · rw [if_neg hpresent]
          refine ⟨iff_of_false (fun h => by cases h) fun h =>
            hpresent (h head (List.mem_cons_self ..) hskip e hes), fun h => by cases h⟩

theorem present_of_resolve {name : String} {e : Entry Dir} {f : File} (h : resolve lists name e = some f) :
    present lists name e = true := by
  cases e with
  | link d => exact (congrArg Option.isSome h).trans rfl
  | dir => rfl

variable (skip) in
/-- A loop over a whole listing mirrors it iff what it finds is clean. -/
theorem mirrorsIn_iff {l : Listing File} (hl : lists workspace = some l) (except : List String) (hskip : skip ∈ except)
    {es : Entries Dir} (hlinks : ∀ name ∉ except, es name ≠ some .dir) :
    ((linkLoop lists workspace skip l.names es).2 = true ∧
        MirrorsIn lists l except (linkLoop lists workspace skip l.names es).1) ↔
      CleanIn lists l except es ∧
        ∀ name ∈ l.names, name ∈ except → name ≠ skip → ∀ e, es name = some e → present lists name e = true := by
  obtain ⟨hok, hentries⟩ := linkLoop_spec lists workspace skip l.nodup es
  have hne {name : String} (h : name ∉ except) : name ≠ skip := fun h' => h (h' ▸ hskip)
  have hown (name : String) : resolve lists name (.link workspace) = l.resolve name := by
    rw [resolve, hl]
    rfl
  constructor
  · rintro ⟨hend, hthere, hothers⟩
    refine ⟨fun name e hname he => ?_, fun name hname hexcept hne => hok.1 hend name hname hne⟩
    have hkept : (linkLoop lists workspace skip l.names es).1 name = some e := by
      rw [hentries hend name, if_neg (fun h => by rw [he] at h; cases h.2.2), he]
    cases hresolve : resolve lists name e with
    | some f => exact hothers name e f hname hkept hresolve
    | none =>
      intro hmem
      have := hok.1 hend name hmem (hne hname) e he
      cases e with
      | link d =>
        rw [present] at this
        rw [resolve] at hresolve
        rw [hresolve] at this
        cases this
      | dir => exact hlinks name hname he
  · rintro ⟨hclean, hexcepted⟩
    have hend : (linkLoop lists workspace skip l.names es).2 = true := hok.2 fun name hmem hskip e he => by
      by_cases hname : name ∈ except
      · exact hexcepted name hmem hname hskip e he
      · have := hclean name e hname he
        cases hresolve : resolve lists name e with
        | some f => exact present_of_resolve hresolve
        | none =>
          rw [hresolve] at this
          exact absurd hmem this
    refine ⟨hend, fun name hmem hname => ?_, fun name e f hname he hresolve => ?_⟩
    · rw [hentries hend name]
      cases he : es name with
      | none =>
        rw [if_pos ⟨hmem, hne hname, rfl⟩]
        exact ⟨_, rfl, by rw [hown, Listing.resolve, if_pos hmem]⟩
      | some e =>
        rw [if_neg fun h => by cases h.2.2]
        refine ⟨e, rfl, ?_⟩
        have := hclean name e hname he
        cases hresolve : resolve lists name e with
        | none =>
          rw [hresolve] at this
          exact absurd hmem this
        | some f =>
          rw [hresolve, Listing.resolve, if_pos hmem] at this
          exact this.symm
    · rw [hentries hend name] at he
      split at he
      · rw [← Option.some.inj he, hown] at hresolve
        exact hresolve
      · have := hclean name e hname he
        rw [hresolve] at this
        exact this

theorem MirrorsIn.congr {l : Listing File} {except : List String} {es es' : Entries Dir}
    (h : ∀ name ∉ except, es' name = es name) (hm : MirrorsIn lists l except es) : MirrorsIn lists l except es' :=
  ⟨fun name hmem hname => by rw [h name hname]; exact hm.1 name hmem hname,
    fun name e f hname he => hm.2 name e f hname ((h name hname).symm.trans he)⟩

/-- The loop only adds links, also where it raises. -/
theorem linkLoop_adds : ∀ (names : List String) (es : Entries Dir) {name : String} {e : Entry Dir},
    (linkLoop lists workspace skip names es).1 name = some e → es name = some e ∨ e = .link workspace ∧ name ∈ names
  | [], _, _, _, h => .inl h
  | head :: names, es, name, e, h => by
    rw [linkLoop] at h
    have hlater {es' : Entries Dir} (h : (linkLoop lists workspace skip names es').1 name = some e) :
        es' name = some e ∨ e = .link workspace ∧ name ∈ head :: names :=
      (linkLoop_adds names es' h).imp_right fun h => ⟨h.1, List.mem_cons_of_mem _ h.2⟩
    split at h
    · exact hlater h
    · split at h
      · rcases hlater h with h | h
        · by_cases hname : name = head
          · rw [hname, Function.update_self, Option.some.injEq] at h
            exact .inr ⟨h.symm, hname ▸ List.mem_cons_self ..⟩
          · rw [Function.update_of_ne hname] at h
            exact .inl h
        · exact .inr h
      · split at h
        · exact hlater h
        · exact .inl h

end

/-! ## One call -/

section
variable {isDir : File → Bool}

/-- What earlier calls left: the only directory is `results`. -/
def Made (s : Scratch Dir) : Prop := (∀ name ≠ "results", s.top name ≠ some .dir) ∧ ∀ name, s.build name ≠ some .dir

theorem makeResults_other (disk : Disk Dir File) (es : Entries Dir) {name : String} (h : name ≠ "results") :
    (makeResults isDir disk es).1 name = es name := by
  unfold makeResults
  split
  · exact Function.update_of_ne h _ _
  · rfl
  · rfl

/-- The steps of a call that is not on the fast path. -/
theorem ensureWritableCwd_eq {c : Call Dir File} {engine : Engine File} (hwritable : c.access.writable = false)
    (hengine : c.disk c.workspace = some engine) (s : Scratch Dir) :
    ensureWritableCwd isDir c s =
      let r := linkLoop (tops c.disk) c.workspace "build" engine.top.names s.top
      let b := linkLoop (builds c.disk) c.workspace ".reload" engine.built.names s.build
      if r.2 = false then ({ s with top := r.1 }, .raised)
      else if b.2 = false then ({ top := r.1, build := b.1 }, .raised)
      else
        ({ top := (makeResults isDir c.disk r.1).1, build := b.1 },
          if (makeResults isDir c.disk r.1).2 then .scratch else .raised) := by
  unfold ensureWritableCwd
  rw [if_neg (by rw [hwritable]; decide), hengine]
  dsimp only
  split
  · rfl
  · unfold Engine.built
    cases engine.build <;> rfl

variable (isDir) in
theorem results_iff {c : Call Dir File} {engine : Engine File} (hengine : c.disk c.workspace = some engine)
    {s : Scratch Dir}
    (hend : (linkLoop (tops c.disk) c.workspace "build" engine.top.names s.top).2 = true) :
    (makeResults isDir c.disk (linkLoop (tops c.disk) c.workspace "build" engine.top.names s.top).1).2 = true ↔
      CleanResults isDir c.disk engine s.top := by
  have hentry := (linkLoop_spec _ _ _ engine.top.nodup s.top).2 hend "results"
  have hown : resolve (tops c.disk) "results" (.link c.workspace) = engine.top.resolve "results" := by
    rw [resolve, tops, hengine]
    rfl
  unfold makeResults CleanResults
  cases hs : s.top "results" with
  | none =>
    rw [hs] at hentry
    by_cases hmem : "results" ∈ engine.top.names
    · rw [if_pos ⟨hmem, by decide, rfl⟩] at hentry
      rw [hentry]
      dsimp only
      rw [hown, Listing.resolve, if_pos hmem]
      exact ⟨fun h _ => h, fun h => h hmem⟩
    · rw [if_neg fun h => hmem h.1] at hentry
      rw [hentry]
      exact iff_of_true rfl fun h => absurd h hmem
  | some e =>
    rw [hs, if_neg fun h => by cases h.2.2] at hentry
    rw [hentry]
    cases e with
    | link d => exact Iff.rfl
    | dir => exact iff_of_true rfl trivial

/-- **One call does what it is for iff what it finds is clean.** -/
theorem good_iff (c : Call Dir File) {s : Scratch Dir} (hmade : Made s) : c.Good isDir s ↔ c.Clean isDir s := by
  unfold Call.Good Call.Clean
  refine forall_congr' fun hwritable => forall_congr' fun engine => forall_congr' fun hengine => ?_
  have htops : tops c.disk c.workspace = some engine.top := by rw [tops, hengine]; rfl
  have hbuilds : builds c.disk c.workspace = some engine.built := by rw [builds, hengine]; rfl
  have htop := mirrorsIn_iff "build" htops ["build", "results"] (by decide)
    fun name (hname : name ∉ ["build", "results"]) => hmade.1 name fun h => hname (by rw [h]; decide)
  have hbuild := mirrorsIn_iff ".reload" hbuilds [".reload"] (by decide)
    fun name (_ : name ∉ [".reload"]) => hmade.2 name
  rw [ensureWritableCwd_eq hwritable hengine]
  dsimp only
  constructor
  · rintro ⟨hout, hmirrors⟩
    split at hout
    · exact absurd rfl hout
    · rename_i hend
      rw [Bool.not_eq_false] at hend
      split at hout
      · exact absurd rfl hout
      · rename_i hendBuild
        rw [Bool.not_eq_false] at hendBuild
        rw [if_neg (by rw [hend]; decide), if_neg (by rw [hendBuild]; decide)] at hmirrors
        have hresults := (results_iff isDir hengine hend).1 (by
          by_contra h
          rw [if_neg h] at hout
          exact hout rfl)
        have hsame : MirrorsIn (tops c.disk) engine.top ["build", "results"]
            (linkLoop (tops c.disk) c.workspace "build" engine.top.names s.top).1 :=
          hmirrors.1.congr fun name hname => (makeResults_other c.disk _ fun h => hname (by rw [h]; decide)).symm
        exact ⟨(htop.1 ⟨hend, hsame⟩).1, (hbuild.1 ⟨hendBuild, hmirrors.2⟩).1, hresults⟩
  · rintro ⟨hcleanTop, hcleanBuild, hresults⟩
    have hpresent : ∀ name ∈ engine.top.names, name ∈ ["build", "results"] → name ≠ "build" → ∀ e, s.top name = some e →
        present (tops c.disk) name e = true := fun name _ hexcept hne e he => by
      simp only [List.mem_cons, List.not_mem_nil, or_false, hne, false_or] at hexcept
      subst hexcept
      rw [CleanResults, he] at hresults
      cases e with
      | link d =>
        obtain ⟨f, hf, -⟩ := (Option.any_eq_true _ _).1 hresults
        exact present_of_resolve hf
      | dir => rfl
    obtain ⟨hend, hmirrors⟩ := htop.2 ⟨hcleanTop, hpresent⟩
    obtain ⟨hendBuild, hmirrorsBuild⟩ := hbuild.2 ⟨hcleanBuild, fun name _ hexcept hne =>
      absurd (List.mem_singleton.1 hexcept) hne⟩
    rw [if_neg (by rw [hend]; decide), if_neg (by rw [hendBuild]; decide),
      if_pos ((results_iff isDir hengine hend).2 hresults)]
    refine ⟨fun h => (by cases h), hmirrors.congr fun name hname => ?_, hmirrorsBuild⟩
    exact makeResults_other c.disk _ fun h => hname (by rw [h]; decide)

/-- What a call adds to the scratch directory: links to its engine, and `results`. -/
theorem ensureWritableCwd_adds (isDir : File → Bool) (c : Call Dir File) (s : Scratch Dir) :
    (∀ name e, (ensureWritableCwd isDir c s).1.top name = some e →
      s.top name = some e ∨ name = "results" ∧ e = .dir ∨
        e = .link c.workspace ∧ ∃ engine, c.disk c.workspace = some engine ∧ name ∈ engine.top.names) ∧
    ∀ name e, (ensureWritableCwd isDir c s).1.build name = some e → s.build name = some e ∨ e = .link c.workspace := by
  cases hwritable : c.access.writable with
  | true =>
    rw [ensureWritableCwd, if_pos hwritable]
    exact ⟨fun _ _ h => .inl h, fun _ _ h => .inl h⟩
  | false =>
    cases hengine : c.disk c.workspace with
    | none =>
      rw [ensureWritableCwd, if_neg (by rw [hwritable]; decide), hengine]
      exact ⟨fun _ _ h => .inl h, fun _ _ h => .inl h⟩
    | some engine =>
      have htop {name : String} {e : Entry Dir}
          (h : (linkLoop (tops c.disk) c.workspace "build" engine.top.names s.top).1 name = some e) :
          s.top name = some e ∨ name = "results" ∧ e = .dir ∨
            e = .link c.workspace ∧ ∃ engine', some engine = some engine' ∧ name ∈ engine'.top.names :=
        (linkLoop_adds _ _ h).imp_right fun h => .inr ⟨h.1, engine, rfl, h.2⟩
      have hbuild {name : String} {e : Entry Dir}
          (h : (linkLoop (builds c.disk) c.workspace ".reload" engine.built.names s.build).1 name = some e) :
          s.build name = some e ∨ e = .link c.workspace := (linkLoop_adds _ _ h).imp_right And.left
      rw [ensureWritableCwd_eq hwritable hengine]
      dsimp only
      split
      · exact ⟨fun _ _ h => htop h, fun _ _ h => .inl h⟩
      · split
        · exact ⟨fun _ _ h => htop h, fun _ _ h => hbuild h⟩
        · refine ⟨fun name e h => ?_, fun _ _ h => hbuild h⟩
          dsimp only at h
          unfold makeResults at h
          split at h
          · dsimp only at h
            by_cases hname : name = "results"
            · rw [hname, Function.update_self, Option.some.injEq] at h
              exact .inr (.inl ⟨hname, h.symm⟩)
            · rw [Function.update_of_ne hname] at h
              exact htop h
          · exact htop h
          · exact htop h

theorem Made.call {s : Scratch Dir} (h : Made s) (c : Call Dir File) : Made (ensureWritableCwd isDir c s).1 := by
  obtain ⟨htop, hbuild⟩ := ensureWritableCwd_adds isDir c s
  refine ⟨fun name hname he => ?_, fun name he => ?_⟩
  · rcases htop name _ he with he | ⟨hresults, -⟩ | ⟨he, -⟩
    · exact h.1 name hname he
    · exact hname hresults
    · cases he
  · rcases hbuild name _ he with he | he
    · exact h.2 name he
    · cases he

/-! ## Runs -/

theorem throughout_iff (calls : List (Call Dir File)) : ∀ {s : Scratch Dir}, Made s →
    (Throughout isDir (Call.Good isDir) s calls ↔ Throughout isDir (Call.Clean isDir) s calls) := by
  induction calls with
  | nil => exact fun _ => Iff.rfl
  | cons c calls ih => exact fun hmade => and_congr (good_iff c hmade) (ih (hmade.call c))

/-- Every link is to one path, and no listing has had a `results`. -/
def OnePath (workspace : Dir) (s : Scratch Dir) : Prop :=
  (∀ name e, s.top name = some e → name = "results" ∧ e = .dir ∨ name ≠ "results" ∧ e = .link workspace) ∧
    ∀ name e, s.build name = some e → e = .link workspace

theorem clean_of_isSome {l : Listing File} (h : ∀ name ∈ l.names, (l.file name).isSome) (name : String) :
    match l.resolve name with
    | none => name ∉ l.names
    | some f => l.resolve name = some f := by
  cases hresolve : l.resolve name with
  | none =>
    intro hmem
    have := h name hmem
    rw [Listing.resolve, if_pos hmem] at hresolve
    rw [hresolve] at this
    cases this
  | some f => rfl

/-- **An engine that is served from one path, re-published there as often as one likes, is mirrored in every call**, if
no entry dangles in it and it has no `results` of its own. -/
theorem one_path (workspace : Dir) (calls : List (Call Dir File)) (hpath : ∀ c ∈ calls, c.workspace = workspace)
    (hresults : ∀ c ∈ calls, ∀ engine, c.disk workspace = some engine → "results" ∉ engine.top.names)
    (hthere : ∀ c ∈ calls, ∀ engine, c.disk workspace = some engine →
      (∀ name ∈ engine.top.names, (engine.top.file name).isSome) ∧
        ∀ name ∈ engine.built.names, (engine.built.file name).isSome) :
    Throughout isDir (Call.Good isDir) {} calls := by
  suffices h : ∀ s : Scratch Dir, OnePath workspace s → Throughout isDir (Call.Good isDir) s calls from
    h {} ⟨fun _ _ h => (by cases h), fun _ _ h => (by cases h)⟩
  induction calls with
  | nil => exact fun _ _ => trivial
  | cons c calls ih =>
    intro s hs
    have hc := hpath c (List.mem_cons_self ..)
    subst hc
    have hmade : Made s := by
      refine ⟨fun name hname h => ?_, fun name h => ?_⟩
      · rcases hs.1 name _ h with ⟨h, -⟩ | ⟨-, h⟩
        · exact hname h
        · cases h
      · cases hs.2 name _ h
    have hclean : c.Clean isDir s := fun hwritable engine hengine => by
      obtain ⟨htop, hbuild⟩ := hthere c (List.mem_cons_self ..) engine hengine
      have hownTop (name : String) : resolve (tops c.disk) name (.link c.workspace) = engine.top.resolve name := by
        rw [resolve, tops, hengine]
        rfl
      have hownBuild (name : String) : resolve (builds c.disk) name (.link c.workspace) =
        engine.built.resolve name := by
        rw [resolve, builds, hengine]
        rfl
      refine ⟨fun name e hname he => ?_, fun name e hname he => ?_, ?_⟩
      · rcases hs.1 name e he with ⟨rfl, -⟩ | ⟨-, rfl⟩
        · exact absurd (by decide) hname
        · rw [hownTop]
          exact clean_of_isSome htop name
      · rw [hs.2 name e he, hownBuild]
        exact clean_of_isSome hbuild name
      · unfold CleanResults
        cases he : s.top "results" with
        | none => exact fun h => absurd h (hresults c (List.mem_cons_self ..) engine hengine)
        | some e =>
          rcases hs.1 _ e he with ⟨-, rfl⟩ | ⟨h, -⟩
          · trivial
          · exact absurd rfl h
    refine ⟨(good_iff c hmade).2 hclean, ih (fun c' h => hpath c' (List.mem_cons_of_mem _ h))
      (fun c' h => hresults c' (List.mem_cons_of_mem _ h)) (fun c' h => hthere c' (List.mem_cons_of_mem _ h)) _ ?_⟩
    obtain ⟨htop, hbuild⟩ := ensureWritableCwd_adds isDir c s
    refine ⟨fun name e he => ?_, fun name e he => ?_⟩
    · rcases htop name e he with he | he | ⟨he, engine, hengine, hmem⟩
      · exact hs.1 name e he
      · exact .inl he
      · exact .inr ⟨fun h => hresults c (List.mem_cons_self ..) engine hengine (h ▸ hmem), he⟩
    · exact (hbuild name e he).elim (hs.2 name e) id

end

/-! ## Results -/

/-- **The scratch directory mirrors the engine in every call of a run iff every call finds it clean.** -/
theorem mirrors_iff (isDir : File → Bool) (calls : List (Call Dir File)) :
    Throughout isDir (Call.Good isDir) {} calls ↔ Throughout isDir (Call.Clean isDir) {} calls :=
  throughout_iff calls ⟨fun _ _ h => (by cases h), fun _ h => (by cases h)⟩

/-- A package with a binary of its own. -/
def package (file : Nat) : Engine Nat := ⟨⟨["db"], fun name => if name = "db" then some file else none, by decide⟩, none⟩

def locked : Access := ⟨false, false, false⟩

/-- The package in `0` is served first, then the one in `1`. -/
def twoCalls : List (Call Nat Nat) :=
  [⟨fun d => some (package d), 0, locked⟩, ⟨fun d => some (package d), 1, locked⟩]

def afterFirst : Scratch Nat := (ensureWritableCwd (fun _ => false) ⟨fun d => some (package d), 0, locked⟩ {}).1

/-- **Two packages of one content.** The second is served the binary of the first; once the first is removed, it
raises. -/
theorem two_packages : (¬ ∀ calls : List (Call Nat Nat), Throughout (fun _ => false) (Call.Good fun _ => false) {} calls) ∧
    (ensureWritableCwd (fun _ => false) ⟨fun d => if d = 0 then none else some (package d), 1, locked⟩ afterFirst).2 = .raised := by
  constructor
  · intro h
    obtain ⟨-, hgood, -⟩ := h twoCalls
    obtain ⟨-, htop, -⟩ := hgood rfl (package 1) rfl
    obtain ⟨e, he, hresolve⟩ := htop.1 "db" (by decide) (by decide)
    have hlink : e = .link 0 := Option.some.inj (he.symm.trans rfl)
    rw [hlink] at hresolve
    exact absurd hresolve (by decide)
  · rfl

end SynnoDB.Router.ScratchWorkspace
