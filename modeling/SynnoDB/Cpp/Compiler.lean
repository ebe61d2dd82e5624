import SynnoDB.Lib.Dict
import SynnoDB.Lib.Rebuild

/-!
# The incremental compiler (`cpp_runner/compiler/compiler.py:151-552`)

| here | there |
| --- | --- |
| `Path`       | a path as its components from the root; `node` says which file it names |
| `Config`     | what `Compiler.__init__` fixes; source paths are already `workdir / src` |
| `Toolchain`  | **the compiler and the linker**: what a command reads, what it writes, its `.d` file |
| `Work`       | the files, the `.d` file beside each object, the time, `.build_state.json` |
| `Outcome`    | how a command of a build ends; one that was cancelled leaves its output untouched |
| `finish`     | the order in which the parallel compiles write their objects |

Commands are compared as lists of arguments (`_cmd_str` quotes each of them). The fields `src` and `out` of the
saved state, which nothing reads, and the texts of logs and compiler errors are left out.
-/

namespace SynnoDB.Cpp

open Rebuild

abbrev Path := List String

abbrev Cmd := List String

structure Config where
  workdir : Path
  /-- The working directory of the Python process. -/
  cwd : Path
  libs : List (String × List Path)
  mainSrc : Path
  appExtraSrcs : List Path := []
  buildDir : String := "build"
  linkLibs : List String := []
  forceRebuild : Bool := false
  useRelativePaths : Bool := true
  cxx : String := "g++"
  sanitizeFlags : List String := []
  includeFlags : List String := ["-I."]
  pkgCflags : List String := []
  pkgLibs : List String := []

structure Toolchain (ι γ : Type) extends Tool ι γ Cmd where
  depText : Cmd → (ι → Option γ) → String

inductive LinkKey where
  | lib (name : String)
  | app
deriving DecidableEq, Repr

structure BuildState where
  objects : Dict Path Cmd := []
  links : Dict LinkKey Cmd := []

structure Work (ι γ : Type) where
  files : Disk ι γ Cmd
  deps : Path → Option String := fun _ => none
  now : Nat := 0
  saved : BuildState := {}

inductive Outcome where
  | ok
  | untouched
  /-- The output is removed; what is left of the `.d` file. -/
  | removed (dep : Option String)
deriving DecidableEq, Repr

structure Task where
  obj : Path
  src : Path
  cmd : Cmd
deriving DecidableEq, Repr

/-! ## Paths -/

/-- `PurePath.stem`. -/
def stem (p : Path) : String :=
  let name := (p.getLast?.getD "").toList
  let suffix := name.reverse.takeWhile (· ≠ '.')
  let base := name.length - suffix.length - 1
  if suffix.length < name.length ∧ 0 < base ∧ suffix ≠ [] then String.ofList (name.take base) else String.ofList name

/-- `os.path.relpath`. -/
def osRelpath : Path → Path → Path
  | a :: p, b :: start => if a = b then osRelpath p start else (b :: start).map (fun _ => "..") ++ a :: p
  | p, start => start.map (fun _ => "..") ++ p

namespace Config

variable (cfg : Config)

def relpath (p : Path) : String :=
  if !cfg.useRelativePaths then "/" ++ "/".intercalate p
  else match osRelpath p cfg.workdir with
    | [] => "."
    | r => "/".intercalate r

def buildDirPath : Path := cfg.workdir ++ [cfg.buildDir]

def objPath (name : String) : Path := cfg.workdir ++ [cfg.buildDir, "obj", name ++ ".o"]

def depPath (name : String) : Path := cfg.workdir ++ [cfg.buildDir, "obj", name ++ ".d"]

def soPath (lib : String) : Path := cfg.workdir ++ [cfg.buildDir, "lib" ++ lib ++ ".so"]

def appName : String := stem cfg.mainSrc

def appOut : Path := cfg.workdir ++ [cfg.appName]

/-! ## Commands -/

def reproFlags : List String :=
  ["-ffile-prefix-map=.=.", "-fdebug-prefix-map=.=.", "-fmacro-prefix-map=.=.", "-fno-record-gcc-switches"]

/-- The flags of a build, from what `set_compile_options` set and the include flags of this call. -/
def cxxflags (extra extraIncludes : List String) : List String :=
  ["-g", "-std=c++20", "-fPIC"] ++ reproFlags ++ cfg.sanitizeFlags ++ cfg.includeFlags ++ extraIncludes ++ extra

def ldflags : List String := ["-shared", "-Wl,--build-id=sha1", "-Wl,--no-undefined"] ++ cfg.sanitizeFlags

def task (flags : List String) (label : String) (src : Path) : Task :=
  let name := label ++ "_" ++ stem src
  { obj := cfg.objPath name
    src
    cmd := [cfg.cxx] ++ flags ++ cfg.pkgCflags ++ ["-MMD", "-MP", "-MF", cfg.relpath (cfg.depPath name), "-c",
      cfg.relpath src, "-o", cfg.relpath (cfg.objPath name)] }

def libTasks (flags : List String) (p : String × List Path) : List Task := p.2.map (cfg.task flags p.1)

def appTasks (flags : List String) : List Task := cfg.appExtraSrcs.map (cfg.task flags "app")

def mainTask (flags : List String) : Task := cfg.task flags "app" cfg.mainSrc

def tasks (flags : List String) : List Task :=
  cfg.libs.flatMap (cfg.libTasks flags) ++ cfg.appTasks flags ++ [cfg.mainTask flags]

/-- The objects of a library; they do not depend on the flags. -/
def libObjs (p : String × List Path) : List Path := (cfg.libTasks [] p).map Task.obj

def libCmd (p : String × List Path) : Cmd :=
  [cfg.cxx] ++ cfg.ldflags ++ ["-o", cfg.relpath (cfg.soPath p.1)] ++ (cfg.libObjs p).map cfg.relpath ++ cfg.pkgLibs

def appObjs : List Path := (cfg.appTasks []).map Task.obj

def mainObj : Path := (cfg.mainTask []).obj

def appCmd (flags : List String) : Cmd :=
  [cfg.cxx] ++ flags ++ ["-rdynamic", "-Wl,--build-id=sha1"] ++ cfg.pkgLibs ++
    ["-o", cfg.relpath cfg.appOut, cfg.relpath cfg.mainObj] ++ cfg.appObjs.map cfg.relpath ++
    cfg.linkLibs.flatMap (fun lib => ["-L" ++ cfg.relpath cfg.buildDirPath, "-l" ++ lib]) ++
    ["-Wl,-rpath,$ORIGIN/" ++ cfg.buildDir]

def appInputs : List Path := cfg.mainObj :: cfg.appObjs ++ cfg.linkLibs.map cfg.soPath

/-- Every output with the command that makes it. -/
def commands (flags : List String) : List (Path × Cmd) :=
  (cfg.tasks flags).map (fun t => (t.obj, t.cmd)) ++ cfg.libs.map (fun p => (cfg.soPath p.1, cfg.libCmd p)) ++
    [(cfg.appOut, cfg.appCmd flags)]

def outputs : List Path := (cfg.commands []).map Prod.fst

end Config

/-! ## `.d` files -/

/-- `text.replace("\\\n", " ")`. -/
def joinLines : List Char → List Char
  | '\\' :: '\n' :: cs => ' ' :: joinLines cs
  | c :: cs => c :: joinLines cs
  | [] => []

/-- The path of a token, and whether it is absolute. -/
def tokenPath (token : List Char) : Bool × Path :=
  (token.head? = some '/', ((token.splitOn '/').filter fun c => c ≠ [] ∧ c ≠ ['.']).map String.ofList)

/-- The tokens after the target: no lone backslash, and one colon less where there is one at the end. -/
def depTokens (text : String) : List (Bool × Path) :=
  let deps := ((joinLines text.toList).dropWhile (· ≠ ':')).drop 1
  let tokens := (deps.splitOnP Char.isWhitespace).filter fun t => t ≠ [] ∧ t ≠ ['\\']
  let tokens := tokens.map fun t => if t.getLast? = some ':' then t.dropLast else t
  (tokens.filter (· ≠ [])).map tokenPath

section
variable {ι γ : Type} [DecidableEq ι] (cfg : Config) (node : Path → ι) (T : Toolchain ι γ)

/-- The file a token of a `.d` file names: commands run in the working directory. -/
def place (token : Bool × Path) : ι := node (if token.1 then token.2 else cfg.workdir ++ token.2)

/-- The file that `_dep_paths` takes it for. -/
def locate (files : Disk ι γ Cmd) (token : Bool × Path) : ι :=
  if token.1 then node token.2
  else
    let named := token.2 ≠ [] && token.2.head? = some (cfg.workdir.getLast?.getD "")
    let candidates := (if named then [cfg.cwd ++ token.2] else []) ++ [cfg.workdir ++ token.2, cfg.cwd ++ token.2]
    node ((candidates.find? fun p => (files (node p)).isSome).getD (candidates.headD []))

/-! ## Staleness -/

namespace Work

variable (w : Work ι γ)

/-- `load_state`. -/
def loadState : BuildState := if cfg.forceRebuild then {} else w.saved

/-- The file is missing or newer. -/
def newer (i : ι) (t : Nat) : Bool := (w.files i).all fun f => t < f.mtime

def needsRebuildObj (state : BuildState) (t : Task) : Bool :=
  cfg.forceRebuild || match w.files (node t.obj) with
    | none => true
    | some obj => w.newer (node t.src) obj.mtime ||
      (match w.deps t.obj with
        | none => false
        | some text =>
          (depTokens text).isEmpty || (depTokens text).any fun token => w.newer (locate cfg node w.files token) obj.mtime) ||
      state.objects.get t.obj ≠ some t.cmd

def needsRelink (state : BuildState) (key : LinkKey) (out : Path) (cmd : Cmd) (inputs : List Path) : Bool :=
  cfg.forceRebuild || match w.files (node out) with
    | none => true
    | some o => inputs.any (fun p => w.newer (node p) o.mtime) || state.links.get key ≠ some cmd

/-! ## Commands run -/

/-- A command that ends well writes its output. -/
def write (out : Path) (cmd : Cmd) (dep : Option String) : Work ι γ :=
  { w with
    files := Function.update w.files (node out) (some ⟨w.now + 1, T.result cmd (contents w.files), some cmd⟩)
    deps := Function.update w.deps out dep
    now := w.now + 1 }

def remove (out : Path) (dep : Option String) : Work ι γ :=
  { w with files := Function.update w.files (node out) none, deps := Function.update w.deps out dep }

def runCompile (t : Task) : Outcome → Work ι γ × Bool
  | .ok => (w.write node T t.obj t.cmd (some (T.depText t.cmd (contents w.files))), true)
  | .untouched => (w, false)
  | .removed dep => (w.remove node t.obj dep, false)

def runLink (out : Path) (cmd : Cmd) : Outcome → Work ι γ × Bool
  | .ok => (w.write node T out cmd (w.deps out), true)
  | .untouched => (w, false)
  | .removed _ => (w.remove node out (w.deps out), false)

end Work

/-- `_maybe_compile_objects`: every command runs, and an exception follows if one fails. -/
def compileObjects (outcome : Path → Outcome) : List Task → Work ι γ → Work ι γ × Bool
  | [], w => (w, true)
  | t :: ts, w =>
    let (w, ok) := w.runCompile node T t (outcome t.obj)
    let (w, oks) := compileObjects outcome ts w
    (w, ok && oks)

def markObjState (state : BuildState) (t : Task) : BuildState := { state with objects := state.objects.set t.obj t.cmd }

def markLinkState (state : BuildState) (key : LinkKey) (cmd : Cmd) : BuildState :=
  { state with links := state.links.set key cmd }

/-- Relink where it is needed; the state is marked in any case. -/
def linkOne (outcome : Path → Outcome) (key : LinkKey) (out : Path) (cmd : Cmd) (inputs : List Path) (w : Work ι γ)
    (state : BuildState) : Work ι γ × Option BuildState :=
  if w.needsRelink cfg node state key out cmd inputs then
    match w.runLink node T out cmd (outcome out) with
    | (w, false) => (w, none)
    | (w, true) => (w, some (markLinkState state key cmd))
  else (w, some (markLinkState state key cmd))

/-- The loop over the libraries; `none`: a link failed. -/
def linkLibraries (outcome : Path → Outcome) : List (String × List Path) → Work ι γ → BuildState →
    Work ι γ × Option BuildState
  | [], w, state => (w, some state)
  | p :: ps, w, state =>
    match linkOne cfg node T outcome (.lib p.1) (cfg.soPath p.1) (cfg.libCmd p) (cfg.libObjs p) w state with
    | (w, none) => (w, none)
    | (w, some state) => linkLibraries outcome ps w state

/-- The objects that are compiled, in the order in which they are finished. -/
def pending (w : Work ι γ) (flags : List String) (finish : Path → Nat) : List Task :=
  ((cfg.tasks flags).filter (w.needsRebuildObj cfg node (w.loadState cfg))).mergeSort
    fun s t => finish s.obj ≤ finish t.obj

/-- `build`; `true`: it returned `None`. The state is saved only then. -/
def build (w : Work ι γ) (flags : List String) (finish : Path → Nat) (outcome : Path → Outcome) : Work ι γ × Bool :=
  match compileObjects node T outcome (pending cfg node w flags finish) w with
  | (compiled, false) => (compiled, false)
  | (compiled, true) =>
    match linkLibraries cfg node T outcome cfg.libs compiled ((cfg.tasks flags).foldl markObjState (w.loadState cfg)) with
    | (linked, none) => (linked, false)
    | (linked, some state) =>
      match linkOne cfg node T outcome .app cfg.appOut (cfg.appCmd flags) cfg.appInputs linked state with
      | (done, none) => (done, false)
      | (done, some state) => ({ done with saved := state }, true)

end

end SynnoDB.Cpp
