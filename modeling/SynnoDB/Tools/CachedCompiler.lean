import SynnoDB.Cpp.Compiler

/-!
# What a build reads and what its cache key holds (`compiler.py:16-203`, `compiler_cached.py`,
`compiler_utils.py:18-50`)

| here | there |
| --- | --- |
| `PurePath`        | a `Path` of the arguments, absolute or below the working directory |
| `CompilerArgs`    | the dictionary `args` without `working_dir`; `libs` by key |
| `Environ`         | the variables `CXX`, `SYNNO_SANITIZE` and what `pkg-config` answers |
| `CompilerSetup`   | a `CachedCompiler` as it was made; `config` is what `Compiler.__init__` computes |
| `BuildInputs`     | **all that `Compiler.build` reads**: the files, the configuration, the flags of the call |
| `CompilePayload`  | `hash_payload`; two payloads with one SHA-256 are one payload |
-/

namespace SynnoDB.Tools

open Cpp (Path Config)

structure PurePath where
  absolute : Bool := false
  parts : List String
deriving DecidableEq, Repr

/-- `Path.name`. -/
def PurePath.name (p : PurePath) : String := p.parts.getLast?.getD ""

/-- `base / p`. -/
def joinPath (base : Path) (p : PurePath) : Path := if p.absolute then p.parts else base ++ p.parts

structure CompilerArgs where
  libs : List (String × List PurePath)
  mainSrc : PurePath
  includeDirs : List PurePath := []
  appExtraSrcs : List PurePath := []
  buildDir : String := "build"
  linkLibs : List String := []
  pkgconfigLibs : List String := []
deriving DecidableEq, Repr

abbrev Tree := Dict String String

/-! ## `_refresh_query_sources` -/

def PurePath.str (p : PurePath) : String := (if p.absolute then "/" else "") ++ "/".intercalate p.parts

/-- `(workdir / p).exists()`; what lies outside the workspace is there. -/
def PurePath.present (p : PurePath) (files : Tree) : Bool :=
  p.absolute || p.parts.head? == some ".." || (files.get p.str).isSome

/-- The pattern `query[0-9a-z]*.cpp`. -/
def isQueryFile (name : String) : Bool :=
  match name.toList with
  | 'q' :: 'u' :: 'e' :: 'r' :: 'y' :: c :: rest => (c.isDigit || c.isLower) && decide ('/' ∉ rest) && decide (".cpp".toList <:+ rest)
  | _ => false

/-- The sources of the library `query` in this workspace. -/
def querySources (base : List PurePath) (files : Tree) : List PurePath :=
  let found : List PurePath := ((files.map Prod.fst).filter isQueryFile).map fun n => { parts := [n] }
  ((base.filter (PurePath.present · files)) ++ found).dedup.mergeSort fun p q => decide (p.str ≤ q.str)

def CompilerArgs.refresh (a : CompilerArgs) (files : Tree) : CompilerArgs :=
  { a with libs := a.libs.map fun p => if p.1 = "query" then (p.1, querySources p.2 files) else p }

/-! ## The configuration -/

structure Environ where
  cxx : Option String := none
  sanitize : Option String := none
  /-- `pkg-config --cflags` and `--libs`. -/
  pkgConfig : List String → List String × List String := fun _ => ([], [])

/-- `str.rstrip`. -/
def rstrip (s : String) : String := String.ofList (s.toList.reverse.dropWhile Char.isWhitespace).reverse

/-- `str.strip`. -/
def strip (s : String) : String := rstrip (String.ofList (s.toList.dropWhile Char.isWhitespace))

def sanitizeFlagsFromEnv (env : Environ) : List String :=
  let val := (strip (env.sanitize.getD "")).toLower
  if val ∈ ["", "0", "off", "none", "false", "no"] then []
  else match ((val.toList.splitOn ',').map fun part => strip (String.ofList part)).filter (· ≠ "") with
    | [] => []
    | sanitizers => ["-fsanitize=" ++ ",".intercalate sanitizers, "-fno-omit-frame-pointer"]

structure CompilerSetup where
  args : CompilerArgs
  workingDir : Path
  cwd : Path
  environ : Environ
  untrackedCppRunnerContent : Option String := none
  hasCacheDir : Bool := true
  doNotCache : Bool := false
  onlyFromCache : Bool := false

namespace CompilerSetup

variable (c : CompilerSetup) (files : Tree)

/-- The configuration before `include_flags` is set. -/
def baseConfig : Config where
  workdir := c.workingDir
  cwd := c.cwd
  libs := (c.args.refresh files).libs.map fun p => (p.1, p.2.map (joinPath c.workingDir))
  mainSrc := joinPath c.workingDir c.args.mainSrc
  appExtraSrcs := c.args.appExtraSrcs.map (joinPath c.workingDir)
  buildDir := c.args.buildDir
  linkLibs := c.args.linkLibs
  cxx := c.environ.cxx.getD "g++"
  sanitizeFlags := sanitizeFlagsFromEnv c.environ
  pkgCflags := if c.args.pkgconfigLibs = [] then [] else (c.environ.pkgConfig c.args.pkgconfigLibs).1
  pkgLibs := if c.args.pkgconfigLibs = [] then [] else (c.environ.pkgConfig c.args.pkgconfigLibs).2

/-- `include_dirs or ["."]`. -/
def includeDirs : List PurePath := if c.args.includeDirs = [] then [⟨false, []⟩] else c.args.includeDirs

/-- `_normalize_include_dirs`. -/
def includeFlags : List String :=
  c.includeDirs.map fun p => "-I" ++ (c.baseConfig files).relpath (joinPath c.workingDir p)

/-- `Compiler.__init__`, with the sources of a build in this workspace. -/
def config : Config := { c.baseConfig files with includeFlags := c.includeFlags files }

end CompilerSetup

/-- `set_compile_options`. -/
def compileOptions (optimize traceMode : Bool) : List String :=
  (if optimize then ["-O3", "-flto"] else []) ++ (if traceMode then ["-DTRACE"] else [])

/-! ## Inputs and key of a build -/

structure BuildInputs where
  /-- The workspace. -/
  files : Tree
  /-- What else the paths reach: the sources of the runner, the headers of the system. -/
  outside : Tree
  config : Config
  flags : List String

structure CompilePayload where
  libs : List (String × List String)
  mainSrc : String
  includeDirs : List String
  appExtraSrcs : List String
  buildDir : String
  linkLibs : List String
  pkgconfigLibs : List String
  snapshotterHash : Option String
  cxxFlags : List String
  untrackedCppRunnerContent : Option String
deriving DecidableEq, Repr

/-- The key of a build, with `make_cache_hash_payload_dir_agnostic`: names in place of paths. -/
def CompilerSetup.payload (c : CompilerSetup) (files : Tree) (hash : Option String) (flags : List String) :
    CompilePayload where
  libs := (c.args.refresh files).libs.map fun p => (p.1, p.2.map PurePath.name)
  mainSrc := c.args.mainSrc.name
  includeDirs := c.args.includeDirs.map PurePath.name
  appExtraSrcs := c.args.appExtraSrcs.map PurePath.name
  buildDir := c.args.buildDir
  linkLibs := c.args.linkLibs
  pkgconfigLibs := c.args.pkgconfigLibs
  snapshotterHash := hash
  cxxFlags := flags
  untrackedCppRunnerContent := c.untrackedCppRunnerContent

end SynnoDB.Tools
