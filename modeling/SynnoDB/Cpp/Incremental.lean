import Mathlib
import SynnoDB.Cpp.Compiler
import SynnoDB.Lib.Trace

/-!
# An incremental build and a clean one (`cpp_runner/compiler/compiler.py:206-552`)

Every output on disk was made by some command of the build and is `Sound` over what is listed for it: the tokens of
its `.d` file for an object, the inputs of the link for the rest. That survives edits and builds of whatever outcome
(`inv_step`). A build that returns `None` therefore leaves what a clean one would, as long as the command recorded
for an object is the one that wrote it. It is not after a build with other options that failed halfway: the objects
it compiled are newer than their sources, and the record that names the earlier options was not replaced
(`stale_object`).
-/

namespace SynnoDB.Cpp

open Rebuild

variable {ι γ : Type} {cfg : Config} {node : Path → ι} {T : Toolchain ι γ}

/-- `{lib}_{stem}` and `app_{stem}`. -/
def Config.objectNames (cfg : Config) : List String :=
  cfg.libs.flatMap (fun p => p.2.map fun src => p.1 ++ "_" ++ stem src) ++
    cfg.appExtraSrcs.map (fun src => "app" ++ "_" ++ stem src) ++ ["app" ++ "_" ++ stem cfg.mainSrc]

/-- What is taken for granted about names, files and tools. -/
structure Setting (cfg : Config) (node : Path → ι) (T : Toolchain ι γ) : Prop where
  det : T.Deterministic
  names : cfg.objectNames.Nodup
  libs : (cfg.libs.map Prod.fst).Nodup
  /-- No two outputs, nor libraries that are linked, are one file. -/
  outputs : ∀ p ∈ cfg.outputs ++ cfg.linkLibs.map cfg.soPath, ∀ q ∈ cfg.outputs, node p = node q → p = q
  /-- The `.d` file of a compile lists what it read. -/
  lists : ∀ flags, ∀ t ∈ cfg.tasks flags, ∀ d, ∀ i ∈ T.reads t.cmd d,
    ∃ token ∈ depTokens (T.depText t.cmd d), place cfg node token = i
  /-- A compile reads no output of the build. -/
  sources : ∀ flags, ∀ t ∈ cfg.tasks flags, ∀ d, ∀ i ∈ T.reads t.cmd d, ∀ p ∈ cfg.outputs, node p ≠ i
  libReads : ∀ p ∈ cfg.libs, ∀ d, T.reads (cfg.libCmd p) d ⊆ (cfg.libObjs p).map node
  appReads : ∀ flags d, T.reads (cfg.appCmd flags) d ⊆ cfg.appInputs.map node

/-! ## Names of outputs -/

theorem task_obj (flags : List String) (label : String) (src : Path) :
    (cfg.task flags label src).obj = cfg.objPath (label ++ "_" ++ stem src) := rfl

theorem objs_eq (flags : List String) : (cfg.tasks flags).map Task.obj = cfg.objectNames.map cfg.objPath := by
  simp [Config.tasks, Config.objectNames, Config.libTasks, Config.appTasks, Config.mainTask, List.map_flatMap,
    Function.comp_def, task_obj]

theorem commands_fst (flags : List String) : (cfg.commands flags).map Prod.fst = cfg.outputs := by
  have h := fun fl => @objs_eq cfg fl
  simp only [Config.outputs, Config.commands, List.map_append, List.map_map, Function.comp_def, List.map_cons,
    List.map_nil]
  have hobj : ∀ fl, (cfg.tasks fl).map (fun t => t.obj) = cfg.objectNames.map cfg.objPath := h
  rw [hobj flags, hobj []]

theorem mem_outputs {flags : List String} {p : Path} {c : Cmd} (h : (p, c) ∈ cfg.commands flags) : p ∈ cfg.outputs := by
  rw [← commands_fst flags]
  exact List.mem_map.2 ⟨(p, c), h, rfl⟩

theorem objPath_inj {n m : String} (h : cfg.objPath n = cfg.objPath m) : n = m := by
  simp only [Config.objPath, List.append_cancel_left_eq, List.cons.injEq, true_and, and_true] at h
  exact (String.append_left_inj ".o").1 h

theorem soPath_inj {n m : String} (h : cfg.soPath n = cfg.soPath m) : n = m := by
  simp only [Config.soPath, List.append_cancel_left_eq, List.cons.injEq, true_and, and_true] at h
  exact (String.append_right_inj "lib").1 ((String.append_left_inj ".so").1 h)

theorem objPath_ne_soPath {n m : String} : cfg.objPath n ≠ cfg.soPath m := by
  simp [Config.objPath, Config.soPath]

theorem objPath_ne_appOut {n : String} : cfg.objPath n ≠ cfg.appOut := by
  simp [Config.objPath, Config.appOut]

theorem soPath_ne_appOut {n : String} : cfg.soPath n ≠ cfg.appOut := by
  simp [Config.soPath, Config.appOut]

/-- A command is that of an object, of a library or of the executable. -/
theorem mem_commands {flags : List String} {p : Path} {c : Cmd} : (p, c) ∈ cfg.commands flags ↔
    (∃ t ∈ cfg.tasks flags, p = t.obj ∧ c = t.cmd) ∨ (∃ l ∈ cfg.libs, p = cfg.soPath l.1 ∧ c = cfg.libCmd l) ∨
      p = cfg.appOut ∧ c = cfg.appCmd flags := by
  simp only [Config.commands, List.mem_append, List.mem_map, Prod.mk.injEq, List.mem_singleton, or_assoc]
  constructor
  · rintro (⟨t, ht, rfl, rfl⟩ | ⟨l, hl, rfl, rfl⟩ | h)
    · exact .inl ⟨t, ht, rfl, rfl⟩
    · exact .inr (.inl ⟨l, hl, rfl, rfl⟩)
    · exact .inr (.inr h)
  · rintro (⟨t, ht, rfl, rfl⟩ | ⟨l, hl, rfl, rfl⟩ | h)
    · exact .inl ⟨t, ht, rfl, rfl⟩
    · exact .inr (.inl ⟨l, hl, rfl, rfl⟩)
    · exact .inr (.inr h)

theorem obj_name {flags : List String} {t : Task} (ht : t ∈ cfg.tasks flags) : ∃ n, t.obj = cfg.objPath n := by
  have hmem : t.obj ∈ (cfg.tasks flags).map Task.obj := List.mem_map.2 ⟨t, ht, rfl⟩
  rw [objs_eq, List.mem_map] at hmem
  obtain ⟨n, -, hn⟩ := hmem
  exact ⟨n, hn.symm⟩

theorem task_mem_outputs {flags : List String} {t : Task} (ht : t ∈ cfg.tasks flags) : t.obj ∈ cfg.outputs :=
  mem_outputs (mem_commands.2 (.inl ⟨t, ht, rfl, rfl⟩))

theorem so_mem_outputs {l : String × List Path} (hl : l ∈ cfg.libs) : cfg.soPath l.1 ∈ cfg.outputs :=
  @mem_outputs cfg [] _ _ (mem_commands.2 (.inr (.inl ⟨l, hl, rfl, rfl⟩)))

theorem appOut_mem_outputs : cfg.appOut ∈ cfg.outputs :=
  @mem_outputs cfg [] _ _ (mem_commands.2 (.inr (.inr ⟨rfl, rfl⟩)))

theorem libObj_mem_outputs {l : String × List Path} (hl : l ∈ cfg.libs) {p : Path} (hp : p ∈ cfg.libObjs l) :
    p ∈ cfg.outputs := by
  obtain ⟨t, ht, rfl⟩ := List.mem_map.1 hp
  refine @task_mem_outputs cfg [] t ?_
  unfold Config.tasks
  exact List.mem_append_left _ (List.mem_append_left _ (List.mem_flatMap.2 ⟨l, hl, ht⟩))

/-- Two tasks of one object are one. -/
theorem task_unique (hs : Setting cfg node T) {flags : List String} {s t : Task} (h₁ : s ∈ cfg.tasks flags)
    (h₂ : t ∈ cfg.tasks flags) (h : s.obj = t.obj) : s = t := by
  have hnodup : ((cfg.tasks flags).map Task.obj).Nodup := by
    rw [objs_eq]
    exact List.Nodup.map (fun _ _ => objPath_inj) hs.names
  exact List.inj_on_of_nodup_map hnodup h₁ h₂ h

/-- The command of a library's output. -/
theorem cmd_of_so (hs : Setting cfg node T) {flags : List String} {l : String × List Path} {c : Cmd} (hl : l ∈ cfg.libs)
    (h : (cfg.soPath l.1, c) ∈ cfg.commands flags) : c = cfg.libCmd l := by
  rcases mem_commands.1 h with ⟨t, ht, hp, -⟩ | ⟨l', hl', hp, rfl⟩ | ⟨hp, -⟩
  · obtain ⟨n, hn⟩ := obj_name ht
    rw [hn] at hp
    exact absurd hp.symm objPath_ne_soPath
  · have hfst := soPath_inj hp
    rw [List.inj_on_of_nodup_map hs.libs hl hl' hfst]
  · exact absurd hp soPath_ne_appOut

/-! ## What is listed for an output -/

/-- The inputs of a link, the tokens of the `.d` file for an object. -/
def listed (cfg : Config) (node : Path → ι) (deps : Path → Option String) (p : Path) : Option (List ι) :=
  if p = cfg.appOut then some (cfg.appInputs.map node)
  else match cfg.libs.find? fun l => cfg.soPath l.1 = p with
    | some l => some ((cfg.libObjs l).map node)
    | none => (deps p).map fun text => (depTokens text).map (place cfg node)

theorem listed_congr {deps deps' : Path → Option String} {p : Path} (h : deps' p = deps p) :
    listed cfg node deps' p = listed cfg node deps p := by
  simp only [listed, h]

theorem listed_obj {deps : Path → Option String} {flags : List String} {t : Task} (ht : t ∈ cfg.tasks flags) :
    listed cfg node deps t.obj = (deps t.obj).map fun text => (depTokens text).map (place cfg node) := by
  obtain ⟨n, hn⟩ := obj_name ht
  have hnone : cfg.libs.find? (fun l => cfg.soPath l.1 = t.obj) = none := by
    rw [List.find?_eq_none]
    intro l _
    rw [hn]
    simpa using Ne.symm objPath_ne_soPath
  rw [listed, if_neg (hn ▸ objPath_ne_appOut), hnone]

theorem listed_so (hs : Setting cfg node T) {deps : Path → Option String} {l : String × List Path} (hl : l ∈ cfg.libs) :
    listed cfg node deps (cfg.soPath l.1) = some ((cfg.libObjs l).map node) := by
  rw [listed, if_neg soPath_ne_appOut]
  cases hf : cfg.libs.find? fun l' => cfg.soPath l'.1 = cfg.soPath l.1 with
  | none => exact absurd (List.find?_eq_none.1 hf l hl) (by simp)
  | some l' =>
    have hmem := List.mem_of_find?_eq_some hf
    have heq := List.find?_some hf
    have hfst := soPath_inj (of_decide_eq_true heq)
    rw [List.inj_on_of_nodup_map hs.libs hmem hl hfst]

theorem listed_app {deps : Path → Option String} :
    listed cfg node deps cfg.appOut = some (cfg.appInputs.map node) := by
  rw [listed, if_pos rfl]

/-- A compile reads no output. -/
theorem obj_notMem_reads (hs : Setting cfg node T) {flags : List String} {t : Task} (ht : t ∈ cfg.tasks flags)
    {d : ι → Option γ} {p : Path} (hp : p ∈ cfg.outputs) : node p ∉ T.reads t.cmd d := fun h =>
  hs.sources flags t ht d _ h p hp rfl

/-- The link of a library reads its objects only. -/
theorem so_notMem_reads (hs : Setting cfg node T) {l : String × List Path} (hl : l ∈ cfg.libs)
    {d : ι → Option γ} {p : Path}
    (hp : p ∈ cfg.outputs) (hnot : p ∉ cfg.libObjs l) : node p ∉ T.reads (cfg.libCmd l) d := by
  intro h
  obtain ⟨q, hq, heq⟩ := List.mem_map.1 (hs.libReads l hl d h)
  have hqo := libObj_mem_outputs hl hq
  have := hs.outputs q (List.mem_append_left _ hqo) p hp heq
  exact hnot (this ▸ hq)

theorem libObj_name {l : String × List Path} {p : Path} (hp : p ∈ cfg.libObjs l) : ∃ n, p = cfg.objPath n := by
  obtain ⟨t, ht, rfl⟩ := List.mem_map.1 hp
  obtain ⟨src, -, rfl⟩ := List.mem_map.1 ht
  exact ⟨_, rfl⟩

/-- The executable is none of its inputs. -/
theorem app_notMem_reads (hs : Setting cfg node T) {flags : List String} {d : ι → Option γ} :
    node cfg.appOut ∉ T.reads (cfg.appCmd flags) d := by
  intro h
  obtain ⟨q, hq, heq⟩ := List.mem_map.1 (hs.appReads flags d h)
  simp only [Config.appInputs, List.cons_append, List.mem_cons, List.mem_append] at hq
  have hobj : ∀ t ∈ cfg.tasks [], t.obj ≠ cfg.appOut := by
    intro t ht
    obtain ⟨n, hn⟩ := obj_name ht
    rw [hn]
    exact objPath_ne_appOut
  rcases hq with rfl | hq | hq
  · have ht : cfg.mainTask [] ∈ cfg.tasks [] := List.mem_append_right _ List.mem_cons_self
    exact hobj _ ht (hs.outputs _ (List.mem_append_left _ (task_mem_outputs ht)) _ appOut_mem_outputs heq)
  · obtain ⟨t, ht, rfl⟩ := List.mem_map.1 hq
    have ht : t ∈ cfg.tasks [] := List.mem_append_left _ (List.mem_append_right _ ht)
    exact hobj t ht (hs.outputs _ (List.mem_append_left _ (task_mem_outputs ht)) _ appOut_mem_outputs heq)
  · have hne := hs.outputs _ (List.mem_append_right _ hq) _ appOut_mem_outputs heq
    obtain ⟨lib, -, rfl⟩ := List.mem_map.1 hq
    exact soPath_ne_appOut hne

/-! ## The invariant -/

/-- An output was made by a command of the build and is sound over what is listed for it. -/
def OutOk (cfg : Config) (node : Path → ι) (T : Toolchain ι γ) (w : Work ι γ) (p : Path) (f : File γ Cmd) : Prop :=
  ∃ flags c, (p, c) ∈ cfg.commands flags ∧ f.writer = some c ∧
    ∃ is, listed cfg node w.deps p = some is ∧ Sound T.toTool w.files c is f

structure Inv (cfg : Config) (node : Path → ι) (T : Toolchain ι γ) (w : Work ι γ) : Prop where
  time : ∀ i f, w.files i = some f → f.mtime ≤ w.now
  outs : ∀ p ∈ cfg.outputs, ∀ f, w.files (node p) = some f → OutOk cfg node T w p f

/-- The record names the command that wrote the executable, which is linked last. -/
def AppSaved (cfg : Config) (node : Path → ι) (w : Work ι γ) : Prop :=
  ∀ f, w.files (node cfg.appOut) = some f → f.writer = w.saved.links.get .app

/-- The output is what its command produces from the files as they are. -/
def Done (node : Path → ι) (T : Toolchain ι γ) (w : Work ι γ) (p : Path) (c : Cmd) : Prop :=
  ∃ f, w.files (node p) = some f ∧ f.content = T.result c (contents w.files)

/-- What a clean build with these flags leaves. -/
def Built (cfg : Config) (node : Path → ι) (T : Toolchain ι γ) (w : Work ι γ) (flags : List String) : Prop :=
  ∀ p c, (p, c) ∈ cfg.commands flags → Done node T w p c

theorem outputs_ne (hs : Setting cfg node T) {p q : Path} (hp : p ∈ cfg.outputs) (hq : q ∈ cfg.outputs) (h : p ≠ q) :
    node p ≠ node q := fun heq => h (hs.outputs p (List.mem_append_left _ hp) q hq heq)

section
variable {w w' : Work ι γ} {p : Path} {c : Cmd} {dep : Option String} {flags : List String}

/-- Files that the command does not read may change. -/
theorem Done.congr (hs : Setting cfg node T) (h : Done node T w p c) (hself : w'.files (node p) = w.files (node p))
    (hreads : ∀ i ∈ T.reads c (contents w.files), w'.files i = w.files i) : Done node T w' p c := by
  obtain ⟨f, hf, hres⟩ := h
  exact ⟨f, hself.trans hf, hres.trans (result_eq hs.det hreads).symm⟩

/-- **A settled output** whose writer is the current command is done. -/
theorem done_of_settled (h : Inv cfg node T w) (hp : p ∈ cfg.outputs) {f : File γ Cmd} (hf : w.files (node p) = some f)
    (hw : f.writer = some c) {is : List ι} (hl : listed cfg node w.deps p = some is)
    (hset : Settled w.files f.mtime is) : Done node T w p c := by
  obtain ⟨flags, c', hc, hw', is', hl', hsound⟩ := h.outs p hp f hf
  rw [hw] at hw'
  cases hw'
  rw [hl] at hl'
  cases hl'
  exact ⟨f, hf, (hsound hset).2⟩

theorem newer_eq_false {i : ι} {t : Nat} : w.newer i t = false ↔ ∃ f, w.files i = some f ∧ f.mtime ≤ t := by
  unfold Work.newer
  cases w.files i with
  | none => simp
  | some f => simp

theorem so_notMem_libObjs {l : String × List Path} {n : String} : cfg.soPath n ∉ cfg.libObjs l := by
  intro h
  obtain ⟨m, hm⟩ := libObj_name h
  exact objPath_ne_soPath hm.symm

/-- A library on disk was made by its only command. -/
theorem writer_of_so (hs : Setting cfg node T) (h : Inv cfg node T w) {l : String × List Path} (hl : l ∈ cfg.libs)
    {f : File γ Cmd} (hf : w.files (node (cfg.soPath l.1)) = some f) : f.writer = some (cfg.libCmd l) := by
  obtain ⟨flags, c, hc, hw, -⟩ := h.outs _ (so_mem_outputs hl) f hf
  rw [hw, cmd_of_so hs hl hc]

theorem mem_pending {finish : Path → Nat} {t : Task} : t ∈ pending cfg node w flags finish ↔
    t ∈ cfg.tasks flags ∧ w.needsRebuildObj cfg node (w.loadState cfg) t = true := by
  rw [pending, List.mem_mergeSort, List.mem_filter]

theorem nodup_pending (hs : Setting cfg node T) {finish : Path → Nat} :
    ((pending cfg node w flags finish).map Task.obj).Nodup := by
  have htasks : ((cfg.tasks flags).map Task.obj).Nodup := by
    rw [objs_eq]
    exact List.Nodup.map (fun _ _ => objPath_inj) hs.names
  have hfilter := htasks.sublist (List.filter_sublist.map Task.obj : (((cfg.tasks flags).filter
    (w.needsRebuildObj cfg node (w.loadState cfg))).map Task.obj).Sublist _)
  exact ((List.mergeSort_perm _ _).map Task.obj).nodup_iff.2 hfilter

variable [DecidableEq ι]

/-- Other outputs stay sound when one is written or removed. -/
theorem OutOk.update (hs : Setting cfg node T) {q : Path} {f : File γ Cmd} {g : Option (File γ Cmd)} {now : Nat}
    {saved : BuildState} (hne : q ≠ p) (hnew : ∀ h, g = some h → f.mtime < h.mtime) (hok : OutOk cfg node T w q f) :
    OutOk cfg node T ⟨Function.update w.files (node p) g, Function.update w.deps p dep, now, saved⟩ q f := by
  obtain ⟨flags, c, hc, hw, is, hl, hsound⟩ := hok
  refine ⟨flags, c, hc, hw, is, ?_, hsound.update hs.det hnew⟩
  rw [← hl]
  exact listed_congr (Function.update_of_ne hne _ _)

theorem inv_write (hs : Setting cfg node T) (h : Inv cfg node T w) (hp : (p, c) ∈ cfg.commands flags) {is : List ι}
    (hl : listed cfg node (Function.update w.deps p dep) p = some is) (hsub : T.reads c (contents w.files) ⊆ is)
    (hself : node p ∉ T.reads c (contents w.files)) : Inv cfg node T (w.write node T p c dep) := by
  constructor
  · intro i f hf
    show f.mtime ≤ w.now + 1
    simp only [Work.write] at hf
    by_cases hi : i = node p
    · rw [hi, Function.update_self] at hf
      cases hf
      exact Nat.le_refl _
    · rw [Function.update_of_ne hi] at hf
      have := h.time i f hf
      omega
  · intro q hq f hf
    simp only [Work.write] at hf
    by_cases hqp : q = p
    · subst hqp
      rw [Function.update_self] at hf
      cases hf
      exact ⟨flags, c, hp, rfl, is, hl, sound_written hs.det hsub rfl hself⟩
    · rw [Function.update_of_ne (outputs_ne hs hq (mem_outputs hp) hqp)] at hf
      refine OutOk.update hs hqp ?_ (h.outs q hq f hf)
      intro g hg
      cases hg
      have := h.time _ f hf
      show f.mtime < w.now + 1
      omega

theorem inv_remove (hs : Setting cfg node T) (h : Inv cfg node T w) (hp : p ∈ cfg.outputs) :
    Inv cfg node T (w.remove node p dep) := by
  constructor
  · intro i f hf
    simp only [Work.remove] at hf
    by_cases hi : i = node p
    · rw [hi, Function.update_self] at hf
      cases hf
    · rw [Function.update_of_ne hi] at hf
      exact h.time i f hf
  · intro q hq f hf
    simp only [Work.remove] at hf
    by_cases hqp : q = p
    · rw [hqp, Function.update_self] at hf
      cases hf
    · rw [Function.update_of_ne (outputs_ne hs hq hp hqp)] at hf
      exact OutOk.update hs hqp nofun (h.outs q hq f hf)

theorem done_write (hs : Setting cfg node T) (hself : node p ∉ T.reads c (contents w.files)) :
    Done node T (w.write node T p c dep) p c := by
  refine ⟨_, Function.update_self _ _ _, (result_eq hs.det fun i hi => ?_).symm⟩
  exact Function.update_of_ne (ne_of_mem_of_not_mem hi hself) _ _

/-! ## Compiling -/

/-- One compile, whatever its outcome. -/
theorem runCompile_inv (hs : Setting cfg node T) {t : Task} (ht : t ∈ cfg.tasks flags) (h : Inv cfg node T w)
    (outcome : Outcome) : Inv cfg node T (w.runCompile node T t outcome).1 ∧
      (w.runCompile node T t outcome).1.saved = w.saved ∧
      ∀ i, node t.obj ≠ i → (w.runCompile node T t outcome).1.files i = w.files i := by
  cases outcome with
  | untouched => exact ⟨h, rfl, fun _ _ => rfl⟩
  | removed dep =>
    exact ⟨inv_remove hs h (task_mem_outputs ht), rfl, fun i hi => Function.update_of_ne (Ne.symm hi) _ _⟩
  | ok =>
    have hcmd : (t.obj, t.cmd) ∈ cfg.commands flags := mem_commands.2 (.inl ⟨t, ht, rfl, rfl⟩)
    have hself := @obj_notMem_reads _ _ _ _ _ hs flags t ht (contents w.files) _ (task_mem_outputs ht)
    have hl : listed cfg node (Function.update w.deps t.obj (some (T.depText t.cmd (contents w.files)))) t.obj =
        some ((depTokens (T.depText t.cmd (contents w.files))).map (place cfg node)) := by
      rw [listed_obj ht, Function.update_self]
      rfl
    refine ⟨inv_write hs h hcmd hl ?_ hself, rfl, fun i hi => Function.update_of_ne (Ne.symm hi) _ _⟩
    intro i hi
    obtain ⟨token, htok, rfl⟩ := hs.lists flags t ht _ i hi
    exact List.mem_map.2 ⟨token, htok, rfl⟩

/-- **The compiles** of a build, whatever their outcomes. -/
theorem compileObjects_inv (hs : Setting cfg node T) {outcome : Path → Outcome} {ts : List Task} {w w' : Work ι γ}
    {ok : Bool} (hts : ∀ t ∈ ts, t ∈ cfg.tasks flags) (h : Inv cfg node T w)
    (hc : compileObjects node T outcome ts w = (w', ok)) :
    Inv cfg node T w' ∧ w'.saved = w.saved ∧ ∀ i, (∀ t ∈ ts, node t.obj ≠ i) → w'.files i = w.files i := by
  induction ts generalizing w w' ok with
  | nil =>
    cases hc
    exact ⟨h, rfl, fun _ _ => rfl⟩
  | cons t ts ih =>
    simp only [compileObjects, Prod.mk.injEq] at hc
    obtain ⟨rfl, -⟩ := hc
    obtain ⟨hinv, hsaved, hframe⟩ := runCompile_inv hs (hts t List.mem_cons_self) h (outcome t.obj)
    obtain ⟨hinv', hsaved', hframe'⟩ := ih (fun u hu => hts u (List.mem_cons_of_mem _ hu)) hinv rfl
    refine ⟨hinv', hsaved'.trans hsaved, fun i hi => ?_⟩
    rw [hframe' i fun u hu => hi u (List.mem_cons_of_mem _ hu)]
    exact hframe i (hi t List.mem_cons_self)

theorem runCompile_done (hs : Setting cfg node T) {t : Task} (ht : t ∈ cfg.tasks flags) {outcome : Outcome}
    (hok : (w.runCompile node T t outcome).2 = true) : Done node T (w.runCompile node T t outcome).1 t.obj t.cmd := by
  cases outcome with
  | untouched => cases hok
  | removed dep => cases hok
  | ok => exact done_write hs (obj_notMem_reads hs ht (task_mem_outputs ht))

theorem compileObjects_done (hs : Setting cfg node T) {outcome : Path → Outcome} {ts : List Task} {w w' : Work ι γ}
    (hts : ∀ t ∈ ts, t ∈ cfg.tasks flags) (hn : (ts.map Task.obj).Nodup) (h : Inv cfg node T w)
    (hc : compileObjects node T outcome ts w = (w', true)) : ∀ t ∈ ts, Done node T w' t.obj t.cmd := by
  induction ts generalizing w w' with
  | nil => nofun
  | cons t ts ih =>
    simp only [compileObjects, Prod.mk.injEq, Bool.and_eq_true] at hc
    obtain ⟨rfl, hok, hoks⟩ := hc
    have ht := hts t List.mem_cons_self
    have hrest : ∀ u ∈ ts, u ∈ cfg.tasks flags := fun u hu => hts u (List.mem_cons_of_mem _ hu)
    rw [List.map_cons, List.nodup_cons] at hn
    obtain ⟨hinv, -, -⟩ := runCompile_inv hs ht h (outcome t.obj)
    obtain ⟨-, -, hframe⟩ := @compileObjects_inv _ _ _ _ _ _ _ hs outcome ts _ _ _ hrest hinv rfl
    intro u hu
    rcases List.mem_cons.1 hu with rfl | hu
    · -- the rest neither writes this object nor anything it was made from
      refine (runCompile_done hs ht hok).congr hs (hframe _ fun v hv => ?_) fun i hi => hframe i fun v hv heq => ?_
      · refine outputs_ne hs (task_mem_outputs (hrest v hv)) (task_mem_outputs ht) fun heq => ?_
        exact hn.1 (List.mem_map.2 ⟨v, hv, heq⟩)
      · exact obj_notMem_reads hs ht (task_mem_outputs (hrest v hv)) (heq ▸ hi)
    · exact ih hrest hn.2 hinv (Prod.ext rfl hoks) u hu

/-! ## What is not compiled again -/

/-- The record names the command that wrote the object, wherever it names the current one. -/
def recordTrue (cfg : Config) (node : Path → ι) (w : Work ι γ) (flags : List String) : Bool :=
  (cfg.tasks flags).all fun t => (w.files (node t.obj)).all fun f =>
    (w.loadState cfg).objects.get t.obj ≠ some t.cmd || f.writer = some t.cmd

/-- No token of a `.d` file is taken for another file that is there. -/
def tokensFound (cfg : Config) (node : Path → ι) (w : Work ι γ) (flags : List String) : Bool :=
  (cfg.tasks flags).all fun t => (w.deps t.obj).all fun text => (depTokens text).all fun token =>
    (w.files (locate cfg node w.files token)).isNone || locate cfg node w.files token = place cfg node token

/-- **An object that is up to date by the code's test** is what its command gives. -/
theorem done_of_not_rebuilt (h : Inv cfg node T w) (hrec : recordTrue cfg node w flags = true)
    (htok : tokensFound cfg node w flags = true) {t : Task} (ht : t ∈ cfg.tasks flags)
    (hno : w.needsRebuildObj cfg node (w.loadState cfg) t = false) : Done node T w t.obj t.cmd := by
  simp only [Work.needsRebuildObj, Bool.or_eq_false_iff] at hno
  obtain ⟨-, hno⟩ := hno
  split at hno
  · cases hno
  · rename_i f hf
    simp only [Bool.or_eq_false_iff, decide_eq_false_iff_not, ne_eq, not_not] at hno
    obtain ⟨⟨-, hdeps⟩, hcmd⟩ := hno
    obtain ⟨_, _, _, _, is, hl, -⟩ := h.outs _ (task_mem_outputs ht) f hf
    have hw : f.writer = some t.cmd := by
      have hf' := List.all_eq_true.1 hrec t ht
      rw [hf, Option.all_some, hcmd] at hf'
      simpa using hf'
    rw [listed_obj ht, Option.map_eq_some_iff] at hl
    obtain ⟨text, htext, -⟩ := hl
    have hl : listed cfg node w.deps t.obj = some ((depTokens text).map (place cfg node)) := by
      rw [listed_obj ht, htext]
      rfl
    refine done_of_settled h (task_mem_outputs ht) hf hw hl fun i hi => ?_
    obtain ⟨token, htoken, rfl⟩ := List.mem_map.1 hi
    rw [htext] at hdeps
    simp only [Bool.or_eq_false_iff, List.any_eq_false, Bool.not_eq_true] at hdeps
    obtain ⟨g, hg, hle⟩ := newer_eq_false.1 (hdeps.2 token htoken)
    have hfound := List.all_eq_true.1 htok t ht
    rw [htext, Option.all_some] at hfound
    have hfound := List.all_eq_true.1 hfound token htoken
    rw [hg] at hfound
    simp only [Option.isNone_some, Bool.false_or, decide_eq_true_eq] at hfound
    exact ⟨g, hfound ▸ hg, hle⟩

/-! ## Linking -/

section
variable {key : LinkKey} {inputs : List Path} {state : BuildState} {r : Option BuildState} {outcome : Path → Outcome}

/-- **One link**, needed or not. -/
theorem linkOne_spec (hs : Setting cfg node T) (h : Inv cfg node T w) (hp : (p, c) ∈ cfg.commands flags)
    (hl : ∀ deps, listed cfg node deps p = some (inputs.map node))
    (hreads : ∀ d, T.reads c d ⊆ inputs.map node) (hself : ∀ d, node p ∉ T.reads c d)
    (hwriter : state.links.get key = some c → ∀ f, w.files (node p) = some f → f.writer = some c)
    (hlink : linkOne cfg node T outcome key p c inputs w state = (w', r)) :
    Inv cfg node T w' ∧ w'.saved = w.saved ∧ (∀ i, node p ≠ i → w'.files i = w.files i) ∧
      (r = none → w'.files (node p) = w.files (node p) ∨ w'.files (node p) = none) ∧
      ∀ state', r = some state' → state' = markLinkState state key c ∧ Done node T w' p c ∧
        ∀ f, w'.files (node p) = some f → f.writer = some c := by
  unfold linkOne at hlink
  split at hlink
  · cases hout : outcome p with
    | untouched =>
      rw [hout] at hlink
      cases hlink
      exact ⟨h, rfl, fun _ _ => rfl, fun _ => .inl rfl, nofun⟩
    | removed dep =>
      rw [hout] at hlink
      cases hlink
      exact ⟨inv_remove hs h (mem_outputs hp), rfl, fun i hi => Function.update_of_ne (Ne.symm hi) _ _,
        fun _ => .inr (Function.update_self _ _ _), nofun⟩
    | ok =>
      rw [hout] at hlink
      cases hlink
      refine ⟨inv_write hs h hp (hl _) (hreads _) (hself _), rfl, fun i hi => Function.update_of_ne (Ne.symm hi) _ _,
        nofun, ?_⟩
      intro state' hst
      cases hst
      refine ⟨rfl, done_write hs (hself _), fun f hf => ?_⟩
      have hnew : (w.write node T p c (w.deps p)).files (node p) = some _ := Function.update_self _ _ _
      rw [hnew] at hf
      cases hf
      rfl
  · rename_i hno
    cases hlink
    refine ⟨h, rfl, fun _ _ => rfl, nofun, ?_⟩
    intro state' hst
    cases hst
    simp only [Work.needsRelink, Bool.or_eq_true, not_or, Bool.not_eq_true] at hno
    obtain ⟨-, hno⟩ := hno
    split at hno
    · cases hno
    · rename_i f hf
      simp only [Bool.or_eq_false_iff, decide_eq_false_iff_not, ne_eq, not_not, List.any_eq_false,
        Bool.not_eq_true] at hno
      have hw := hwriter hno.2
      refine ⟨rfl, done_of_settled h (mem_outputs hp) hf (hw f hf) (hl _) fun i hi => ?_, hw⟩
      obtain ⟨q, hq, rfl⟩ := List.mem_map.1 hi
      exact newer_eq_false.1 (hno.1 q hq)

end

/-- **The links of the libraries**. -/
theorem linkLibraries_spec (hs : Setting cfg node T) {outcome : Path → Outcome} {ls : List (String × List Path)}
    {state : BuildState} {r : Option BuildState} {w w' : Work ι γ} (hls : ∀ l ∈ ls, l ∈ cfg.libs)
    (hn : (ls.map Prod.fst).Nodup) (h : Inv cfg node T w)
    (hlink : linkLibraries cfg node T outcome ls w state = (w', r)) :
    Inv cfg node T w' ∧ w'.saved = w.saved ∧ (∀ i, (∀ l ∈ ls, node (cfg.soPath l.1) ≠ i) → w'.files i = w.files i) ∧
      ∀ state', r = some state' → state'.links.get .app = state.links.get .app ∧
        ∀ l ∈ ls, Done node T w' (cfg.soPath l.1) (cfg.libCmd l) := by
  induction ls generalizing w w' state with
  | nil =>
    cases hlink
    exact ⟨h, rfl, fun _ _ => rfl, fun state' hst => by cases hst; exact ⟨rfl, nofun⟩⟩
  | cons l ls ih =>
    have hl := hls l List.mem_cons_self
    have hrest : ∀ m ∈ ls, m ∈ cfg.libs := fun m hm => hls m (List.mem_cons_of_mem _ hm)
    rw [List.map_cons, List.nodup_cons] at hn
    simp only [linkLibraries] at hlink
    cases hone : linkOne cfg node T outcome (.lib l.1) (cfg.soPath l.1) (cfg.libCmd l) (cfg.libObjs l) w state with
    | mk w₁ r₁ =>
      have hself := fun d => @so_notMem_reads _ _ _ _ _ hs l hl d _ (so_mem_outputs hl) so_notMem_libObjs
      obtain ⟨hinv, hsaved, hframe, -, hsome⟩ := linkOne_spec hs h
        (mem_commands.2 (.inr (.inl ⟨l, hl, rfl, rfl⟩)) : (_, _) ∈ cfg.commands []) (fun _ => listed_so hs hl)
        (hs.libReads l hl) hself (fun _ f hf => writer_of_so hs h hl hf) hone
      rw [hone] at hlink
      cases r₁ with
      | none =>
        cases hlink
        refine ⟨hinv, hsaved, fun i hi => hframe i (hi l List.mem_cons_self), nofun⟩
      | some state₁ =>
        obtain ⟨rfl, hdone, -⟩ := hsome state₁ rfl
        obtain ⟨hinv', hsaved', hframe', hsome'⟩ := ih hrest hn.2 hinv hlink
        refine ⟨hinv', hsaved'.trans hsaved, fun i hi => ?_, fun state' hst => ?_⟩
        · rw [hframe' i fun m hm => hi m (List.mem_cons_of_mem _ hm)]
          exact hframe i (hi l List.mem_cons_self)
        · obtain ⟨happ, hall⟩ := hsome' state' hst
          refine ⟨?_, fun m hm => ?_⟩
          · rw [happ]
            simp [markLinkState]
          · rcases List.mem_cons.1 hm with rfl | hm
            · -- the other libraries are neither this one nor its objects
              refine hdone.congr hs (hframe' _ fun m' hm' => ?_) fun i hi => hframe' i fun m' hm' heq => ?_
              · refine outputs_ne hs (so_mem_outputs (hrest m' hm')) (so_mem_outputs hl) fun heq => ?_
                exact hn.1 (List.mem_map.2 ⟨m', hm', soPath_inj heq⟩)
              · exact so_notMem_reads hs hl (so_mem_outputs (hrest m' hm')) so_notMem_libObjs (heq ▸ hi)
            · exact hall m hm

/-! ## A build -/

theorem foldl_markObjState (ts : List Task) (state : BuildState) :
    (ts.foldl markObjState state).links = state.links := by
  induction ts generalizing state with
  | nil => rfl
  | cons t ts ih =>
    rw [List.foldl_cons, ih]
    rfl

/-- After the compiles every object is what its command gives. -/
theorem objects_done (hs : Setting cfg node T) {finish : Path → Nat} {outcome : Path → Outcome} (h : Inv cfg node T w)
    (hrec : recordTrue cfg node w flags = true) (htok : tokensFound cfg node w flags = true)
    (hc : compileObjects node T outcome (pending cfg node w flags finish) w = (w', true)) :
    ∀ t ∈ cfg.tasks flags, Done node T w' t.obj t.cmd := by
  have hpend : ∀ t ∈ pending cfg node w flags finish, t ∈ cfg.tasks flags := fun t ht => (mem_pending.1 ht).1
  obtain ⟨-, -, hframe⟩ := compileObjects_inv hs hpend h hc
  intro t ht
  by_cases hneed : w.needsRebuildObj cfg node (w.loadState cfg) t = true
  · exact compileObjects_done hs hpend (nodup_pending hs) h hc t (mem_pending.2 ⟨ht, hneed⟩)
  · have hdone := done_of_not_rebuilt h hrec htok ht (Bool.eq_false_iff.2 hneed)
    refine hdone.congr hs (hframe _ fun u hu => ?_) fun i hi => hframe i fun u hu heq => ?_
    · refine outputs_ne hs (task_mem_outputs (hpend u hu)) (task_mem_outputs ht) fun heq => hneed ?_
      rw [← task_unique hs (hpend u hu) ht heq]
      exact (mem_pending.1 hu).2
    · exact obj_notMem_reads hs ht (task_mem_outputs (hpend u hu)) (heq ▸ hi)

/-- **One build** keeps the invariant; one that returns `None` leaves what a clean build would. -/
theorem build_spec (hs : Setting cfg node T) {finish : Path → Nat} {outcome : Path → Outcome} {ok : Bool}
    (h : Inv cfg node T w) (happ : AppSaved cfg node w) (hb : build cfg node T w flags finish outcome = (w', ok)) :
    Inv cfg node T w' ∧ AppSaved cfg node w' ∧
      (recordTrue cfg node w flags = true → tokensFound cfg node w flags = true → ok = true →
        Built cfg node T w' flags) := by
  have hpend : ∀ t ∈ pending cfg node w flags finish, t ∈ cfg.tasks flags := fun t ht => (mem_pending.1 ht).1
  unfold build at hb
  cases hc : compileObjects node T outcome (pending cfg node w flags finish) w with
  | mk compiled okc =>
    obtain ⟨hinv₁, hsaved₁, hframe₁⟩ := compileObjects_inv hs hpend h hc
    have happ₁ : AppSaved cfg node compiled := by
      intro f hf
      rw [hframe₁ _ fun t ht => ?_] at hf
      · rw [hsaved₁]
        exact happ f hf
      · obtain ⟨n, hn⟩ := obj_name (hpend t ht)
        exact outputs_ne hs (task_mem_outputs (hpend t ht)) appOut_mem_outputs (hn ▸ objPath_ne_appOut)
    rw [hc] at hb
    cases okc with
    | false =>
      cases hb
      exact ⟨hinv₁, happ₁, nofun⟩
    | true =>
      dsimp only at hb
      cases hl : linkLibraries cfg node T outcome cfg.libs compiled
          ((cfg.tasks flags).foldl markObjState (w.loadState cfg)) with
      | mk linked rl =>
        obtain ⟨hinv₂, hsaved₂, hframe₂, hsome₂⟩ := linkLibraries_spec hs (fun _ hl => hl) hs.libs hinv₁ hl
        have happ₂ : AppSaved cfg node linked := by
          intro f hf
          rw [hframe₂ _ fun l hl => outputs_ne hs (so_mem_outputs hl) appOut_mem_outputs soPath_ne_appOut] at hf
          rw [hsaved₂]
          exact happ₁ f hf
        rw [hl] at hb
        cases rl with
        | none =>
          cases hb
          exact ⟨hinv₂, happ₂, nofun⟩
        | some state =>
          dsimp only at hb
          obtain ⟨hstate, hlibs⟩ := hsome₂ state rfl
          cases ha : linkOne cfg node T outcome .app cfg.appOut (cfg.appCmd flags) cfg.appInputs linked state with
          | mk done ra =>
            have hwriter : state.links.get .app = some (cfg.appCmd flags) →
                ∀ f, linked.files (node cfg.appOut) = some f → f.writer = some (cfg.appCmd flags) := by
              intro hget f hf
              rw [hstate, foldl_markObjState] at hget
              rw [happ₂ f hf, hsaved₂, hsaved₁, ← hget]
              unfold Work.loadState at hget ⊢
              split at hget
              · cases hget
              · rename_i hforce
                rw [if_neg hforce]
            obtain ⟨hinv₃, hsaved₃, hframe₃, hnone₃, hsome₃⟩ := linkOne_spec hs hinv₂
              (mem_commands.2 (.inr (.inr ⟨rfl, rfl⟩)) : (_, _) ∈ cfg.commands flags) (fun _ => listed_app)
              (hs.appReads flags) (fun _ => app_notMem_reads hs) hwriter ha
            rw [ha] at hb
            cases ra with
            | none =>
              cases hb
              refine ⟨hinv₃, fun f hf => ?_, nofun⟩
              rcases hnone₃ rfl with hsame | hgone
              · rw [hsame] at hf
                rw [hsaved₃]
                exact happ₂ f hf
              · rw [hgone] at hf
                cases hf
            | some state' =>
              obtain ⟨rfl, hdone, hw⟩ := hsome₃ state' rfl
              cases hb
              refine ⟨⟨hinv₃.time, hinv₃.outs⟩, fun f hf => ?_, fun hrec htok _ p c hpc => ?_⟩
              · rw [hw f hf]
                simp [markLinkState]
              · -- the executable is written last, the libraries before it, the objects first
                have hobjs := objects_done hs h hrec htok hc
                rcases mem_commands.1 hpc with ⟨t, ht, rfl, rfl⟩ | ⟨l, hl', rfl, rfl⟩ | ⟨rfl, rfl⟩
                · obtain ⟨n, hn⟩ := obj_name ht
                  have hself := fun d {q : Path} (hq : q ∈ cfg.outputs) =>
                    @obj_notMem_reads _ _ _ _ _ hs flags t ht d q hq
                  have hlinked : Done node T linked t.obj t.cmd := by
                    refine (hobjs t ht).congr hs (hframe₂ _ fun l hl => ?_) fun i hi => hframe₂ i fun l hl heq => ?_
                    · exact outputs_ne hs (so_mem_outputs hl) (task_mem_outputs ht) (hn ▸ Ne.symm objPath_ne_soPath)
                    · exact hself _ (so_mem_outputs hl) (heq ▸ hi)
                  refine hlinked.congr hs (hframe₃ _ ?_) fun i hi => hframe₃ i fun heq => ?_
                  · exact outputs_ne hs appOut_mem_outputs (task_mem_outputs ht) (hn ▸ Ne.symm objPath_ne_appOut)
                  · exact hself _ appOut_mem_outputs (heq ▸ hi)
                · refine (hlibs l hl').congr hs (hframe₃ _ ?_) fun i hi => hframe₃ i fun heq => ?_
                  · exact outputs_ne hs appOut_mem_outputs (so_mem_outputs hl') (Ne.symm soPath_ne_appOut)
                  · refine so_notMem_reads hs hl' appOut_mem_outputs (fun hmem => ?_) (heq ▸ hi)
                    obtain ⟨n, hn⟩ := libObj_name hmem
                    exact objPath_ne_appOut hn.symm
                · exact hdone

end

/-! ## Runs -/

inductive BuildAct (ι γ : Type) where
  /-- A source or a header is written, later than all files there are. -/
  | edit (i : ι) (content : γ)
  | setCompileOptions (optimize traceMode : Bool)
  | build (extraIncludes : List String) (finish : Path → Nat) (outcome : Path → Outcome)

structure Sys (ι γ : Type) where
  work : Work ι γ
  extraCxxflags : List String := []
  /-- The flags of the build that has just returned `None`. -/
  built : Option (List String) := none

def Work.edit [DecidableEq ι] (w : Work ι γ) (i : ι) (content : γ) : Work ι γ :=
  { w with files := Function.update w.files i (some ⟨w.now + 1, content, none⟩), now := w.now + 1 }

namespace Sys

def start : Sys ι γ := { work := { files := fun _ => none } }

variable [DecidableEq ι] (cfg : Config) (node : Path → ι) (T : Toolchain ι γ)

def step (s : Sys ι γ) : BuildAct ι γ → Option (Sys ι γ)
  | .edit i content =>
    if cfg.outputs.any fun p => node p = i then none
    else some { s with work := s.work.edit i content, built := none }
  | .setCompileOptions optimize traceMode =>
    let extraCxxflags := (if optimize then ["-O3", "-flto"] else []) ++ if traceMode then ["-DTRACE"] else []
    some { s with extraCxxflags, built := none }
  | .build extraIncludes finish outcome =>
    let flags := cfg.cxxflags s.extraCxxflags extraIncludes
    let (work, ok) := build cfg node T s.work flags finish outcome
    some { s with work, built := if ok then some flags else none }

/-- What a build relies on. -/
def stepOk (s : Sys ι γ) : BuildAct ι γ → Bool
  | .build extraIncludes _ _ =>
    let flags := cfg.cxxflags s.extraCxxflags extraIncludes
    recordTrue cfg node s.work flags && tokensFound cfg node s.work flags
  | _ => true

structure Good (s : Sys ι γ) : Prop where
  inv : Inv cfg node T s.work
  app : AppSaved cfg node s.work
  built : ∀ flags, s.built = some flags → Built cfg node T s.work flags

end Sys

theorem good_start : Sys.Good cfg node T Sys.start := by
  refine ⟨⟨?_, ?_⟩, ?_, nofun⟩
  · intro i f hf
    cases hf
  · intro p _ f hf
    cases hf
  · intro f hf
    cases hf

variable [DecidableEq ι]

/-- An edit keeps what is sound. -/
theorem inv_edit (hs : Setting cfg node T) {w : Work ι γ} {i : ι} {content : γ} (h : Inv cfg node T w)
    (hi : ∀ p ∈ cfg.outputs, node p ≠ i) : Inv cfg node T (w.edit i content) := by
  constructor
  · intro j f hf
    show f.mtime ≤ w.now + 1
    simp only [Work.edit] at hf
    by_cases hj : j = i
    · rw [hj, Function.update_self] at hf
      cases hf
      exact Nat.le_refl _
    · rw [Function.update_of_ne hj] at hf
      have := h.time j f hf
      omega
  · intro p hp f hf
    simp only [Work.edit] at hf
    rw [Function.update_of_ne (hi p hp)] at hf
    obtain ⟨flags, c, hc, hw, is, hl, hsound⟩ := h.outs p hp f hf
    refine ⟨flags, c, hc, hw, is, hl, hsound.update hs.det fun g hg => ?_⟩
    cases hg
    have := h.time _ f hf
    show f.mtime < w.now + 1
    omega

theorem good_step (hs : Setting cfg node T) {s s' : Sys ι γ} {a : BuildAct ι γ} (h : s.Good cfg node T)
    (hok : s.stepOk cfg node a = true) (hstep : s.step cfg node T a = some s') : s'.Good cfg node T := by
  cases a with
  | edit i content =>
    simp only [Sys.step, Option.ite_none_left_eq_some, Option.some.injEq] at hstep
    obtain ⟨hi, rfl⟩ := hstep
    have hne : ∀ p ∈ cfg.outputs, node p ≠ i := by
      intro p hp heq
      exact hi (List.any_eq_true.2 ⟨p, hp, by simpa using heq⟩)
    refine ⟨inv_edit hs h.inv hne, fun f hf => ?_, nofun⟩
    simp only [Work.edit] at hf
    rw [Function.update_of_ne (hne _ appOut_mem_outputs)] at hf
    exact h.app f hf
  | setCompileOptions optimize traceMode =>
    cases hstep
    exact ⟨h.inv, h.app, nofun⟩
  | build extraIncludes finish outcome =>
    simp only [Sys.stepOk, Bool.and_eq_true] at hok
    simp only [Sys.step, Option.some.injEq] at hstep
    cases hb : build cfg node T s.work (cfg.cxxflags s.extraCxxflags extraIncludes) finish outcome with
    | mk work ok =>
      rw [hb] at hstep
      subst hstep
      obtain ⟨hinv, happ, hbuilt⟩ := build_spec hs h.inv h.app hb
      refine ⟨hinv, happ, fun flags hflags => ?_⟩
      simp only [Option.ite_none_right_eq_some, Option.some.injEq] at hflags
      obtain ⟨hret, rfl⟩ := hflags
      exact hbuilt hok.1 hok.2 hret

/-- **An incremental build is a clean one**: in every run of edits, changes of options and builds of any outcome
whose builds all find a true record, each build that returns `None` leaves every object, library and executable as
its current command would produce it from the files as they are. -/
theorem incremental_build_clean (cfg : Config) (node : Path → ι) (T : Toolchain ι γ) (hs : Setting cfg node T)
    (acts : List (BuildAct ι γ)) (s : Sys ι γ)
    (hok : Trace.Meets (Sys.step cfg node T) (fun s a => s.stepOk cfg node a = true) Sys.start acts)
    (hrun : Trace.exec (Sys.step cfg node T) Sys.start acts = some s) (flags : List String)
    (hbuilt : s.built = some flags) : Built cfg node T s.work flags := by
  have hgood := Trace.exec_invariant (I := Sys.Good cfg node T) (fun _ _ _ h hok hs' => good_step hs h hok hs')
    good_start hok hrun
  exact hgood.built flags hbuilt

/-! ## One source -/

/-- An executable of one source. -/
def oneSource : Config := { workdir := ["w"], cwd := ["w"], libs := [], mainSrc := ["w", "db.cpp"] }

def links (c : Cmd) : Bool := c.getLast? = some "-Wl,-rpath,$ORIGIN/build"

/-- A compile reads the source, a link the object; with `-DTRACE` the output is another. -/
def plainTool : Toolchain Path Nat where
  reads c _ := if links c then oneSource.appInputs else [oneSource.mainSrc]
  result c d := (if "-DTRACE" ∈ c then 1 else 0) +
    ((if links c then oneSource.appInputs else [oneSource.mainSrc]).map fun i => 10 * (d i).getD 0).sum
  depText _ _ := "build/obj/app_db.o: db.cpp"

theorem not_links_of_task {flags : List String} {t : Task} (ht : t ∈ oneSource.tasks flags) : links t.cmd = false := by
  have hobj : oneSource.relpath (oneSource.objPath ("app" ++ "_" ++ stem ["w", "db.cpp"])) = "build/obj/app_db.o" := by
    decide +kernel
  have hmain : t = oneSource.mainTask flags := by
    simpa [Config.tasks, Config.appTasks, oneSource] using ht
  subst hmain
  unfold links
  rw [decide_eq_false_iff_not]
  show ¬ (_ ++ ["-MMD", "-MP", "-MF", _, "-c", _, "-o", oneSource.relpath _]).getLast? = _
  rw [List.getLast?_append]
  simp only [List.getLast?_cons_cons, List.getLast?_singleton, Option.some_or, Option.some.injEq]
  show ¬ oneSource.relpath (oneSource.objPath ("app" ++ "_" ++ stem ["w", "db.cpp"])) = _
  rw [hobj]
  decide

theorem links_appCmd (flags : List String) : links (oneSource.appCmd flags) = true := by
  unfold links Config.appCmd
  rw [List.getLast?_append]
  rfl

theorem setting_oneSource : Setting oneSource id plainTool where
  det := by
    constructor
    · intro c d d' _
      rfl
    · intro c d d' h
      simp only [plainTool] at h ⊢
      congr 2
      exact List.map_congr_left fun i hi => by rw [h i hi]
  names := by decide +kernel
  libs := List.nodup_nil
  outputs := fun _ _ _ _ h => h
  lists := by
    intro flags t ht d i hi
    simp only [plainTool, not_links_of_task ht, Bool.false_eq_true, if_false, List.mem_singleton] at hi
    subst hi
    have htok : (false, ["db.cpp"]) ∈ depTokens "build/obj/app_db.o: db.cpp" := by decide +kernel
    exact ⟨_, htok, rfl⟩
  sources := by
    intro flags t ht d i hi p hp heq
    simp only [plainTool, not_links_of_task ht, Bool.false_eq_true, if_false, List.mem_singleton] at hi
    subst hi
    have hno : oneSource.mainSrc ∉ oneSource.outputs := by decide +kernel
    exact hno (heq ▸ hp)
  libReads := by
    intro p hp
    cases hp
  appReads := by
    intro flags d
    simp only [plainTool, links_appCmd, if_true, List.map_id]
    exact List.Subset.refl _

def allOk : BuildAct Path Nat := .build [] (fun _ => 0) fun _ => .ok

theorem incremental_build_clean_once : ∃ s flags,
    Trace.exec (Sys.step oneSource id plainTool) Sys.start
      [.edit oneSource.mainSrc 7, .setCompileOptions false false, allOk] = some s ∧
    s.built = some flags ∧ Built oneSource id plainTool s.work flags := by
  have hbuilt : ((Trace.exec (Sys.step oneSource id plainTool) Sys.start
      [.edit oneSource.mainSrc 7, .setCompileOptions false false, allOk]).bind Sys.built) =
      some (oneSource.cxxflags [] []) := by decide +kernel
  obtain ⟨s, hs, hflags⟩ := Option.bind_eq_some_iff.1 hbuilt
  exact ⟨s, _, hs, hflags, incremental_build_clean oneSource id plainTool setting_oneSource _ s
    (Trace.meets_of_check (by decide +kernel)) hs _ hflags⟩

/-- A build in trace mode whose link fails, between two builds without. -/
def runTrace : List (BuildAct Path Nat) :=
  [.edit oneSource.mainSrc 7, .setCompileOptions false false, allOk, .setCompileOptions false true,
    .build [] (fun _ => 0) fun p => if p = oneSource.appOut then .untouched else .ok, .setCompileOptions false false, allOk]

/-- The last build returns `None` and keeps the object that was compiled with `-DTRACE`. -/
theorem stale_object : ∃ s flags, Trace.exec (Sys.step oneSource id plainTool) Sys.start runTrace = some s ∧
    s.built = some flags ∧ ¬ Built oneSource id plainTool s.work flags := by
  have hbuilt : ((Trace.exec (Sys.step oneSource id plainTool) Sys.start runTrace).bind Sys.built) =
      some (oneSource.cxxflags [] []) := by decide +kernel
  have hstale : (Trace.exec (Sys.step oneSource id plainTool) Sys.start runTrace).any (fun s =>
      (s.work.files oneSource.mainObj).all fun f =>
        f.content ≠ plainTool.result (oneSource.mainTask (oneSource.cxxflags [] [])).cmd (contents s.work.files)) = true := by
    decide +kernel
  obtain ⟨s, hs, hflags⟩ := Option.bind_eq_some_iff.1 hbuilt
  rw [hs, Option.any_some] at hstale
  refine ⟨s, _, hs, hflags, fun h => ?_⟩
  obtain ⟨f, hf, hres⟩ := h oneSource.mainObj (oneSource.mainTask (oneSource.cxxflags [] [])).cmd
    (mem_commands.2 (.inl ⟨oneSource.mainTask _, List.mem_append_right _ List.mem_cons_self, rfl, rfl⟩))
  have hf : s.work.files oneSource.mainObj = some f := hf
  rw [hf, Option.all_some, decide_eq_true_eq] at hstale
  exact hstale hres

end SynnoDB.Cpp
