import Mathlib
import SynnoDB.Compat.EngineLife
import SynnoDB.Lib.Since

/-!
# What a registration publishes (`router/manifest.py:352-389`, `duckdb_compat/discovery.py:279-435`)

`register_manifest` builds and publishes one binding after another: an exception half way leaves what came before it.
Both callers then close the engine, although these bindings refer to it (`closed_engine_bound`). Each published
binding lifts the marks of its tables for every engine that reads them (`mark_lifted`), while the data of the others
is as old as before.
-/

namespace SynnoDB.Compat

open SynnoDB.Router History

variable {ρ : Type}

/-! ## The bindings that are published -/

/-- The bindings made before the first query that fails. -/
def madeBindings (sql : Sql ρ) (tables : Tables ρ) (engineId : String) (engine : Nat) :
    List QueryTemplate → List EngineBinding
  | [] => []
  | q :: qs => match makeBinding sql tables engineId q engine with
    | .error _ => []
    | .ok b => b :: madeBindings sql tables engineId engine qs

/-- What `register_manifest` publishes, whether or not it ends without an exception. -/
def published (sql : Sql ρ) (tables : Tables ρ) (m : EngineManifest ρ) (engine : Nat) : List EngineBinding :=
  if m.expectedTables ≠ [] ∧ checkCompatibility tables m ≠ [] then []
  else madeBindings sql tables m.engineId engine m.queries

/-- `registry.register(binding)` and `registry.clear_dirty(binding.tables)`. -/
def publish (r : TemplateRegistry) (b : EngineBinding) : TemplateRegistry := (r.register b).clearDirty (some b.tables)

/-- One registry answers as the other does. -/
structure SameRegistry (r r' : TemplateRegistry) : Prop where
  bindings : ∀ k, r'.byNorm.get k = r.byNorm.get k
  dirty : ∀ t, t ∈ r'.dirtyTables ↔ t ∈ r.dirtyTables
  quarantined : ∀ t, t ∈ r'.quarantined ↔ t ∈ r.quarantined

def bindingItems (bs : List EngineBinding) : List (String × EngineBinding) := bs.map fun b => (b.normalizedSql, b)

section
variable {sql : Sql ρ} {tables : Tables ρ} {s s₁ s' : Session ρ} {m : EngineManifest ρ} {name engineId : String}
  {e : Nat}
  {err : Option ScanError} {mount : Bool} {ingest : Ingest} {qs : List QueryTemplate} {r : TemplateRegistry}
  {bs : List EngineBinding} {registered : List Key} {out : Option (List Key)}

theorem registerQueries_publish : (registerQueries sql tables engineId e qs r).1 =
    (madeBindings sql tables engineId e qs).foldl publish r := by
  induction qs generalizing r with
  | nil => rfl
  | cons q qs ih =>
    simp only [registerQueries, madeBindings]
    cases makeBinding sql tables engineId q e with
    | error err => rfl
    | ok b => exact ih

theorem registerManifest_publish :
    (registerManifest sql s m e).1.registry = (published sql s.tables m e).foldl publish s.registry := by
  unfold registerManifest published
  split
  · rfl
  · exact registerQueries_publish

theorem byNorm_publish : (bs.foldl publish r).byNorm = (bindingItems bs).foldl (fun d p => d.set p.1 p.2) r.byNorm := by
  induction bs generalizing r with
  | nil => rfl
  | cons b bs ih => exact ih

theorem mem_dirty_publish {t : String} : t ∈ (bs.foldl publish r).dirtyTables ↔
    t ∈ r.dirtyTables ∧ ∀ b ∈ bs, t ∉ b.tables.map String.toLower := by
  induction bs generalizing r with
  | nil => simp
  | cons b bs ih =>
    rw [List.foldl_cons, ih, List.forall_mem_cons, ← and_assoc]
    refine and_congr_left' ?_
    simp [publish, TemplateRegistry.register, TemplateRegistry.clearDirty]

theorem quarantined_publish : (bs.foldl publish r).quarantined = r.quarantined := by
  induction bs generalizing r with
  | nil => rfl
  | cons b bs ih => exact ih

/-- Publishing changes nothing exactly when all of it is there and no table of it is dirty. -/
theorem same_publish_iff : SameRegistry r (bs.foldl publish r) ↔
    (∀ k b, Dict.get (Dict.ofItems (bindingItems bs)) k = some b → r.byNorm.get k = some b) ∧
      ∀ b ∈ bs, ∀ t ∈ b.tables, t.toLower ∉ r.dirtyTables := by
  have hget : ∀ k, (bs.foldl publish r).byNorm.get k =
      (Dict.get (Dict.ofItems (bindingItems bs)) k).or (r.byNorm.get k) := by
    intro k
    rw [byNorm_publish]
    exact Dict.get_foldl_set_or _ _ _
  constructor
  · intro hsame
    refine ⟨fun k b hb => ?_, fun b hb t ht hdirty => ?_⟩
    · rw [← hsame.bindings k, hget, hb]
      rfl
    · have hkept := (hsame.dirty t.toLower).2 hdirty
      exact (mem_dirty_publish.1 hkept).2 b hb (List.mem_map_of_mem ht)
  · rintro ⟨hbound, hclean⟩
    refine ⟨fun k => ?_, fun t => ?_, fun t => by rw [quarantined_publish]⟩
    · rw [hget]
      cases hb : Dict.get (Dict.ofItems (bindingItems bs)) k with
      | none => rfl
      | some b => exact (hbound k b hb).symm
    · rw [mem_dirty_publish]
      refine and_iff_left_of_imp fun ht b hb hmem => ?_
      obtain ⟨u, hu, rfl⟩ := List.mem_map.1 hmem
      exact hclean b hb u hu ht

/-! ## Marks -/

inductive DirtyAct (ρ : Type) where
  | registerManifest (tables : Tables ρ) (m : EngineManifest ρ) (engine : Nat)
  | markTablesDirty (tables : List String)
  | clearDirty (tables : Option (List String))

/-- The database may change between two calls: each comes with the tables it finds. -/
def dirtyStep (sql : Sql ρ) (r : TemplateRegistry) : DirtyAct ρ → TemplateRegistry
  | .registerManifest tables m e => (registerManifest sql { registry := r, tables } m e).1.registry
  | .markTablesDirty ts => r.markTablesDirty ts
  | .clearDirty ts => r.clearDirty ts

namespace DirtyAct

def Publishes (sql : Sql ρ) (b : EngineBinding) : DirtyAct ρ → Prop
  | .registerManifest tables m e => b ∈ published sql tables m e
  | _ => False

def Marks (t : String) : DirtyAct ρ → Prop
  | .markTablesDirty ts => t.toLower ∈ ts.map String.toLower
  | _ => False

/-- An explicit `clear_dirty` that covers the table. -/
def Clears (t : String) : DirtyAct ρ → Prop
  | .clearDirty none => True
  | .clearDirty (some ts) => t.toLower ∈ ts.map String.toLower
  | _ => False

/-- The table is cleared, or a binding that reads it is registered. -/
def Lifts (sql : Sql ρ) (t : String) (a : DirtyAct ρ) : Prop :=
  a.Clears t ∨ ∃ b, a.Publishes sql b ∧ t.toLower ∈ b.tables.map String.toLower

end DirtyAct

/-- The binding is registered, then a table of it is marked, and since then neither is its template registered again
nor the mark cleared. -/
def Protected (sql : Sql ρ) (acts : List (DirtyAct ρ)) (b : EngineBinding) : Prop :=
  ∃ before a after, acts = before ++ a :: after ∧ (∃ x ∈ before, x.Publishes sql b) ∧
    ∃ t ∈ b.tables, a.Marks t ∧ ∀ x ∈ after, ¬ x.Clears t ∧ ∀ c, x.Publishes sql c → c.templateId ≠ b.templateId

theorem mem_dirtyStep (t : String) (r : TemplateRegistry) (a : DirtyAct ρ) :
    t.toLower ∈ (dirtyStep sql r a).dirtyTables ↔ a.Marks t ∨ t.toLower ∈ r.dirtyTables ∧ ¬ a.Lifts sql t := by
  cases a with
  | registerManifest tables m e =>
    simp only [dirtyStep, DirtyAct.Marks, DirtyAct.Lifts, DirtyAct.Clears, DirtyAct.Publishes, false_or, not_exists,
      not_and]
    rw [registerManifest_publish, mem_dirty_publish]
  | markTablesDirty ts =>
    simp [dirtyStep, TemplateRegistry.markTablesDirty, DirtyAct.Marks, DirtyAct.Lifts, DirtyAct.Clears,
      DirtyAct.Publishes]
  | clearDirty ts =>
    cases ts <;> simp [dirtyStep, TemplateRegistry.clearDirty, DirtyAct.Marks, DirtyAct.Lifts, DirtyAct.Clears,
      DirtyAct.Publishes]

/-- A binding is dirty because of the last act that touched one of its tables. -/
theorem isDirty_run {acts : List (DirtyAct ρ)} {b : EngineBinding} :
    (acts.foldl (dirtyStep sql) {}).isDirty b = true ↔
      ∃ t ∈ b.tables, Since (DirtyAct.Marks t) (DirtyAct.Lifts sql t) acts := by
  simp only [TemplateRegistry.isDirty, List.any_eq_true, decide_eq_true_eq]
  refine exists_congr fun t => and_congr_right fun _ => ?_
  exact foldl_since (P := fun r : TemplateRegistry => t.toLower ∈ r.dirtyTables) (s := {}) (by simp)
    (mem_dirtyStep t) acts

/-- **A binding whose data is older than a change stays dirty until its template is registered again** if and only if
the mark of one of its tables is newer than every registration that reads it, of whatever engine. -/
theorem dirty_until_reingest_iff (sql : Sql ρ) (acts : List (DirtyAct ρ)) (b : EngineBinding) :
    (Protected sql acts b → (acts.foldl (dirtyStep sql) {}).isDirty b = true) ↔
      (Protected sql acts b → ∃ t ∈ b.tables, Since (DirtyAct.Marks t) (DirtyAct.Lifts sql t) acts) := by
  rw [isDirty_run]

/-! ## Engines that are closed -/

/-- No binding refers to a closed engine. -/
def Session.OpenBound (s : Session ρ) : Prop :=
  ∀ k b e, s.registry.byNorm.get k = some b → b.engine = some e → e ∉ s.closed

def Session.engineUnder (s : Session ρ) (k : String) : Option Nat := (s.registry.byNorm.get k).bind EngineBinding.engine

structure Session.Tidy (s : Session ρ) : Prop where
  wf : s.Wf
  closed : ∀ e ∈ s.closed, e < s.engines.length
  openBound : s.OpenBound

theorem accepted_bound (h : registerManifest sql s m e = (s', err)) (hne : accepted sql s.tables m ≠ []) :
    ∃ k b, s'.registry.byNorm.get k = some b ∧ b.engine = some e := by
  obtain ⟨hin, -, -⟩ := registerManifest_spec h
  obtain ⟨q, qs, hq⟩ := List.exists_cons_of_ne_nil hne
  have hbind : bindable sql s.tables m.engineId q = true := by
    have hmem : q ∈ accepted sql s.tables m := by
      rw [hq]
      exact List.mem_cons_self
    unfold accepted at hmem
    split at hmem
    · cases hmem
    · exact List.all_eq_true.1 (List.all_takeWhile) q hmem
  cases hb : makeBinding sql s.tables m.engineId q 0 with
  | error err =>
    rw [bindable, hb] at hbind
    cases hbind
  | ok b =>
    obtain ⟨hn, -⟩ := makeBinding_ok hb
    obtain ⟨b', hget, he⟩ := hin b.normalizedSql (by rw [hq, templates_cons hn]; exact List.mem_cons_self)
    exact ⟨_, b', hget, he⟩

/-- The engine of a registration that failed is closed: nothing may have been published. -/
theorem openBound_closed_iff (hopen : s.OpenBound) (hfresh : ∀ k b, s.registry.byNorm.get k = some b →
    b.engine ≠ some e)
    (h : registerManifest sql s m e = (s', err)) : (s'.closeQuietly e).OpenBound ↔ accepted sql s.tables m = [] := by
  constructor
  · intro hopen'
    by_contra hne
    obtain ⟨k, b, hget, he⟩ := accepted_bound h hne
    exact hopen' k b e hget he List.mem_cons_self
  · intro hnil k b f hget hf hclosed
    obtain ⟨-, hnot, -⟩ := registerManifest_spec h
    obtain ⟨-, -, hcl⟩ := registerManifest_frame h
    have hold : s.registry.byNorm.get k = some b := by
      rw [← hnot k (by rw [hnil]; nofun)]
      exact hget
    rcases List.mem_cons.1 hclosed with rfl | hclosed
    · exact hfresh k b hold hf
    · exact hopen k b f hold hf (hcl ▸ hclosed)

/-- A registration that ends with an engine that is open. -/
theorem openBound_registered (hopen : s.OpenBound) (he : e ∉ s.closed) (h : registerManifest sql s m e = (s', err)) :
    s'.OpenBound := by
  obtain ⟨-, -, hcl⟩ := registerManifest_frame h
  intro k b f hget hf
  rw [hcl]
  rcases registerManifest_get h hget with hold | ⟨hnew, -⟩
  · exact hopen k b f hold hf
  · rw [hnew] at hf
    cases hf
    exact he

/-- What is closed on the way to an engine is older than the engine and newer than the session. -/
theorem bindEngine_closed {res : Except ScanError (Option Nat)} (hcl : ∀ f ∈ s.closed, f < s.engines.length)
    (h : bindEngine sql mount ingest s name m = (s', res)) :
    (∀ f ∈ s'.closed, f < s'.engines.length) ∧ (∀ f ∈ s'.closed, f ∈ s.closed ∨ s.engines.length ≤ f) ∧
      ∀ e, res = .ok (some e) → e ∉ s'.closed := by
  unfold bindEngine at h
  dsimp only at h
  split at h
  · cases ingest with
    | staged =>
      cases h
      refine ⟨fun f hf => ?_, fun f hf => .inl hf, fun e he hmem => ?_⟩
      · have := hcl f hf
        simp only [Session.build, List.length_append, List.length_singleton]
        omega
      · cases he
        exact absurd (hcl _ hmem) (Nat.lt_irrefl _)
    | fails =>
      cases h
      refine ⟨fun f hf => ?_, fun f hf => .inl hf, fun e he => by cases he⟩
      have := hcl f hf
      simp only [Session.build, List.length_append, List.length_singleton]
      omega
    | tooSmall =>
      dsimp only at h
      have hnew : ∀ f ∈ s.engines.length :: s.closed, f < s.engines.length + 1 ∧
        (f ∈ s.closed ∨ s.engines.length ≤ f) := by
        intro f hf
        rcases List.mem_cons.1 hf with rfl | hf
        · exact ⟨Nat.lt_succ_self _, .inr (Nat.le_refl _)⟩
        · exact ⟨Nat.lt_succ_of_lt (hcl f hf), .inl hf⟩
      split at h
      · cases h
        refine ⟨fun f hf => ?_, fun f hf => (hnew f hf).2, fun e he => by cases he⟩
        simp only [Session.closeQuietly, Session.build, List.length_append, List.length_singleton]
        exact (hnew f hf).1
      · obtain ⟨-, hclosed, hlen⟩ := bindParquet_frame h
        simp only [Session.closeQuietly, Session.build, List.length_append, List.length_singleton] at hclosed hlen
        rw [hclosed]
        refine ⟨fun f hf => ?_, fun f hf => (hnew f hf).2, fun e he hmem => ?_⟩
        · have := (hnew f hf).1
          omega
        · subst he
          obtain ⟨hle, -⟩ := bindParquet_ok h
          simp only [Session.closeQuietly, Session.build, List.length_append, List.length_singleton] at hle
          have := (hnew e hmem).1
          omega
  · obtain ⟨-, hclosed, hlen⟩ := bindParquet_frame h
    rw [hclosed]
    refine ⟨fun f hf => ?_, fun f hf => .inl hf, fun e he hmem => ?_⟩
    · have := hcl f hf
      omega
    · subst he
      obtain ⟨hle, -⟩ := bindParquet_ok h
      have := hcl e hmem
      omega

/-! ## One look -/

/-- Every template bound to the engine is one of the package. -/
def Replaces (sql : Sql ρ) (s : Session ρ) (m : EngineManifest ρ) (superseded : Nat) : Prop :=
  ∀ k b, s.registry.byNorm.get k = some b → b.engine = some superseded → k ∈ templates sql m.queries

/-- A registration that fails fails before it publishes, and one that promotes takes every template of the engine that
is closed for it. -/
def LookClean (sql : Sql ρ) (mount : Bool) (ingest : Ingest) (s : Session ρ) (registered : List Key) (name : String)
    (m : EngineManifest ρ) : Prop :=
  if (name, m.engineId) ∈ registered then
    ∀ current, promotable sql s name m = some current → ingest = .staged →
      if registers sql s.tables m then Replaces sql s m current else accepted sql s.tables m = []
  else ∀ s₁ e, bindEngine sql mount ingest s name m = (s₁, .ok (some e)) →
    registers sql s₁.tables m = false → accepted sql s₁.tables m = []

theorem promotable_lt {current : Nat} (h : promotable sql s name m = some current) : current < s.engines.length := by
  unfold promotable at h
  split at h
  · obtain ⟨hcur, -⟩ := Option.filter_eq_some_iff.1 h
    obtain ⟨b, -, hb⟩ := List.exists_of_findSome?_eq_some hcur
    split at hb
    · obtain ⟨-, hany⟩ := Option.filter_eq_some_iff.1 hb
      obtain ⟨eng, heng, -⟩ := (Option.any_eq_true _ _).1 hany
      exact (List.getElem?_eq_some_iff.1 heng).1
    · cases hb
  · cases h

/-- **A promotion** closes the engine that it replaces, or the one it has built. -/
theorem promote_open_iff {ok : Option Bool} (ht : s.Tidy) (h : promoteToShm sql ingest s name m = (s', ok)) :
    (∀ e ∈ s'.closed, e < s'.engines.length) ∧ (s'.OpenBound ↔
      ∀ current, promotable sql s name m = some current → ingest = .staged →
        if registers sql s.tables m then Replaces sql s m current else accepted sql s.tables m = []) := by
  have hlt : ∀ f ∈ s.closed, f < s.engines.length + 1 := fun f hf => Nat.lt_succ_of_lt (ht.closed f hf)
  unfold promoteToShm at h
  split at h
  · rename_i hnone
    cases h
    exact ⟨ht.closed, iff_of_true ht.openBound fun current hsome => by rw [hnone] at hsome; cases hsome⟩
  · rename_i current hprom
    dsimp only at h
    set built := s.build ⟨.shm, name, m, alignedArrow s.tables (engineTables sql m)⟩ with hbuilt
    have hlen : built.engines.length = s.engines.length + 1 := by simp [hbuilt, Session.build]
    have hfresh : s.engines.length ∉ s.closed := fun hmem => absurd (ht.closed _ hmem) (Nat.lt_irrefl _)
    cases ingest with
    | tooSmall | fails =>
      cases h
      refine ⟨?_, iff_of_true ht.openBound fun _ _ hstaged => by cases hstaged⟩
      simpa [Session.build] using hlt
    | staged =>
      dsimp only at h
      split at h
      · rename_i s₂ err hr
        obtain ⟨-, heng, hcl⟩ := registerManifest_frame hr
        obtain ⟨-, -, herr⟩ := registerManifest_spec hr
        have hfails : registers sql s.tables m = false := by
          rw [← Bool.not_eq_true]
          intro hreg
          cases herr.2 hreg
        cases h
        refine ⟨?_, ?_⟩
        · intro f hf
          simp only [Session.closeQuietly, heng, hlen, hcl] at hf ⊢
          rcases List.mem_cons.1 hf with rfl | hf
          · exact Nat.lt_succ_self _
          · exact hlt f hf
        · have hiff := @openBound_closed_iff _ _ built _ _ _ _ (ht.openBound)
            (fun k b hk hb => absurd (ht.wf k b _ hk hb)
            (Nat.lt_irrefl _)) hr
          rw [hiff]
          constructor
          · intro hnil _ _ _
            rw [hfails, if_neg Bool.false_ne_true]
            exact hnil
          · intro hclean
            have hnil := hclean current hprom rfl
            rw [hfails, if_neg Bool.false_ne_true] at hnil
            exact hnil
      · rename_i s₂ hr
        obtain ⟨-, heng, hcl⟩ := registerManifest_frame hr
        obtain ⟨-, -, herr⟩ := registerManifest_spec hr
        have hregs : registers sql s.tables m = true := herr.1 rfl
        have hcurrent := promotable_lt hprom
        cases h
        refine ⟨?_, ?_, ?_⟩
        · intro f hf
          simp only [Session.closeQuietly, heng, hlen, hcl] at hf ⊢
          rcases List.mem_cons.1 hf with rfl | hf
          · exact Nat.lt_succ_of_lt hcurrent
          · exact hlt f hf
        · intro hopen c hc _
          rw [hregs, if_pos rfl]
          rw [hprom] at hc
          cases hc
          intro k b hk hb
          by_contra hno
          have hkept := registerManifest_keep hr hno
          exact hopen k b current (hkept.trans hk) hb List.mem_cons_self
        · intro hclean k b f hget hf hclosed
          have hreplaces := hclean current hprom rfl
          rw [hregs, if_pos rfl] at hreplaces
          have hclosed : f ∈ current :: s₂.closed := hclosed
          rw [hcl] at hclosed
          have hget : s₂.registry.byNorm.get k = some b := hget
          by_cases hk : k ∈ templates sql m.queries
          · obtain ⟨b', hb', he'⟩ := registerManifest_done hr hk
            rw [hget] at hb'
            cases hb'
            rw [hf] at he'
            cases he'
            rcases List.mem_cons.1 hclosed with heq | hclosed
            · omega
            · exact hfresh hclosed
          · have hold : s.registry.byNorm.get k = some b := by
              rw [← hget]
              exact (registerManifest_keep hr hk).symm
            rcases List.mem_cons.1 hclosed with rfl | hclosed
            · exact hk (hreplaces k b hold hf)
            · exact ht.openBound k b f hold hf hclosed

/-- **One look** leaves no binding to a closed engine exactly when it is clean. -/
theorem visit_open_iff (ht : s.Tidy) (h : visit sql mount ingest s registered name m = (s', out)) :
    (∀ e ∈ s'.closed, e < s'.engines.length) ∧
      (s'.OpenBound ↔ LookClean sql mount ingest s registered name m) := by
  unfold visit at h
  unfold LookClean
  dsimp only at h
  split at h
  · rename_i hin
    cases h
    rw [if_pos hin]
    exact promote_open_iff ht rfl
  · rename_i hin
    rw [if_neg hin]
    have hbound : ∀ {s₁ : Session ρ} {res : Except ScanError (Option Nat)},
        bindEngine sql mount ingest s name m = (s₁, res) → s₁.OpenBound := by
      intro s₁ res hb k b f hk hf hclosed
      obtain ⟨hreg, -⟩ := bindEngine_frame hb
      obtain ⟨-, hnew, -⟩ := bindEngine_closed ht.closed hb
      rw [hreg] at hk
      rcases hnew f hclosed with hold | hle
      · exact ht.openBound k b f hk hf hold
      · have := ht.wf k b f hk hf
        omega
    split at h
    · rename_i hb
      cases h
      refine ⟨(bindEngine_closed ht.closed hb).1, iff_of_true (hbound hb) ?_⟩
      intro s₁ e he
      rw [hb] at he
      cases he
    · rename_i hb
      cases h
      refine ⟨(bindEngine_closed ht.closed hb).1, iff_of_true (hbound hb) ?_⟩
      intro s₁ e he
      rw [hb] at he
      cases he
    · rename_i s₁ e hb
      obtain ⟨hlt, -, hopen⟩ := bindEngine_closed ht.closed hb
      obtain ⟨hle, eng, heng', -⟩ := bindEngine_ok hb
      have he : e < s₁.engines.length := (List.getElem?_eq_some_iff.1 heng').1
      obtain ⟨hreg, -⟩ := bindEngine_frame hb
      split at h
      · rename_i s₂ err hr
        obtain ⟨-, heng, hcl⟩ := registerManifest_frame hr
        obtain ⟨-, -, herr⟩ := registerManifest_spec hr
        have hfails : registers sql s₁.tables m = false := by
          rw [← Bool.not_eq_true]
          exact fun hregs => nomatch herr.2 hregs
        cases h
        refine ⟨?_, ?_⟩
        · intro f hf
          simp only [Session.closeQuietly, heng, hcl] at hf ⊢
          rcases List.mem_cons.1 hf with rfl | hf
          · exact he
          · exact hlt f hf
        · have hfresh : ∀ k b, s₁.registry.byNorm.get k = some b → b.engine ≠ some e := by
            intro k b hk hbe
            rw [hreg] at hk
            have := ht.wf k b e hk hbe
            omega
          rw [openBound_closed_iff (hbound hb) hfresh hr]
          constructor
          · intro hnil s₃ e₃ heq _
            rw [hb] at heq
            cases heq
            exact hnil
          · intro hclean
            exact hclean s₁ e hb hfails
      · rename_i s₂ hr
        obtain ⟨-, heng, hcl⟩ := registerManifest_frame hr
        obtain ⟨-, -, herr⟩ := registerManifest_spec hr
        cases h
        refine ⟨?_, iff_of_true (openBound_registered (hbound hb) (hopen e rfl) hr) ?_⟩
        · rw [hcl, heng]
          exact hlt
        · intro s₃ e₃ heq hfalse
          rw [hb] at heq
          cases heq
          rw [herr.1 rfl] at hfalse
          cases hfalse

/-! ## Scans -/

inductive DiscoveryAct (ρ : Type) where
  | change (tables : Tables ρ)
  | scan (mount : Bool) (ingest : String → Ingest) (dir : EnginesDir ρ) (registered : List Key)

def discoveryStep (sql : Sql ρ) (s : Session ρ) : DiscoveryAct ρ → Option (Session ρ)
  | .change tables => some { s with tables }
  | .scan mount ingest dir registered => some (discoverEngines sql mount ingest s dir registered).1

/-- Every look of a scan is clean in the state it is taken in. -/
def ScanClean (sql : Sql ρ) (mount : Bool) (ingest : String → Ingest) :
    List (String × EngineManifest ρ) → Session ρ → List Key → Prop
  | [], _, _ => True
  | (name, m) :: rest, s, registered => LookClean sql mount (ingest name) s registered name m ∧
      ∀ s' registered', visit sql mount (ingest name) s registered name m = (s', some registered') →
        ScanClean sql mount ingest rest s' registered'

def ActClean (sql : Sql ρ) (s : Session ρ) : DiscoveryAct ρ → Prop
  | .change _ => True
  | .scan mount ingest dir registered => ScanClean sql mount ingest (packages dir) s registered

theorem visit_tidy (ht : s.Tidy) (hclean : LookClean sql mount ingest s registered name m)
    (h : visit sql mount ingest s registered name m = (s', out)) : s'.Tidy := by
  obtain ⟨hclosed, hiff⟩ := visit_open_iff ht h
  exact ⟨wf_visit ht.wf h, hclosed, hiff.2 hclean⟩

/-- **One scan**, by induction on the packages it looks at. -/
theorem scanLoop_tidy {ingest : String → Ingest} {ps : List (String × EngineManifest ρ)} (ht : s.Tidy)
    (hclean : ScanClean sql mount ingest ps s registered) : (scanLoop sql mount ingest ps s registered).1.Tidy := by
  induction ps generalizing s registered with
  | nil => exact ht
  | cons p ps ih =>
    obtain ⟨name, m⟩ := p
    obtain ⟨hlook, hrest⟩ := hclean
    rw [scanLoop]
    split
    · rename_i s₁ hv
      exact visit_tidy ht hlook hv
    · rename_i s₁ registered₁ hv
      exact ih (visit_tidy ht hlook hv) (hrest s₁ registered₁ hv)

theorem discoveryStep_tidy {a : DiscoveryAct ρ} (ht : s.Tidy) (hclean : ActClean sql s a)
    (hs : discoveryStep sql s a = some s') :
    s'.Tidy := by
  cases a with
  | change tables =>
    cases hs
    exact ⟨ht.wf, ht.closed, ht.openBound⟩
  | scan mount ingest dir registered =>
    cases hs
    exact scanLoop_tidy ht hclean

theorem wf_discovery {acts : List (DiscoveryAct ρ)} (h : Trace.exec (discoveryStep sql) {} acts = some s) : s.Wf := by
  have hstart : (({} : Session ρ)).Wf := fun k b e hk => by cases hk
  refine Trace.reach_invariant (I := Session.Wf) ?_ hstart ⟨acts, h⟩
  intro s a s' hwf hs
  cases a with
  | change tables =>
    cases hs
    exact hwf
  | scan mount ingest dir registered =>
    cases hs
    exact wf_scanLoop hwf rfl

/-! ## All or nothing -/

/-- All that the call publishes is in the registry as it is, and no table of it is dirty. -/
def PublishedBefore (sql : Sql ρ) (s : Session ρ) (m : EngineManifest ρ) (e : Nat) : Prop :=
  (∀ k b, Dict.get (Dict.ofItems (bindingItems (published sql s.tables m e))) k = some b →
    s.registry.byNorm.get k = some b) ∧
  ∀ b ∈ published sql s.tables m e, ∀ t ∈ b.tables, t.toLower ∉ s.registry.dirtyTables

/-- A promotion that fails keeps every query on its engine exactly when it fails before it publishes. -/
theorem promote_keeps_iff {ok : Option Bool} (hwf : s.Wf) (h : promoteToShm sql ingest s name m = (s', ok))
    (hfail : ok ≠ some true) : (∀ k, s'.engineUnder k = s.engineUnder k) ↔
      (promotable sql s name m ≠ none → ingest = .staged → accepted sql s.tables m = []) := by
  unfold promoteToShm at h
  split at h
  · rename_i hnone
    cases h
    exact iff_of_true (fun _ => rfl) fun hne => absurd hnone hne
  · rename_i current hprom
    cases ingest with
    | tooSmall | fails =>
      cases h
      exact iff_of_true (fun _ => rfl) fun _ hstaged => nomatch hstaged
    | staged =>
      dsimp only at h
      split at h
      · rename_i s₂ err hr
        cases h
        constructor
        · intro hkeep _ _
          by_contra hne
          obtain ⟨k, b, hget, he⟩ := accepted_bound hr hne
          have hnow : s₂.engineUnder k = some s.engines.length := by
            rw [Session.engineUnder, hget, Option.bind_some, he]
          obtain ⟨b', hb', he'⟩ := Option.bind_eq_some_iff.1 ((hkeep k).symm.trans hnow)
          exact absurd (hwf k b' _ hb' he') (Nat.lt_irrefl _)
        · intro hnil k
          obtain ⟨-, hnot, -⟩ := registerManifest_spec hr
          have hempty := hnil (by rw [hprom]; nofun) rfl
          have hkept := hnot k (by
            rw [show accepted sql (s.build _).tables m = [] from hempty]
            nofun)
          exact congrArg (fun o => Option.bind o EngineBinding.engine) hkept
      · cases h
        exact absurd rfl hfail

/-- **Registering a package is all or nothing** exactly when what it publishes before it fails is there already;
a discovery whose failing registrations fail before they publish anything leaves no binding to an engine it has closed;
and a promotion that fails keeps every query on its engine exactly when it publishes nothing. -/
theorem registration_all_or_nothing (sql : Sql ρ) :
    (∀ s s' m e err, registerManifest sql s m e = (s', some err) →
      (SameRegistry s.registry s'.registry ↔ PublishedBefore sql s m e)) ∧
    (∀ acts s, Trace.Meets (discoveryStep sql) (ActClean sql) {} acts → Trace.exec (discoveryStep sql) {} acts = some s →
      s.OpenBound) ∧
    ∀ acts s s' m name ingest ok, Trace.exec (discoveryStep sql) {} acts = some s →
      promoteToShm sql ingest s name m = (s', ok) → ok ≠ some true →
      ((∀ k, s'.engineUnder k = s.engineUnder k) ↔
        (promotable sql s name m ≠ none → ingest = .staged → accepted sql s.tables m = [])) := by
  refine ⟨?_, ?_, ?_⟩
  · intro s s' m e err h
    have hpub := @registerManifest_publish ρ sql s m e
    rw [h] at hpub
    rw [hpub]
    exact same_publish_iff
  · intro acts s hmeets hrun
    have hstart : (({} : Session ρ)).Tidy := by
      refine ⟨fun k b e hk => ?_, nofun, fun k b e hk => ?_⟩
      · cases hk
      · cases hk
    exact (Trace.exec_invariant (fun _ _ _ => discoveryStep_tidy) hstart hmeets hrun).openBound
  · intro acts s s' m name ingest ok hrun h hfail
    exact promote_keeps_iff (wf_discovery hrun) h hfail

end

/-! ## An engine that reads the same table -/

def countPackage (engineId sql : String) : EngineManifest Nat where
  engineId := engineId
  queries := [{ queryId := "1", sqlTemplate := sql }]

/-- Two engines over `t`; the table changes in between. -/
def runShared : List (DirtyAct Nat) :=
  [.registerManifest ownTable (countPackage "a" "select sum(x) from t") 0, .markTablesDirty ["t"],
    .registerManifest ownTable (countPackage "b" "select max(x) from t") 1]

/-- What either package publishes. -/
def countBinding (engineId sql : String) (engine : Nat) : EngineBinding where
  templateId := engineId ++ "::" ++ "1"
  normalizedSql := sql
  queryId := "1"
  engineId := engineId
  placeholders := []
  outputSchema := [⟨"n", "BIGINT"⟩]
  tables := ["t"]
  schemaFingerprint := "f"
  engine := some engine
  templateSql := some sql

theorem published_count (engineId sql : String) (engine : Nat) :
    published plainSql ownTable (countPackage engineId sql) engine = [countBinding engineId sql engine] := by
  simp [published, countPackage, madeBindings, makeBinding, plainSql, countBinding]

theorem mark_lifted : Protected plainSql runShared (countBinding "a" "select sum(x) from t" 0) ∧
    (runShared.foldl (dirtyStep plainSql) {}).isDirty (countBinding "a" "select sum(x) from t" 0) = false ∧
    (runShared.foldl (dirtyStep plainSql) {}).match? "select sum(x) from t" =
      some (countBinding "a" "select sum(x) from t" 0) := by
  refine ⟨⟨_, _, _, rfl, ⟨_, List.mem_singleton_self _, ?_⟩, "t", List.mem_singleton_self _, ?_, ?_⟩, ?_, ?_⟩
  · rw [DirtyAct.Publishes, published_count]
    exact List.mem_singleton_self _
  · exact List.mem_singleton_self _
  · intro x hx
    rw [List.mem_singleton.1 hx]
    refine ⟨id, fun c hc => ?_⟩
    rw [DirtyAct.Publishes, published_count] at hc
    rw [List.mem_singleton.1 hc]
    decide
  · decide +kernel
  · decide +kernel

/-! ## A query that fails before or after another one -/

/-- One text does not parse. -/
def strictSql : Sql Nat := { plainSql with normalize := fun sql => if sql = "broken" then none else some sql }

def queriesPackage (queries : List String) : EngineManifest Nat :=
  { snapshotPackage true with queries := queries.map fun sql => { queryId := "1", sqlTemplate := sql } }

/-- A scan with too little shared memory: the engine is bound on the parquet plane. -/
def runDiscovery (queries : List String) : List (DiscoveryAct Nat) :=
  [.change ownTable, .scan false (fun _ => .tooSmall) [("p", some (queriesPackage queries))] []]

def afterDiscovery (queries : List String) : Session Nat :=
  (discoverEngines strictSql false (fun _ => .tooSmall) { tables := ownTable } [("p", some (queriesPackage queries))] []).1

def brokenFirst : EngineManifest Nat := queriesPackage ["broken", "select 1 from t"]

theorem accepted_brokenFirst (tables : Tables Nat) : accepted strictSql tables brokenFirst = [] := by
  unfold accepted
  split
  · rfl
  · rfl

theorem registration_all_or_nothing_once :
    (∃ s', registerManifest strictSql { tables := ownTable } brokenFirst 0 = (s', some .other) ∧
      SameRegistry {} s'.registry) ∧
    (∃ s, Trace.exec (discoveryStep strictSql) {} (runDiscovery ["broken", "select 1 from t"]) = some s ∧
      s.closed = [1, 0] ∧ s.OpenBound) ∧
    ∃ s s', Trace.exec (discoveryStep strictSql) {} (runDiscovery ["select 1 from t"]) = some s ∧
      promoteToShm strictSql .staged s "p" brokenFirst = (s', some false) ∧
      s'.closed = [2, 0] ∧ ∀ k, s'.engineUnder k = s.engineUnder k := by
  obtain ⟨hsame, hopen, hkeep⟩ := registration_all_or_nothing strictSql
  refine ⟨⟨_, Prod.ext rfl (by decide +kernel), ?_⟩, ⟨afterDiscovery ["broken", "select 1 from t"], rfl, by decide +kernel, ?_⟩,
    ⟨afterDiscovery ["select 1 from t"], _, rfl, Prod.ext rfl (by decide +kernel), by decide +kernel, ?_⟩⟩
  · refine (hsame { tables := ownTable } _ brokenFirst 0 .other (Prod.ext rfl (by decide +kernel))).2 ?_
    have hnone : published strictSql ownTable brokenFirst 0 = [] := by decide +kernel
    rw [PublishedBefore, hnone]
    exact ⟨nofun, nofun⟩
  · refine hopen (runDiscovery ["broken", "select 1 from t"]) _ ⟨trivial, fun s hs => ⟨?_, fun _ _ => trivial⟩⟩ rfl
    cases hs
    have hdot : "p".startsWith "." = false := by decide +kernel
    have hpackages : packages [("p", some brokenFirst)] = [("p", brokenFirst)] := by simp [packages, hdot]
    show ScanClean _ _ _ (packages [("p", some brokenFirst)]) _ _
    rw [hpackages]
    refine ⟨?_, fun _ _ _ => trivial⟩
    rw [LookClean, if_neg (by nofun)]
    exact fun s₁ _ _ _ => accepted_brokenFirst s₁.tables
  · refine hkeep (runDiscovery ["select 1 from t"]) _ _ brokenFirst "p" .staged (some false) rfl
      (Prod.ext rfl (by decide +kernel)) (by decide) |>.2 ?_
    exact fun _ _ => accepted_brokenFirst _

theorem closed_engine_bound : ∃ s, Trace.exec (discoveryStep strictSql) {} (runDiscovery ["select 1 from t", "broken"]) =
    some s ∧ ¬ s.OpenBound := by
  refine ⟨afterDiscovery ["select 1 from t", "broken"], rfl, fun hopen => ?_⟩
  have h : ((afterDiscovery ["select 1 from t", "broken"]).engineUnder "select 1 from t").any
      (· ∈ (afterDiscovery ["select 1 from t", "broken"]).closed) = true := by decide +kernel
  obtain ⟨e, he, hclosed⟩ := (Option.any_eq_true _ _).1 h
  obtain ⟨b, hb, hbe⟩ := Option.bind_eq_some_iff.1 he
  exact hopen _ b e hb hbe (by simpa using hclosed)

end SynnoDB.Compat
