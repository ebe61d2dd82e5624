import SynnoDB.Compat.DataPlane

/-!
# The engines that discovery builds (`duckdb_compat/connection.py:198-232`, `:417-463`, `discovery.py:343-435`)

| here | there |
| --- | --- |
| `Life`       | the handles of one router with what each has registered, the shared count, the session, the directory |
| `finalizes`  | does the runtime call `ProcessEngine.__del__` as soon as an engine is dropped |
| `held`       | engines in the frames of exceptions that callers have not let go of |

Registering replaces bindings one by one, and only a promotion closes what it replaces. Without `__del__` the
scan of a cursor, which starts from an empty record, therefore leaves the engines of its parent open
(`superseded_left_open`). With it, what is lost is the engine of a promotion whose `ingest` raises
(`promotion_raises`): `_bind_engine` closes the engine there, `_promote_to_shm` does not.
-/

namespace SynnoDB.Compat

open SynnoDB.Router

variable {ρ : Type}

/-! ## References -/

/-- A binding under one of these templates refers to the engine. -/
def Session.refersUnder (s : Session ρ) (p : String → Bool) (e : Nat) : Bool :=
  s.registry.byNorm.any fun x => p x.1 && (s.registry.byNorm.get x.1).any fun b => b.engine = some e

def Session.refers (s : Session ρ) (e : Nat) : Bool := s.refersUnder (fun _ => true) e

/-- Every engine built is referred to or closed. -/
def Session.Owned (s : Session ρ) : Prop := ∀ e < s.engines.length, s.refers e = true ∨ e ∈ s.closed

theorem refersUnder_iff {s : Session ρ} {p : String → Bool} {e : Nat} : s.refersUnder p e = true ↔
    ∃ k b, p k = true ∧ s.registry.byNorm.get k = some b ∧ b.engine = some e := by
  simp only [Session.refersUnder, List.any_eq_true, Bool.and_eq_true, Option.any_eq_true, decide_eq_true_eq]
  constructor
  · rintro ⟨x, -, hp, b, hb, he⟩
    exact ⟨x.1, b, hp, hb, he⟩
  · rintro ⟨k, b, hp, hb, he⟩
    exact ⟨(k, b), Dict.mem_of_get hb, hp, b, hb, he⟩

theorem refers_iff {s : Session ρ} {e : Nat} : s.refers e = true ↔
    ∃ k b, s.registry.byNorm.get k = some b ∧ b.engine = some e := by
  simp [Session.refers, refersUnder_iff]

theorem refers_of_registry {s s' : Session ρ} {e : Nat} (h : s'.registry = s.registry) : s'.refers e = s.refers e := by
  simp [Session.refers, Session.refersUnder, h]

/-! ## When a look leaves no engine behind -/

section
variable (sql : Sql ρ)

/-- `make_binding` ends without an exception; the engine plays no part in it. -/
def bindable (tables : Tables ρ) (engineId : String) (q : QueryTemplate) : Bool :=
  (makeBinding sql tables engineId q 0).toBool

/-- The queries that a registration gets through. -/
def accepted (tables : Tables ρ) (m : EngineManifest ρ) : List QueryTemplate :=
  if m.expectedTables ≠ [] ∧ checkCompatibility tables m ≠ [] then []
  else m.queries.takeWhile (bindable sql tables m.engineId)

/-- A registration ends without an exception. -/
def registers (tables : Tables ρ) (m : EngineManifest ρ) : Bool :=
  !(m.expectedTables ≠ [] && checkCompatibility tables m ≠ []) &&
    m.queries.all (bindable sql tables m.engineId)

/-- Registering the package takes the last open binding of no engine but of the one that is closed for it. -/
def spares (s : Session ρ) (tables : Tables ρ) (m : EngineManifest ρ) (superseded : Option Nat) : Bool :=
  let ks := templates sql (accepted sql tables m)
  (!registers sql tables m || m.queries ≠ []) &&
    (List.range s.engines.length).all fun e =>
      !s.refersUnder (· ∈ ks) e || e ∈ s.closed || (registers sql tables m && superseded = some e) ||
        s.refersUnder (· ∉ ks) e

/-- The shm plane is tried first. -/
def shmFirst (s : Session ρ) (m : EngineManifest ρ) : Bool :=
  m.shmCapable && (engineTables sql m).all (present s.tables) && shmSchemaOk s.tables m

/-- The `ingest` of a promotion raises. -/
def raises (ingest : Ingest) (s : Session ρ) (registered : List Key) (name : String) (m : EngineManifest ρ) : Bool :=
  (name, m.engineId) ∈ registered && (promotable sql s name m).isSome && ingest ≠ .staged

def lookSpares (mount : Bool) (ingest : Ingest) (s : Session ρ) (registered : List Key) (name : String)
    (m : EngineManifest ρ) : Bool :=
  if (name, m.engineId) ∈ registered then
    match promotable sql s name m with
    | none => true
    | some current => spares sql s s.tables m (some current)
  else !(shmFirst sql s m && ingest = .fails) && match bindEngine sql mount ingest s name m with
    | (bound, .ok (some _)) => spares sql s bound.tables m none
    | _ => true

/-- What a look has to meet: no exception leaves the scan and, without `__del__`, no engine is dropped. -/
def lookOk (mount finalizes : Bool) (ingest : Ingest) (s : Session ρ) (registered : List Key) (name : String)
    (m : EngineManifest ρ) : Bool :=
  !raises sql ingest s registered name m && (finalizes || lookSpares sql mount ingest s registered name m)

/-- Every look of a scan meets the condition in the state it is taken in. -/
def scanOk (mount finalizes : Bool) (ingest : String → Ingest) :
    List (String × EngineManifest ρ) → Session ρ → List Key → Bool
  | [], _, _ => true
  | (name, m) :: rest, s, registered =>
    lookOk sql mount finalizes (ingest name) s registered name m &&
      match visit sql mount (ingest name) s registered name m with
      | (_, none) => true
      | (s, some registered) => scanOk mount finalizes ingest rest s registered

end

/-! ## What registration replaces -/

section
variable {sql : Sql ρ} {tables : Tables ρ} {s s₁ s' : Session ρ} {m : EngineManifest ρ} {name engineId : String}
  {e : Nat}
  {err : Option ScanError} {mount : Bool} {ingest : Ingest} {superseded : Option Nat} {qs : List QueryTemplate}
  {r r' : TemplateRegistry} {registered : List Key} {out : Option (List Key)}

theorem bindable_of_makeBinding (q : QueryTemplate) (e : Nat) :
    bindable sql tables engineId q = (makeBinding sql tables engineId q e).toBool := by
  unfold bindable makeBinding
  split
  · rfl
  · split
    · rfl
    · split
      · rfl
      · split <;> rfl

/-- **Registration** binds the templates it gets to and no others. -/
theorem registerQueries_spec (h : registerQueries sql tables engineId e qs r = (r', err)) :
    (∀ k ∈ templates sql (qs.takeWhile (bindable sql tables engineId)),
      ∃ b, r'.byNorm.get k = some b ∧ b.engine = some e) ∧
    (∀ k ∉ templates sql (qs.takeWhile (bindable sql tables engineId)), r'.byNorm.get k = r.byNorm.get k) ∧
    (err = none ↔ qs.all (bindable sql tables engineId) = true) := by
  induction qs generalizing r with
  | nil =>
    cases h
    exact ⟨fun k hk => absurd hk (List.not_mem_nil), fun _ _ => rfl, by simp⟩
  | cons q qs ih =>
    simp only [registerQueries] at h
    have hbool := @bindable_of_makeBinding ρ sql tables engineId q e
    rw [List.takeWhile_cons, List.all_cons]
    split at h
    · rename_i hb
      cases h
      rw [hb] at hbool
      have hfalse : bindable sql tables engineId q = false := hbool
      rw [hfalse]
      exact ⟨fun k hk => absurd hk (List.not_mem_nil), fun _ _ => rfl, by simp⟩
    · rename_i b hb
      rw [hb] at hbool
      have htrue : bindable sql tables engineId q = true := hbool
      obtain ⟨hq, he, -⟩ := makeBinding_ok hb
      obtain ⟨hin, hnot, herr⟩ := ih h
      rw [htrue, if_pos rfl, templates_cons hq]
      refine ⟨fun k hk => ?_, fun k hk => ?_, ?_⟩
      · by_cases hlater : k ∈ templates sql (qs.takeWhile (bindable sql tables engineId))
        · exact hin k hlater
        · have hkq := (List.mem_cons.1 hk).resolve_right hlater
          refine ⟨b, ?_, he⟩
          rw [hnot k hlater, get_register, if_pos hkq.symm]
      · rw [List.mem_cons, not_or] at hk
        rw [hnot k hk.2, get_register, if_neg (Ne.symm hk.1)]
      · rw [herr, Bool.true_and]

theorem registerManifest_spec (h : registerManifest sql s m e = (s', err)) :
    (∀ k ∈ templates sql (accepted sql s.tables m), ∃ b, s'.registry.byNorm.get k = some b ∧ b.engine = some e) ∧
    (∀ k ∉ templates sql (accepted sql s.tables m), s'.registry.byNorm.get k = s.registry.byNorm.get k) ∧
    (err = none ↔ registers sql s.tables m = true) := by
  unfold registerManifest at h
  unfold accepted registers
  split at h
  · rename_i hbad
    cases h
    rw [if_pos hbad]
    refine ⟨?_, fun _ _ => rfl, ?_⟩
    · intro k hk
      cases hk
    · simp [hbad.1, hbad.2]
  · rename_i hgood
    rw [if_neg hgood]
    have hok : (!(m.expectedTables ≠ [] && checkCompatibility s.tables m ≠ [])) = true := by
      rw [Bool.not_eq_true', ← Bool.not_eq_true]
      simpa using hgood
    cases h
    obtain ⟨hin, hnot, herr⟩ := @registerQueries_spec ρ sql s.tables m.engineId e _ m.queries s.registry _ rfl
    refine ⟨hin, hnot, ?_⟩
    rw [hok, Bool.true_and]
    exact herr

/-- A package with queries that registers has its engine bound. -/
theorem refers_registered (h : registerManifest sql s m e = (s', none)) (hqs : m.queries ≠ []) :
    s'.refers e = true := by
  obtain ⟨-, -, herr⟩ := registerManifest_spec h
  have hreg := herr.1 rfl
  unfold registers at hreg
  obtain ⟨q, qs, hq⟩ := List.exists_cons_of_ne_nil hqs
  have hall := (Bool.and_eq_true_iff.1 hreg).2
  rw [hq, List.all_cons, Bool.and_eq_true] at hall
  cases hb : makeBinding sql s.tables m.engineId q 0 with
  | error err =>
    rw [@bindable_of_makeBinding ρ sql s.tables m.engineId q 0, hb] at hall
    cases hall.1
  | ok b =>
    obtain ⟨hn, -⟩ := makeBinding_ok hb
    have hmem : b.normalizedSql ∈ templates sql m.queries := by
      rw [hq, templates_cons hn]
      exact List.mem_cons_self
    obtain ⟨b', hget, he⟩ := registerManifest_done h hmem
    exact refers_iff.2 ⟨_, b', hget, he⟩

/-- A spared engine is still bound after the registration, or closed, or the one to be closed for it. -/
theorem spares_keeps (hwf : s.Wf) (hsp : spares sql s s₁.tables m superseded = true) (hreg : s₁.registry = s.registry)
    (h : registerManifest sql s₁ m e = (s', err)) {f : Nat} (hf : s.refers f = true) :
    s'.refers f = true ∨ f ∈ s.closed ∨ err = none ∧ superseded = some f := by
  obtain ⟨-, hnot, herr⟩ := registerManifest_spec h
  obtain ⟨k, b, hk, hb⟩ := refers_iff.1 hf
  have hlt := hwf k b f hk hb
  simp only [spares, Bool.and_eq_true, List.all_eq_true, List.mem_range, Bool.or_eq_true] at hsp
  by_cases hin : k ∈ templates sql (accepted sql s₁.tables m)
  · have hunder : s.refersUnder (fun k => decide (k ∈ templates sql (accepted sql s₁.tables m))) f = true :=
      refersUnder_iff.2 ⟨k, b, by simpa using hin, hk, hb⟩
    rcases hsp.2 f hlt with ((hno | hclosed) | hsup) | hother
    · rw [hunder] at hno
      cases hno
    · exact .inr (.inl (by simpa using hclosed))
    · exact .inr (.inr ⟨herr.2 hsup.1, by simpa using hsup.2⟩)
    · obtain ⟨k', b', hk', hget, hb'⟩ := refersUnder_iff.1 hother
      rw [← hreg, ← hnot k' (by simpa using hk')] at hget
      exact .inl (refers_iff.2 ⟨k', b', hget, hb'⟩)
  · rw [← hreg, ← hnot k hin] at hk
    exact .inl (refers_iff.2 ⟨k, b, hk, hb⟩)

theorem queries_of_spares (hsp : spares sql s tables m superseded = true) (hreg : registers sql tables m = true) :
    m.queries ≠ [] := by
  simp only [spares, hreg, Bool.not_true, Bool.false_or, Bool.and_eq_true, decide_eq_true_eq] at hsp
  exact hsp.1

/-! ## One look -/

theorem bindParquet_life {ts : List String} {res : Except ScanError (Option Nat)}
    (h : bindParquet mount s name m ts = (s', res)) {f : Nat} (hf : f < s'.engines.length) :
    f < s.engines.length ∨ res = .ok (some f) := by
  unfold bindParquet at h
  split at h
  · cases h
    exact .inl hf
  · split at h
    · cases h
      exact .inl hf
    · dsimp only at h
      split at h
      · cases h
        exact .inl hf
      · split at h
        · cases h
          exact .inl hf
        · cases h
          simp only [Session.build, List.length_append, List.length_singleton] at hf
          by_cases hlt : f < s.engines.length
          · exact .inl hlt
          · have hfe : f = s.engines.length := by omega
            rw [hfe]
            exact .inr rfl

/-- What `_bind_engine` builds it returns or closes, unless an `ingest` fails for another reason than memory. -/
theorem bindEngine_life {res : Except ScanError (Option Nat)} (h : bindEngine sql mount ingest s name m = (s', res))
    (hfirst : (!(shmFirst sql s m && ingest = .fails)) = true) :
    s.closed ⊆ s'.closed ∧
      ∀ f < s'.engines.length, f < s.engines.length ∨ f ∈ s'.closed ∨ res = .ok (some f) := by
  unfold bindEngine at h
  dsimp only at h
  split at h
  · rename_i hshm
    cases ingest with
    | staged =>
      cases h
      refine ⟨List.Subset.refl _, fun f hf => ?_⟩
      simp only [Session.build, List.length_append, List.length_singleton] at hf
      by_cases hlt : f < s.engines.length
      · exact .inl hlt
      · have hfe : f = s.engines.length := by omega
        rw [hfe]
        exact .inr (.inr rfl)
    | fails =>
      have hshm : shmFirst sql s m = true := hshm
      rw [hshm] at hfirst
      cases hfirst
    | tooSmall =>
      dsimp only at h
      have hnew : ∀ f < s.engines.length + 1, f < s.engines.length ∨ f ∈ s.engines.length :: s.closed := by
        intro f hf
        by_cases hlt : f < s.engines.length
        · exact .inl hlt
        · have hfe : f = s.engines.length := by omega
          rw [hfe]
          exact .inr List.mem_cons_self
      split at h
      · cases h
        refine ⟨List.subset_cons_self _ _, fun f hf => ?_⟩
        simp only [Session.closeQuietly, Session.build, List.length_append, List.length_singleton] at hf ⊢
        exact (hnew f hf).imp id .inl
      · obtain ⟨-, hcl, -⟩ := bindParquet_frame h
        rw [hcl]
        refine ⟨List.subset_cons_self _ _, fun f hf => ?_⟩
        rcases bindParquet_life h hf with hlt | hres
        · simp only [Session.closeQuietly, Session.build, List.length_append, List.length_singleton] at hlt
          exact (hnew f hlt).imp id .inl
        · exact .inr (.inr hres)
  · obtain ⟨-, hcl, -⟩ := bindParquet_frame h
    rw [hcl]
    refine ⟨List.Subset.refl _, fun f hf => ?_⟩
    rcases bindParquet_life h hf with hlt | hres
    · exact .inl hlt
    · exact .inr (.inr hres)

/-- No exception leaves a look that meets the condition. -/
theorem visit_returns {finalizes : Bool} (hok : lookOk sql mount finalizes ingest s registered name m = true)
    (hv : visit sql mount ingest s registered name m = (s', out)) : out ≠ none := by
  simp only [lookOk, raises, Bool.and_eq_true, Bool.not_eq_true', Bool.and_eq_false_iff] at hok
  unfold visit at hv
  dsimp only at hv
  split at hv
  · rename_i hin
    unfold promoteToShm at hv
    split at hv
    · cases hv
      nofun
    · rename_i current hprom
      cases hing : ingest with
      | staged =>
        rw [hing] at hv
        dsimp only at hv
        split at hv <;> cases hv <;> nofun
      | tooSmall => simp [hin, hprom, hing] at hok
      | fails => simp [hin, hprom, hing] at hok
  · split at hv
    · cases hv
      nofun
    · cases hv
      nofun
    · split at hv <;> cases hv <;> nofun

/-- The engine of a promotion, and the ones it replaces. -/
theorem promote_owned {ok : Option Bool} (hwf : s.Wf) (h : s.Owned)
    (hraise : ¬ (promotable sql s name m).isSome ∨ ingest = .staged)
    (hsp : ∀ current, promotable sql s name m = some current → spares sql s s.tables m (some current) = true)
    (hp : promoteToShm sql ingest s name m = (s', ok)) : s'.Owned := by
  unfold promoteToShm at hp
  split at hp
  · cases hp
    exact h
  · rename_i current hprom
    have hing : ingest = .staged := hraise.resolve_left (by simp [hprom])
    have hsp := hsp current hprom
    subst hing
    dsimp only at hp
    set built := s.build ⟨.shm, name, m, alignedArrow s.tables (engineTables sql m)⟩ with hbuilt
    have hlen : built.engines.length = s.engines.length + 1 := by simp [hbuilt, Session.build]
    -- the engines of before
    have hold : ∀ {s₂ : Session ρ} {err : Option ScanError}, registerManifest sql built m s.engines.length = (s₂, err) →
        ∀ f < s.engines.length, s₂.refers f = true ∨ f ∈ s.closed ∨ err = none ∧ some current = some f := by
      intro s₂ err hr f hf
      have hsp : spares sql s built.tables m (some current) = true := hsp
      rcases h f hf with href | hcl
      · exact spares_keeps hwf hsp rfl hr href
      · exact .inr (.inl hcl)
    split at hp
    · rename_i s₂ err hr
      obtain ⟨-, heng, hcl⟩ := registerManifest_frame hr
      cases hp
      intro f hf
      simp only [Session.closeQuietly, heng, hlen] at hf
      by_cases hlt : f < s.engines.length
      · rcases hold hr f hlt with href | hclosed | ⟨herr, -⟩
        · exact .inl href
        · exact .inr (List.mem_cons_of_mem _ (hcl ▸ hclosed))
        · cases herr
      · have hfe : f = s.engines.length := by omega
        rw [hfe]
        exact .inr List.mem_cons_self
    · rename_i s₂ hr
      obtain ⟨-, heng, hcl⟩ := registerManifest_frame hr
      cases hp
      intro f hf
      simp only [Session.closeQuietly, heng, hlen] at hf
      by_cases hlt : f < s.engines.length
      · rcases hold hr f hlt with href | hclosed | ⟨-, hcur⟩
        · exact .inl href
        · exact .inr (List.mem_cons_of_mem _ (hcl ▸ hclosed))
        · cases hcur
          exact .inr List.mem_cons_self
      · have hfe : f = s.engines.length := by omega
        rw [hfe]
        obtain ⟨-, -, herr⟩ := registerManifest_spec hr
        have href : s₂.refers s.engines.length = true := refers_registered hr (queries_of_spares hsp (herr.1 rfl))
        exact .inl href

/-- **One look** leaves every engine bound or closed. -/
theorem visit_owned (hwf : s.Wf) (h : s.Owned) (hok : lookOk sql mount false ingest s registered name m = true)
    (hv : visit sql mount ingest s registered name m = (s', out)) : s'.Owned := by
  simp only [lookOk, raises, lookSpares, Bool.and_eq_true, Bool.false_or] at hok
  obtain ⟨hraise, hsp⟩ := hok
  unfold visit at hv
  dsimp only at hv
  split at hv
  · rename_i hin
    rw [if_pos hin] at hsp
    cases hv
    refine promote_owned hwf h ?_ ?_ rfl
    · simp only [hin, decide_true, Bool.true_and, Bool.not_eq_true', Bool.and_eq_false_iff] at hraise
      rcases hraise with hnone | hstaged
      · exact .inl (by simp [hnone])
      · exact .inr (by simpa using hstaged)
    · intro current hprom
      rw [hprom] at hsp
      exact hsp
  · rename_i hin
    rw [if_neg hin, Bool.and_eq_true] at hsp
    obtain ⟨hfirst, hsp⟩ := hsp
    have hframe : ∀ {s₁ : Session ρ} {res : Except ScanError (Option Nat)},
        bindEngine sql mount ingest s name m = (s₁, res) → (∀ f, res ≠ .ok (some f)) → s₁.Owned := by
      intro s₁ res hb hres f hf
      obtain ⟨hreg, -⟩ := bindEngine_frame hb
      obtain ⟨hsub, hlife⟩ := bindEngine_life hb hfirst
      rcases hlife f hf with hlt | hcl | hr
      · rw [refers_of_registry hreg]
        exact (h f hlt).imp id (fun hc => hsub hc)
      · exact .inr hcl
      · exact absurd hr (hres f)
    split at hv
    · rename_i hb
      cases hv
      exact hframe hb nofun
    · rename_i hb
      cases hv
      exact hframe hb nofun
    · rename_i s₁ e₁ hb
      rw [hb] at hsp
      obtain ⟨hreg, -⟩ := bindEngine_frame hb
      obtain ⟨hsub, hlife⟩ := bindEngine_life hb hfirst
      have hold : ∀ {s₂ : Session ρ} {err : Option ScanError}, registerManifest sql s₁ m e₁ = (s₂, err) →
          ∀ f < s₁.engines.length, s₂.refers f = true ∨ f ∈ s₁.closed ∨ f = e₁ := by
        intro s₂ err hr f hf
        rcases hlife f hf with hlt | hcl | hres
        · rcases h f hlt with href | hclosed
          · rcases spares_keeps hwf hsp hreg hr href with href | hclosed | ⟨-, hno⟩
            · exact .inl href
            · exact .inr (.inl (hsub hclosed))
            · cases hno
          · exact .inr (.inl (hsub hclosed))
        · exact .inr (.inl hcl)
        · cases hres
          exact .inr (.inr rfl)
      split at hv
      · rename_i s₂ err hr
        obtain ⟨-, heng, hcl⟩ := registerManifest_frame hr
        cases hv
        intro f hf
        simp only [Session.closeQuietly, heng] at hf
        rcases hold hr f hf with href | hclosed | rfl
        · exact .inl href
        · exact .inr (List.mem_cons_of_mem _ (hcl ▸ hclosed))
        · exact .inr List.mem_cons_self
      · rename_i s₂ hr
        obtain ⟨-, heng, hcl⟩ := registerManifest_frame hr
        cases hv
        intro f hf
        rw [heng] at hf
        rcases hold hr f hf with href | hclosed | rfl
        · exact .inl href
        · exact .inr (hcl ▸ hclosed)
        · obtain ⟨-, -, herr⟩ := registerManifest_spec hr
          exact .inl (refers_registered hr (queries_of_spares hsp (herr.1 rfl)))

/-- **One scan**: by induction on the packages it looks at. -/
theorem scanLoop_owned {ingest : String → Ingest} : ∀ {ps : List (String × EngineManifest ρ)} {s s' : Session ρ}
    {registered : List Key} {out : Option (List Key)}, s.Wf → s.Owned →
    scanOk sql mount false ingest ps s registered = true → scanLoop sql mount ingest ps s registered =
      (s', out) → s'.Owned
  | [], s, s', _, _, _, h, _, hs => by
    cases hs
    exact h
  | (name, m) :: ps, s, s', registered, out, hwf, h, hok, hs => by
    simp only [scanOk, Bool.and_eq_true] at hok
    simp only [scanLoop] at hs
    cases hv : visit sql mount (ingest name) s registered name m with
    | mk s₁ out₁ =>
      have howned := visit_owned hwf h hok.1 hv
      rw [hv] at hs
      cases out₁ with
      | none =>
        cases hs
        exact howned
      | some registered₁ =>
        rw [hv] at hok
        exact scanLoop_owned (wf_visit hwf hv) howned hok.2 hs

theorem scanLoop_returns {finalizes : Bool} {ingest : String → Ingest} : ∀ {ps : List (String × EngineManifest ρ)}
    {s s' : Session ρ} {registered : List Key} {out : Option (List Key)},
    scanOk sql mount finalizes ingest ps s registered = true →
    scanLoop sql mount ingest ps s registered = (s', out) → out ≠ none
  | [], _, _, _, _, _, hs => by
    cases hs
    nofun
  | (name, m) :: ps, s, s', registered, out, hok, hs => by
    simp only [scanOk, Bool.and_eq_true] at hok
    simp only [scanLoop] at hs
    cases hv : visit sql mount (ingest name) s registered name m with
    | mk s₁ out₁ =>
      have hret := visit_returns hok.1 hv
      rw [hv] at hs hok
      cases out₁ with
      | none => exact absurd rfl hret
      | some registered₁ => exact scanLoop_returns hok.2 hs

theorem wf_scanLoop {ingest : String → Ingest} {ps : List (String × EngineManifest ρ)} (hwf : s.Wf)
    (hs : scanLoop sql mount ingest ps s registered = (s', out)) : s'.Wf := by
  refine Trace.reach_invariant (I := Session.Wf) ?_ hwf (scanLoop_reach hs)
  intro s a s' hwf hs
  exact wf_planeStep hwf hs

end

/-! ## The handles of one router -/

structure Life (ρ : Type) where
  handles : List Handle
  refcount : Int
  /-- `_registered` of every handle. -/
  registered : Nat → List Key := fun _ => []
  session : Session ρ := {}
  dir : EnginesDir ρ := []
  held : List Nat := []

inductive LifeAct (ρ : Type) where
  | cursor (i : Nat)
  | close (i : Nat)
  /-- What the engines directory holds from now on. -/
  | publish (dir : EnginesDir ρ)
  | change (tables : Tables ρ)
  | scan (i : Nat) (ingest : String → Ingest)
  /-- Callers let go of the exceptions they caught. -/
  | letGo

namespace Life

variable (s : Life ρ)

def conns : Conns :=
  { handles := s.handles, refcount := s.refcount, registry := some s.session.registry, closed := s.session.closed }

def withConns (c : Conns) : Life ρ :=
  { s with handles := c.handles, refcount := c.refcount, session := { s.session with closed := c.closed } }

def connect (ownsInner : Bool) : Life ρ := { handles := [{ ownsInner }], refcount := 1 }

/-- `__del__` of the engines that nothing refers to. -/
def collect (finalizes : Bool) : Life ρ :=
  if finalizes then
    let dropped := (List.range s.session.engines.length).filter fun e => !s.session.refers e && e ∉ s.held
    { s with session := { s.session with closed := dropped ++ s.session.closed } }
  else s

/-- `_discover_now`. An exception of a promotion keeps its engine, the one built last, until it is let go. -/
def scan (sql : Sql ρ) (mount finalizes : Bool) (i : Nat) (ingest : String → Ingest) : Life ρ :=
  match discoverEngines sql mount ingest s.session s.dir (s.registered i) with
  | (session, some keys) => collect { s with session, registered := Function.update s.registered i keys } finalizes
  | (session, none) => collect { s with session, held := (session.engines.length - 1) :: s.held } finalizes

/-- A handle serves as long as its DuckDB connection is open; each is closed once. -/
def step (sql : Sql ρ) (mount finalizes : Bool) (s : Life ρ) : LifeAct ρ → Option (Life ρ)
  | .cursor i => match s.handles[i]? with
    | some h => if h.innerOpen then some (s.withConns s.conns.cursor) else none
    | none => none
  | .close i => match s.handles[i]? with
    | some h => if h.closes = 0 then some (s.withConns (s.conns.close (fun _ => true) i)) else none
    | none => none
  | .publish dir => some { s with dir }
  | .change tables => some { s with session := { s.session with tables } }
  | .scan i ingest => match s.handles[i]? with
    | some h => if h.innerOpen then some (s.scan sql mount finalizes i ingest) else none
    | none => none
  | .letGo => some (collect { s with held := [] } finalizes)

/-- Scans go through handles that are not closed and meet the condition of `scanOk`. -/
def stepOk (sql : Sql ρ) (mount finalizes : Bool) (s : Life ρ) : LifeAct ρ → Bool
  | .scan i ingest => (s.handles[i]?).all (·.closes = 0) &&
      scanOk sql mount finalizes ingest (packages s.dir) s.session (s.registered i)
  | _ => true

structure NoLeak : Prop where
  owned : s.session.Owned
  atLast : s.conns.AllClosed → ∀ e < s.session.engines.length, e ∈ s.session.closed

/-- The count is that of the live handles, no engine is lost, and none is open when there is no live handle. -/
structure Inv : Prop where
  count : s.conns.live = s.refcount
  held : s.held = []
  wf : s.session.Wf
  owned : s.session.Owned
  atLast : s.conns.live = 0 → ∀ e < s.session.engines.length, e ∈ s.session.closed

end Life

open Life

section
variable {sql : Sql ρ} {mount finalizes : Bool} {s s' : Life ρ} {i : Nat}

theorem Life.Inv.noLeak (h : s.Inv) : s.NoLeak := by
  constructor
  · exact h.owned
  · intro hall
    exact h.atLast (live_eq_zero.2 hall)

theorem inv_life_connect (ownsInner : Bool) : (connect ownsInner : Life ρ).Inv := by
  constructor
  · rfl
  · rfl
  · intro k b e hk
    cases hk
  · intro e he
    cases he
  · intro _ e he
    cases he

/-- What collecting leaves as it is. -/
theorem collect_frame : (s.collect finalizes).conns.live = s.conns.live ∧ (s.collect finalizes).refcount = s.refcount ∧
    (s.collect finalizes).session.registry = s.session.registry ∧
    (s.collect finalizes).session.engines = s.session.engines ∧
      s.session.closed ⊆ (s.collect finalizes).session.closed := by
  unfold collect
  split
  · exact ⟨rfl, rfl, rfl, rfl, List.subset_append_right _ _⟩
  · exact ⟨rfl, rfl, rfl, rfl, List.Subset.refl _⟩

theorem owned_collect (h : s.session.Owned) : (s.collect finalizes).session.Owned := by
  obtain ⟨-, -, hreg, heng, hsub⟩ := @collect_frame ρ finalizes s
  intro e he
  rw [heng] at he
  rw [refers_of_registry hreg]
  exact (h e he).imp id (fun hc => hsub hc)

/-- Where the runtime finalizes and no exception is held, nothing is lost. -/
theorem collect_owned (h : s.held = []) : (s.collect true).session.Owned := by
  intro e he
  have hlt : e < s.session.engines.length := he
  by_cases href : s.session.refers e = true
  · exact .inl href
  · right
    refine List.mem_append_left _ (List.mem_filter.2 ⟨List.mem_range.2 hlt, ?_⟩)
    simp [h, href]

theorem inv_life_cursor (hinv : s.Inv) : (s.withConns s.conns.cursor).Inv := by
  have hlive : (s.withConns s.conns.cursor).conns.live = s.conns.live + 1 := live_cursor
  have hcount : (s.withConns s.conns.cursor).refcount = s.refcount + 1 := rfl
  constructor
  · rw [hlive, hcount, ← hinv.count]
    rfl
  · exact hinv.held
  · exact hinv.wf
  · exact hinv.owned
  · intro hz
    omega

theorem inv_life_close {h : Handle} (hinv : s.Inv) (hi : s.handles[i]? = some h) (hopen : h.closes = 0) :
    (s.withConns (s.conns.close (fun _ => true) i)).Inv := by
  have hlive := @live_close (fun _ => true) s.conns i h hi
  rw [if_pos hopen] at hlive
  have hcount := hinv.count
  have hclosed : (s.conns.close (fun _ => true) i).closed =
    if s.refcount - 1 ≤ 0 then s.conns.closeEngines (fun _ => true) else s.session.closed := rfl
  have hsub : s.session.closed ⊆ (s.conns.close (fun _ => true) i).closed := by
    intro e he
    rw [hclosed]
    split
    · exact mem_closeEngines.2 (.inl he)
    · exact he
  constructor
  · show ((s.conns.close (fun _ => true) i).live : Int) = s.refcount - 1
    omega
  · exact hinv.held
  · exact hinv.wf
  · intro e he
    exact (hinv.owned e he).imp id (fun hc => hsub hc)
  · intro hz e he
    have hle : s.refcount - 1 ≤ 0 := by
      have hz : (s.conns.close (fun _ => true) i).live = 0 := hz
      omega
    show e ∈ (s.conns.close (fun _ => true) i).closed
    rw [hclosed, if_pos hle, mem_closeEngines]
    rcases hinv.owned e he with href | hcl
    · obtain ⟨k, b, hk, hb⟩ := refers_iff.1 href
      exact .inr ⟨rfl, _, rfl, b, List.mem_map.2 ⟨(k, b), Dict.mem_of_get hk, rfl⟩, hb⟩
    · exact .inl hcl

theorem held_collect : (s.collect finalizes).held = s.held := by
  unfold collect
  split <;> rfl

/-- Collecting keeps the invariant, and makes up for engines that were dropped. -/
theorem inv_life_collect (hcount : s.conns.live = s.refcount) (hheld : s.held = []) (hwf : s.session.Wf)
    (howned : finalizes = false → s.session.Owned)
    (hlast : s.conns.live = 0 → ∀ e < s.session.engines.length, e ∈ s.session.closed) : (s.collect finalizes).Inv := by
  obtain ⟨hl, hc, hreg, heng, hsub⟩ := @collect_frame ρ finalizes s
  constructor
  · rw [hl, hc]
    exact hcount
  · rw [held_collect]
    exact hheld
  · intro k b e hk he
    rw [hreg] at hk
    rw [heng]
    exact hwf k b e hk he
  · cases finalizes with
    | false => exact owned_collect (howned rfl)
    | true => exact collect_owned hheld
  · intro hz e he
    rw [heng] at he
    rw [hl] at hz
    exact hsub (hlast hz e he)

/-- A scan that returns, through a live handle. -/
theorem inv_life_scan {ingest : String → Ingest} (hinv : s.Inv) (hlive : 0 < s.conns.live)
    (hok : scanOk sql mount finalizes ingest (packages s.dir) s.session (s.registered i) = true) :
    (s.scan sql mount finalizes i ingest).Inv := by
  unfold scan
  cases hd : discoverEngines sql mount ingest s.session s.dir (s.registered i) with
  | mk session out =>
    have hscan : scanLoop sql mount ingest (packages s.dir) s.session (s.registered i) = (session, out) := hd
    cases out with
    | none => exact absurd rfl (scanLoop_returns hok hscan)
    | some keys =>
      refine inv_life_collect hinv.count hinv.held (wf_scanLoop hinv.wf hscan) ?_ ?_
      · rintro rfl
        exact scanLoop_owned hinv.wf hinv.owned hok hscan
      · intro hz
        have hz : s.conns.live = 0 := hz
        omega

theorem inv_life_step {a : LifeAct ρ} (hinv : s.Inv) (hok : stepOk sql mount finalizes s a = true)
    (hs : step sql mount finalizes s a = some s') : s'.Inv := by
  cases a with
  | cursor i =>
    simp only [step] at hs
    split at hs
    · rename_i h hi
      simp only [Option.ite_none_right_eq_some, Option.some.injEq] at hs
      rw [← hs.2]
      exact inv_life_cursor hinv
    · cases hs
  | close i =>
    simp only [step] at hs
    split at hs
    · rename_i h hi
      simp only [Option.ite_none_right_eq_some, Option.some.injEq] at hs
      rw [← hs.2]
      exact inv_life_close hinv hi hs.1
    · cases hs
  | publish dir =>
    cases hs
    exact ⟨hinv.count, hinv.held, hinv.wf, hinv.owned, hinv.atLast⟩
  | change tables =>
    cases hs
    exact ⟨hinv.count, hinv.held, hinv.wf, hinv.owned, hinv.atLast⟩
  | scan i ingest =>
    simp only [step] at hs
    split at hs
    · rename_i h hi
      simp only [Option.ite_none_right_eq_some, Option.some.injEq] at hs
      simp only [stepOk, hi, Option.all_some, Bool.and_eq_true, decide_eq_true_eq] at hok
      have hlive : 0 < s.conns.live :=
        List.countP_pos_iff.2 ⟨h, List.mem_of_getElem? hi, by simpa using hok.1⟩
      rw [← hs.2]
      exact inv_life_scan hinv hlive hok.2
    · cases hs
  | letGo =>
    cases hs
    exact inv_life_collect hinv.count rfl hinv.wf (fun _ => hinv.owned) hinv.atLast

/-- **No engine leaks** in a run whose scans all meet the condition: in every state reached each engine that was
built is bound or closed, and all are closed when the last handle is. -/
theorem engines_bound_or_closed (sql : Sql ρ) (mount finalizes ownsInner : Bool) (acts : List (LifeAct ρ)) (s : Life ρ)
    (hok : Trace.Meets (step sql mount finalizes) (fun s a => stepOk sql mount finalizes s a = true)
      (connect ownsInner) acts)
    (hrun : Trace.exec (step sql mount finalizes) (connect ownsInner) acts = some s) : s.NoLeak := by
  have hinv := Trace.exec_invariant (I := Life.Inv) (fun _ _ _ hi hok hs => inv_life_step hi hok hs)
    (inv_life_connect ownsInner) hok hrun
  exact hinv.noLeak

end

/-! ## Runs -/

/-- A package published for a table that is there, one scan, one handle. -/
def runServe : List (LifeAct Nat) :=
  [.change ownTable, .publish [("p", some (snapshotPackage true))], .scan 0 fun _ => .staged, .close 0]

theorem engines_bound_or_closed_once : ∃ s, Trace.exec (step plainSql false false) (connect true) runServe = some s ∧
    s.session.engines.length = 1 ∧ s.NoLeak := by
  have hsome : (Trace.exec (step plainSql false false) (connect true) runServe).isSome = true := by decide +kernel
  have hlen : ((Trace.exec (step plainSql false false) (connect true) runServe).map
    fun s => s.session.engines.length) = some 1 := by decide +kernel
  obtain ⟨s, hs⟩ := Option.isSome_iff_exists.1 hsome
  rw [hs] at hlen
  exact ⟨s, hs, Option.some.inj hlen,
    engines_bound_or_closed plainSql false false true runServe s (Trace.meets_of_check (by decide +kernel)) hs⟩

/-- Shared memory too small, twice: the second scan tries to promote the engine that the first one bound. -/
def runPromote : List (LifeAct Nat) :=
  [.change ownTable, .publish [("p", some (snapshotPackage true))], .scan 0 fun _ => .tooSmall,
    .scan 0 fun _ => .tooSmall, .close 0]

/-- A cursor scans the directory that its parent has scanned. -/
def runCursor : List (LifeAct Nat) :=
  [.change ownTable, .publish [("p", some (snapshotPackage false))], .cursor 0, .scan 0 fun _ => .staged,
    .scan 1 fun _ => .staged, .close 0, .close 1]

/-- An engine is open and nothing refers to it. -/
def Life.lost (s : Life Nat) : Bool :=
  (List.range s.session.engines.length).any fun e => !s.session.refers e && e ∉ s.session.closed

theorem not_noLeak_of_lost {s : Life Nat} (h : s.lost = true) : ¬ s.NoLeak := by
  intro hno
  simp only [lost, List.any_eq_true, List.mem_range, Bool.and_eq_true, Bool.not_eq_true', decide_eq_true_eq] at h
  obtain ⟨e, he, href, hopen⟩ := h
  rcases hno.owned e he with hr | hc
  · rw [href] at hr
    cases hr
  · exact hopen hc

theorem engine_lost :
    (∃ s, Trace.exec (step plainSql false true) (connect true) runPromote = some s ∧ s.conns.AllClosed ∧ ¬ s.NoLeak) ∧
    ∃ s, Trace.exec (step plainSql false false) (connect true) runCursor = some s ∧ s.conns.AllClosed ∧ ¬ s.NoLeak := by
  have hrun : ∀ {finalizes : Bool} {acts : List (LifeAct Nat)},
      ((Trace.exec (step plainSql false finalizes) (connect true) acts).any fun s =>
        s.lost && s.handles.all (0 < ·.closes)) = true →
      ∃ s, Trace.exec (step plainSql false finalizes) (connect true) acts = some s ∧ s.conns.AllClosed ∧ ¬ s.NoLeak := by
    intro finalizes acts h
    obtain ⟨s, hs, hlost⟩ := (Option.any_eq_true _ _).1 h
    rw [Bool.and_eq_true, List.all_eq_true] at hlost
    exact ⟨s, hs, fun p hp => by simpa using hlost.2 p hp, not_noLeak_of_lost hlost.1⟩
  exact ⟨hrun (by decide +kernel), hrun (by decide +kernel)⟩

end SynnoDB.Compat
