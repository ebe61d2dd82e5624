import Mathlib
import SynnoDB.Lib.Since
import SynnoDB.Router.Registry

/-!
# Runs of a registry (`router/registry.py:93-168`)

The map is keyed by normalized SQL, the quarantine by template id, and `register` touches the map only. A template
that is registered again while it is quarantined therefore stays hidden (`reregistered_hidden`), although
`_record_failure` announces the quarantine as lasting "until the engine is re-registered" (`router.py:204-219`).
-/

namespace SynnoDB.Router

open History

inductive RegistryAct where
  | register (b : EngineBinding)
  | unregister (normalizedSql : String)
  | markTablesDirty (tables : List String)
  | clearDirty (tables : Option (List String))
  | quarantine (templateId : String)
  | resetQuarantine (templateId : Option String)
deriving DecidableEq

namespace TemplateRegistry

def act (r : TemplateRegistry) : RegistryAct → TemplateRegistry
  | .register b => r.register b
  | .unregister k => r.unregister k
  | .markTablesDirty ts => r.markTablesDirty ts
  | .clearDirty ts => r.clearDirty ts
  | .quarantine t => r.quarantine t
  | .resetQuarantine t => r.resetQuarantine t

def run (r : TemplateRegistry) (acts : List RegistryAct) : TemplateRegistry := acts.foldl act r

end TemplateRegistry

/-! ## The law -/

/-- The act decides what is bound under the key. -/
def RegistryAct.Rebinds (k : String) : RegistryAct → Prop
  | .register b => b.normalizedSql = k
  | .unregister k' => k' = k
  | _ => False

def RegistryAct.Quarantines (t : String) (a : RegistryAct) : Prop := a = .quarantine t

/-- A reset that covers the template. -/
def RegistryAct.Resets (t : String) (a : RegistryAct) : Prop := a = .resetQuarantine none ∨ a = .resetQuarantine (some t)

abbrev QuarantinedSince (t : String) (acts : List RegistryAct) : Prop :=
  Since (RegistryAct.Quarantines t) (RegistryAct.Resets t) acts

/-- The last registration under the key, with what came before and after it; it was not taken back. -/
structure LatestRegistration (acts : List RegistryAct) (k : String) (b : EngineBinding)
    (before after : List RegistryAct) : Prop where
  split : acts = before ++ .register b :: after
  key : b.normalizedSql = k
  kept : ∀ a ∈ after, ¬ a.Rebinds k

/-- What `match` is to return: the latest binding, if it was not quarantined since it was registered. -/
def Routable (acts : List RegistryAct) (k : String) (b : EngineBinding) : Prop :=
  ∃ before after, LatestRegistration acts k b before after ∧ ¬ QuarantinedSince b.templateId after

/-- When the latest binding was registered its template was not under quarantine, unless a reset or another quarantine
came after. -/
def RegisteredClear (acts : List RegistryAct) (k : String) : Prop :=
  ∀ b before after, LatestRegistration acts k b before after → QuarantinedSince b.templateId before →
    QuarantinedSince b.templateId after ∨ ∃ a ∈ after, a.Resets b.templateId

/-! ## What a run leaves -/

variable {acts before after : List RegistryAct} {k t : String} {b : EngineBinding}

theorem get_act (r : TemplateRegistry) (a : RegistryAct) :
    (r.act a).byNorm.get k = some b ↔
      (a = .register b ∧ b.normalizedSql = k) ∨ r.byNorm.get k = some b ∧ ¬ a.Rebinds k := by
  cases a with
  | register c =>
    simp only [TemplateRegistry.act, TemplateRegistry.register, Dict.get_set, RegistryAct.Rebinds,
      RegistryAct.register.injEq]
    by_cases hk : c.normalizedSql = k
    · rw [if_pos hk]
      constructor
      · rintro ⟨rfl⟩
        exact .inl ⟨rfl, hk⟩
      · rintro (⟨rfl, -⟩ | ⟨-, hne⟩)
        · rfl
        · exact absurd hk hne
    · rw [if_neg hk]
      constructor
      · intro h
        exact .inr ⟨h, hk⟩
      · rintro (⟨rfl, heq⟩ | ⟨h, -⟩)
        · exact absurd heq hk
        · exact h
  | unregister k' =>
    simp only [TemplateRegistry.act, TemplateRegistry.unregister, Dict.get_erase, RegistryAct.Rebinds]
    by_cases hk : k' = k
    · simp [hk]
    · simp [hk]
  | _ => simp [TemplateRegistry.act, TemplateRegistry.markTablesDirty, TemplateRegistry.clearDirty,
      TemplateRegistry.quarantine, TemplateRegistry.resetQuarantine, RegistryAct.Rebinds]

theorem mem_quarantined_act (r : TemplateRegistry) (a : RegistryAct) :
    t ∈ (r.act a).quarantined ↔ a.Quarantines t ∨ t ∈ r.quarantined ∧ ¬ a.Resets t := by
  cases a with
  | quarantine u =>
    simp only [TemplateRegistry.act, TemplateRegistry.mem_quarantine, RegistryAct.Quarantines, RegistryAct.Resets,
      RegistryAct.quarantine.injEq, reduceCtorEq, or_self, not_false_eq_true, and_true]
    exact or_congr_left eq_comm
  | resetQuarantine u =>
    cases u with
    | none => simp [TemplateRegistry.act, TemplateRegistry.resetQuarantine, RegistryAct.Quarantines, RegistryAct.Resets]
    | some u =>
      simp only [TemplateRegistry.act, TemplateRegistry.resetQuarantine, RegistryAct.Quarantines, RegistryAct.Resets,
        List.mem_filter, decide_eq_true_eq, reduceCtorEq, false_or, RegistryAct.resetQuarantine.injEq,
          Option.some.injEq]
      exact and_congr_right fun _ => not_congr eq_comm
  | _ => simp [TemplateRegistry.act, TemplateRegistry.register, TemplateRegistry.unregister,
      TemplateRegistry.markTablesDirty, TemplateRegistry.clearDirty, RegistryAct.Quarantines, RegistryAct.Resets]

/-- The map holds the latest registrations. -/
theorem get_run : (TemplateRegistry.run {} acts).byNorm.get k = some b ↔ ∃ before after,
    LatestRegistration acts k b before after := by
  have hsince := foldl_since (P := fun r : TemplateRegistry => r.byNorm.get k = some b) (s := {}) (by simp)
    get_act acts
  refine hsince.trans ⟨?_, ?_⟩
  · rintro ⟨before, x, after, hsplit, ⟨rfl, hkey⟩, hkept⟩
    exact ⟨before, after, hsplit, hkey, hkept⟩
  · rintro ⟨before, after, hsplit, hkey, hkept⟩
    exact ⟨before, _, after, hsplit, ⟨rfl, hkey⟩, hkept⟩

/-- The quarantine holds what was quarantined and not reset since. -/
theorem mem_quarantined_run : t ∈ (TemplateRegistry.run {} acts).quarantined ↔ QuarantinedSince t acts :=
  foldl_since (P := fun r : TemplateRegistry => t ∈ r.quarantined) (s := {}) (by simp) mem_quarantined_act acts

theorem match_run : (TemplateRegistry.run {} acts).match? k = some b ↔
    (∃ before after, LatestRegistration acts k b before after) ∧ ¬ QuarantinedSince b.templateId acts := by
  rw [← get_run, ← mem_quarantined_run]
  unfold TemplateRegistry.match? TemplateRegistry.isQuarantined
  split
  · rename_i hnone
    simp [hnone]
  · rename_i c hc
    rw [hc]
    by_cases hq : c.templateId ∈ (TemplateRegistry.run {} acts).quarantined
    · rw [if_pos (by simpa using hq)]
      constructor
      · intro h
        cases h
      · rintro ⟨⟨rfl⟩, hno⟩
        exact absurd hq hno
    · rw [if_neg (by simpa using hq)]
      constructor
      · rintro ⟨rfl⟩
        exact ⟨rfl, hq⟩
      · rintro ⟨h, -⟩
        exact h

/-- The quarantine of a whole run, seen from the registration. -/
theorem LatestRegistration.quarantined_iff (h : LatestRegistration acts k b before after) : QuarantinedSince t acts ↔
    QuarantinedSince t after ∨ QuarantinedSince t before ∧ ∀ a ∈ after, ¬ a.Resets t := by
  have hreg : QuarantinedSince t (before ++ [.register b]) ↔ QuarantinedSince t before := by
    refine since_concat.trans ?_
    simp [RegistryAct.Quarantines, RegistryAct.Resets]
  rw [h.split, List.append_cons]
  exact since_append.trans (or_congr_right (and_congr_left' hreg))

/-- **`match` returns the latest binding exactly when its template was not quarantined since it was registered** if and
only if no binding is registered into a quarantine that is left alone. -/
theorem match_law_iff (acts : List RegistryAct) (k : String) :
    (∀ b, (TemplateRegistry.run {} acts).match? k = some b ↔ Routable acts k b) ↔ RegisteredClear acts k := by
  constructor
  · intro hlaw b before after hlatest hbefore
    by_contra hno
    obtain ⟨hafter, hresets⟩ := not_or.1 hno
    have hmatch := (hlaw b).2 ⟨before, after, hlatest, hafter⟩
    refine (match_run.1 hmatch).2 (hlatest.quarantined_iff.2 (.inr ⟨hbefore, fun a ha hr => hresets ⟨a, ha, hr⟩⟩))
  · intro hclear b
    rw [match_run]
    constructor
    · rintro ⟨⟨before, after, hlatest⟩, hno⟩
      exact ⟨before, after, hlatest, fun hafter => hno (hlatest.quarantined_iff.2 (.inl hafter))⟩
    · rintro ⟨before, after, hlatest, hafter⟩
      refine ⟨⟨before, after, hlatest⟩, fun hq => ?_⟩
      rcases hlatest.quarantined_iff.1 hq with h | ⟨hbefore, hresets⟩
      · exact hafter h
      · rcases hclear b before after hlatest hbefore with h | ⟨a, ha, hr⟩
        · exact hafter h
        · exact hresets a ha hr

/-! ## Registered again -/

def countBinding : EngineBinding where
  templateId := "e::1"
  normalizedSql := "SELECT COUNT(*) FROM t"
  queryId := "1"
  engineId := "e"
  placeholders := []
  outputSchema := []
  tables := ["t"]
  schemaFingerprint := ""
  engine := some 0

/-- A failing engine is quarantined and registered again. -/
def runReregister : List RegistryAct := [.register countBinding, .quarantine "e::1", .register countBinding]

theorem reregistered_hidden : (TemplateRegistry.run {} runReregister).match? countBinding.normalizedSql = none ∧
    Routable runReregister countBinding.normalizedSql countBinding := by
  refine ⟨by decide, [.register countBinding, .quarantine "e::1"], [], ⟨rfl, rfl, nofun⟩, since_nil⟩

end SynnoDB.Router
