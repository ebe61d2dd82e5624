import SynnoDB.Lib.Trace
import SynnoDB.Router.Registry

/-!
# Handles on one router (`duckdb_compat/connection.py:83-91`, `:417-463`)

| here | there |
| --- | --- |
| `Handle`       | a `SynnoConnection`: `_owns_inner`, its DuckDB connection, how often it was closed |
| `Conns`        | the handles of one router, the shared `_engine_refcount`, the router's registry (`none`: no router) |
| `closed`       | the engines whose `close` was called; `closable` says which have a callable one |

`close` decrements the shared count whether or not this handle was closed before, so `with con: con.close()`
gives up the share of another handle and its engines are closed under it (`closed_under_cursor`).
-/

namespace SynnoDB.Compat

open SynnoDB.Router

structure Handle where
  ownsInner : Bool := true
  innerOpen : Bool := true
  /-- Calls of `close()` on this handle. -/
  closes : Nat := 0
deriving DecidableEq, Repr

structure Conns where
  handles : List Handle
  refcount : Int
  registry : Option TemplateRegistry
  closed : List Nat := []
deriving Repr

inductive ConnAct where
  | cursor (h : Nat)
  | close (h : Nat)
  | register (h : Nat) (b : EngineBinding)

/-- The loop of `_close_engines` over the bindings. -/
def closeLoop (closable : Nat → Bool) : List EngineBinding → List Nat → List Nat → List Nat
  | [], _, closed => closed
  | b :: bs, seen, closed => match b.engine with
    | none => closeLoop closable bs seen closed
    | some e =>
      if e ∈ seen then closeLoop closable bs seen closed
      else closeLoop closable bs (e :: seen) (if closable e then e :: closed else closed)

def TemplateRegistry.bindings (r : TemplateRegistry) : List EngineBinding := r.byNorm.map Prod.snd

namespace Conns

variable (closable : Nat → Bool)

def closeEngines (s : Conns) : List Nat :=
  match s.registry with
  | none => s.closed
  | some r => closeLoop closable (TemplateRegistry.bindings r) [] s.closed

/-- The connection that made the router: the count starts at 0 and takes this handle in. -/
def connect (ownsInner : Bool) (registry : Option TemplateRegistry) : Conns :=
  { handles := [{ ownsInner }], refcount := 1, registry }

def cursor (s : Conns) : Conns := { s with handles := s.handles ++ [{}], refcount := s.refcount + 1 }

def close (s : Conns) (i : Nat) : Conns :=
  let refcount := s.refcount - 1
  { s with
    handles := s.handles.modify i fun h =>
      { h with innerOpen := h.innerOpen && !h.ownsInner, closes := h.closes + 1 }
    refcount
    closed := if refcount ≤ 0 then s.closeEngines closable else s.closed }

/-- `cursor()` and whatever registers an engine are called on live handles, `close()` on any. -/
def step (s : Conns) : ConnAct → Option Conns
  | .cursor i => match s.handles[i]? with
    | some h => if h.closes = 0 then some s.cursor else none
    | none => none
  | .close i => if i < s.handles.length then some (s.close closable i) else none
  | .register i b => match s.handles[i]? with
    | some h => if h.closes = 0 then some { s with registry := s.registry.map (·.register b) } else none
    | none => none

def Registered (s : Conns) (e : Nat) : Prop :=
  ∃ r, s.registry = some r ∧ ∃ b ∈ TemplateRegistry.bindings r, b.engine = some e

def AllClosed (s : Conns) : Prop := ∀ h ∈ s.handles, 0 < h.closes

/-- The engines are closed when the last handle is, and not before. -/
structure ClosedWithLast (s : Conns) : Prop where
  notBefore : ∀ e, s.Registered e → e ∈ s.closed → s.AllClosed
  atLast : s.AllClosed → ∀ e, s.Registered e → closable e = true → e ∈ s.closed

/-- A handle is closed a second time only after all the others. -/
def closedOnce (s : Conns) : ConnAct → Bool
  | .close i => (s.handles[i]?).all (·.closes = 0) || s.handles.all (0 < ·.closes)
  | _ => true

/-- How many handles were never closed. -/
def live (s : Conns) : Nat := s.handles.countP (·.closes = 0)

end Conns

open Conns

variable {closable : Nat → Bool} {s s' : Conns} {e i : Nat}

/-! ## `_close_engines` -/

theorem mem_closeLoop : ∀ {bs : List EngineBinding} {seen closed : List Nat}, e ∈ closeLoop closable bs seen closed ↔
    e ∈ closed ∨ closable e = true ∧ e ∉ seen ∧ ∃ b ∈ bs, b.engine = some e
  | [], seen, closed => by simp [closeLoop]
  | b :: bs, seen, closed => by
    simp only [closeLoop, List.mem_cons, exists_eq_or_imp]
    split
    · rename_i hb
      rw [mem_closeLoop, hb]
      simp
    · rename_i f hb
      rw [hb]
      split
      · rename_i hf
        rw [mem_closeLoop]
        constructor
        · rintro (h | ⟨h1, h2, h3⟩)
          · exact .inl h
          · exact .inr ⟨h1, h2, .inr h3⟩
        · rintro (h | ⟨h1, h2, h3 | h3⟩)
          · exact .inl h
          · cases h3
            exact absurd hf h2
          · exact .inr ⟨h1, h2, h3⟩
      · rename_i hf
        rw [mem_closeLoop]
        by_cases hef : e = f
        · subst hef
          cases hc : closable e <;> simp [hf]
        · have hne : some f ≠ some e := fun h => hef (Option.some.inj h).symm
          split <;> simp [hef, hne]

theorem mem_closeEngines : e ∈ s.closeEngines closable ↔ e ∈ s.closed ∨ closable e = true ∧ s.Registered e := by
  unfold closeEngines Registered
  cases s.registry with
  | none => simp
  | some r => simp [mem_closeLoop]

/-! ## The count -/

theorem live_eq_zero : s.live = 0 ↔ s.AllClosed := by
  rw [live, List.countP_eq_zero]
  constructor
  · intro h p hp
    have := h p hp
    simp only [decide_eq_true_eq] at this
    omega
  · intro h p hp
    have := h p hp
    simp only [decide_eq_true_eq]
    omega

theorem live_cursor : s.cursor.live = s.live + 1 := by
  simp [cursor, live]

theorem countP_close : ∀ {hs : List Handle} {i : Nat} {h : Handle}, hs[i]? = some h →
    (hs.modify i fun h => { h with innerOpen := h.innerOpen && !h.ownsInner, closes := h.closes + 1 }).countP
        (·.closes = 0) + (if h.closes = 0 then 1 else 0) = hs.countP (·.closes = 0)
  | [], i, h, hi => by cases hi
  | g :: hs, 0, h, hi => by
    cases hi
    rw [List.modify_zero_cons, List.countP_cons, List.countP_cons]
    by_cases hg : g.closes = 0 <;> simp [hg]
  | g :: hs, i + 1, h, hi => by
    have ih := @countP_close hs i h hi
    rw [List.modify_succ_cons, List.countP_cons, List.countP_cons]
    omega

theorem live_close {h : Handle} (hi : s.handles[i]? = some h) :
    (s.close closable i).live + (if h.closes = 0 then 1 else 0) = s.live :=
  countP_close hi

/-! ## The invariant -/

/-- The count is the number of live handles, or there are none and it has fallen to 0 or below. -/
structure Inv (closable : Nat → Bool) (s : Conns) : Prop where
  count : s.live = s.refcount ∨ s.live = 0 ∧ s.refcount ≤ 0
  before : 0 < s.live → s.closed = []
  after : s.live = 0 → ∀ e, s.Registered e → closable e = true → e ∈ s.closed

theorem Inv.closedWithLast (h : Inv closable s) : s.ClosedWithLast closable := by
  constructor
  · intro e _ he
    rw [← live_eq_zero]
    by_contra hlive
    rw [h.before (by omega)] at he
    cases he
  · intro hall
    exact h.after (live_eq_zero.2 hall)

theorem inv_connect (ownsInner : Bool) (registry : Option TemplateRegistry) :
    Inv closable (connect ownsInner registry) := by
  have hlive : (connect ownsInner registry).live = 1 := rfl
  constructor
  · left
    rw [hlive]
    rfl
  · intro _
    rfl
  · intro h
    rw [hlive] at h
    omega

theorem inv_close {h : Handle} (hinv : Inv closable s) (hi : s.handles[i]? = some h)
    (hok : h.closes = 0 ∨ s.live = 0) : Inv closable (s.close closable i) := by
  have hlive := @live_close closable _ _ _ hi
  have hcount : (s.close closable i).refcount = s.refcount - 1 := rfl
  have hclosed : (s.close closable i).closed =
    if s.refcount - 1 ≤ 0 then s.closeEngines closable else s.closed := rfl
  have hreg : ∀ e, (s.close closable i).Registered e ↔ s.Registered e := fun _ => Iff.rfl
  have hle : s.refcount - 1 ≤ 0 ↔ (s.close closable i).live = 0 := by
    rcases hinv.count with hc | ⟨hz, hc⟩
    · rcases hok with hok | hok
      · rw [if_pos hok] at hlive
        omega
      · omega
    · omega
  constructor
  · rw [hcount]
    rcases hinv.count with hc | ⟨hz, hc⟩
    · rcases hok with hok | hok
      · rw [if_pos hok] at hlive
        omega
      · omega
    · omega
  · intro hpos
    have hnot : ¬ s.refcount - 1 ≤ 0 := by
      rw [hle]
      omega
    rw [hclosed, if_neg hnot]
    exact hinv.before (by omega)
  · intro hz e he hc
    rw [hclosed, if_pos (hle.2 hz), mem_closeEngines]
    exact .inr ⟨hc, (hreg e).1 he⟩

theorem inv_step {a : ConnAct} (h : Inv closable s) (hok : s.closedOnce a = true)
    (hs : s.step closable a = some s') : Inv closable s' := by
  cases a with
  | cursor i =>
    simp only [step] at hs
    split at hs
    · simp only [Option.ite_none_right_eq_some, Option.some.injEq] at hs
      obtain ⟨hl, rfl⟩ := hs
      rename_i g hi
      have hpos : 0 < s.live := List.countP_pos_iff.2 ⟨g, List.mem_of_getElem? hi, by simpa using hl⟩
      have hlive := live_cursor (s := s)
      have hcount : s.cursor.refcount = s.refcount + 1 := rfl
      constructor
      · left
        rcases h.count with hc | hc <;> omega
      · intro _
        exact h.before hpos
      · intro hz
        omega
    · cases hs
  | close i =>
    simp only [step, Option.ite_none_right_eq_some, Option.some.injEq] at hs
    obtain ⟨hi, rfl⟩ := hs
    have hget := List.getElem?_eq_getElem hi
    refine inv_close h hget ?_
    simp only [closedOnce, hget, Option.all_some, Bool.or_eq_true, decide_eq_true_eq] at hok
    rcases hok with hok | hok
    · exact .inl hok
    · right
      rw [live_eq_zero]
      intro p hp
      simpa using List.all_eq_true.1 hok p hp
  | register i b =>
    simp only [step] at hs
    split at hs
    · simp only [Option.ite_none_right_eq_some, Option.some.injEq] at hs
      obtain ⟨hl, rfl⟩ := hs
      rename_i g hi
      have hpos : 0 < s.live := List.countP_pos_iff.2 ⟨g, List.mem_of_getElem? hi, by simpa using hl⟩
      refine ⟨h.count, h.before, fun hz => ?_⟩
      have hz : s.live = 0 := hz
      omega
    · cases hs

/-- **The last handle closes the engines** in every run that closes no handle a second time while another is
live. -/
theorem engines_closed_with_last (closable : Nat → Bool) (ownsInner : Bool) (registry : Option TemplateRegistry)
    (acts : List ConnAct) (s : Conns)
    (hok : Trace.Meets (step closable) (fun s a => s.closedOnce a = true) (connect ownsInner registry) acts)
    (hrun : Trace.exec (step closable) (connect ownsInner registry) acts = some s) : s.ClosedWithLast closable := by
  have hinv := Trace.exec_invariant (I := Inv closable) (fun _ _ _ hi hok hs => inv_step hi hok hs)
    (inv_connect ownsInner registry) hok hrun
  exact hinv.closedWithLast

def oneEngine : TemplateRegistry :=
  { byNorm := [("q", ⟨"t", "q", "1", "e", [], [], [], "", some 7, none⟩)] }

theorem engines_closed_with_cursor : ∃ s,
    Trace.exec (step fun _ => true) (connect true (some oneEngine)) [.cursor 0, .close 0, .close 1] = some s ∧
    s.closed = [7] ∧ s.ClosedWithLast fun _ => true :=
  ⟨_, rfl, rfl, engines_closed_with_last (fun _ => true) true (some oneEngine) [.cursor 0, .close 0, .close 1] _
    (Trace.meets_of_check (by decide)) rfl⟩

/-- `with con: con.close()` while a cursor of `con` is in use. -/
theorem closed_under_cursor : ∃ s,
    Trace.exec (step fun _ => true) (connect true (some oneEngine)) [.cursor 0, .close 0, .close 0] = some s ∧
    s.Registered 7 ∧ 7 ∈ s.closed ∧ ¬ s.AllClosed ∧ ¬ s.ClosedWithLast fun _ => true := by
  refine ⟨_, rfl, ⟨_, rfl, _, List.mem_singleton_self _, rfl⟩, by decide, ?_, ?_⟩
  · intro h
    exact absurd (h {} (by decide)) (by decide)
  · intro h
    have hall := h.notBefore 7 ⟨_, rfl, _, List.mem_singleton_self _, rfl⟩ (by decide)
    exact absurd (hall {} (by decide)) (by decide)

end SynnoDB.Compat
