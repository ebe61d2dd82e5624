import Mathlib.Data.List.Perm.Subperm
import SynnoDB.Lib.MapM
import SynnoDB.Router.Meaning

/-!
# Binding an inline statement to a template with markers (`normalize.py:511-639`, `:712-834`)

`aligned` pairs each marker of the template with what stands there in the statement. `_unify` succeeds
where the trees agree elsewhere and the values at equal names are loosely equal (`unify_eq`), and then the
template with its markers replaced is the statement iff each marker is replaced by the constant it stands
at (`instantiate_eq_iff`). So everything depends on what `_value_of` makes of a sub-expression: it is the
constant exactly for a literal, a signed number and a typed literal that keeps its value (`plain_sound`,
`plain_complete`). `CAST(2.7 AS INT)` becomes 2.7 and `CAST(-5 AS INT)` becomes 5, and of a repeated name
the last constant is kept, be they `1` and `'1'` (`cast_dropped`).
-/

namespace SynnoDB.Router

/-- What stands at a marker of the template: an expression, or the members of a whole `IN` list. -/
inductive Occurrence where
  | one (e : Statement)
  | many (es : List Statement)

abbrev Alignment := List (Marker × Occurrence)

namespace Expr

mutual
def aligned : Statement → Statement → Option Alignment
  | .paren t, i => aligned t i
  | .placeholder m, i => some [(m, .one i)]
  | .parameter n, i => some [(.named n, .one i)]
  | .const k, i => match unparen i with
    | .const l => if k = l then some [] else none
    | _ => none
  | .neg t, i => match unparen i with
    | .neg i => aligned t i
    | _ => none
  | .cast t ty, i => match unparen i with
    | .cast i ty' => if ty = ty' then aligned t i else none
    | _ => none
  | .isIn t ts, i => match unparen i with
    | .isIn i is => (aligned t i).bind fun l => (alignedL ts is).map (l ++ ·)
    | _ => none
  | .inField t f, i => match unparen i, f with
    | .isIn i ms, .placeholder m =>
      if ms ≠ [] ∧ ms.all isConstant ∧ ms.any hasNullOrBoolean = false then
        (aligned t i).bind fun l => some (l ++ [(m, .many ms)])
      else none
    | .inField i g, f => (aligned t i).bind fun l => (aligned f g).map (l ++ ·)
    | _, _ => none
  | .node h ts, i => match unparen i with
    | .node h' is => if h = h' then alignedL ts is else none
    | _ => none
def alignedL : List Statement → List Statement → Option Alignment
  | [], [] => some []
  | t :: ts, i :: is => (aligned t i).bind fun l => (alignedL ts is).map (l ++ ·)
  | _, _ => none
end

end Expr

namespace Occurrence

/-- What the binder takes the occurrence for. -/
def bound (render : Statement → String) : Occurrence → PyValue
  | .one e => .one (e.valueOf render)
  | .many es => .tuple (es.map (Expr.valueOf render))

/-- The constant that stands there, if it is one. -/
def constant (preserves : Preserves) : Occurrence → Option PyValue
  | .one e => (e.meaning preserves).value
  | .many es => (es.mapM fun e => (Expr.meaning preserves e).atom).map .tuple

def item (render : Statement → String) (p : Marker × Occurrence) : Marker × PyValue := (p.1, p.2.bound render)

end Occurrence

variable {render : Statement → String} {preserves : Preserves}

/-! ## `_unify` is alignment and recording -/

theorem bind_record (a b : Option Alignment) (bound : Bound) :
    ((a.bind fun l => b.map (l ++ ·)).bind fun l => recordAll (l.map (Occurrence.item render)) bound) =
      (a.bind fun l => recordAll (l.map (Occurrence.item render)) bound).bind fun bound =>
        b.bind fun l => recordAll (l.map (Occurrence.item render)) bound := by
  cases a with
  | none => rfl
  | some l =>
    cases b with
    | none => simp
    | some l' => simp [recordAll_append]

namespace Expr

mutual
theorem unify_eq : ∀ (t i : Statement) (bound : Bound), unify render t i bound =
    (aligned t i).bind fun l => recordAll (l.map (Occurrence.item render)) bound
  | .paren t, i, bound => unify_eq t i bound
  | .placeholder m, i, bound => by simp [unify, aligned, recordAll, Occurrence.item, Occurrence.bound]
  | .parameter n, i, bound => by simp [unify, aligned, recordAll, Occurrence.item, Occurrence.bound]
  | .const k, i, bound => by
    cases hi : unparen i <;> simp only [unify, aligned, hi, Option.bind_none]
    split <;> rfl
  | .neg t, i, bound => by
    cases hi : unparen i <;> simp only [unify, aligned, hi, Option.bind_none]
    exact unify_eq t _ bound
  | .cast t ty, i, bound => by
    cases hi : unparen i <;> simp only [unify, aligned, hi, Option.bind_none]
    split
    · exact unify_eq t _ bound
    · rfl
  | .isIn t ts, i, bound => by
    cases hi : unparen i <;> simp only [unify, aligned, hi, Option.bind_none]
    rename_i i is
    rw [bind_record, unify_eq t i bound]
    congr 1
    funext bound'
    exact unifyL_eq ts is bound'
  | .inField t f, i, bound => by
    unfold unify aligned
    cases hi : unparen i
    case isIn i ms =>
      cases f with
      | placeholder m =>
        dsimp only
        split
        · rw [unify_eq t i bound, Option.bind_assoc, Option.bind_assoc]
          congr 1
          funext l
          simp only [Option.bind_some, List.map_append, recordAll_append]
          congr 1
          funext bound'
          simp [recordAll, Occurrence.item, Occurrence.bound]
        · rfl
      | _ => rfl
    case inField i g =>
      dsimp only
      rw [bind_record, unify_eq t i bound]
      congr 1
      funext bound'
      exact unify_eq f g bound'
    all_goals rfl
  | .node h ts, i, bound => by
    cases hi : unparen i <;> simp only [unify, aligned, hi, Option.bind_none]
    split
    · exact unifyL_eq ts _ bound
    · rfl
theorem unifyL_eq : ∀ (ts is : List Statement) (bound : Bound), unifyL render ts is bound =
    (alignedL ts is).bind fun l => recordAll (l.map (Occurrence.item render)) bound
  | [], [], bound => rfl
  | [], _ :: _, bound => rfl
  | _ :: _, [], bound => rfl
  | t :: ts, i :: is, bound => by
    simp only [unifyL, alignedL]
    rw [bind_record, unify_eq t i bound]
    congr 1
    funext bound'
    exact unifyL_eq ts is bound'
end

end Expr

/-! ## Replacing the markers -/

/-- The marker is replaced by the constant it stands at. -/
def Carries (preserves : Preserves) (σ : Marker → Option PyValue) (p : Marker × Occurrence) : Prop :=
  ∃ v, σ p.1 = some v ∧ p.2.constant preserves = some v

namespace Expr

variable {σ : Marker → Option PyValue}

/-- A marker alone. -/
theorem marker_eq_iff {m : Marker} {i : Statement} :
    assigned σ m = meaning preserves i ↔ Carries preserves σ (m, .one i) := by
  simp only [Carries, Occurrence.constant, assigned]
  cases hσ : σ m with
  | none => simpa using (meaning_ne i).2.symm
  | some v =>
    simp only [Option.some.injEq, exists_eq_left']
    cases hm : meaning preserves i <;> simp [Term.value, eq_comm]

theorem readL_eq_consts {cs : List Const} : ∀ {es : List Statement},
    readL preserves .marker es = (cs.map fun c => Term.const (.one c)) ↔
      (es.mapM fun e => (meaning preserves e).atom) = some cs := by
  induction cs with
  | nil =>
    intro es
    cases es with
    | nil => simp [readL]
    | cons e es => simp [readL, Option.bind_eq_some_iff]
  | cons c cs ih =>
    intro es
    cases es with
    | nil => simp [readL]
    | cons e es =>
      simp only [readL, List.map_cons, List.cons.injEq, ih, List.mapM_cons, Option.bind_eq_bind, Option.pure_def,
        Option.bind_eq_some_iff, Option.some.injEq, ← Term.atom_eq_some]
      constructor
      · rintro ⟨h1, h2⟩
        exact ⟨c, h1, cs, h2, rfl, rfl⟩
      · rintro ⟨c', h1, cs', h2, rfl, rfl⟩
        exact ⟨h1, h2⟩

theorem meaning_unparen (i : Statement) : meaning preserves i = meaning preserves i.unparen :=
  (read_unparen _ i).symm

mutual
/-- **Template and statement**: where they align, the template with its markers replaced is the statement
iff each marker is replaced by the constant it stands at. -/
theorem instantiate_eq_iff : ∀ {t i : Statement} {l : Alignment}, aligned t i = some l →
    (instantiate preserves σ t = meaning preserves i ↔ ∀ p ∈ l, Carries preserves σ p)
  | .paren t, i, l, h => instantiate_eq_iff (t := t) h
  | .placeholder m, i, l, h => by
    cases h
    simpa [instantiate, read] using marker_eq_iff
  | .parameter n, i, l, h => by
    cases h
    simpa [instantiate, read] using marker_eq_iff
  | .const k, i, l, h => by
    rw [meaning_unparen]
    cases hi : unparen i <;> simp only [aligned, hi, reduceCtorEq, Option.ite_none_right_eq_some] at h
    obtain ⟨rfl, h⟩ := h
    cases h
    simp [instantiate, meaning, read]
  | .neg t, i, l, h => by
    rw [meaning_unparen]
    cases hi : unparen i <;> simp only [aligned, hi, reduceCtorEq] at h
    rw [← instantiate_eq_iff h]
    exact ⟨Term.negate_inj, congrArg Term.negate⟩
  | .cast t ty, i, l, h => by
    rw [meaning_unparen]
    cases hi : unparen i <;> simp only [aligned, hi, reduceCtorEq, Option.ite_none_right_eq_some] at h
    obtain ⟨rfl, h⟩ := h
    rw [← instantiate_eq_iff h]
    exact ⟨Term.castTo_inj, congrArg fun x : Term => x.castTo preserves ty⟩
  | .isIn t ts, i, l, h => by
    rw [meaning_unparen]
    cases hi : unparen i <;> simp only [aligned, hi, reduceCtorEq] at h
    obtain ⟨l₁, h1, h⟩ := Option.bind_eq_some_iff.1 h
    obtain ⟨l₂, h2, rfl⟩ := Option.map_eq_some_iff.1 h
    rw [List.forall_mem_append, ← instantiate_eq_iff h1, ← instantiateL_eq_iff h2]
    simp [instantiate, meaning, read]
  | .inField t f, i, l, h => by
    rw [meaning_unparen]
    unfold aligned at h
    cases hi : unparen i <;> simp only [hi, reduceCtorEq] at h
    case isIn i ms =>
      cases f with
      | placeholder m =>
        simp only [Option.ite_none_right_eq_some] at h
        obtain ⟨l₁, h1, h⟩ := Option.bind_eq_some_iff.1 h.2
        cases h
        rw [List.forall_mem_append, ← instantiate_eq_iff h1]
        simp only [instantiate, meaning, read, Term.inList_eq_isIn_iff, List.mem_singleton, forall_eq, Carries,
          Occurrence.constant]
        refine and_congr_right fun _ => ?_
        constructor
        · rintro ⟨cs, hy, hms⟩
          refine ⟨.tuple cs, ?_, ?_⟩
          · simp only [assigned] at hy
            split at hy
            · rename_i v hσ
              cases hy
              exact hσ
            · cases hy
          · simpa [meaning] using congrArg (Option.map PyValue.tuple) (readL_eq_consts.1 hms)
        · rintro ⟨v, hσ, hv⟩
          obtain ⟨cs, hcs, rfl⟩ := Option.map_eq_some_iff.1 hv
          exact ⟨cs, by simp [assigned, hσ], readL_eq_consts.2 hcs⟩
      | _ => cases h
    case inField i g =>
      obtain ⟨l₁, h1, h⟩ := Option.bind_eq_some_iff.1 h
      obtain ⟨l₂, h2, rfl⟩ := Option.map_eq_some_iff.1 h
      rw [List.forall_mem_append, ← instantiate_eq_iff h1, ← instantiate_eq_iff h2]
      have hg := (@meaning_ne preserves g).1
      simp only [instantiate, meaning, read] at hg ⊢
      rw [Term.inList_of_noTuple hg, Term.inList_eq_inField_iff]
      constructor
      · rintro ⟨h1, h2, -⟩
        exact ⟨h1, h2⟩
      · rintro ⟨h1, h2⟩
        exact ⟨h1, h2, h2 ▸ hg⟩
  | .node hd ts, i, l, h => by
    rw [meaning_unparen]
    cases hi : unparen i <;> simp only [aligned, hi, reduceCtorEq, Option.ite_none_right_eq_some] at h
    obtain ⟨rfl, h⟩ := h
    rw [← instantiateL_eq_iff h]
    simp [instantiate, meaning, read]
theorem instantiateL_eq_iff : ∀ {ts is : List Statement} {l : Alignment}, alignedL ts is = some l →
    (readL preserves (assigned σ) ts = readL preserves .marker is ↔ ∀ p ∈ l, Carries preserves σ p)
  | [], [], l, h => by cases h; simp [readL]
  | [], _ :: _, l, h => by cases h
  | _ :: _, [], l, h => by cases h
  | t :: ts, i :: is, l, h => by
    obtain ⟨l₁, h1, h⟩ := Option.bind_eq_some_iff.1 h
    obtain ⟨l₂, h2, rfl⟩ := Option.map_eq_some_iff.1 h
    rw [List.forall_mem_append, ← instantiate_eq_iff h1, ← instantiateL_eq_iff h2]
    simp [instantiate, meaning, readL]
end

end Expr

/-! ## Plain constants -/

/-- A number whose negation the decimal context does not round. -/
def Const.signFits : Const → Bool
  | .int _ => true
  | .dec c _ => c.natAbs < decimalPrec
  | _ => false

namespace Expr

/-- A literal, a boolean, NULL, a signed number, or a typed literal: one literal, whose value the cast keeps. -/
def plain (preserves : Preserves) : Statement → Bool
  | .const _ => true
  | .paren e => plain preserves e
  | .neg e => plain preserves e && (meaning preserves e).atom.any Const.signFits
  | .cast e ty => match literals (.cast e ty) with
    | [k] => (meaning preserves (.cast e ty)).atom = some k.value
    | _ => false
  | _ => false

end Expr

theorem roundDigits_fits {n : Nat} (h : ¬ n < decimalPrec) : (roundDigits n).1 < decimalPrec := by
  have hlog : 28 ≤ Nat.log 10 n := by
    refine Nat.le_log_of_pow_le (by decide) ?_
    simpa [decimalPrec] using h
  have hq : n / 10 ^ (Nat.log 10 n + 1 - 28) < decimalPrec := by
    rw [Nat.div_lt_iff_lt_mul (Nat.pow_pos (by decide))]
    calc n < 10 ^ (Nat.log 10 n + 1) := Nat.lt_pow_succ_log_self (by decide) n
      _ = decimalPrec * 10 ^ (Nat.log 10 n + 1 - 28) := by
        rw [decimalPrec, ← Nat.pow_add]
        congr 1
        omega
  have hr : roundHalfEven n (10 ^ (Nat.log 10 n + 1 - 28)) ≤ decimalPrec := by
    unfold roundHalfEven
    split <;> omega
  unfold roundDigits
  dsimp only
  split
  · exact Nat.pow_lt_pow_right (by decide) (by decide)
  · simp only
    omega

theorem decRound_fits {c e c' e' : Int} (h : decRound c e = .dec c' e') : c'.natAbs < decimalPrec := by
  unfold decRound at h
  split at h
  · cases h; assumption
  · rename_i hbig
    cases h
    refine Nat.lt_of_le_of_lt ?_ (roundDigits_fits hbig)
    rw [Int.natAbs_mul, Int.natAbs_natCast]
    have hsign : c.sign.natAbs ≤ 1 := by
      rcases Int.lt_trichotomy c 0 with h | h | h
      · simp [Int.sign_eq_neg_one_of_neg h]
      · simp [h]
      · simp [Int.sign_eq_one_of_pos h]
    calc c.sign.natAbs * (roundDigits c.natAbs).1 ≤ 1 * (roundDigits c.natAbs).1 := Nat.mul_le_mul_right _ hsign
      _ = (roundDigits c.natAbs).1 := Nat.one_mul _

theorem decRound_eq {c e : Int} (h : c.natAbs < decimalPrec) : decRound c e = .dec c e := if_pos h

/-! ## `_value_of` is the constant exactly for plain constants -/

/-- Python's minus is SQL's where the context does not round. -/
theorem neg_eq_minus {c : Const} (h : c.signFits = true) : c.neg = c.minus := by
  cases c <;> simp only [Const.signFits, Bool.false_eq_true, decide_eq_true_eq] at h
  · rfl
  · simp only [Const.neg, Const.minus]
    rw [decRound_eq (by rwa [Int.natAbs_neg])]

namespace Expr

variable {e : Statement} {c w : Const}

theorem plain_sound : ∀ {e : Statement}, plain preserves e = true →
    (meaning preserves e).atom = some (valueOf render e)
  | .const k, _ => rfl
  | .paren e, h => plain_sound (e := e) h
  | .neg e, h => by
    simp only [plain, Bool.and_eq_true] at h
    have ih : (meaning preserves e).atom = some (valueOf render e) := plain_sound h.1
    rw [ih, Option.any_some] at h
    have hneg := neg_eq_minus h.2
    obtain ⟨d, hd⟩ : ∃ d, (valueOf render e).minus = some d := by
      cases hv : valueOf render e <;> simp [hv, Const.signFits, Const.minus] at h ⊢
    rw [hd] at hneg
    have hm : meaning preserves (.neg e) = (meaning preserves e).negate := rfl
    rw [hm, Term.negate, ih, Option.bind_some, hd, valueOf, hneg]
    rfl
  | .cast e ty, h => by
    simp only [plain] at h
    split at h
    · rename_i k hk
      rw [decide_eq_true_eq] at h
      rw [h, valueOf, hk]
      all_goals
        intros
        contradiction
    · cases h
  | .placeholder _, h | .parameter _, h | .isIn _ _, h | .inField _ _, h | .node _ _, h => by cases h

theorem atom_inField (e f : Statement) : (meaning preserves (.inField e f)).atom = none := by
  have h : meaning preserves (.inField e f) = .inList (meaning preserves e) (meaning preserves f) := rfl
  rw [h, Term.inList_of_noTuple (meaning_ne f).1, Term.atom]
  intro c hc
  cases hc

theorem atom_neg {e : Statement} {c : Const} (h : (meaning preserves (.neg e)).atom = some c) :
    ∃ d, (meaning preserves e).atom = some d ∧ d.minus = some c := by
  obtain ⟨d, c', hd, hc, he⟩ := Term.negate_eq_const (Term.atom_eq_some.1 h)
  cases he
  exact ⟨d, Term.atom_eq_some.2 hd, hc⟩

theorem atom_cast {e : Statement} {ty : SqlType Lit} {c : Const} (h : (meaning preserves (.cast e ty)).atom = some c) :
    (meaning preserves e).atom = some c := by
  have hm : meaning preserves (.cast e ty) = (meaning preserves e).castTo preserves ty := rfl
  rw [hm] at h
  rcases @castTo_cases preserves (meaning preserves e) ty with ⟨hx, -⟩ | hx
  · rwa [hx] at h
  · rw [hx] at h
    cases h

/-- A number comes from one of its literals. -/
theorem exists_literal : ∀ {e : Statement} {c d : Const}, (meaning preserves e).atom = some c → c.minus = some d →
    ∃ k ∈ literals e, k.value = c ∨ k.value = d
  | .const k, c, d, h, hd => by
    cases h
    refine ⟨k, ?_, .inl rfl⟩
    cases k with
    | literal isString text => simp [literals, constants, Lit.isLiteral]
    | boolean b => cases hd
    | null => cases hd
  | .paren e, c, d, h, hd => exists_literal (e := e) h hd
  | .neg e, c, d, h, hd => by
    obtain ⟨c', hc', hm⟩ := atom_neg h
    obtain ⟨k, hk, hv⟩ := exists_literal hc' hm
    have hdc : d = c' := Option.some.inj (hd.symm.trans (Const.minus_minus hm))
    exact ⟨k, hk, hv.symm.imp_right fun h => h.trans hdc.symm⟩
  | .cast e ty, c, d, h, hd => by
    obtain ⟨k, hk, hv⟩ := exists_literal (atom_cast h) hd
    refine ⟨k, ?_, hv⟩
    rw [literals, List.mem_filter] at hk ⊢
    exact ⟨List.mem_append_left _ hk.1, hk.2⟩
  | .inField e f, c, d, h, hd => by
    rw [atom_inField] at h
    cases h

theorem literals_isLiteral {e : Statement} {k : Lit} (h : k ∈ literals e) : k.isLiteral = true :=
  (List.mem_filter.1 h).2

theorem literal_ne_bool {k : Lit} (h : k.isLiteral = true) (b : Bool) : k.value ≠ .bool b := by
  cases k with
  | literal isString text =>
    cases isString with
    | true => nofun
    | false =>
      simp only [Lit.value, numberValue]
      split <;> nofun
  | boolean b => cases h
  | null => cases h

theorem neg_ne_bool {c d : Const} (h : c.neg = some d) (b : Bool) : d ≠ .bool b := by
  cases c <;> simp only [Const.neg, Option.some.injEq, reduceCtorEq] at h <;> subst h
  · nofun
  · unfold decRound
    split <;> nofun
  · nofun

/-- Only a boolean is taken for a boolean. -/
theorem valueOf_bool : ∀ {e : Statement} {b : Bool}, valueOf render e = .bool b →
    (meaning preserves e).atom = some (.bool b)
  | .const k, b, h => by
    have hv : (meaning preserves (.const k)).atom = some k.value := rfl
    rw [hv, ← h, valueOf]
  | .paren e, b, h => valueOf_bool (e := e) h
  | .neg e, b, h => by
    simp only [valueOf] at h
    split at h
    · rename_i v hv
      exact absurd h (neg_ne_bool hv b)
    · cases h
  | .placeholder _, b, h | .parameter _, b, h | .cast _ _, b, h | .isIn _ _, b, h | .inField _ _, b, h
  | .node _ _, b, h => by
    simp only [valueOf] at h
    split at h
    · rename_i k hk
      exact absurd h (literal_ne_bool (literals_isLiteral (hk ▸ List.mem_singleton_self k)) b)
    · cases h

/-- A decimal within the context is taken for itself or its negative. -/
theorem valueOf_dec : ∀ {e : Statement} {c x c' x' : Int}, (meaning preserves e).atom = some (.dec c x) →
    c.natAbs < decimalPrec → valueOf render e = .dec c' x' → x' = x ∧ c'.natAbs = c.natAbs
  | .const k, c, x, c', x', h, _, hv => by
    rw [valueOf] at hv
    have hk : k.value = .dec c x := Option.some.inj h
    rw [hk] at hv
    cases hv
    exact ⟨rfl, rfl⟩
  | .paren e, c, x, c', x', h, hc, hv => valueOf_dec (e := e) h hc hv
  | .neg e, c, x, c', x', h, hc, hv => by
    obtain ⟨d, hd, hm⟩ := atom_neg h
    obtain rfl : d = .dec (-c) x := Option.some.inj ((Const.minus_minus hm).symm.trans rfl)
    simp only [valueOf] at hv
    split at hv
    · rename_i v hn
      subst hv
      cases hw : valueOf render e <;> rw [hw] at hn <;>
        simp only [Const.neg, Option.some.injEq, reduceCtorEq] at hn
      rename_i c₁ x₁
      obtain ⟨rfl, habs⟩ := valueOf_dec hd (by rwa [Int.natAbs_neg]) hw
      rw [Int.natAbs_neg] at habs
      rw [decRound_eq (by rwa [Int.natAbs_neg, habs])] at hn
      cases hn
      exact ⟨rfl, by rw [Int.natAbs_neg, habs]⟩
    · cases hv
  | .cast e ty, c, x, c', x', h, hc, hv => by
    simp only [valueOf] at hv
    split at hv
    · rename_i k hk
      obtain ⟨k', hk', hval⟩ := exists_literal h (rfl : (Const.dec c x).minus = some (.dec (-c) x))
      rw [hk, List.mem_singleton] at hk'
      subst hk'
      rw [hv] at hval
      rcases hval with hval | hval
      · cases hval
        exact ⟨rfl, rfl⟩
      · cases hval
        exact ⟨rfl, by rw [Int.natAbs_neg]⟩
    · cases hv
  | .inField e f, c, x, c', x', h, _, _ => by
    rw [atom_inField] at h
    cases h

/-- The text of a cast is not the string the cast stands for. -/
def RendersCasts (render : Statement → String) (preserves : Preserves) : Prop :=
  ∀ e ty s, (meaning preserves (.cast e ty)).atom = some (.str s) → render (.cast e ty) ≠ s

theorem plain_complete (hrender : RendersCasts render preserves) : ∀ {e : Statement},
    (meaning preserves e).atom = some (valueOf render e) → plain preserves e = true
  | .const _, _ => rfl
  | .paren e, h => plain_complete hrender (e := e) h
  | .neg e, h => by
    obtain ⟨d, hd, hm⟩ := atom_neg h
    simp only [valueOf] at hm
    split at hm
    · rename_i v hv
      -- the value under the sign is the constant under the sign, and it fits
      have key : valueOf render e = d ∧ d.signFits = true := by
        cases d with
        | int i =>
          cases hm
          cases hw : valueOf render e <;> rw [hw] at hv <;>
            simp only [Const.neg, Option.some.injEq, reduceCtorEq, Const.int.injEq] at hv
          · rename_i j
            obtain rfl : j = i := by omega
            exact ⟨rfl, rfl⟩
          · unfold decRound at hv
            split at hv <;> cases hv
          · rw [valueOf_bool hw] at hd
            cases hd
        | dec c x =>
          cases hm
          cases hw : valueOf render e <;> rw [hw] at hv <;>
            simp only [Const.neg, Option.some.injEq, reduceCtorEq] at hv
          rename_i c₁ x₁
          have hfit := decRound_fits hv
          rw [Int.natAbs_neg] at hfit
          obtain ⟨rfl, habs⟩ := valueOf_dec hd hfit hw
          rw [decRound_eq (by rwa [Int.natAbs_neg, habs]), Const.dec.injEq] at hv
          obtain rfl : c₁ = c := by omega
          exact ⟨rfl, by simpa [Const.signFits] using hfit⟩
        | str s => cases hm
        | bool b => cases hm
        | null => cases hm
      rw [plain, Bool.and_eq_true]
      exact ⟨plain_complete hrender (by rw [key.1, hd]), by rw [hd]; exact key.2⟩
    · cases d <;> cases hm
  | .cast e ty, h => by
    simp only [valueOf] at h
    split at h
    · rename_i k hk
      simp only [plain, hk]
      exact decide_eq_true h
    · exact absurd rfl (hrender e ty _ h)
  | .inField e f, h => by
    rw [atom_inField] at h
    cases h

end Expr

/-! ## Occurrences -/

namespace Occurrence

def plain (preserves : Preserves) : Occurrence → Bool
  | .one e => e.plain preserves
  | .many es => es.all (Expr.plain preserves)

variable {o : Occurrence}

theorem plain_sound (h : o.plain preserves = true) : o.constant preserves = some (o.bound render) := by
  cases o with
  | one e => exact Term.value_of_atom (Expr.plain_sound h)
  | many es =>
    have hall : es.mapM (fun e => (Expr.meaning preserves e).atom) = some (es.map (Expr.valueOf render)) := by
      rw [MapM.eq_some_iff, List.map_map]
      refine List.map_congr_left fun e he => ?_
      exact Expr.plain_sound (List.all_eq_true.1 h e he)
    rw [constant, hall]
    rfl

theorem plain_complete (hrender : Expr.RendersCasts render preserves)
    (h : o.constant preserves = some (o.bound render)) : o.plain preserves = true := by
  cases o with
  | one e =>
    refine Expr.plain_complete hrender (Term.atom_eq_some.2 ?_)
    simp only [constant, bound, Term.value] at h
    split at h
    · rename_i hv
      cases h
      exact hv
    · cases h
  | many es =>
    obtain ⟨cs, hcs, heq⟩ := Option.map_eq_some_iff.1 h
    cases heq
    rw [MapM.eq_some_iff, List.map_map] at hcs
    refine List.all_eq_true.2 fun e he => Expr.plain_complete hrender ?_
    exact List.map_inj_left.1 hcs e he

end Occurrence

/-! ## The markers of an alignment -/

mutual
theorem Expr.aligned_markers : ∀ {t i : Statement} {l : Alignment}, aligned t i = some l → l.map Prod.fst = markers t
  | .paren t, i, l, h => Expr.aligned_markers (t := t) h
  | .placeholder m, i, l, h => by cases h; rfl
  | .parameter n, i, l, h => by cases h; rfl
  | .const k, i, l, h => by
    cases hi : unparen i <;> simp only [aligned, hi, reduceCtorEq, Option.ite_none_right_eq_some] at h
    cases h.2
    rfl
  | .neg t, i, l, h => by
    cases hi : unparen i <;> simp only [aligned, hi, reduceCtorEq] at h
    exact Expr.aligned_markers (t := t) h
  | .cast t ty, i, l, h => by
    cases hi : unparen i <;> simp only [aligned, hi, reduceCtorEq, Option.ite_none_right_eq_some] at h
    exact Expr.aligned_markers (t := t) h.2
  | .isIn t ts, i, l, h => by
    cases hi : unparen i <;> simp only [aligned, hi, reduceCtorEq] at h
    obtain ⟨l₁, h1, h⟩ := Option.bind_eq_some_iff.1 h
    obtain ⟨l₂, h2, rfl⟩ := Option.map_eq_some_iff.1 h
    rw [List.map_append, Expr.aligned_markers h1, Expr.alignedL_markers h2, markers]
  | .inField t f, i, l, h => by
    unfold aligned at h
    cases hi : unparen i <;> simp only [hi, reduceCtorEq] at h
    case isIn i ms =>
      cases f with
      | placeholder m =>
        simp only [Option.ite_none_right_eq_some] at h
        obtain ⟨l₁, h1, h⟩ := Option.bind_eq_some_iff.1 h.2
        cases h
        rw [List.map_append, Expr.aligned_markers h1]
        rfl
      | _ => cases h
    case inField i g =>
      obtain ⟨l₁, h1, h⟩ := Option.bind_eq_some_iff.1 h
      obtain ⟨l₂, h2, rfl⟩ := Option.map_eq_some_iff.1 h
      rw [List.map_append, Expr.aligned_markers h1, Expr.aligned_markers h2, markers]
  | .node hd ts, i, l, h => by
    cases hi : unparen i <;> simp only [aligned, hi, reduceCtorEq, Option.ite_none_right_eq_some] at h
    exact Expr.alignedL_markers h.2
theorem Expr.alignedL_markers : ∀ {ts is : List Statement} {l : Alignment}, alignedL ts is = some l →
    l.map Prod.fst = markersL ts
  | [], [], l, h => by cases h; rfl
  | [], _ :: _, l, h => by cases h
  | _ :: _, [], l, h => by cases h
  | t :: ts, i :: is, l, h => by
    obtain ⟨l₁, h1, h⟩ := Option.bind_eq_some_iff.1 h
    obtain ⟨l₂, h2, rfl⟩ := Option.map_eq_some_iff.1 h
    rw [List.map_append, Expr.aligned_markers h1, Expr.alignedL_markers h2, markersL]
end

def bareIndex : Marker → Option Nat
  | .bare i => some i
  | .named _ => none

theorem recordAll_mem {κ : Type} [DecidableEq κ] {k : κ} {v : PyValue} : ∀ {items : List (κ × PyValue)}
    {bound bound' : Dict κ PyValue}, recordAll items bound = some bound' → bound'.get k = some v →
      (k, v) ∈ items ∨ bound.get k = some v
  | [], _, _, h, hv => by cases h; exact .inr hv
  | (j, w) :: items, bound, bound', h, hv => by
    obtain ⟨d, hd, hrest⟩ := Option.bind_eq_some_iff.1 h
    rcases recordAll_mem hrest hv with hm | hm
    · exact .inl (List.mem_cons_of_mem _ hm)
    · rw [record_eq hd, Dict.get_set] at hm
      split at hm
      · rename_i hj
        cases hm; cases hj
        exact .inl List.mem_cons_self
      · exact .inr hm

theorem eq_of_nodup_filterMap {α β : Type} {f : α → Option β} {x y : α} {b : β} : ∀ {xs : List α},
    (xs.filterMap f).Nodup → x ∈ xs → y ∈ xs → f x = some b → f y = some b → x = y
  | [], _, hx, _, _, _ => by cases hx
  | z :: xs, h, hx, hy, hfx, hfy => by
    have hlater : ∀ w ∈ xs, f w = some b → f z ≠ some b := by
      intro w hw hfw hfz
      rw [List.filterMap_cons_some hfz, List.nodup_cons] at h
      exact h.1 (List.mem_filterMap.2 ⟨w, hw, hfw⟩)
    rcases List.mem_cons.1 hx with rfl | hxs
    · rcases List.mem_cons.1 hy with rfl | hys
      · rfl
      · exact absurd hfx (hlater y hys hfy)
    · rcases List.mem_cons.1 hy with rfl | hys
      · exact absurd hfy (hlater x hxs hfx)
      · refine eq_of_nodup_filterMap ?_ hxs hys hfx hfy
        exact h.sublist ((List.sublist_cons_self z xs).filterMap f)

/-- Each group stands at one marker, and its value is what the binder takes the occurrence for. -/
theorem bindTemplate_spec {t i : Statement} {specs : List PlaceholderSpec} {bound : Dict String PyValue}
    (h : bindTemplate render t i specs = some bound) : ∃ l values, Expr.aligned t i = some l ∧
      mergeSplit (bindingGroups specs) values [] = some bound ∧
      ∀ j < (bindingGroups specs).length, ∃ o, (.bare j, o) ∈ l ∧ values[j]? = some (o.bound render) ∧
        ∀ o', (.bare j, o') ∈ l → o' = o := by
  obtain ⟨raw, hraw, h⟩ := Option.bind_eq_some_iff.1 h
  obtain ⟨values, hvalues, hmerge⟩ := Option.bind_eq_some_iff.1 h
  simp only [unifyAndBind, Option.ite_none_right_eq_some, Expr.unify_eq] at hraw
  obtain ⟨hcount, hraw⟩ := hraw
  obtain ⟨l, hl, hraw⟩ := Option.bind_eq_some_iff.1 hraw
  have hget : ∀ j < (bindingGroups specs).length, ∃ v, raw.get (.bare j) = some v ∧ values[j]? = some v := by
    intro j hj
    rw [MapM.eq_some_iff] at hvalues
    have := congrArg (·[j]?) hvalues
    simp only [List.getElem?_map, List.getElem?_range hj, Option.map_some] at this
    obtain ⟨v, hv, hr⟩ := Option.map_eq_some_iff.1 this.symm
    exact ⟨v, hr.symm, hv⟩
  have hoccurs : ∀ j < (bindingGroups specs).length, ∃ o, (.bare j, o) ∈ l ∧ values[j]? = some (o.bound render) := by
    intro j hj
    obtain ⟨v, hr, hv⟩ := hget j hj
    rcases recordAll_mem hraw hr with hm | hm
    · obtain ⟨⟨m, o⟩, ho, heq⟩ := List.mem_map.1 hm
      cases heq
      exact ⟨o, ho, hv⟩
    · cases hm
  -- as many markers as groups, and one for each: no marker stands twice
  have hnodup : ((l.map Prod.fst).filterMap bareIndex).Nodup := by
    have hsub : List.range (bindingGroups specs).length ⊆ (l.map Prod.fst).filterMap bareIndex := by
      intro j hj
      obtain ⟨o, ho, -⟩ := hoccurs j (List.mem_range.1 hj)
      exact List.mem_filterMap.2 ⟨.bare j, List.mem_map.2 ⟨_, ho, rfl⟩, rfl⟩
    have hlen : ((l.map Prod.fst).filterMap bareIndex).length ≤ (List.range (bindingGroups specs).length).length := by
      rw [List.length_range, ← hcount, Expr.bareMarkers, ← Expr.aligned_markers hl, List.length_filterMap_eq_countP]
      refine List.countP_mono_left fun m _ hm => ?_
      cases m with
      | bare i => rfl
      | named n => cases hm
    have hperm := (List.subperm_of_subset List.nodup_range hsub).perm_of_length_le hlen
    exact hperm.nodup_iff.1 List.nodup_range
  refine ⟨l, values, hl, hmerge, fun j hj => ?_⟩
  obtain ⟨o, ho, hv⟩ := hoccurs j hj
  refine ⟨o, ho, hv, fun o' ho' => ?_⟩
  rw [List.filterMap_map] at hnodup
  exact congrArg Prod.snd (eq_of_nodup_filterMap hnodup ho' ho rfl rfl)

/-! ## When the binder is sound -/

/-- What a constant at a marker says of the names: the parts of its group, or the value of its own name. -/
def entries (specs : List PlaceholderSpec) (m : Marker) (v : PyValue) : Option (Dict String PyValue) :=
  match m with
  | .bare i => (bindingGroups specs)[i]?.bind (splitLiteral v)
  | .named n => if ∃ g ∈ bindingGroups specs, n ∈ g.names then some [(n, v)] else none

/-- Constants stand at the markers, those of one name agree, and the last one of a name is plain. -/
structure Faithful (preserves : Preserves) (specs : List PlaceholderSpec) (l : Alignment) : Prop where
  agree : ∃ a : String → PyValue, ∀ p ∈ l, ∃ v parts, p.2.constant preserves = some v ∧
    entries specs p.1 v = some parts ∧ ∀ x ∈ parts, x.2 = a x.1
  plain : ∀ n i o, Owner (bindingGroups specs) n i → (.bare i, o) ∈ l → o.plain preserves = true

/-- No parameter inside a pattern literal has a name that another group has too. -/
def PatternsOwn (specs : List PlaceholderSpec) : Prop :=
  ∀ (i j : Nat) (g g' : Group), (bindingGroups specs)[i]? = some g → (bindingGroups specs)[j]? = some g' →
    g.plain? = none → ∀ n ∈ g.names, n ∈ g'.names → i = j

section
variable {t i : Statement} {specs : List PlaceholderSpec} {bound : Dict String PyValue} {l : Alignment}

/-- The binder keeps what the last constant of a name says. -/
theorem Faithful.get {a : String → PyValue} (h : bindTemplate render t i specs = some bound)
    (hl : Expr.aligned t i = some l) (hf : ∀ n i o, Owner (bindingGroups specs) n i → (.bare i, o) ∈ l →
      o.plain preserves = true)
    (ha : ∀ p ∈ l, ∃ v parts, p.2.constant preserves = some v ∧ entries specs p.1 v = some parts ∧
      ∀ x ∈ parts, x.2 = a x.1)
    {n : String} (hn : ∃ g ∈ bindingGroups specs, n ∈ g.names) : bound.get n = some (a n) := by
  obtain ⟨l', values, hl', hmerge, hocc⟩ := bindTemplate_spec h
  cases hl'.symm.trans hl
  obtain ⟨j, hown⟩ := exists_owner hn
  obtain ⟨g, hg, hname, -⟩ := id hown
  obtain ⟨o, ho, hv, -⟩ := hocc j (List.getElem?_eq_some_iff.1 hg).1
  obtain ⟨v, parts, hc, he, hparts⟩ := ha _ ho
  -- the last constant of the name is what the binder takes it for
  have hbound : o.bound render = v :=
    Option.some.inj ((Occurrence.plain_sound (hf n j o hown ho)).symm.trans hc)
  rw [entries, hg, Option.bind_some] at he
  obtain ⟨w, hw⟩ := (splitLiteral_spec he).2.2.1 n hname
  rw [mergeSplit_get hmerge hown hg (hbound ▸ hv) he hw]
  exact congrArg some (hparts _ hw)

theorem carries_of_faithful (h : bindTemplate render t i specs = some bound) (hl : Expr.aligned t i = some l)
    (hf : Faithful preserves specs l) : ∀ p ∈ l, Carries preserves (assignment specs bound) p := by
  obtain ⟨⟨a, ha⟩, hplain⟩ := hf
  have hget : ∀ {n}, (∃ g ∈ bindingGroups specs, n ∈ g.names) → bound.get n = some (a n) :=
    fun hn => Faithful.get h hl hplain ha hn
  rintro ⟨m, o⟩ hp
  obtain ⟨v, parts, hc, he, hparts⟩ := ha _ hp
  refine ⟨v, ?_, hc⟩
  cases m with
  | bare j =>
    obtain ⟨g, hg, hs⟩ := Option.bind_eq_some_iff.1 he
    have hjoin := (splitLiteral_spec hs).2.2.2 bound.get fun x hx => by
      rw [hget ⟨g, List.mem_of_getElem? hg, (splitLiteral_spec hs).2.1 _ (List.mem_map.2 ⟨x, hx, rfl⟩)⟩, hparts x hx]
    rw [assignment, hg, Option.bind_some, hjoin]
  | named n =>
    simp only [entries, Option.ite_none_right_eq_some, Option.some.injEq] at he
    obtain ⟨hn, rfl⟩ := he
    rw [assignment, hget hn]
    exact congrArg some (hparts _ (List.mem_singleton_self _)).symm

/-- What the names of an owned group are bound to makes up the value of its marker. -/
theorem joinGroup_owned {values : List PyValue} {j : Nat} {g : Group} {v : PyValue}
    (hmerge : mergeSplit (bindingGroups specs) values [] = some bound) (hg : (bindingGroups specs)[j]? = some g)
    (hv : values[j]? = some v) (hown : ∀ n ∈ g.names, Owner (bindingGroups specs) n j) :
    (∃ parts, splitLiteral v g = some parts ∧ ∀ x ∈ parts, bound.get x.1 = some x.2) ∧
    joinGroup bound.get g = some v := by
  obtain ⟨parts, hs⟩ := mergeSplit_split hmerge hg hv
  have hget : ∀ x ∈ parts, bound.get x.1 = some x.2 := fun x hx =>
    mergeSplit_get hmerge (hown _ ((splitLiteral_spec hs).2.1 _ (List.mem_map.2 ⟨x, hx, rfl⟩))) hg hv hs hx
  exact ⟨⟨parts, hs, hget⟩, (splitLiteral_spec hs).2.2.2 _ hget⟩

theorem PatternsOwn.owner {j : Nat} {g : Group} (hown : PatternsOwn specs) (hg : (bindingGroups specs)[j]? = some g)
    (hplain : g.plain? = none) : ∀ n ∈ g.names, Owner (bindingGroups specs) n j := by
  intro n hn
  refine ⟨g, hg, hn, fun k g' hjk hg' hn' => ?_⟩
  have := hown j k g g' hg hg' hplain n hn hn'
  omega

theorem faithful_of_carries (hrender : Expr.RendersCasts render preserves) (hpat : PatternsOwn specs)
    (h : bindTemplate render t i specs = some bound) (hl : Expr.aligned t i = some l)
    (hc : ∀ p ∈ l, Carries preserves (assignment specs bound) p) : Faithful preserves specs l := by
  obtain ⟨l', values, hl', hmerge, hocc⟩ := bindTemplate_spec h
  cases hl'.symm.trans hl
  -- a marker whose group owns its names is replaced by what the binder takes the occurrence for
  have howned : ∀ j g o, (bindingGroups specs)[j]? = some g → (.bare j, o) ∈ l →
      (∀ n ∈ g.names, Owner (bindingGroups specs) n j) → o.constant preserves = some (o.bound render) ∧
      ∃ parts, splitLiteral (o.bound render) g = some parts ∧ ∀ x ∈ parts, bound.get x.1 = some x.2 := by
    intro j g o hg ho hown
    obtain ⟨o', ho', hv, huniq⟩ := hocc j (List.getElem?_eq_some_iff.1 hg).1
    cases huniq o ho
    obtain ⟨hparts, hjoin⟩ := joinGroup_owned hmerge hg hv hown
    obtain ⟨v, hσ, hv'⟩ := hc _ ho
    rw [assignment, hg, Option.bind_some, hjoin] at hσ
    exact ⟨hv'.trans hσ.symm, hparts⟩
  constructor
  · refine ⟨fun n => (bound.get n).getD (.one .null), ?_⟩
    rintro ⟨m, o⟩ hp
    obtain ⟨v, hσ, hv⟩ := hc _ hp
    cases m with
    | bare j =>
      obtain ⟨g, hg, hjoin⟩ := Option.bind_eq_some_iff.1 hσ
      cases hs : g.plain? with
      | some s =>
        rw [joinGroup, hs] at hjoin
        refine ⟨v, [(s.name, v)], hv, ?_, ?_⟩
        · simp [entries, hg, splitLiteral, hs]
        · intro x hx
          cases List.mem_singleton.1 hx
          simp only [hjoin, Option.getD_some]
      | none =>
        obtain ⟨hb, parts, hsplit, hparts⟩ := howned j g o hg hp (hpat.owner hg hs)
        cases hv.symm.trans hb
        refine ⟨_, parts, hv, ?_, fun x hx => ?_⟩
        · rw [entries, hg, Option.bind_some, hsplit]
        · simp only [hparts x hx, Option.getD_some]
    | named n =>
      have hn : ∃ g ∈ bindingGroups specs, n ∈ g.names := by
        by_contra hno
        push Not at hno
        have hnone : bound.get n = none := mergeSplit_get_of_notMem hmerge hno
        rw [assignment, hnone] at hσ
        cases hσ
      refine ⟨v, [(n, v)], hv, if_pos hn, ?_⟩
      intro x hx
      cases List.mem_singleton.1 hx
      rw [assignment] at hσ
      simp [hσ]
  · intro n j o hown ho
    obtain ⟨g, hg, hn, hlast⟩ := id hown
    refine Occurrence.plain_complete hrender (howned j g o hg ho ?_).1
    cases hs : g.plain? with
    | some s =>
      obtain ⟨rfl, -⟩ := Group.plain?_eq_some.1 hs
      intro n' hn'
      rw [Group.names, List.map_singleton, List.mem_singleton] at hn hn'
      rw [hn', ← hn]
      exact hown
    | none => exact hpat.owner hg hs

end

/-- **Inline binding**: the template with its markers replaced is the statement iff the constants at the
markers are faithful. -/
theorem inline_sound_iff (render : Statement → String) (preserves : Preserves) (t i : Statement)
    (specs : List PlaceholderSpec) (bound : Dict String PyValue) (h : bindTemplate render t i specs = some bound) :
    ∃ l, t.aligned i = some l ∧
    (Faithful preserves specs l → t.instantiate preserves (assignment specs bound) = i.meaning preserves) ∧
    (Expr.RendersCasts render preserves → PatternsOwn specs →
      t.instantiate preserves (assignment specs bound) = i.meaning preserves → Faithful preserves specs l) := by
  obtain ⟨l, values, hl, -⟩ := bindTemplate_spec h
  refine ⟨l, hl, fun hf => ?_, fun hrender hpat heq => ?_⟩
  · exact (Expr.instantiate_eq_iff hl).2 (carries_of_faithful h hl hf)
  · exact faithful_of_carries hrender hpat h hl ((Expr.instantiate_eq_iff hl).1 heq)

/-! ## Where it is and where it is not -/

/-- `DATE 'text'` is its text. -/
def dateLiterals : Preserves := fun ty c =>
  match c with
  | .str _ => ty.name = "DATE"
  | _ => false

/-- The text of a literal, possibly cast. -/
def castSql : Statement → String
  | .const (.literal true text) => "'" ++ text ++ "'"
  | .const k => k.value.pyStr
  | .paren e => "(" ++ castSql e ++ ")"
  | .cast e ty => "CAST(" ++ castSql e ++ " AS " ++ ty.name ++ ")"
  | _ => ""

theorem castSql_length (preserves : Preserves) : ∀ {e : Statement} {s : String},
    (e.meaning preserves).atom = some (.str s) → s.length ≤ (castSql e).length
  | .const (.literal true text), s, h => by
    cases h
    simp only [castSql, String.length_append]
    omega
  | .const (.literal false text), s, h => by
    have hv : numberValue text = .str s := Option.some.inj h
    simp only [numberValue] at hv
    split at hv <;> cases hv
  | .paren e, s, h => by
    have := castSql_length preserves (e := e) h
    simp only [castSql, String.length_append]
    omega
  | .neg e, s, h => by
    obtain ⟨d, -, hm⟩ := Expr.atom_neg h
    cases d <;> cases hm
  | .cast e ty, s, h => by
    have := castSql_length preserves (Expr.atom_cast h)
    simp only [castSql, String.length_append]
    omega
  | .inField e f, s, h => by
    rw [Expr.atom_inField] at h
    cases h

theorem castSql_rendersCasts (preserves : Preserves) : Expr.RendersCasts castSql preserves := by
  intro e ty s h heq
  have hlen := castSql_length preserves (Expr.atom_cast h)
  have hcast : (castSql (.cast e ty)).length = s.length := by rw [heq]
  have hopen : "CAST(".length = 5 := rfl
  simp only [castSql, String.length_append] at hcast
  omega

/-- `col = e`. -/
def eqCol (col : String) (e : Statement) : Statement := .node "EQ" [.node col [], e]

def marker (i : Nat) : Statement := .placeholder (.bare i)

def specX : PlaceholderSpec := { name := "x", type := "INT" }

/-- `a = DATE '2020-01-01'`. -/
def dateEq : Statement := eqCol "a" (.cast (.const (.literal true "2020-01-01")) ⟨"DATE", []⟩)

theorem inline_sound_date :
    (eqCol "a" (marker 0)).instantiate dateLiterals (assignment [specX] [("x", .one (.str "2020-01-01"))]) =
      dateEq.meaning dateLiterals ∧
    ∃ l, (eqCol "a" (marker 0)).aligned dateEq = some l ∧ Faithful dateLiterals [specX] l := by
  have heq : (eqCol "a" (marker 0)).instantiate dateLiterals (assignment [specX] [("x", .one (.str "2020-01-01"))]) =
    dateEq.meaning dateLiterals := rfl
  have hpat : PatternsOwn [specX] := by
    intro i j g g' hg hg' _ _ _ _
    have hi := (List.getElem?_eq_some_iff.1 hg).1
    have hj := (List.getElem?_eq_some_iff.1 hg').1
    have hlen : (bindingGroups [specX]).length = 1 := rfl
    omega
  obtain ⟨l, hl, -, hback⟩ := inline_sound_iff castSql dateLiterals (eqCol "a" (marker 0)) dateEq [specX]
    [("x", .one (.str "2020-01-01"))] rfl
  exact ⟨heq, l, hl, hback (castSql_rendersCasts _) hpat heq⟩

/-- `a = CAST(2.7 AS INT)`. -/
def castEq : Statement := eqCol "a" (.cast (.const (.literal false "2.7")) ⟨"INT", []⟩)

/-- `a = 1 AND b = '1'`. -/
def mixedEqs : Statement :=
  .node "And" [eqCol "a" (.const (.literal false "1")), eqCol "b" (.const (.literal true "1"))]

def repeatedEqs : Statement := .node "And" [eqCol "a" (marker 0), eqCol "b" (marker 1)]

/-- The cast is dropped, and one name is bound to `1` and to `'1'`. -/
theorem cast_dropped :
    (eqCol "a" (marker 0)).normalize = castEq.normalize ∧
    (∃ bound, bindTemplate castSql (eqCol "a" (marker 0)) castEq [specX] = some bound ∧
      bound.get "x" = some (.one (.dec 27 (-1))) ∧
      (eqCol "a" (marker 0)).instantiate dateLiterals (assignment [specX] bound) ≠ castEq.meaning dateLiterals) ∧
    repeatedEqs.normalize = mixedEqs.normalize ∧
    ∃ bound, bindTemplate castSql repeatedEqs mixedEqs [specX, specX] = some bound ∧
      bound.get "x" = some (.one (.str "1")) ∧
      repeatedEqs.instantiate dateLiterals (assignment [specX, specX] bound) ≠ mixedEqs.meaning dateLiterals := by
  refine ⟨rfl, ⟨_, rfl, rfl, fun h => ?_⟩, rfl, _, rfl, rfl, fun h => ?_⟩
  · have hc : (Term.node "EQ" [.node "a" [], .const (.one (.dec 27 (-1)))]) =
      .node "EQ" [.node "a" [], .cast (.const (.one (.dec 27 (-1)))) ⟨"INT", []⟩] := h
    simp at hc
  · have hc : (Term.node "And" [.node "EQ" [.node "a" [], .const (.one (.str "1"))],
        .node "EQ" [.node "b" [], .const (.one (.str "1"))]]) =
      .node "And" [.node "EQ" [.node "a" [], .const (.one (.int 1))],
        .node "EQ" [.node "b" [], .const (.one (.str "1"))]] := h
    simp at hc

end SynnoDB.Router
