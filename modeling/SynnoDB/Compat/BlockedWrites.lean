import SynnoDB.Compat.Fetching

/-!
# What a connection that blocks writes sends to DuckDB (`duckdb_compat/connection.py:113-190`)

`execute` and `executemany` ask the gate before anything else, so a text that it refuses is not sent, and a connection
is as tight as the gate.
-/

namespace SynnoDB.Compat.Fetching

open SynnoDB.Router

variable {α Tbl Bound : Type} {parse : SqlText → Option (List (Option Stmt))} {st : Statement α Tbl Bound} {sc : Script}

/-- Whatever `send` passes on of a script with writes blocked is harmless. -/
def Tight (send : Conn α → Conn α) (sc : Script) : Prop :=
  ∀ c, c.router.isSome = true → c.blockWrites = true → (send c).inner.sent ≠ c.inner.sent →
    ∀ s ∈ sc.statements, s.harmless = true

/-- An entry that sends nothing of a refused text, and sends the others at least where the router is switched off, is
as tight as the gate. -/
theorem tight_iff {send : Conn α → Conn α}
    (hrefused : ∀ c, c.refuses parse sc.text = true → (send c).inner.sent = c.inner.sent)
    (hoff : ∀ c, c.refuses parse sc.text = false → (c.router.all fun r => !r.policy.routingActive) = true →
      (send c).inner.sent ≠ c.inner.sent) :
    Tight send sc ↔ (isReadOnlyQuery parse sc.text = true → ∀ s ∈ sc.statements, s.harmless = true) := by
  constructor
  · intro h hgate
    let idle : QueryRouter := { policy := { enabled := false } }
    refine h { router := some idle } rfl rfl (hoff _ ?_ rfl)
    unfold Conn.refuses
    rw [hgate]
    rfl
  · intro h c hrouter hblock hsent
    cases hgate : isReadOnlyQuery parse sc.text with
    | true => exact h hgate
    | false =>
      refine absurd (hrefused c ?_) hsent
      unfold Conn.refuses
      rw [hrouter, hblock, hgate]
      rfl

theorem runDuckdbTimed_sent (c : Conn α) : (c.runDuckdbTimed st).1.inner.sent ≠ c.inner.sent := by
  have hsent : (c.runDuckdbTimed st).1.inner.sent = st.text :: c.inner.sent := by
    unfold Conn.runDuckdbTimed
    dsimp only
    cases st.answer <;> rfl
  rw [hsent]
  exact List.cons_ne_self _ _

theorem execute_refused {c : Conn α} (h : c.refuses parse st.text = true) : c.execute parse st = (c, .refused) := by
  unfold Conn.execute
  rw [if_pos h]

theorem executemany_refused {c : Conn α} (h : c.refuses parse st.text = true) :
    c.executemany parse st = (c, .refused) := by
  unfold Conn.executemany
  rw [if_pos h]

theorem execute_tight_iff (hst : st.text = sc.text) : Tight (fun c => (c.execute parse st).1) sc ↔
    (isReadOnlyQuery parse sc.text = true → ∀ s ∈ sc.statements, s.harmless = true) := by
  refine tight_iff (fun c h => ?_) (fun c h hoff => ?_)
  · rw [execute_refused (hst ▸ h)]
  · unfold Conn.execute
    rw [hst, if_neg (by rw [h]; exact Bool.false_ne_true)]
    cases hrouter : c.router with
    | none => exact runDuckdbTimed_sent c
    | some r =>
      rw [hrouter, Option.all_some] at hoff
      dsimp only
      rw [if_pos hoff]
      exact runDuckdbTimed_sent c

theorem executemany_tight_iff (hst : st.text = sc.text) : Tight (fun c => (c.executemany parse st).1) sc ↔
    (isReadOnlyQuery parse sc.text = true → ∀ s ∈ sc.statements, s.harmless = true) := by
  refine tight_iff (fun c h => ?_) (fun c h _ => ?_)
  · rw [executemany_refused (hst ▸ h)]
  · unfold Conn.executemany
    rw [hst, if_neg (by rw [h]; exact Bool.false_ne_true)]
    exact runDuckdbTimed_sent c

/-- `keyword tail`, with nothing before it. -/
def plainPiece (s : Stmt) (word tail : String)
    (h : String.ofList (word.toList.map Char.toLower) ∈ s.keywords ∧ word.toList.all wordChar = true ∧
      word.toList ≠ [] ∧ tail.toList.head?.all fun c => !wordChar c) : Piece where
  lead := []
  lead_ok := by simp
  stmt := some s
  body := word.toList ++ tail.toList
  body_ok := .inl ⟨word.toList, tail.toList, rfl, h.1, List.all_eq_true.1 h.2.1, h.2.2⟩

def dropPiece : Piece := plainPiece (.other "drop") "DROP" " TABLE t" (by decide +kernel)

/-- `SELECT 1; DROP TABLE t`. -/
def twoStatements : Script where
  first := plainPiece .select "SELECT" " 1" (by decide +kernel)
  rest := [dropPiece]

/-- `EXPLAIN ANALYZE DROP TABLE t`. -/
def explainAnalyze : Script where
  first := plainPiece (.explain true (.other "drop")) "EXPLAIN" " ANALYZE DROP TABLE t" (by decide +kernel)
  rest := []

/-- `PRAGMA threads=1`. -/
def pragmaAssignment : Script where
  first := plainPiece (.pragma true) "PRAGMA" " threads=1" (by decide +kernel)
  rest := []

/-- `/*/**/select */DROP TABLE t`: the word that the scan finds is in the outer comment. -/
def nestedComment : Script where
  first := { dropPiece with
    lead := [.block "/**/select ".toList]
    lead_ok := by
      intro l hl
      rw [List.mem_singleton.1 hl]
      exact (by decide : blockRest 1 ("/**/select ".toList ++ ['*', '/']) = some []) }
  rest := []

/-- `(SELECT 1);DROP TABLE t`. -/
def parenthesized : Script where
  first := {
    lead := []
    lead_ok := by simp
    stmt := some .select
    body := "(SELECT 1)".toList
    body_ok := .inr ⟨rfl, "SELECT 1)".toList, rfl⟩ }
  rest := [dropPiece]

/-- A statement with the script's text. -/
def sentAs (sc : Script) : Statement Nat Unit Unit where
  text := sc.text
  call := {
    normalized := none
    guards := fun _ _ => []
    bind := fun _ => none
    engineRun := fun _ _ => .error ""
    conn := true
    random := 0
    duckdb := .error ""
    resultsEqual := fun _ _ => .error ""
    resultsDiff := fun _ _ => .error ""
    toSynnoResult := fun _ _ => .error "" }
  answer := some []

/-- `execute` sends the script with writes blocked. -/
abbrev Slips (sc : Script) : Prop := ¬ Tight (fun c => (c.execute (fun _ => some sc.chunks) (sentAs sc)).1) sc

theorem slips_of_gate {sc : Script}
    (h : isReadOnlyQuery (fun _ => some sc.chunks) sc.text = true ∧ sc.statements.all Stmt.harmless = false) :
    Slips sc := by
  intro htight
  have htext : (sentAs sc).text = sc.text := rfl
  have hall := (execute_tight_iff htext).1 htight h.1
  have hharm := h.2
  rw [List.all_eq_true.2 hall] at hharm
  cases hharm

end SynnoDB.Compat.Fetching
