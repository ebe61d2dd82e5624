import SynnoDB.Lib.Trace
import SynnoDB.Router.FailClosed
import SynnoDB.Router.WriteGate

/-!
# What a fetch reads (`duckdb_compat/connection.py:113-281,485-544`, `result.py:59-87`, `router.py:430-510`)

| here | there |
| --- | --- |
| `SynnoResult`  | the rows of a routed result and `_pos` |
| `Inner`        | the wrapped DuckDB connection: what is not yet fetched of its open result; every execution replaces it |
| `Conn`         | a `SynnoConnection`: `_current`, `_inner`, its router and policy, the throttle of the discovery |
| `Statement`    | what one call meets outside: its text, the scan, the router's `Call`, what DuckDB answers |
| `Outcome`      | how `execute` ends; `failed` is a statement that DuckDB raised on, `raised` one that did not get to run |

Discovery, the schema guard and the cross-check send queries of their own to the inner connection and read them to
the end. Two slots then disagree with the latest statement: the open result after a call that only asks (`why`,
`refresh_engines`), and `_current` after a statement that DuckDB raises on, since it is cleared only on success.
-/

namespace SynnoDB.Compat.Fetching

open SynnoDB.Router

variable {α Tbl Bound : Type}

inductive Fetch where
  | one
  | many (size : Int)
  | all

/-- What a fetch returns of the rows that are pending, and what stays pending. -/
def Fetch.take : Fetch → List α → List α × List α
  | .one, rows => (rows.take 1, rows.drop 1)
  | .many size, rows => if size < 0 then (rows, []) else (rows.take size.toNat, rows.drop size.toNat)
  | .all, rows => (rows, [])

/-! ## Results -/

structure SynnoResult (α : Type) where
  rows : List α
  pos : Nat := 0

namespace SynnoResult

variable (r : SynnoResult α)

def pending : List α := r.rows.drop r.pos

def fetchall : List α × SynnoResult α := (r.rows.drop r.pos, { r with pos := r.rows.length })

def fetchone : List α × SynnoResult α :=
  match r.rows[r.pos]? with
  | none => ([], r)
  | some row => ([row], { r with pos := r.pos + 1 })

def fetchmany (size : Int) : List α × SynnoResult α :=
  if size < 0 then r.fetchall
  else ((r.rows.drop r.pos).take size.toNat, { r with pos := min (r.pos + size.toNat) r.rows.length })

def fetch : Fetch → List α × SynnoResult α
  | .one => r.fetchone
  | .many size => r.fetchmany size
  | .all => r.fetchall

end SynnoResult

structure Inner (α : Type) where
  /-- `none`: there is no open result. -/
  result : Option (List α) := none
  /-- The statements of the user that it was given. -/
  sent : List SqlText := []

namespace Inner

variable (i : Inner α)

/-- `execute`; `none`: it raises. -/
def execute (answer : Option (List α)) : Inner α := { i with result := answer }

def pending : List α := i.result.getD []

def fetch (f : Fetch) : List α × Inner α := ((f.take i.pending).1, { i with result := i.result.map fun rows => (f.take rows).2 })

/-- A query of the layer itself: it is read to its end. -/
def ask (answer : Option (List α)) : Inner α := ((i.execute answer).fetch .all).2

end Inner

/-! ## The connection -/

/-- What `discover_engines` meets, where it looks at all. -/
structure Scan (α : Type) where
  queries : List (Option (List α)) := []
  registry : TemplateRegistry → TemplateRegistry := id
  raises : Bool := false

structure Statement (α Tbl Bound : Type) where
  text : SqlText
  now : Rat := 0
  scan : Scan α := {}
  call : Call Tbl Bound (SynnoResult α)
  /-- The session row of `schema_fingerprint`, and the columns of a table. -/
  session : Option α := none
  columns : String → Option (List α) := fun _ => none
  /-- The cross-check's own execution of the text. -/
  reference : Option (List α) := none
  answer : Option (List α)

structure Conn (α : Type) where
  current : Option (SynnoResult α) := none
  inner : Inner α := {}
  router : Option QueryRouter
  blockWrites : Bool := true
  /-- An engines directory is configured. -/
  enginesDir : Bool := false
  lastDiscover : Option Rat := none

inductive Outcome (α : Type) where
  | ran (rows : List α)
  | failed
  | raised
  | refused

/-- `schema_fingerprint`. -/
def schemaFingerprint (st : Statement α Tbl Bound) (tables : List String) (i : Inner α) : Inner α :=
  let i := ((i.execute (st.session.map fun row => [row])).fetch .one).2
  tables.foldl (fun i t => i.ask (st.columns t)) i

/-- The tables that `schema_match_guard` asks about, when the guards get to it. -/
def introspects (r : QueryRouter) (w : Call Tbl Bound (SynnoResult α)) : Option (List String) :=
  match w.normalized.bind r.registry.match? with
  | none => none
  | some b =>
    if r.policy.routingActive && (w.guards b r.registry).any (·.1 = "schema_match_guard") then some b.tables else none

def guardQueries (r : QueryRouter) (st : Statement α Tbl Bound) (i : Inner α) : Inner α :=
  match introspects r st.call with
  | none => i
  | some tables => schemaFingerprint st tables i

/-- The router executes the text on DuckDB to compare. -/
def crossChecks (r : QueryRouter) (w : Call Tbl Bound (SynnoResult α)) : Bool :=
  (r.executed w).any fun p => r.selected w p.1

/-- What `route` does to the inner connection. -/
def routeQueries (r : QueryRouter) (st : Statement α Tbl Bound) (i : Inner α) : Inner α :=
  let i := guardQueries r st i
  if crossChecks r st.call then { i.ask st.reference with sent := st.text :: i.sent } else i

namespace Conn

variable (parse : SqlText → Option (List (Option Stmt))) (c : Conn α) (st : Statement α Tbl Bound)

/-- `_discover_now`; `false`: it raises. -/
def discoverNow (scan : Scan α) : Conn α × Bool :=
  if !c.enginesDir then (c, true)
  else
    ({ c with
      inner := scan.queries.foldl (fun i answer => i.ask answer) c.inner
      router := c.router.map fun r => { r with registry := scan.registry r.registry } }, !scan.raises)

/-- The throttle lets a scan through. -/
def due (now : Rat) : Bool := c.enginesDir && !c.lastDiscover.any fun last => now - last < 1

/-- `_maybe_discover`. -/
def maybeDiscover (now : Rat) (scan : Scan α) : Conn α × Bool :=
  if c.due now then discoverNow { c with lastDiscover := some now } scan else (c, true)

def refreshEngines (now : Rat) (scan : Scan α) : Conn α × Bool :=
  discoverNow { c with lastDiscover := some now } scan

/-- `WriteNotSupportedError`. -/
def refuses (sql : SqlText) : Bool := c.router.isSome && c.blockWrites && !isReadOnlyQuery parse sql

/-- `_run_duckdb_timed`. -/
def runDuckdbTimed : Conn α × Outcome α :=
  let c := { c with inner := { c.inner.execute st.answer with sent := st.text :: c.inner.sent } }
  match st.answer with
  | none => (c, .failed)
  | some rows => ({ c with current := none }, .ran rows)

/-- The branch of `execute` that asks the router. -/
def executeRouted (r : QueryRouter) : Conn α × Outcome α :=
  let c := { c with inner := routeQueries r st c.inner, router := some (r.route st.call).1 }
  match (r.route st.call).2 with
  | .error _ => (c, .raised)
  | .ok d => match d.routed, d.result with
    | true, some result => ({ c with current := some result }, .ran result.pending)
    | _, _ => c.runDuckdbTimed st

def execute : Conn α × Outcome α :=
  if c.refuses parse st.text then (c, .refused)
  else match c.router with
    | none => c.runDuckdbTimed st
    | some r =>
      if !r.policy.routingActive then c.runDuckdbTimed st
      else match c.maybeDiscover st.now st.scan with
        | (c, false) => (c, .raised)
        | (c, true) => c.executeRouted st (c.router.getD r)

def executemany : Conn α × Outcome α :=
  if c.refuses parse st.text then (c, .refused) else c.runDuckdbTimed st

/-- `why`, with `QueryRouter.why`: its guards are evaluated, the engine is not called. -/
def why : Conn α :=
  match c.router with
  | none => c
  | some r => match c.maybeDiscover st.now st.scan with
    | (c, false) => c
    | (c, true) =>
      let r := c.router.getD r
      if !r.policy.routingActive || (c.blockWrites && !isReadOnlyQuery parse st.text) then c
      else { c with inner := guardQueries r st c.inner }

/-- `_fetch_target`. -/
def fetch (f : Fetch) : List α × Conn α :=
  match c.current with
  | some r => ((r.fetch f).1, { c with current := some (r.fetch f).2 })
  | none => ((c.inner.fetch f).1, { c with inner := (c.inner.fetch f).2 })

/-- The rows the next fetches will read. -/
def visible : List α :=
  match c.current with
  | some r => r.pending
  | none => c.inner.pending

end Conn

/-! ## Sessions -/

/-- A connection and what is not yet fetched of the latest statement that ran. -/
structure Session (α : Type) where
  conn : Conn α
  pending : List α := []

inductive Act (α Tbl Bound : Type) where
  | execute (st : Statement α Tbl Bound)
  | why (st : Statement α Tbl Bound)
  | refreshEngines (now : Rat) (scan : Scan α)
  | fetch (f : Fetch)

section
variable (parse : SqlText → Option (List (Option Stmt)))

def step (s : Session α) : Act α Tbl Bound → Option (Session α)
  | .execute st => match s.conn.execute parse st with
    | (conn, .ran rows) => some ⟨conn, rows⟩
    | (conn, .failed) => some ⟨conn, []⟩
    | (conn, _) => some ⟨conn, s.pending⟩
  | .why st => some ⟨s.conn.why parse st, s.pending⟩
  | .refreshEngines now scan => some ⟨(s.conn.refreshEngines now scan).1, s.pending⟩
  | .fetch f => some ⟨(s.conn.fetch f).2, (f.take s.pending).2⟩

/-! ## The condition -/

/-- The scan sends a query. -/
def Conn.scanAsks (c : Conn α) (st : Statement α Tbl Bound) : Bool := c.due st.now && !st.scan.queries.isEmpty

def routeAsks (r : QueryRouter) (st : Statement α Tbl Bound) : Bool := (introspects r st.call).isSome || crossChecks r st.call

/-- The router, if the discovery gets through. -/
def Conn.discovered (c : Conn α) (st : Statement α Tbl Bound) : Option QueryRouter :=
  match c.maybeDiscover st.now st.scan with
  | (c, true) => c.router
  | (_, false) => none

def Conn.executeAsks (c : Conn α) (st : Statement α Tbl Bound) : Bool :=
  c.scanAsks st || (c.discovered st).any fun r => routeAsks r st

inductive Ending where
  | refused
  | raised
  | served
  | duckdb
deriving DecidableEq

/-- Which branch `execute` takes. -/
def Conn.ending (c : Conn α) (st : Statement α Tbl Bound) : Ending :=
  if c.refuses parse st.text then .refused
  else match c.router with
    | none => .duckdb
    | some r =>
      if !r.policy.routingActive then .duckdb
      else match c.discovered st with
        | none => .raised
        | some r => match (r.route st.call).2 with
          | .error _ => .raised
          | .ok d => if d.routed && d.result.isSome then .served else .duckdb

def Conn.whyAsks (c : Conn α) (st : Statement α Tbl Bound) : Bool :=
  c.router.isSome && (c.scanAsks st || (c.discovered st).any fun r =>
    r.policy.routingActive && !(c.blockWrites && !isReadOnlyQuery parse st.text) && (introspects r st.call).isSome)

/-- If the layer asks DuckDB, then no rows of DuckDB are pending. -/
def Session.Quiet (s : Session α) (asks : Bool) : Prop := s.conn.current.isSome = true ∨ s.pending = [] ∨ asks = false

/-- A call that runs no statement leaves DuckDB alone while rows are pending there, and a statement that DuckDB
raises on does not come while rows of a routed one are pending. -/
def Safe (s : Session α) : Act α Tbl Bound → Prop
  | .execute st => match s.conn.ending parse st with
    | .duckdb => st.answer.isSome = true ∨ s.conn.current.isSome = false ∨ s.pending = []
    | .raised => s.Quiet (s.conn.executeAsks st)
    | _ => True
  | .why st => s.Quiet (s.conn.whyAsks parse st)
  | .refreshEngines _ scan => s.Quiet (s.conn.enginesDir && !scan.queries.isEmpty)
  | .fetch _ => True

end

variable {parse : SqlText → Option (List (Option Stmt))} {c c' : Conn α} {st : Statement α Tbl Bound} {i : Inner α}
  {r : QueryRouter} {s s' : Session α} {f : Fetch}

/-! ## Fetches -/

theorem take_nil : f.take ([] : List α) = ([], []) := by
  cases f <;> simp [Fetch.take]

theorem SynnoResult.fetch_pending (r : SynnoResult α) : (r.fetch f).1 = (f.take r.pending).1 ∧
    (r.fetch f).2.pending = (f.take r.pending).2 := by
  cases f with
  | one =>
    simp only [fetch, fetchone, Fetch.take, pending]
    split
    · rename_i hnone
      have hle := List.getElem?_eq_none_iff.1 hnone
      simp [List.drop_eq_nil_of_le hle]
    · rename_i row hrow
      obtain ⟨hlt, rfl⟩ := List.getElem?_eq_some_iff.1 hrow
      refine ⟨?_, ?_⟩
      · rw [List.drop_eq_getElem_cons hlt]
        rfl
      · rw [List.drop_drop]
  | many size =>
    simp only [fetch, fetchmany, fetchall, Fetch.take, pending]
    split
    · simp
    · refine ⟨rfl, ?_⟩
      dsimp only
      rw [List.drop_drop]
      by_cases hle : r.pos + size.toNat ≤ r.rows.length
      · rw [Nat.min_eq_left hle]
      · rw [Nat.min_eq_right (by omega), List.drop_eq_nil_of_le (Nat.le_refl _), List.drop_eq_nil_of_le (by omega)]
  | all => simp [fetch, fetchall, Fetch.take, pending]

/-- A fetch reads what is visible. -/
theorem Conn.fetch_visible (c : Conn α) : (c.fetch f).1 = (f.take c.visible).1 ∧
    (c.fetch f).2.visible = (f.take c.visible).2 := by
  unfold Conn.fetch Conn.visible
  cases c.current with
  | some r => exact r.fetch_pending
  | none =>
    refine ⟨rfl, ?_⟩
    dsimp only [Inner.fetch, Inner.pending]
    cases c.inner.result with
    | none => exact (congrArg Prod.snd take_nil).symm
    | some rows => rfl

/-! ## Queries of the layer -/

theorem ask_pending (answer : Option (List α)) : (i.ask answer).pending = [] := by
  cases answer <;> rfl

theorem asks_pending (queries : List (Option (List α))) : (queries.foldl (fun i answer => i.ask answer) i).pending =
    if queries.isEmpty then i.pending else [] := by
  induction queries generalizing i with
  | nil => rfl
  | cons q queries ih =>
    rw [List.foldl_cons, ih, ask_pending]
    split <;> rfl

theorem fingerprint_pending (tables : List String) : (schemaFingerprint st tables i).pending = [] := by
  unfold schemaFingerprint
  have hsession : ((i.execute (st.session.map fun row => [row])).fetch .one).2.pending = [] := by
    cases st.session <;> rfl
  revert hsession
  generalize ((i.execute (st.session.map fun row => [row])).fetch .one).2 = j
  intro hj
  induction tables generalizing j with
  | nil => exact hj
  | cons t tables ih => exact ih _ (ask_pending _)

theorem guardQueries_pending : (guardQueries r st i).pending =
    if (introspects r st.call).isSome then [] else i.pending := by
  unfold guardQueries
  cases introspects r st.call with
  | none => rfl
  | some tables => exact fingerprint_pending tables

theorem routeQueries_pending : (routeQueries r st i).pending = if routeAsks r st then [] else i.pending := by
  unfold routeQueries routeAsks
  dsimp only
  cases crossChecks r st.call with
  | true =>
    rw [if_pos rfl, Bool.or_true, if_pos rfl]
    exact ask_pending st.reference
  | false =>
    rw [if_neg Bool.false_ne_true, Bool.or_false]
    exact guardQueries_pending

theorem maybeDiscover_slots : (c.maybeDiscover st.now st.scan).1.current = c.current ∧
    (c.maybeDiscover st.now st.scan).1.inner.pending = if c.scanAsks st then [] else c.inner.pending := by
  unfold Conn.maybeDiscover Conn.scanAsks
  by_cases hdue : c.due st.now = true
  · have hdir : c.enginesDir = true := (Bool.and_eq_true_iff.1 hdue).1
    rw [if_pos hdue, hdue]
    unfold Conn.discoverNow
    dsimp only
    rw [hdir]
    refine ⟨rfl, ?_⟩
    simp only [Bool.not_true, Bool.false_eq_true, if_false, Bool.true_and]
    rw [asks_pending]
    cases st.scan.queries.isEmpty <;> rfl
  · rw [Bool.not_eq_true] at hdue
    rw [hdue]
    exact ⟨rfl, rfl⟩

/-- A scan may change what the router has registered. -/
theorem Conn.maybeDiscover_keeps (c : Conn α) (now : Rat) (scan : Scan α) :
    (c.maybeDiscover now scan).1.blockWrites = c.blockWrites ∧
      (c.maybeDiscover now scan).1.router.isSome = c.router.isSome := by
  unfold Conn.maybeDiscover Conn.discoverNow
  split
  · dsimp only
    split
    · exact ⟨rfl, rfl⟩
    · exact ⟨rfl, Option.isSome_map⟩
  · exact ⟨rfl, rfl⟩

/-! ## One step -/

/-- A step that asks DuckDB or not, and leaves the routed result alone. -/
theorem visible_quiet_iff {asks : Bool} (h : s.conn.visible = s.pending) (hcurrent : c.current = s.conn.current)
    (hinner : c.inner.pending = if asks then [] else s.conn.inner.pending) :
    c.visible = s.pending ↔ s.Quiet asks := by
  unfold Session.Quiet
  cases hc : s.conn.current with
  | some r =>
    have hsame : c.visible = s.conn.visible := by
      unfold Conn.visible
      rw [hcurrent, hc]
    exact iff_of_true (hsame.trans h) (.inl rfl)
  | none =>
    have hpending : s.conn.inner.pending = s.pending := by
      unfold Conn.visible at h
      rw [hc] at h
      exact h
    have hvisible : c.visible = if asks then [] else s.pending := by
      unfold Conn.visible
      rw [hcurrent, hc]
      exact hinner.trans (by rw [hpending])
    rw [hvisible]
    cases asks with
    | true => simp [eq_comm]
    | false => simp

/-- How `execute` ends on each branch, and what it leaves in the two slots. -/
theorem execute_cases (parse : SqlText → Option (List (Option Stmt))) (c : Conn α) (st : Statement α Tbl Bound) :
    match c.ending parse st with
    | .refused => (c.execute parse st).2 = .refused ∧ (c.execute parse st).1 = c
    | .raised => (c.execute parse st).2 = .raised ∧ (c.execute parse st).1.current = c.current ∧
        (c.execute parse st).1.inner.pending = if c.executeAsks st then [] else c.inner.pending
    | .served => ∃ rows, (c.execute parse st).2 = .ran rows ∧ (c.execute parse st).1.visible = rows
    | .duckdb => (∃ rows, st.answer = some rows ∧ (c.execute parse st).2 = .ran rows ∧
          (c.execute parse st).1.visible = rows) ∨
        (st.answer = none ∧ (c.execute parse st).2 = .failed ∧ (c.execute parse st).1.current = c.current ∧
          (c.execute parse st).1.inner.pending = []) := by
  have hduckdb : ∀ c' : Conn α, c'.current = c.current → (∃ rows, st.answer = some rows ∧
      (c'.runDuckdbTimed st).2 = .ran rows ∧ (c'.runDuckdbTimed st).1.visible = rows) ∨ (st.answer = none ∧
      (c'.runDuckdbTimed st).2 = .failed ∧ (c'.runDuckdbTimed st).1.current = c.current ∧
      (c'.runDuckdbTimed st).1.inner.pending = []) := by
    intro c' hcurrent
    unfold Conn.runDuckdbTimed
    dsimp only
    cases hanswer : st.answer with
    | some rows => exact .inl ⟨rows, rfl, rfl, rfl⟩
    | none => exact .inr ⟨rfl, rfl, hcurrent, rfl⟩
  unfold Conn.execute Conn.ending Conn.executeAsks
  by_cases hrefused : c.refuses parse st.text = true
  · rw [if_pos hrefused, if_pos hrefused]
    exact ⟨rfl, rfl⟩
  rw [if_neg hrefused, if_neg hrefused]
  cases hrouter : c.router with
  | none => exact hduckdb c rfl
  | some r =>
    dsimp only
    by_cases hoff : (!r.policy.routingActive) = true
    · rw [if_pos hoff, if_pos hoff]
      exact hduckdb c rfl
    rw [if_neg hoff, if_neg hoff]
    obtain ⟨hcurrent, hinner⟩ := @maybeDiscover_slots _ _ _ c st
    have hsome := (c.maybeDiscover_keeps st.now st.scan).2
    unfold Conn.discovered
    rcases hd : c.maybeDiscover st.now st.scan with ⟨c', ok⟩
    rw [hd, hrouter] at hsome
    rw [hd] at hcurrent hinner
    dsimp only at hsome hcurrent hinner
    cases ok with
    | false =>
      refine ⟨rfl, hcurrent, ?_⟩
      rw [Option.any_none, Bool.or_false]
      exact hinner
    | true =>
      obtain ⟨r', hr'⟩ := Option.isSome_iff_exists.1 hsome
      simp only [hr', Option.getD_some, Option.any_some]
      unfold Conn.executeRouted
      dsimp only
      cases hroute : (r'.route st.call).2 with
      | error e =>
        refine ⟨rfl, hcurrent, ?_⟩
        dsimp only
        rw [routeQueries_pending, hinner]
        cases c.scanAsks st <;> cases routeAsks r' st <;> rfl
      | ok d =>
        have hfallback := hduckdb { c' with inner := routeQueries r' st c'.inner, router := some (r'.route st.call).1 }
          hcurrent
        dsimp only
        cases hrouted : d.routed with
        | false => exact hfallback
        | true => cases hresult : d.result with
          | none => exact hfallback
          | some result => exact ⟨result.pending, rfl, rfl⟩

/-- `why` asks what the discovery and the schema guard ask. -/
theorem why_slots (parse : SqlText → Option (List (Option Stmt))) (c : Conn α) (st : Statement α Tbl Bound) :
    (c.why parse st).current = c.current ∧
      (c.why parse st).inner.pending = if c.whyAsks parse st then [] else c.inner.pending := by
  unfold Conn.why Conn.whyAsks
  cases hrouter : c.router with
  | none => exact ⟨rfl, rfl⟩
  | some r =>
    dsimp only
    rw [Option.isSome_some, Bool.true_and]
    obtain ⟨hcurrent, hinner⟩ := @maybeDiscover_slots _ _ _ c st
    split
    · rename_i c' hd
      rw [hd] at hcurrent hinner
      have hnone : c.discovered st = none := by
        unfold Conn.discovered
        rw [hd]
      rw [hnone, Option.any_none, Bool.or_false]
      exact ⟨hcurrent, hinner⟩
    · rename_i c' hd
      rw [hd] at hcurrent hinner
      have hfound : c.discovered st = c'.router := by
        unfold Conn.discovered
        rw [hd]
      obtain ⟨hblock, hsome⟩ := c.maybeDiscover_keeps st.now st.scan
      rw [hd] at hblock hsome
      dsimp only at hblock hsome
      rw [hrouter] at hsome
      obtain ⟨r', hr'⟩ := Option.isSome_iff_exists.1 hsome
      rw [hfound, hr', Option.getD_some, Option.any_some, hblock]
      by_cases hstop : (!r'.policy.routingActive || (c.blockWrites && !isReadOnlyQuery parse st.text)) = true
      · rw [if_pos hstop]
        refine ⟨hcurrent, hinner.trans ?_⟩
        rw [Bool.or_eq_true, Bool.not_eq_true'] at hstop
        rcases hstop with hoff | hrefused
        · rw [hoff, Bool.false_and, Bool.false_and, Bool.or_false]
        · rw [hrefused, Bool.not_true, Bool.and_false, Bool.false_and, Bool.or_false]
      · rw [if_neg hstop]
        refine ⟨hcurrent, ?_⟩
        rw [Bool.not_eq_true, Bool.or_eq_false_iff, Bool.not_eq_false'] at hstop
        rw [hstop.1, hstop.2]
        dsimp only
        rw [guardQueries_pending, hinner]
        cases c.scanAsks st <;> cases (introspects r' st.call).isSome <;> rfl

theorem refreshEngines_slots (c : Conn α) (now : Rat) (scan : Scan α) :
    (c.refreshEngines now scan).1.current = c.current ∧ (c.refreshEngines now scan).1.inner.pending =
      if c.enginesDir && !scan.queries.isEmpty then [] else c.inner.pending := by
  unfold Conn.refreshEngines Conn.discoverNow
  dsimp only
  cases c.enginesDir with
  | false => exact ⟨rfl, rfl⟩
  | true =>
    refine ⟨rfl, ?_⟩
    simp only [Bool.not_true, Bool.false_eq_true, if_false, Bool.true_and]
    rw [asks_pending]
    cases scan.queries.isEmpty <;> rfl

/-- After one step the connection still shows what is pending, if and only if the step is safe. -/
theorem visible_step_iff {a : Act α Tbl Bound} (h : s.conn.visible = s.pending) (hs : step parse s a = some s') :
    s'.conn.visible = s'.pending ↔ Safe parse s a := by
  cases a with
  | execute st =>
    unfold step at hs
    unfold Safe
    dsimp only at hs ⊢
    have hcases := execute_cases parse s.conn st
    rcases hx : s.conn.execute parse st with ⟨conn, outcome⟩
    rw [hx] at hs hcases
    cases he : s.conn.ending parse st with
    | refused =>
      rw [he] at hcases
      obtain ⟨rfl, rfl⟩ := hcases
      cases hs
      exact iff_of_true h trivial
    | raised =>
      rw [he] at hcases
      obtain ⟨rfl, hcurrent, hinner⟩ := hcases
      cases hs
      exact visible_quiet_iff h hcurrent hinner
    | served =>
      rw [he] at hcases
      obtain ⟨rows, rfl, hvisible⟩ := hcases
      cases hs
      exact iff_of_true hvisible trivial
    | duckdb =>
      rw [he] at hcases
      rcases hcases with ⟨rows, hanswer, rfl, hvisible⟩ | ⟨hanswer, rfl, hcurrent, hinner⟩
      · cases hs
        exact iff_of_true hvisible (.inl (by rw [hanswer]; rfl))
      · cases hs
        -- DuckDB's own result is gone, a routed one stays
        dsimp only at hcurrent hinner ⊢
        unfold Conn.visible at h ⊢
        rw [hcurrent, hanswer]
        cases hc : s.conn.current with
        | none => exact iff_of_true hinner (.inr (.inl rfl))
        | some r =>
          rw [hc] at h
          dsimp only at h ⊢
          rw [h]
          simp
  | why st =>
    cases hs
    exact visible_quiet_iff h (why_slots parse s.conn st).1 (why_slots parse s.conn st).2
  | refreshEngines now scan =>
    cases hs
    exact visible_quiet_iff h (refreshEngines_slots s.conn now scan).1 (refreshEngines_slots s.conn now scan).2
  | fetch f =>
    cases hs
    refine iff_of_true ?_ trivial
    dsimp only
    rw [(s.conn.fetch_visible).2, h]

/-! ## Runs -/

/-- A new connection. -/
def Session.opened (router : Option QueryRouter) (blockWrites enginesDir : Bool) : Session α where
  conn := { router, blockWrites, enginesDir }

theorem visible_run {acts : List (Act α Tbl Bound)} (h : s.conn.visible = s.pending)
    (hsafe : Trace.Meets (step parse) (Safe parse) s acts) (hrun : Trace.exec (step parse) s acts = some s') :
    s'.conn.visible = s'.pending :=
  Trace.exec_invariant (I := fun s => s.conn.visible = s.pending)
    (fun _ _ _ hs ha hstep => (visible_step_iff hs hstep).2 ha)
    h hsafe hrun

/-- **A fetch reads the latest statement that ran**, after every run whose steps are safe; the next step keeps that
exactly when it is safe. -/
theorem fetch_latest (parse : SqlText → Option (List (Option Stmt))) (router : Option QueryRouter)
    (blockWrites enginesDir : Bool) (acts : List (Act α Tbl Bound)) (s : Session α)
    (hsafe : Trace.Meets (step parse) (Safe parse) (.opened router blockWrites enginesDir) acts)
    (hrun : Trace.exec (step parse) (.opened router blockWrites enginesDir) acts = some s) :
    (∀ f, (s.conn.fetch f).1 = (f.take s.pending).1) ∧ ∀ (a : Act α Tbl Bound) (s' : Session α),
      step parse s a = some s' → ((∀ f, (s'.conn.fetch f).1 = (f.take s'.pending).1) ↔ Safe parse s a) := by
  have hvisible : s.conn.visible = s.pending := visible_run rfl hsafe hrun
  refine ⟨fun f => by rw [s.conn.fetch_visible.1, hvisible], ?_⟩
  intro a s' hstep
  rw [← visible_step_iff hvisible hstep]
  constructor
  · intro hall
    have hrows := hall .all
    rw [s'.conn.fetch_visible.1] at hrows
    exact hrows
  · intro h f
    rw [s'.conn.fetch_visible.1, h]

/-! A router that serves the template `q` without checking it, beside statements of DuckDB. -/

def countBinding : EngineBinding where
  templateId := "e:1"
  normalizedSql := "q"
  queryId := "1"
  engineId := "e"
  placeholders := []
  outputSchema := [⟨"n", "INTEGER"⟩]
  tables := ["t"]
  schemaFingerprint := "f"
  engine := some 0

def countRouter : QueryRouter := { policy := { crossCheckRate := 0 }, registry := ({} : TemplateRegistry).register countBinding }

/-- A `SELECT` of the template `normalized`, if it is one. -/
def selectOf (normalized : Option String) (answer : Option (List Nat)) : Statement Nat Unit Unit where
  text := "select".toList
  call := {
    normalized
    guards := fun _ _ => [("schema_match_guard", true, "")]
    bind := fun _ => some ()
    engineRun := fun _ _ => .ok ()
    conn := true
    random := 0
    duckdb := .ok ()
    resultsEqual := fun _ _ => .ok true
    resultsDiff := fun _ _ => .ok ""
    toSynnoResult := fun _ _ => .ok { rows := [70, 80] } }
  answer

/-- `why` comes when the rows are fetched. -/
def fetchedFirst : List (Act Nat Unit Unit) :=
  [.execute (selectOf none (some [1, 2])), .fetch .all, .why (selectOf (some "q") none), .execute (selectOf (some "q") none),
    .fetch .one]

theorem fetch_latest_once : ∃ s, Trace.exec (step fun _ => none) (.opened (some countRouter) true false) fetchedFirst = some s ∧
    s.pending = [80] ∧ (s.conn.fetch .all).1 = [80] := by
  have hrun : ((Trace.exec (step fun _ => none) (.opened (some countRouter) true false) fetchedFirst).any fun s =>
      s.pending == [80]) = true := by decide +kernel
  obtain ⟨s, hs, hpending⟩ := (Option.any_eq_true _ _).1 hrun
  have hsafe : Trace.Meets (step fun _ => none) (Safe fun _ => none) (.opened (some countRouter) true false) fetchedFirst := by
    refine ⟨.inl rfl, fun s₁ h₁ => ⟨trivial, fun s₂ h₂ => ⟨.inr (.inl ?_), fun s₃ h₃ => ⟨?_, fun s₄ _ =>
      ⟨trivial, fun _ _ => trivial⟩⟩⟩⟩⟩
    · cases h₁
      cases h₂
      decide +kernel
    · cases h₁
      cases h₂
      cases h₃
      unfold Safe
      dsimp only
      split
      · rename_i hduckdb
        exact absurd hduckdb (by decide +kernel)
      · rename_i hraised
        exact absurd hraised (by decide +kernel)
      · trivial
  have hpending : s.pending = [80] := by simpa using hpending
  refine ⟨s, hs, hpending, ?_⟩
  rw [(fetch_latest _ _ _ _ _ _ hsafe hs).1, hpending]
  rfl

/-- Rows of DuckDB are pending and `why` checks the schema; rows of a routed statement are pending and DuckDB raises on
the next one. -/
theorem why_discards : (∃ s, Trace.exec (step fun _ => none) (.opened (some countRouter) true false)
      [Act.execute (selectOf none (some [1, 2])), .why (selectOf (some "q") none)] = some s ∧
      s.pending = [1, 2] ∧ (s.conn.fetch .all).1 = []) ∧
    ∃ s, Trace.exec (step fun _ => none) (.opened (some countRouter) true false)
      [Act.execute (selectOf (some "q") none), .execute (selectOf none none)] = some s ∧
      s.pending = [] ∧ (s.conn.fetch .all).1 = [70, 80] := by
  have hwhy : ((Trace.exec (step fun _ => none) (.opened (some countRouter) true false)
      [Act.execute (selectOf none (some [1, 2])), .why (selectOf (some "q") none)]).any fun s =>
      s.pending == [1, 2] && (s.conn.fetch .all).1 == []) = true := by decide +kernel
  have hraised : ((Trace.exec (step fun _ => none) (.opened (some countRouter) true false)
      [Act.execute (selectOf (some "q") none), .execute (selectOf none none)]).any fun s =>
      s.pending == [] && (s.conn.fetch .all).1 == [70, 80]) = true := by decide +kernel
  obtain ⟨s, hs, h⟩ := (Option.any_eq_true _ _).1 hwhy
  obtain ⟨s', hs', h'⟩ := (Option.any_eq_true _ _).1 hraised
  rw [Bool.and_eq_true, beq_iff_eq, beq_iff_eq] at h h'
  exact ⟨⟨s, hs, h⟩, ⟨s', hs', h'⟩⟩

end SynnoDB.Compat.Fetching
