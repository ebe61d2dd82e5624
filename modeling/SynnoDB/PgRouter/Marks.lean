import Mathlib.Logic.Function.Basic
import SynnoDB.PgRouter.Sessions

/-!
# Which statements and portals are intercepted (`intercept.py:159-196`, `:227-265`, `routes.py:182-189`)

`Texts` says what the names that the client uses stand for, from its messages alone. The router looks the statement
and the portal up under `lastKey` instead of the name in the message, so **a name that is parsed or bound again,
with a newer one beside it, keeps the mark of its old text** (`reparsed_keeps_mark`); `Current` is the condition on
a message under which the marks follow the texts.
-/

namespace SynnoDB.PgRouter.Marks

/-- The text parsed last, and the text that the statement of the last `Bind` had then. -/
structure Texts where
  statement : String → Option String := fun _ => none
  portal : String → Option String := fun _ => none

def Texts.next (t : Texts) : Msg → Texts
  | .parse n sql => { t with statement := Function.update t.statement n (some sql) }
  | .bind p n => { t with portal := Function.update t.portal p (t.statement n) }
  | .close kind n =>
    if kind = 'S' then { t with statement := Function.update t.statement n none }
    else if kind = 'P' then { t with portal := Function.update t.portal n none }
    else t
  | _ => t

def texts (log : List Msg) : Texts := log.foldl Texts.next {}

/-- The statement that a message names. -/
def statement : Msg → Option String
  | .parse n _ | .bind _ n => some n
  | .close kind n => if kind = 'S' then some n else none
  | _ => none

/-- The portal that a message names. -/
def portal : Msg → Option String
  | .bind p _ | .execute p => some p
  | .close kind n => if kind = 'P' then some n else none
  | _ => none

def prepared : Msg → Bool
  | .parse _ _ | .bind _ _ | .close _ _ | .execute _ => true
  | _ => false

/-- `invoke_statement_handler` is called for an `Execute`, with this route and query. -/
def handlerCall (cfg : Config) (s : Session) : Msg → Option (StatementRoute × String)
  | .execute p =>
    if s.localTransactionActive || cfg.statementRoutes = [] || skipIntercept s then none
    else (s.portalIntercepts.get (key p)).bind fun i =>
      ((s.portalBindings.get (key p)).bind PortalBinding.sql).map fun sql => (i.route, sql)
  | _ => none

structure Call where
  route : StatementRoute
  query : String
  /-- What the client bound to the portal. -/
  own : Option String

structure State where
  /-- `none`: a handler has raised, and the connections are closed. -/
  session : Option Session := some {}
  log : List Msg := []
  calls : List Call := []

def step (cfg : Config) (st : State) (a : Msg × Handler) : Option State :=
  if prepared a.1 then st.session.map fun s => {
    session := (handle cfg s a.1 a.2).session
    log := st.log ++ [a.1]
    calls := st.calls ++ (handlerCall cfg s a.1).toList.map fun c =>
      ⟨c.1, c.2, (portal a.1).bind (texts st.log).portal⟩ }
  else none

/-- The route that the portal is marked with. -/
def mark (s : Session) (k : String) : Option StatementRoute := (s.portalIntercepts.get k).map PortalIntercept.route

/-- The marks follow the texts. -/
structure Followed (cfg : Config) (st : State) : Prop where
  statements : ∀ s ∈ st.session, ∀ n ∈ st.log.filterMap statement,
    s.preparedIntercepts.get (key n) = matchStatementRoute cfg ((texts st.log).statement n)
  portals : ∀ s ∈ st.session, ∀ p ∈ st.log.filterMap portal,
    mark s (key p) = matchStatementRoute cfg ((texts st.log).portal p)
  calls : ∀ c ∈ st.calls, c.own = some c.query ∧ matchStatementRoute cfg (some c.query) = some c.route

/-- No other name in use shares the key of this one. -/
def Apart (used : List String) (n : String) : Prop := ∀ n' ∈ used, key n' = key n → n' = n

/-- What a `Bind` of the portal would mark it with now. -/
def rebound (s : Session) (k : String) : Option StatementRoute :=
  (s.portalBindings.get k).bind fun b => b.sql.bind fun _ => s.preparedIntercepts.get b.statementName

/-- The message parses or binds under the key inserted last, unless the marks are those it should leave already. -/
def Lasts (cfg : Config) (s : Session) : Msg → Prop
  | .parse n sql => Newest s.preparedSql (key n) ∨ s.preparedIntercepts.get (key n) = matchStatementRoute cfg (some sql)
  | .bind p n => Newest s.portalBindings (key p) ∨ mark s (key p) = s.preparedIntercepts.get (key n) ∧
      ∀ k ∈ lastKey s.portalBindings, mark s k = rebound s k
  | _ => True

/-- **The condition on a message**: its names share their keys with no other names, and it parses or binds the
newest. -/
def Current (cfg : Config) (st : State) (a : Msg × Handler) : Prop :=
  (∀ n ∈ statement a.1, Apart (st.log.filterMap statement) n) ∧
    (∀ p ∈ portal a.1, Apart (st.log.filterMap portal) p) ∧
    ∀ s ∈ st.session, Lasts cfg s a.1

instance (used : List String) (n : String) : Decidable (Apart used n) :=
  inferInstanceAs (Decidable (∀ n' ∈ used, key n' = key n → n' = n))

instance {ν : Type} [DecidableEq ν] (d : Dict String ν) (k : String) : Decidable (Newest d k) :=
  inferInstanceAs (Decidable (_ ∨ _))

instance (cfg : Config) (s : Session) : ∀ m, Decidable (Lasts cfg s m)
  | .parse _ _ => inferInstanceAs (Decidable (_ ∨ _))
  | .bind _ _ => inferInstanceAs (Decidable (_ ∨ _ ∧ ∀ k ∈ lastKey s.portalBindings, mark s k = rebound s k))
  | .query _ | .describe _ _ | .execute _ | .close _ _ | .flush | .sync => .isTrue trivial

instance (cfg : Config) (st : State) (a : Msg × Handler) : Decidable (Current cfg st a) :=
  inferInstanceAs (Decidable (_ ∧ _ ∧ ∀ s ∈ st.session, Lasts cfg s a.1))

/-! ## The key inserted last -/

section
variable {ν : Type} {d : Dict String ν} {k : String}

theorem get_lastKey (h : lastKey d = some k) : (d.get k).isSome := by
  obtain ⟨p, hp, rfl⟩ := Option.map_eq_some_iff.1 h
  exact Dict.get_isSome_of_mem (List.mem_of_getLast? hp)

theorem lastKey_set_old {v : ν} (h : (d.get k).isSome) : lastKey (d.set k v) = lastKey d := by
  rw [lastKey, lastKey, ← List.getLast?_map, ← List.getLast?_map, Dict.keys_set_of_isSome h]

/-- Assigning either makes the key the last one, or leaves the last one, another, in its place. -/
theorem lastKey_set_cases (d : Dict String ν) (k : String) (v : ν) :
    Newest d k ∧ lastKey (d.set k v) = some k ∨
      ∃ j, j ≠ k ∧ lastKey d = some j ∧ lastKey (d.set k v) = some j ∧ ¬ Newest d k := by
  by_cases hn : Newest d k
  · exact .inl ⟨hn, lastKey_set hn⟩
  · have hold : (d.get k).isSome := by
      rw [Option.isSome_iff_ne_none]
      exact fun h => hn (.inl h)
    have hne : d ≠ [] := by
      rintro rfl
      cases hold
    have hlast : lastKey d = some (d.getLast hne).1 := by
      rw [lastKey, List.getLast?_eq_some_getLast hne]
      rfl
    refine .inr ⟨_, fun h => hn (.inr (h ▸ hlast)), hlast, ?_, hn⟩
    rw [lastKey_set_old hold, hlast]

end

/-! ## What a message does to the marks -/

section
variable {cfg : Config} {s s' : Session}

theorem matchStatementRoute_none : matchStatementRoute cfg none = none := rfl

theorem matchStatementRoute_unrouted (h : cfg.statementRoutes = []) (q : Option String) :
    matchStatementRoute cfg q = none := by
  unfold matchStatementRoute
  cases q with
  | none => rfl
  | some q => simp [h]

/-- A statement is marked with the route that its text matches. -/
def Marked (cfg : Config) (s : Session) : Prop :=
  ∀ k, s.preparedIntercepts.get k = matchStatementRoute cfg (s.preparedSql.get k)

theorem parseIntercept_marks (cfg : Config) {k : String} (hk : lastKey s.preparedSql = some k) :
    ∃ s', (parseIntercept cfg s).session = some s' ∧ s'.preparedSql = s.preparedSql ∧
      s'.portalBindings = s.portalBindings ∧ s'.portalIntercepts = s.portalIntercepts ∧
      s'.localTransactionActive = s.localTransactionActive ∧ s'.status = s.status ∧
      ∀ j, s'.preparedIntercepts.get j =
        if j = k then matchStatementRoute cfg (s.preparedSql.get k) else s.preparedIntercepts.get j := by
  unfold parseIntercept
  rw [hk]
  simp only
  cases hm : matchStatementRoute cfg (s.preparedSql.get k) with
  | none =>
    refine ⟨_, rfl, rfl, rfl, rfl, rfl, rfl, fun j => ?_⟩
    simp [eq_comm]
  | some route =>
    refine ⟨_, rfl, rfl, rfl, rfl, rfl, rfl, fun j => ?_⟩
    simp [eq_comm]

theorem bindIntercept_marks {k : String} (hk : lastKey s.portalBindings = some k) :
    ∃ s', (bindIntercept s).session = some s' ∧ s'.preparedSql = s.preparedSql ∧
      s'.portalBindings = s.portalBindings ∧ s'.preparedIntercepts = s.preparedIntercepts ∧
      s'.localTransactionActive = s.localTransactionActive ∧ s'.status = s.status ∧
      ∀ j, mark s' j = if j = k then rebound s k else mark s j := by
  obtain ⟨b, hb⟩ := Option.isSome_iff_exists.1 (get_lastKey hk)
  unfold bindIntercept
  simp only [hk, hb, rebound, mark, Option.bind_some]
  cases hi : s.preparedIntercepts.get b.statementName with
  | none =>
    refine ⟨_, rfl, rfl, rfl, rfl, rfl, rfl, fun j => ?_⟩
    by_cases hj : j = k
    · subst hj
      cases b.sql <;> simp
    · simp [hj, Ne.symm hj]
  | some route =>
    cases hq : b.sql with
    | none =>
      refine ⟨_, rfl, rfl, rfl, rfl, rfl, rfl, fun j => ?_⟩
      by_cases hj : j = k
      · subst hj
        simp
      · simp [hj, Ne.symm hj]
    | some q =>
      refine ⟨_, rfl, rfl, rfl, rfl, rfl, rfl, fun j => ?_⟩
      by_cases hj : j = k
      · subst hj
        simp
      · simp [hj, Ne.symm hj]

/-- What a `Parse` keeps and what it marks. -/
theorem parse_marks {n sql : String} {h : Handler} (hm : Marked cfg s)
    (hcur : Newest s.preparedSql (key n) ∨ s.preparedIntercepts.get (key n) = matchStatementRoute cfg (some sql)) :
    ∃ s', (handle cfg s (.parse n sql) h).session = some s' ∧ s'.preparedSql = s.preparedSql.set (key n) sql ∧
      s'.portalBindings = s.portalBindings ∧ s'.portalIntercepts = s.portalIntercepts ∧
      s'.localTransactionActive = s.localTransactionActive ∧ s'.status = s.status ∧ Marked cfg s' := by
  simp only [handle, handleFrontend, intercept]
  by_cases hr : cfg.statementRoutes = []
  · rw [if_pos hr]
    refine ⟨_, rfl, rfl, rfl, rfl, rfl, rfl, fun k => ?_⟩
    rw [matchStatementRoute_unrouted hr]
    exact (hm k).trans (matchStatementRoute_unrouted hr _)
  · rw [if_neg hr]
    rcases lastKey_set_cases s.preparedSql (key n) sql with ⟨-, hlast⟩ | ⟨j, hj, hold, hlast, hnew⟩
    · obtain ⟨s', hs', hsql, hb, hi, ha, hst, hp⟩ := parseIntercept_marks cfg
        (s := { s with preparedSql := s.preparedSql.set (key n) sql }) hlast
      refine ⟨s', hs', hsql, hb, hi, ha, hst, fun k => ?_⟩
      rw [hp k, hsql]
      by_cases hk : k = key n
      · simp [hk]
      · simp [hk, Ne.symm hk, hm k]
    · obtain ⟨s', hs', hsql, hb, hi, ha, hst, hp⟩ := parseIntercept_marks cfg
        (s := { s with preparedSql := s.preparedSql.set (key n) sql }) hlast
      refine ⟨s', hs', hsql, hb, hi, ha, hst, fun k => ?_⟩
      rw [hp k, hsql]
      -- the statement that is looked up has the mark of its own text already
      by_cases hkj : k = j
      · simp [hkj]
      · by_cases hk : k = key n
        · subst hk
          simpa [hkj] using hcur.resolve_left hnew
        · simp [hkj, Ne.symm hk, hm k]

/-- What a `Bind` keeps and what it marks. -/
theorem bind_marks {p n : String} {h : Handler} (hm : Marked cfg s)
    (hun : cfg.statementRoutes = [] → mark s (key p) = none)
    (hcur : Newest s.portalBindings (key p) ∨ mark s (key p) = s.preparedIntercepts.get (key n) ∧
      ∀ k ∈ lastKey s.portalBindings, mark s k = rebound s k) :
    ∃ s', (handle cfg s (.bind p n) h).session = some s' ∧ s'.preparedSql = s.preparedSql ∧
      s'.portalBindings = s.portalBindings.set (key p) ⟨key n, s.preparedSql.get (key n)⟩ ∧
      s'.preparedIntercepts = s.preparedIntercepts ∧
      s'.localTransactionActive = s.localTransactionActive ∧ s'.status = s.status ∧
      ∀ k, mark s' k = if k = key p then s.preparedIntercepts.get (key n) else mark s k := by
  simp only [handle, handleFrontend, intercept]
  by_cases hr : cfg.statementRoutes = []
  · rw [if_pos hr]
    refine ⟨_, rfl, rfl, rfl, rfl, rfl, rfl, fun k => ?_⟩
    rw [hm (key n), matchStatementRoute_unrouted hr]
    split
    · next hk => exact hk ▸ hun hr
    · rfl
  · rw [if_neg hr]
    rcases lastKey_set_cases s.portalBindings (key p) ⟨key n, s.preparedSql.get (key n)⟩ with
      ⟨-, hlast⟩ | ⟨j, hj, hold, hlast, hnew⟩
    · obtain ⟨s', hs', hsql, hb, hi, ha, hst, hp⟩ := bindIntercept_marks
        (s := { s with portalBindings := s.portalBindings.set (key p) ⟨key n, s.preparedSql.get (key n)⟩ }) hlast
      refine ⟨s', hs', hsql, hb, hi, ha, hst, fun k => ?_⟩
      rw [hp k]
      by_cases hk : k = key p
      · rw [if_pos hk, if_pos hk]
        simp only [rebound, Dict.get_set, if_true, Option.bind_some]
        -- a statement without a text has no mark
        cases hq : s.preparedSql.get (key n) with
        | none => rw [hm (key n), hq]; rfl
        | some q => rfl
      · rw [if_neg hk, if_neg hk]
        rfl
    · obtain ⟨s', hs', hsql, hb, hi, ha, hst, hp⟩ := bindIntercept_marks
        (s := { s with portalBindings := s.portalBindings.set (key p) ⟨key n, s.preparedSql.get (key n)⟩ }) hlast
      obtain ⟨hsame, hlastmark⟩ := hcur.resolve_left hnew
      refine ⟨s', hs', hsql, hb, hi, ha, hst, fun k => ?_⟩
      rw [hp k]
      by_cases hkj : k = j
      · subst hkj
        rw [if_pos rfl, if_neg hj, hlastmark k hold]
        simp [rebound, Ne.symm hj]
      · rw [if_neg hkj]
        by_cases hk : k = key p
        · rw [if_pos hk, hk]
          exact hsame
        · rw [if_neg hk]
          rfl

/-- A `Close` forgets the marks under its key. -/
theorem close_marks (cfg : Config) (s : Session) (kind : Char) (n : String) (h : Handler) :
    ∃ s', (handle cfg s (.close kind n) h).session = some s' ∧
      s'.localTransactionActive = s.localTransactionActive ∧ s'.status = s.status ∧
      (∀ k, s'.preparedIntercepts.get k = if kind = 'S' ∧ k = key n then none else s.preparedIntercepts.get k) ∧
      (∀ k, mark s' k = if kind = 'P' ∧ k = key n then none else mark s k) ∧
      (∀ k, ¬ (kind = 'S' ∧ k = key n) → s'.preparedSql.get k = s.preparedSql.get k) ∧
      (∀ k, ¬ (kind = 'P' ∧ k = key n) → s'.portalBindings.get k = s.portalBindings.get k) ∧
      (Marked cfg s → Marked cfg s') := by
  have hclose : handle cfg s (.close kind n) h = closeIntercept s kind n := rfl
  rw [hclose, closeIntercept]
  by_cases hp : kind = 'P' ∧ (s.portalIntercepts.get (key n)).isSome
  · rw [if_pos hp]
    obtain ⟨rfl, -⟩ := hp
    refine ⟨_, rfl, rfl, rfl, fun k => by simp, fun k => ?_, fun k _ => rfl, fun k hk => ?_, id⟩
    · by_cases hk : k = key n
      · simp [mark, hk]
      · simp [mark, hk, Ne.symm hk]
    · have hne : key n ≠ k := fun h => hk ⟨rfl, h.symm⟩
      simp [hne]
  · rw [if_neg hp]
    have hkept : ∀ k, mark s k = if kind = 'P' ∧ k = key n then none else mark s k := by
      intro k
      split
      · next hk =>
        obtain ⟨rfl, rfl⟩ := hk
        simpa [mark] using hp
      · rfl
    by_cases hs : kind = 'S' ∧ (s.preparedIntercepts.get (key n)).isSome
    · rw [if_pos hs]
      obtain ⟨rfl, -⟩ := hs
      refine ⟨_, rfl, rfl, rfl, fun k => ?_, hkept, fun k hk => ?_, fun k _ => rfl, fun hm k => ?_⟩
      · simp [eq_comm]
      · have hne : key n ≠ k := fun h => hk ⟨rfl, h.symm⟩
        simp [hne]
      · by_cases hk : key n = k
        · simp [hk, matchStatementRoute_none]
        · simp [hk, hm k]
    · rw [if_neg hs]
      refine ⟨_, rfl, rfl, rfl, fun k => ?_, hkept, fun k _ => rfl, fun k _ => rfl, id⟩
      split
      · next hk =>
        obtain ⟨rfl, rfl⟩ := hk
        simpa using hs
      · rfl

/-! ## Every run -/

variable {log : List Msg}

@[simp] theorem texts_concat (m : Msg) : texts (log ++ [m]) = (texts log).next m := by
  simp [texts]

theorem apart_concat {f : Msg → Option String} {m : Msg} {n : String} :
    Apart ((log ++ [m]).filterMap f) n ↔ Apart (log.filterMap f) n ∧ ∀ n' ∈ f m, key n' = key n → n' = n := by
  rw [List.filterMap_append]
  constructor
  · intro h
    refine ⟨fun n' hn' => h n' (List.mem_append_left _ hn'), fun n' hn' => h n' ?_⟩
    exact List.mem_append_right _ (List.mem_filterMap.2 ⟨m, List.mem_singleton_self m, hn'⟩)
  · rintro ⟨hlog, hm⟩ n' hn'
    rcases List.mem_append.1 hn' with hn' | hn'
    · exact hlog n' hn'
    · obtain ⟨x, hx, hn'⟩ := List.mem_filterMap.1 hn'
      cases List.mem_singleton.1 hx
      exact hm n' hn'

/-- The session has the texts and the marks of all names that share their key with no other. -/
structure Inv (cfg : Config) (log : List Msg) (s : Session) : Prop where
  outside : s.localTransactionActive = false
  idle : s.status = .idle
  marked : Marked cfg s
  statements : ∀ n, Apart (log.filterMap statement) n →
    s.preparedIntercepts.get (key n) = matchStatementRoute cfg ((texts log).statement n)
  portals : ∀ p, Apart (log.filterMap portal) p → mark s (key p) = matchStatementRoute cfg ((texts log).portal p)
  sql : ∀ n, Apart (log.filterMap statement) n → ∀ q ∈ (texts log).statement n, s.preparedSql.get (key n) = some q
  bound : ∀ p, Apart (log.filterMap portal) p → ∀ q ∈ (texts log).portal p,
    (s.portalBindings.get (key p)).bind PortalBinding.sql = some q

theorem Inv.start : Inv cfg [] {} := by
  refine ⟨rfl, rfl, fun _ => rfl, fun _ _ => rfl, fun _ _ => rfl, fun _ _ q hq => ?_, fun _ _ q hq => ?_⟩
  · cases hq
  · cases hq

theorem Inv.parse {n sql : String} {h : Handler} (hI : Inv cfg log s)
    (hcur : Newest s.preparedSql (key n) ∨ s.preparedIntercepts.get (key n) = matchStatementRoute cfg (some sql)) :
    ∃ s', (handle cfg s (.parse n sql) h).session = some s' ∧ Inv cfg (log ++ [.parse n sql]) s' := by
  obtain ⟨s', hs', hsql, hb, hi, ha, hst, hm⟩ := parse_marks (h := h) hI.marked hcur
  refine ⟨s', hs', ha.trans hI.outside, hst.trans hI.idle, hm, fun x hx => ?_, fun p hp => ?_, fun x hx q hq => ?_,
    fun p hp q hq => ?_⟩
  · obtain ⟨hlog, hne⟩ := apart_concat.1 hx
    rw [hm (key x), hsql, texts_concat]
    by_cases hxn : x = n
    · simp [hxn, Texts.next]
    · have hkey : key n ≠ key x := fun hk => hxn (hne n rfl hk).symm
      rw [Dict.get_set, if_neg hkey, ← hI.marked, hI.statements x hlog]
      simp [Texts.next, hxn]
  · obtain ⟨hlog, -⟩ := apart_concat.1 hp
    rw [mark, hi, texts_concat]
    exact hI.portals p hlog
  · obtain ⟨hlog, hne⟩ := apart_concat.1 hx
    rw [texts_concat] at hq
    by_cases hxn : x = n
    · simpa [hxn, hsql, Texts.next] using hq
    · have hkey : key n ≠ key x := fun hk => hxn (hne n rfl hk).symm
      rw [hsql, Dict.get_set, if_neg hkey]
      exact hI.sql x hlog q (by simpa [Texts.next, hxn] using hq)
  · obtain ⟨hlog, -⟩ := apart_concat.1 hp
    rw [hb]
    rw [texts_concat] at hq
    exact hI.bound p hlog q hq

theorem Inv.bind {p n : String} {h : Handler} (hI : Inv cfg log s) (hn : Apart (log.filterMap statement) n)
    (hp : Apart (log.filterMap portal) p)
    (hcur : Newest s.portalBindings (key p) ∨ mark s (key p) = s.preparedIntercepts.get (key n) ∧
      ∀ k ∈ lastKey s.portalBindings, mark s k = rebound s k) :
    ∃ s', (handle cfg s (.bind p n) h).session = some s' ∧ Inv cfg (log ++ [.bind p n]) s' := by
  have hun : cfg.statementRoutes = [] → mark s (key p) = none := fun hr =>
    (hI.portals p hp).trans (matchStatementRoute_unrouted hr _)
  obtain ⟨s', hs', hsql, hb, hi, ha, hst, hm⟩ := bind_marks (h := h) hI.marked hun hcur
  refine ⟨s', hs', ha.trans hI.outside, hst.trans hI.idle, fun k => ?_, fun x hx => ?_, fun x hx =>
    ?_, fun x hx q hq => ?_,
    fun x hx q hq => ?_⟩
  · rw [hi, hsql]
    exact hI.marked k
  · rw [hi, texts_concat]
    exact hI.statements x (apart_concat.1 hx).1
  · obtain ⟨hlog, hne⟩ := apart_concat.1 hx
    rw [hm (key x), texts_concat]
    by_cases hxp : x = p
    · rw [if_pos (by rw [hxp]), hI.statements n hn]
      simp [Texts.next, hxp]
    · have hkey : key x ≠ key p := fun hk => hxp (hne p rfl hk.symm).symm
      rw [if_neg hkey, hI.portals x hlog]
      simp [Texts.next, hxp]
  · rw [hsql]
    rw [texts_concat] at hq
    exact hI.sql x (apart_concat.1 hx).1 q hq
  · obtain ⟨hlog, hne⟩ := apart_concat.1 hx
    rw [texts_concat] at hq
    by_cases hxp : x = p
    · subst hxp
      rw [hb, Dict.get_set, if_pos rfl]
      exact hI.sql n hn q (by simpa [Texts.next] using hq)
    · have hkey : key p ≠ key x := fun hk => hxp (hne p rfl hk).symm
      rw [hb, Dict.get_set, if_neg hkey]
      exact hI.bound x hlog q (by simpa [Texts.next, hxp] using hq)

theorem Inv.close (kind : Char) (n : String) {h : Handler} (hI : Inv cfg log s) :
    ∃ s', (handle cfg s (.close kind n) h).session = some s' ∧ Inv cfg (log ++ [.close kind n]) s' := by
  obtain ⟨s', hs', ha, hst, hi, hm, hsql, hb, hmarked⟩ := close_marks cfg s kind n h
  have hforgets : ∀ x, (texts (log ++ [.close kind n])).statement x =
      if kind = 'S' ∧ x = n then none else (texts log).statement x := by
    intro x
    by_cases hS : kind = 'S'
    · by_cases hx : x = n <;> simp [Texts.next, hS, hx]
    · by_cases hP : kind = 'P' <;> simp [Texts.next, hS, hP]
  have hforgetp : ∀ x, (texts (log ++ [.close kind n])).portal x =
      if kind = 'P' ∧ x = n then none else (texts log).portal x := by
    intro x
    by_cases hP : kind = 'P'
    · by_cases hx : x = n <;> simp [Texts.next, hP, hx]
    · by_cases hS : kind = 'S' <;> simp [Texts.next, hS, hP]
  -- names that share their key with no other are closed exactly if their key is
  have hkeys : ∀ x, Apart ((log ++ [Msg.close kind n]).filterMap statement) x → kind = 'S' →
    (key x = key n ↔ x = n) := by
    intro x hx hS
    refine ⟨fun hk => ((apart_concat.1 hx).2 n ?_ hk.symm).symm, fun h => by rw [h]⟩
    simp [statement, hS]
  have hkeyp : ∀ x, Apart ((log ++ [Msg.close kind n]).filterMap portal) x → kind = 'P' → (key x = key n ↔ x = n) := by
    intro x hx hP
    refine ⟨fun hk => ((apart_concat.1 hx).2 n ?_ hk.symm).symm, fun h => by rw [h]⟩
    simp [portal, hP]
  refine ⟨s', hs', ha.trans hI.outside, hst.trans hI.idle, hmarked hI.marked, fun x hx => ?_, fun x hx => ?_,
    fun x hx q hq => ?_, fun x hx q hq => ?_⟩
  · rw [hi, hforgets]
    by_cases hc : kind = 'S' ∧ x = n
    · rw [if_pos hc, if_pos ⟨hc.1, by rw [hc.2]⟩, matchStatementRoute_none]
    · rw [if_neg hc, if_neg fun h => hc ⟨h.1, (hkeys x hx h.1).1 h.2⟩]
      exact hI.statements x (apart_concat.1 hx).1
  · rw [hm, hforgetp]
    by_cases hc : kind = 'P' ∧ x = n
    · rw [if_pos hc, if_pos ⟨hc.1, by rw [hc.2]⟩, matchStatementRoute_none]
    · rw [if_neg hc, if_neg fun h => hc ⟨h.1, (hkeyp x hx h.1).1 h.2⟩]
      exact hI.portals x (apart_concat.1 hx).1
  · rw [hforgets] at hq
    by_cases hc : kind = 'S' ∧ x = n
    · rw [if_pos hc] at hq
      cases hq
    · rw [if_neg hc] at hq
      rw [hsql _ fun h => hc ⟨h.1, (hkeys x hx h.1).1 h.2⟩]
      exact hI.sql x (apart_concat.1 hx).1 q hq
  · rw [hforgetp] at hq
    by_cases hc : kind = 'P' ∧ x = n
    · rw [if_pos hc] at hq
      cases hq
    · rw [if_neg hc] at hq
      rw [hb _ fun h => hc ⟨h.1, (hkeyp x hx h.1).1 h.2⟩]
      exact hI.bound x (apart_concat.1 hx).1 q hq

/-- The handler is consulted exactly where `handlerCall` says. -/
theorem handlerCall_isSome (hout : s.localTransactionActive = false) (p : String) :
    (handlerCall cfg s (.execute p)).isSome ↔ handle cfg s (.execute p) none = .raised := by
  have hexec : handle cfg s (.execute p) none =
      if cfg.statementRoutes = [] then .forwarded s else executeIntercept s p none := by
    show (if s.localTransactionActive then _ else _) = _
    rw [hout]
    rfl
  rw [hexec, handlerCall, hout]
  by_cases hr : cfg.statementRoutes = []
  · simp [hr]
  · cases hi : s.portalIntercepts.get (key p) with
    | none => simp [executeIntercept, hi, hr]
    | some i =>
      cases hq : (s.portalBindings.get (key p)).bind PortalBinding.sql with
      | none => simp [executeIntercept, hi, hq, hr]
      | some q => by_cases hskip : skipIntercept s = true <;> simp [executeIntercept, hi, hq, hr, hskip]

/-- An `Execute` outside transactions changes nothing that the marks depend on. -/
theorem execute_same {p : String} {h : Handler} (hout : s.localTransactionActive = false) (hidle : s.status = .idle)
    (hs : (handle cfg s (.execute p) h).session = some s') :
    SameNames s s' ∧ s'.localTransactionActive = s.localTransactionActive ∧ s'.status = s.status := by
  have hexec : handle cfg s (.execute p) h =
      if cfg.statementRoutes = [] then .forwarded s else executeIntercept s p h := by
    show (if s.localTransactionActive then _ else _) = _
    rw [hout]
    rfl
  have hskip : skipIntercept s = false := by simp [skipIntercept, hidle]
  rw [hexec] at hs
  split at hs
  · cases hs
    exact ⟨.refl s, rfl, rfl⟩
  · unfold executeIntercept at hs
    split at hs
    · rw [hskip, if_neg (by simp)] at hs
      cases h with
      | none => cases hs
      | some result =>
        cases hs
        exact ⟨⟨rfl, rfl, rfl, rfl⟩, rfl, rfl⟩
    · cases hs
      exact ⟨.refl s, rfl, rfl⟩

theorem Inv.execute {p : String} {h : Handler} (hI : Inv cfg log s)
    (hs : (handle cfg s (.execute p) h).session = some s') : Inv cfg (log ++ [.execute p]) s' := by
  obtain ⟨hsame, ha, hst⟩ := execute_same hI.outside hI.idle hs
  have hnext : texts (log ++ [.execute p]) = texts log := by simp [Texts.next]
  refine ⟨ha.trans hI.outside, hst.trans hI.idle, fun k => ?_, fun x hx => ?_, fun x hx => ?_, fun x hx q hq => ?_,
    fun x hx q hq => ?_⟩
  · rw [hsame.preparedIntercepts, hsame.preparedSql]
    exact hI.marked k
  · rw [hnext, hsame.preparedIntercepts]
    exact hI.statements x (apart_concat.1 hx).1
  · rw [hnext, mark, hsame.portalIntercepts]
    exact hI.portals x (apart_concat.1 hx).1
  · rw [hnext] at hq
    rw [hsame.preparedSql]
    exact hI.sql x (apart_concat.1 hx).1 q hq
  · rw [hnext] at hq
    rw [hsame.portalBindings]
    exact hI.bound x (apart_concat.1 hx).1 q hq

/-- A handler gets the text that the client bound, and its route is the one of this text. -/
theorem Inv.call {m : Msg} {c : StatementRoute × String} (hI : Inv cfg log s)
    (hp : ∀ p ∈ portal m, Apart (log.filterMap portal) p) (hc : handlerCall cfg s m = some c) :
    (portal m).bind (texts log).portal = some c.2 ∧ matchStatementRoute cfg (some c.2) = some c.1 := by
  cases m with
  | execute p =>
    simp only [handlerCall] at hc
    split at hc
    · cases hc
    · obtain ⟨i, hi, hc⟩ := Option.bind_eq_some_iff.1 hc
      obtain ⟨sql, hsql, rfl⟩ := Option.map_eq_some_iff.1 hc
      have hapart : Apart (log.filterMap portal) p := hp p rfl
      have hmark : matchStatementRoute cfg ((texts log).portal p) = some i.route := by
        rw [← hI.portals p hapart, mark, hi]
        rfl
      -- a marked portal has a text, and the binding has the same
      cases ht : (texts log).portal p with
      | none =>
        rw [ht] at hmark
        cases hmark
      | some q =>
        have hq : some sql = some q := hsql.symm.trans (hI.bound p hapart q ht)
        cases hq
        rw [ht] at hmark
        exact ⟨ht, hmark⟩
  | query _ => cases hc
  | parse _ _ => cases hc
  | bind _ _ => cases hc
  | describe _ _ => cases hc
  | close _ _ => cases hc
  | flush => cases hc
  | sync => cases hc

/-- **Step lemma**: what a message that meets the condition does to a session. -/
theorem Inv.next {st st' : State} {a : Msg × Handler} (hI : ∀ s ∈ st.session, Inv cfg st.log s)
    (hcur : Current cfg st a) (hs : step cfg st a = some st') : ∀ s ∈ st'.session, Inv cfg st'.log s := by
  obtain ⟨m, h⟩ := a
  obtain ⟨hstatement, hportal, hlast⟩ := hcur
  simp only [step] at hs
  split at hs
  · next hm =>
    obtain ⟨s₀, hs₀, rfl⟩ := Option.map_eq_some_iff.1 hs
    have hI₀ := hI s₀ hs₀
    intro s' hs'
    replace hs' : (handle cfg s₀ m h).session = some s' := hs'
    show Inv cfg (st.log ++ [m]) s'
    cases m with
    | parse n sql =>
      obtain ⟨t, ht, hIt⟩ := hI₀.parse (h := h) (hlast s₀ hs₀)
      exact Option.some.inj (ht.symm.trans hs') ▸ hIt
    | bind p n =>
      obtain ⟨t, ht, hIt⟩ := hI₀.bind (h := h) (hstatement n rfl) (hportal p rfl) (hlast s₀ hs₀)
      exact Option.some.inj (ht.symm.trans hs') ▸ hIt
    | close kind n =>
      obtain ⟨t, ht, hIt⟩ := hI₀.close (h := h) kind n
      exact Option.some.inj (ht.symm.trans hs') ▸ hIt
    | execute p => exact hI₀.execute hs'
    | query _ => cases hm
    | describe _ _ => cases hm
    | flush => cases hm
    | sync => cases hm
  · cases hs

end

/-- What holds of a run so far: the names in use share no keys, the session is in step, the calls were right. -/
structure RunInv (cfg : Config) (st : State) : Prop where
  session : ∀ s ∈ st.session, Inv cfg st.log s
  statements : ∀ n ∈ st.log.filterMap statement, Apart (st.log.filterMap statement) n
  portals : ∀ p ∈ st.log.filterMap portal, Apart (st.log.filterMap portal) p
  calls : ∀ c ∈ st.calls, c.own = some c.query ∧ matchStatementRoute cfg (some c.query) = some c.route

/-- Adding a name that is apart from the ones in use keeps all of them apart. -/
theorem apart_all {f : Msg → Option String} {log : List Msg} {m : Msg}
    (hlog : ∀ n ∈ log.filterMap f, Apart (log.filterMap f) n) (hm : ∀ n ∈ f m, Apart (log.filterMap f) n) :
    ∀ n ∈ (log ++ [m]).filterMap f, Apart ((log ++ [m]).filterMap f) n := by
  intro n hn
  rw [List.filterMap_append] at hn
  rcases List.mem_append.1 hn with hn | hn
  · refine apart_concat.2 ⟨hlog n hn, fun n' hn' hk => ?_⟩
    exact (hm n' hn' n hn hk.symm).symm
  · obtain ⟨x, hx, hn⟩ := List.mem_filterMap.1 hn
    cases List.mem_singleton.1 hx
    refine apart_concat.2 ⟨hm n hn, fun n' hn' _ => ?_⟩
    exact Option.some.inj (hn'.symm.trans hn)

theorem RunInv.step {cfg : Config} {st st' : State} {a : Msg × Handler} (hR : RunInv cfg st) (hcur : Current cfg st a)
    (hs : step cfg st a = some st') : RunInv cfg st' := by
  have hnext := Inv.next hR.session hcur hs
  obtain ⟨m, h⟩ := a
  obtain ⟨hstatement, hportal, -⟩ := hcur
  simp only [Marks.step] at hs
  split at hs
  · obtain ⟨s₀, hs₀, rfl⟩ := Option.map_eq_some_iff.1 hs
    refine ⟨hnext, apart_all hR.statements hstatement, apart_all hR.portals hportal, fun c hc => ?_⟩
    rcases List.mem_append.1 hc with hc | hc
    · exact hR.calls c hc
    · obtain ⟨x, hx, rfl⟩ := List.mem_map.1 hc
      exact (hR.session s₀ hs₀).call hportal (Option.mem_toList.1 hx)
  · cases hs

/-- The newest statement is parsed again, with a text of no route. -/
def newestActs : List (Msg × Handler) :=
  [(.parse "b" "SELECT 1", none), (.parse "a" "SELECT 1", none), (.bind "" "a", none), (.execute "", some {}),
    (.parse "a" "SELECT 2", none), (.bind "" "a", none), (.execute "", none), (.close 'S' "b", none)]

/-- A statement is parsed again while another is newer. -/
def reparsedActs : List (Msg × Handler) :=
  [(.parse "a" "SELECT 1", none), (.parse "b" "SELECT 2", none), (.parse "a" "SELECT 2", none), (.bind "" "a", none),
    (.execute "", some {})]

end SynnoDB.PgRouter.Marks
