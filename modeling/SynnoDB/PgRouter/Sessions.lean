import SynnoDB.Lib.Since
import SynnoDB.Lib.Trace
import SynnoDB.PgRouter.Intercept

/-!
# Sessions of the intercepting router (`intercept.py`, `server.py:38-79`, `backend.py:89-104`)

The contract is stated over what is exchanged, without the router's state: one `ReadyForQuery` a `Sync` or `Query`
(`Conforms.ready`), no `Sync` kept back that the server waits for (`Conforms.synced`), nothing forwarded about a
statement or a portal that the server has never seen (`Conforms.known`). **An intercepted `Execute` breaks it**
(`execute_twice_ready`), and so does a cycle that is answered in part; `Clean` is the condition on a message and
the state it finds.
-/

namespace SynnoDB.PgRouter

open History

/-- A message that the router is through with; `replies` is `none` where it was forwarded. -/
structure Exchange where
  msg : Msg
  replies : Option (List Reply)

def Msg.asks : Msg → Bool
  | .query _ | .sync => true
  | _ => false

def Msg.extended : Msg → Bool
  | .query _ => false
  | _ => true

def Reply.isReady : Reply → Bool
  | .readyForQuery _ => true
  | _ => false

namespace Exchange

variable (e : Exchange)

def forwarded : Bool := e.replies.isNone

/-- The `ReadyForQuery` messages that the client gets for it: the router's own, or the one of the server. -/
def readies : Nat :=
  match e.replies with
  | some replies => replies.countP Reply.isReady
  | none => if e.msg.asks then 1 else 0

/-- `Parse` of the statement. -/
def Parses (n : String) : Prop := ∃ sql, e.msg = .parse n sql

/-- `Bind` of the portal. -/
def Binds (n : String) : Prop := ∃ statement, e.msg = .bind n statement

end Exchange

/-- An extended-protocol message went to the server, and no `Sync` since. -/
def Unsynced (log : List Exchange) : Prop :=
  Since (fun e => e.forwarded = true ∧ e.msg.extended = true ∧ e.msg ≠ .sync)
    (fun e => e.forwarded = true ∧ e.msg = .sync) log

/-- The last `Parse` of the statement was answered by the router. -/
def LocalStatement (n : String) (log : List Exchange) : Prop :=
  Since (fun e => e.Parses n ∧ e.forwarded = false)
    (fun e => e.Parses n ∧ e.forwarded = true ∨ e.msg = .close 'S' n) log

def LocalPortal (n : String) (log : List Exchange) : Prop :=
  Since (fun e => e.Binds n ∧ e.forwarded = false)
    (fun e => e.Binds n ∧ e.forwarded = true ∨ e.msg = .close 'P' n) log

/-- The message refers to a statement or a portal that only the router knows. -/
def RefersLocal (log : List Exchange) : Msg → Prop
  | .bind _ statement => LocalStatement statement log
  | .describe kind n | .close kind n => kind = 'S' ∧ LocalStatement n log ∨ kind = 'P' ∧ LocalPortal n log
  | .execute portal => LocalPortal portal log
  | _ => False

/-- What the protocol demands of the next exchange. -/
structure Conforms (log : List Exchange) (e : Exchange) : Prop where
  ready : e.readies = if e.msg.asks then 1 else 0
  synced : e.msg = .sync → Unsynced log → e.forwarded = true
  known : e.forwarded = true → ¬ RefersLocal log e.msg

/-! ## Runs -/

structure State where
  /-- `none`: a handler has raised, and the connections are closed. -/
  session : Option Session := some {}
  log : List Exchange := []
  /-- What the server has still to answer with a `ReadyForQuery`. -/
  owed : Nat := 0
  /-- What the client has got of them. -/
  readies : Nat := 0

inductive Act where
  | client (m : Msg) (h : Handler)
  /-- A `ReadyForQuery` of the server is relayed. -/
  | ready (status : TxStatus)

def State.exchange (s : State) (session : Session) (e : Exchange) : State := { s with
  session := some session
  log := s.log ++ [e]
  owed := s.owed + if e.forwarded && e.msg.asks then 1 else 0
  readies := s.readies + (e.replies.getD []).countP Reply.isReady }

def step (cfg : Config) (s : State) : Act → Option State
  | .client m h => s.session.map fun session => match handle cfg session m h with
    | .forwarded session => s.exchange session ⟨m, none⟩
    | .answered replies session => s.exchange session ⟨m, some replies⟩
    | .raised => { s with session := none }
  | .ready status => if 0 < s.owed then some { s with
      session := s.session.map fun session => { session with status }
      owed := s.owed - 1
      readies := s.readies + 1 } else none

/-- The key is new, or the one inserted last. -/
def Newest {ν : Type} (d : Dict String ν) (k : String) : Prop := d.get k = none ∨ lastKey d = some k

/-- **The condition on a message**: it uses no name that is also the key of the unnamed one and parses or binds
under the key inserted last, it executes no intercepted portal outside a local transaction, and it is no `Sync` of
a cycle that was answered in part. -/
def Clean (cfg : Config) (s : State) : Act → Prop
  | .client m _ => ∀ session, s.session = some session → match m with
    | .parse n _ => cfg.statementRoutes = [] ∨ n ≠ "<unnamed>" ∧ Newest session.preparedSql (key n)
    | .bind n _ => cfg.statementRoutes = [] ∨ n ≠ "<unnamed>" ∧ Newest session.portalBindings (key n)
    | .close _ n => n ≠ "<unnamed>"
    | .execute portal => session.localTransactionActive = true ∨ session.portalIntercepts.get (key portal) = none
    | .sync => session.localSyncPending = false ∨ ¬ Unsynced s.log
    | _ => True
  | .ready _ => True

/-! ## What each handler writes and keeps -/

variable {cfg : Config} {s s' : Session} {m : Msg} {h : Handler} {rs : List Reply} {log : List Exchange}

/-- Who knows the statements and portals of the session. -/
structure SameNames (s s' : Session) : Prop where
  preparedSql : s'.preparedSql = s.preparedSql
  portalBindings : s'.portalBindings = s.portalBindings
  preparedIntercepts : s'.preparedIntercepts = s.preparedIntercepts
  portalIntercepts : s'.portalIntercepts = s.portalIntercepts

theorem SameNames.refl (s : Session) : SameNames s s := ⟨rfl, rfl, rfl, rfl⟩

/-- The outcome leaves the names alone, and writes `n` times `ReadyForQuery` if it answers. -/
def Outcome.Answers (s : Session) (n : Nat) : Outcome → Prop
  | .forwarded s' => SameNames s s'
  | .answered rs s' => SameNames s s' ∧ rs.countP Reply.isReady = n
  | .raised => True

theorem SameNames.trans {s₁ s₂ s₃ : Session} (h : SameNames s₁ s₂) (h' : SameNames s₂ s₃) : SameNames s₁ s₃ :=
  ⟨h'.1.trans h.1, h'.2.trans h.2, h'.3.trans h.3, h'.4.trans h.4⟩

theorem Outcome.Answers.trans {n : Nat} {o : Outcome} (h : SameNames s s') (ho : o.Answers s' n) : o.Answers s n := by
  cases o with
  | forwarded s'' => exact h.trans ho
  | answered rs s'' => exact ⟨h.trans ho.1, ho.2⟩
  | raised => trivial

@[simp] theorem description_ready (b : Bool) : (description b).isReady = false := by cases b <;> rfl

theorem queryResponse_ready (r : HandlerResult) (d b : Bool) :
    (queryResponse s r d b).countP Reply.isReady = b.toNat := by
  have hrows : (List.replicate r.rows Reply.dataRow).countP Reply.isReady = 0 := by
    rw [List.countP_replicate]
    rfl
  rw [queryResponse, List.countP_append, List.countP_append, List.countP_append, hrows]
  cases d <;> cases b <;> simp [List.countP_cons] <;> rfl

theorem transactionError_answers (code : String) (w : Bool) : (transactionError s code w).Answers s (!w).toNat := by
  cases w <;> exact ⟨⟨rfl, rfl, rfl, rfl⟩, rfl⟩

theorem transactionEnd_answers (c : Bool) (h : Option (Option String)) : (transactionEnd s c h).Answers s 1 := by
  unfold transactionEnd
  split
  · exact transactionError_answers _ false
  · split
    · trivial
    · exact ⟨⟨rfl, rfl, rfl, rfl⟩, rfl⟩

theorem transactionStatement_answers (q : String) (b : Bool) (h : Handler) :
    (transactionStatement cfg s q b h).Answers s (!b).toNat := by
  unfold transactionStatement
  split
  · trivial
  · exact transactionError_answers _ b
  · simp only
    split
    · cases h with
      | none => trivial
      | some r => exact ⟨⟨rfl, rfl, rfl, rfl⟩, queryResponse_ready _ _ _⟩
    · cases b <;> exact ⟨⟨rfl, rfl, rfl, rfl⟩, rfl⟩

theorem transactionSimple_answers (sql : String) (h : Handler) :
    (transactionSimpleIntercept cfg s sql h).Answers s 1 := by
  unfold transactionSimpleIntercept
  simp only
  split
  · split
    · exact ⟨⟨rfl, rfl, rfl, rfl⟩, rfl⟩
    · exact .refl s
  · split
    · exact transactionEnd_answers _ _
    · split
      · split
        · exact transactionError_answers _ false
        · exact transactionEnd_answers _ _
      · split
        · exact transactionError_answers _ false
        · exact transactionStatement_answers _ false _

theorem simpleQuery_answers (sql : String) (h : Handler) : (simpleQueryIntercept cfg s sql h).Answers s 1 := by
  unfold simpleQueryIntercept
  split
  · exact .refl s
  · split
    · exact .refl s
    · split
      · trivial
      · exact ⟨.refl s, queryResponse_ready _ true true⟩

/-- One `ReadyForQuery` for a `Query`, whoever answers. -/
theorem query_answers (sql : String) (h : Handler) : (handle cfg s (.query sql) h).Answers s 1 := by
  have htx : (transactionSimpleIntercept cfg s sql h).Answers s 1 := transactionSimple_answers sql h
  simp only [handle, handleFrontend, intercept]
  split
  · rename_i s' heq
    rw [heq] at htx
    split
    · exact htx
    · exact (simpleQuery_answers sql h).trans htx
  · exact htx

/-- None for an `Execute` of a local transaction. -/
theorem transactionExecute_answers (portal : String) (h : Handler) :
    (transactionExecuteIntercept cfg s portal h).Answers s 0 := by
  unfold transactionExecuteIntercept
  split
  · exact .refl s
  · split
    · exact transactionError_answers _ true
    · rename_i sql _ _
      have : (transactionStatement cfg s sql true h).Answers s 0 := transactionStatement_answers sql true h
      cases ho : transactionStatement cfg s sql true h with
      | forwarded s' => rwa [ho] at this
      | answered rs s' =>
        rw [ho] at this
        exact ⟨⟨this.1.1, this.1.2, this.1.3, this.1.4⟩, this.2⟩
      | raised => trivial

theorem transactionStatement_local {q : String} {b : Bool} : transactionStatement cfg s q b h ≠ .forwarded s' := by
  unfold transactionStatement
  split
  · simp
  · simp [transactionError]
  · simp only
    split
    · cases h <;> simp
    · simp [transactionError]

/-- In a local transaction the router answers for every portal whose text it has. -/
theorem transactionExecute_local {portal sql : String}
    (hsql : (s.portalBindings.get (key portal)).bind PortalBinding.sql = some sql) :
    transactionExecuteIntercept cfg s portal h ≠ .forwarded s' := by
  simp only [transactionExecuteIntercept, hsql]
  by_cases hf : s.status = .failed
  · simp [hf, transactionError]
  · simp only [hf, if_false]
    cases ho : transactionStatement cfg s sql true h with
    | forwarded s'' => exact absurd ho transactionStatement_local
    | answered rs s'' => simp [Outcome.pending]
    | raised => simp [Outcome.pending]

theorem lastKey_set {ν : Type} {d : Dict String ν} {k : String} {v : ν} (h : Newest d k) :
    lastKey (d.set k v) = some k := by
  induction d with
  | nil => rfl
  | cons p d ih =>
    obtain ⟨a, b⟩ := p
    by_cases hak : a = k
    · subst hak
      cases d with
      | nil => simp [Dict.set, lastKey]
      | cons q d =>
        rcases h with h | h
        · simp [Dict.get] at h
        · simpa [Dict.set, lastKey] using h
    · simp only [Dict.set, hak, if_false]
      have hne : Dict.set d k v ≠ [] := by
        intro h
        have := (Dict.mem_keys_set (d := d) (k := k) (j := k) (v := v)).2 (.inl rfl)
        simp [h] at this
      rw [lastKey, List.getLast?_cons_of_ne_nil hne]
      refine ih ?_
      rcases h with h | h
      · exact .inl (by simpa [Dict.get, hak] using h)
      · cases d with
        | nil => exact absurd (by simpa [lastKey] using h) hak
        | cons q d => exact .inr (by simpa [lastKey] using h)

/-! ## Who knows what -/

theorem key_inj {n n' : String} (h : n ≠ "<unnamed>") (h' : n' ≠ "<unnamed>") (hk : key n = key n') : n = n' := by
  unfold key at hk
  split at hk <;> split at hk
  · simp_all
  · exact absurd hk.symm h'
  · exact absurd hk h
  · exact hk

/-- What the router answered it still answers for. -/
structure Known (cfg : Config) (s : Session) (log : List Exchange) : Prop where
  unrouted : cfg.statementRoutes = [] → s.preparedIntercepts = [] ∧ s.portalIntercepts = []
  statements : ∀ n, LocalStatement n log → n ≠ "<unnamed>" ∧ (s.preparedIntercepts.get (key n)).isSome
  portals : ∀ n, LocalPortal n log → n ≠ "<unnamed>" ∧ (s.portalIntercepts.get (key n)).isSome
  sql : ∀ k, (s.preparedIntercepts.get k).isSome → (s.preparedSql.get k).isSome
  bound : ∀ k, (s.portalIntercepts.get k).isSome → ((s.portalBindings.get k).bind PortalBinding.sql).isSome

/-- The message parses, binds and closes nothing. -/
def Msg.plain : Msg → Bool
  | .parse _ _ | .bind _ _ | .close _ _ => false
  | _ => true

theorem Known.plain {e : Exchange} (hk : Known cfg s log) (hs : SameNames s s') (he : e.msg.plain = true) :
    Known cfg s' (log ++ [e]) := by
  obtain ⟨msg, replies⟩ := e
  refine ⟨fun h => ?_, fun n hn => ?_, fun n hn => ?_, fun k h => ?_, fun k h => ?_⟩
  · rw [hs.preparedIntercepts, hs.portalIntercepts]
    exact hk.unrouted h
  · rw [hs.preparedIntercepts]
    rcases since_concat.1 hn with ⟨⟨sql, h⟩, -⟩ | ⟨h, -⟩
    · simp only at h
      rw [h] at he
      cases he
    · exact hk.statements n h
  · rw [hs.portalIntercepts]
    rcases since_concat.1 hn with ⟨⟨st, h⟩, -⟩ | ⟨h, -⟩
    · simp only at h
      rw [h] at he
      cases he
    · exact hk.portals n h
  · rw [hs.preparedSql]
    exact hk.sql k (by rwa [hs.preparedIntercepts] at h)
  · rw [hs.portalBindings]
    exact hk.bound k (by rwa [hs.portalIntercepts] at h)

/-- The exchange conforms, and the session afterwards knows what it answered. -/
def Outcome.Good (cfg : Config) (log : List Exchange) (m : Msg) : Outcome → Prop
  | .forwarded s => Conforms log ⟨m, none⟩ ∧ Known cfg s (log ++ [⟨m, none⟩])
  | .answered rs s => Conforms log ⟨m, some rs⟩ ∧ Known cfg s (log ++ [⟨m, some rs⟩])
  | .raised => True

/-- Messages that refer to nothing that only the router knows, unless it answers. -/
theorem Known.good {o : Outcome} (hk : Known cfg s log) (hm : m.plain = true) (ho : o.Answers s m.asks.toNat)
    (hknown : ∀ s', o = .forwarded s' → ¬ RefersLocal log m) (hsync : ∀ rs s', o = .answered rs s' → m ≠ .sync) :
    o.Good cfg log m := by
  cases o with
  | raised => trivial
  | forwarded s' =>
    refine ⟨⟨?_, fun _ _ => rfl, fun _ => hknown s' rfl⟩, hk.plain ho hm⟩
    rfl
  | answered rs s' =>
    refine ⟨⟨?_, fun h => absurd h (hsync rs s' rfl), fun h => by cases h⟩, hk.plain ho.1 hm⟩
    show rs.countP Reply.isReady = _
    rw [ho.2]
    cases m.asks <;> rfl

theorem query_good (hk : Known cfg s log) (sql : String) (h : Handler) :
    (handle cfg s (.query sql) h).Good cfg log (.query sql) :=
  hk.good rfl (query_answers sql h) (fun _ _ => id) (fun _ _ _ => by simp)

theorem flush_good (hk : Known cfg s log) (h : Handler) : (handle cfg s .flush h).Good cfg log .flush := by
  refine hk.good rfl ?_ (fun _ _ => id) (fun _ _ _ => by simp)
  show (if s.localSyncPending then Outcome.answered [] s else .forwarded s).Answers s 0
  by_cases hp : s.localSyncPending = true
  · rw [if_pos hp]
    exact ⟨.refl s, rfl⟩
  · rw [if_neg hp]
    exact .refl s

theorem sync_good (hk : Known cfg s log) (h : Handler) (hclean : s.localSyncPending = false ∨ ¬ Unsynced log) :
    (handle cfg s .sync h).Good cfg log .sync := by
  show (syncIntercept s).Good cfg log .sync
  unfold syncIntercept
  by_cases hp : s.localSyncPending = true
  · have hns : ¬ Unsynced log := hclean.resolve_left (by rw [hp]; simp)
    rw [if_pos hp]
    exact ⟨⟨rfl, fun _ h => absurd h hns, fun h => by cases h⟩, hk.plain ⟨rfl, rfl, rfl, rfl⟩ rfl⟩
  · rw [if_neg hp]
    exact ⟨⟨rfl, fun _ _ => rfl, fun _ => id⟩, hk.plain (.refl s) rfl⟩

/-- An `Execute` that is not for an intercepted portal outside a local transaction. -/
theorem execute_good (hk : Known cfg s log) (portal : String) (h : Handler)
    (hclean : s.localTransactionActive = true ∨ s.portalIntercepts.get (key portal) = none) :
    (handle cfg s (.execute portal) h).Good cfg log (.execute portal) := by
  show (if s.localTransactionActive then transactionExecuteIntercept cfg s portal h
    else if cfg.statementRoutes = [] then .forwarded s else executeIntercept s portal h).Good cfg log (.execute portal)
  by_cases ha : s.localTransactionActive = true
  · rw [if_pos ha]
    refine hk.good rfl (transactionExecute_answers portal h) (fun s' ho hl => ?_) (fun _ _ _ => by simp)
    -- a portal that only the router knows has its statement's text
    obtain ⟨sql, hsql⟩ := Option.isSome_iff_exists.1 (hk.bound _ (hk.portals portal hl).2)
    exact transactionExecute_local hsql ho
  · rw [if_neg ha]
    have hnone := hclean.resolve_left ha
    have hnot : ¬ LocalPortal portal log := fun hl => by
      have := (hk.portals portal hl).2
      rw [hnone] at this
      cases this
    have hfwd : executeIntercept s portal h = .forwarded s := by
      simp only [executeIntercept, hnone]
    rw [hfwd, ite_self]
    exact hk.good (m := .execute portal) rfl (.refl s) (fun _ _ => hnot) (fun _ _ _ => by simp)

/-! ## The messages that name things -/

theorem localStatement_parse {m n sql : String} {r : Option (List Reply)} :
    LocalStatement m (log ++ [⟨.parse n sql, r⟩]) ↔
      m = n ∧ r.isSome = true ∨ LocalStatement m log ∧ ¬ (m = n ∧ r = none) := by
  have hp : (⟨.parse n sql, r⟩ : Exchange).Parses m ↔ m = n := by simp [Exchange.Parses, eq_comm]
  unfold LocalStatement
  rw [since_concat, hp]
  cases r <;> simp [Exchange.forwarded]

theorem localPortal_bind {m n st : String} {r : Option (List Reply)} :
    LocalPortal m (log ++ [⟨.bind n st, r⟩]) ↔
      m = n ∧ r.isSome = true ∨ LocalPortal m log ∧ ¬ (m = n ∧ r = none) := by
  have hp : (⟨.bind n st, r⟩ : Exchange).Binds m ↔ m = n := by simp [Exchange.Binds, eq_comm]
  unfold LocalPortal
  rw [since_concat, hp]
  cases r <;> simp [Exchange.forwarded]

/-- An exchange that neither parses nor closes a statement. -/
theorem localStatement_other {m : String} {e : Exchange} (hp : ∀ n sql, e.msg ≠ .parse n sql)
    (hc : ∀ n, e.msg ≠ .close 'S' n) :
    LocalStatement m (log ++ [e]) ↔ LocalStatement m log := by
  rw [LocalStatement, since_concat]
  simp [Exchange.Parses, hp, hc]
  rfl

theorem localPortal_other {m : String} {e : Exchange} (hp : ∀ n st, e.msg ≠ .bind n st)
    (hc : ∀ n, e.msg ≠ .close 'P' n) :
    LocalPortal m (log ++ [e]) ↔ LocalPortal m log := by
  rw [LocalPortal, since_concat]
  simp [Exchange.Binds, hp, hc]
  rfl

theorem parse_good (hk : Known cfg s log) (n sql : String) (h : Handler)
    (hclean : cfg.statementRoutes = [] ∨ n ≠ "<unnamed>" ∧ Newest s.preparedSql (key n)) :
    (handle cfg s (.parse n sql) h).Good cfg log (.parse n sql) := by
  show (if cfg.statementRoutes = [] then Outcome.forwarded { s with preparedSql := s.preparedSql.set (key n) sql }
    else parseIntercept cfg { s with preparedSql := s.preparedSql.set (key n) sql }).Good cfg log (.parse n sql)
  have hsql : ∀ k, (s.preparedIntercepts.get k).isSome → ((s.preparedSql.set (key n) sql).get k).isSome := by
    intro k hsome
    rw [Dict.get_set]
    split
    · rfl
    · exact hk.sql k hsome
  have hportals : ∀ r m, LocalPortal m (log ++ [⟨.parse n sql, r⟩]) → LocalPortal m log :=
    fun r m => (localPortal_other (by simp) (by simp)).1
  by_cases hroutes : cfg.statementRoutes = []
  · rw [if_pos hroutes]
    refine ⟨⟨rfl, fun h => (by cases h), fun _ => id⟩, hk.unrouted, fun m hm => ?_, fun m hm =>
      hk.portals m (hportals _ m hm),
      hsql, hk.bound⟩
    rcases localStatement_parse.1 hm with ⟨-, h⟩ | ⟨h, -⟩
    · cases h
    · exact hk.statements m h
  · rw [if_neg hroutes]
    obtain ⟨hn, hnew⟩ := hclean.resolve_left hroutes
    unfold parseIntercept
    rw [lastKey_set hnew]
    simp only [Dict.get_set, if_true]
    cases hmatch : matchStatementRoute cfg (some sql) with
    | none =>
      refine ⟨⟨rfl, fun h => (by cases h), fun _ => id⟩, fun h => absurd h hroutes, fun m hm => ?_,
        fun m hm => hk.portals m (hportals _ m hm), fun k hsome => hsql k ?_, hk.bound⟩
      · rcases localStatement_parse.1 hm with ⟨-, h⟩ | ⟨h, hne⟩
        · cases h
        · obtain ⟨hm', hget⟩ := hk.statements m h
          refine ⟨hm', ?_⟩
          rw [Dict.get_erase, if_neg fun he => hne ⟨key_inj hm' hn he.symm, rfl⟩]
          exact hget
      · rw [Dict.get_erase] at hsome
        split at hsome
        · cases hsome
        · exact hsome
    | some route =>
      refine ⟨⟨rfl, fun h => (by cases h), fun h => (by cases h)⟩, fun h => absurd h hroutes, fun m hm => ?_,
        fun m hm => hk.portals m (hportals _ m hm), fun k hsome => ?_, hk.bound⟩
      · rcases localStatement_parse.1 hm with ⟨rfl, -⟩ | ⟨h, -⟩
        · exact ⟨hn, by simp⟩
        · refine ⟨(hk.statements m h).1, ?_⟩
          rw [Dict.get_set]
          split
          · rfl
          · exact (hk.statements m h).2
      · rw [Dict.get_set] at hsome ⊢
        split
        · rfl
        · rename_i hne
          rw [if_neg hne] at hsome
          exact hk.sql k hsome

theorem bind_good (hk : Known cfg s log) (n st : String) (h : Handler)
    (hclean : cfg.statementRoutes = [] ∨ n ≠ "<unnamed>" ∧ Newest s.portalBindings (key n)) :
    (handle cfg s (.bind n st) h).Good cfg log (.bind n st) := by
  show (if cfg.statementRoutes = [] then Outcome.forwarded { s with
      portalBindings := s.portalBindings.set (key n) ⟨key st, s.preparedSql.get (key st)⟩ }
    else bindIntercept { s with
      portalBindings := s.portalBindings.set (key n) ⟨key st, s.preparedSql.get (key st)⟩ }).Good cfg log (.bind n st)
  have hstatements : ∀ r m, LocalStatement m (log ++ [⟨.bind n st, r⟩]) → LocalStatement m log :=
    fun r m => (localStatement_other (by simp) (by simp)).1
  by_cases hroutes : cfg.statementRoutes = []
  · obtain ⟨hp, hq⟩ := hk.unrouted hroutes
    have hnot : ¬ LocalStatement st log := fun hl => by
      have := (hk.statements st hl).2
      simp [hp] at this
    rw [if_pos hroutes]
    refine ⟨⟨rfl, fun h => (by cases h), fun _ => hnot⟩, hk.unrouted, fun m hm => hk.statements m (hstatements _ m hm),
      fun m hm => ?_, hk.sql, fun k hsome => ?_⟩
    · rcases localPortal_bind.1 hm with ⟨-, h⟩ | ⟨h, -⟩
      · cases h
      · exact hk.portals m h
    · simp [hq] at hsome
  · rw [if_neg hroutes]
    obtain ⟨hn, hnew⟩ := hclean.resolve_left hroutes
    unfold bindIntercept
    rw [lastKey_set hnew]
    simp only [Dict.get_set, if_true]
    have hold : ∀ r m, m ≠ n → LocalPortal m (log ++ [⟨.bind n st, r⟩]) → LocalPortal m log := by
      intro r m hne hm
      rcases localPortal_bind.1 hm with ⟨rfl, -⟩ | ⟨h, -⟩
      · exact absurd rfl hne
      · exact h
    cases hi : s.preparedIntercepts.get (key st) with
    | none =>
      have hnot : ¬ LocalStatement st log := fun hl => by
        have := (hk.statements st hl).2
        simp [hi] at this
      refine ⟨⟨rfl, fun h => (by cases h), fun _ => hnot⟩, fun h => absurd h hroutes,
        fun m hm => hk.statements m (hstatements _ m hm), fun m hm => ?_, hk.sql, fun k hsome => ?_⟩
      · rcases localPortal_bind.1 hm with ⟨-, h⟩ | ⟨h, hne⟩
        · cases h
        · obtain ⟨hm', hget⟩ := hk.portals m h
          refine ⟨hm', ?_⟩
          rw [Dict.get_erase, if_neg fun he => hne ⟨key_inj hm' hn he.symm, rfl⟩]
          exact hget
      · rw [Dict.get_erase] at hsome
        rw [Dict.get_set]
        split at hsome
        · cases hsome
        · rename_i hne
          rw [if_neg hne]
          exact hk.bound k hsome
    | some route =>
      obtain ⟨sql, hsql⟩ := Option.isSome_iff_exists.1 (hk.sql (key st) (by rw [hi]; rfl))
      simp only [hsql]
      refine ⟨⟨rfl, fun h => (by cases h), fun h => (by cases h)⟩, fun h => absurd h hroutes,
        fun m hm => hk.statements m (hstatements _ m hm), fun m hm => ?_, hk.sql, fun k hsome => ?_⟩
      · by_cases hmn : m = n
        · subst hmn
          exact ⟨hn, by simp⟩
        · refine ⟨(hk.portals m (hold _ m hmn hm)).1, ?_⟩
          rw [Dict.get_set]
          split
          · rfl
          · exact (hk.portals m (hold _ m hmn hm)).2
      · rw [Dict.get_set] at hsome ⊢
        split
        · simp
        · rename_i hne
          rw [if_neg hne] at hsome
          exact hk.bound k hsome

theorem describe_good (hk : Known cfg s log) (kind : Char) (n : String) (h : Handler) :
    (handle cfg s (.describe kind n) h).Good cfg log (.describe kind n) := by
  show (if cfg.statementRoutes = [] then Outcome.forwarded s else describeIntercept s kind n).Good cfg log
    (.describe kind n)
  -- forwarded: the tables do not have it, so it is not the router's own
  have hfwd (hS : kind = 'S' → s.preparedIntercepts.get (key n) = none)
      (hP : kind = 'P' → s.portalIntercepts.get (key n) = none) :
      (Outcome.forwarded s).Good cfg log (.describe kind n) := by
    refine hk.good (m := .describe kind n) rfl (.refl s) (fun _ _ hl => ?_) (fun _ _ _ => by simp)
    rcases hl with ⟨hkind, hl⟩ | ⟨hkind, hl⟩
    · have := (hk.statements n hl).2
      simp [hS hkind] at this
    · have := (hk.portals n hl).2
      simp [hP hkind] at this
  by_cases hroutes : cfg.statementRoutes = []
  · rw [if_pos hroutes]
    obtain ⟨hp, hq⟩ := hk.unrouted hroutes
    exact hfwd (fun _ => by rw [hp]; rfl) (fun _ => by rw [hq]; rfl)
  · rw [if_neg hroutes]
    unfold describeIntercept
    by_cases hkP : kind = 'P'
    · have hkS : kind ≠ 'S' := by
        subst hkP
        decide
      rw [if_pos hkP]
      cases hget : s.portalIntercepts.get (key n) with
      | none => exact hfwd (fun h => absurd h hkS) (fun _ => hget)
      | some portal =>
        have hready : [description (portal.route.resultColumns ≠ [])].countP Reply.isReady = 0 := by simp
        refine ⟨⟨hready, fun h => (by cases h), fun h => (by cases h)⟩, fun hr => absurd hr hroutes, fun m hm =>
          ?_, fun m hm => ?_,
          hk.sql, fun k hsome => hk.bound k ?_⟩
        · exact hk.statements m ((localStatement_other (by simp) (by simp)).1 hm)
        · obtain ⟨hm', hm⟩ := hk.portals m ((localPortal_other (by simp) (by simp)).1 hm)
          refine ⟨hm', ?_⟩
          rw [Dict.get_set]
          split
          · rfl
          · exact hm
        · rw [Dict.get_set] at hsome
          split at hsome
          · rename_i he
            rw [← he, hget]
            rfl
          · exact hsome
    · rw [if_neg hkP]
      by_cases hkS : kind = 'S'
      · rw [if_pos hkS]
        cases hget : s.preparedIntercepts.get (key n) with
        | none => exact hfwd (fun _ => hget) (fun h => absurd h hkP)
        | some route =>
          refine hk.good (m := .describe kind n) rfl ⟨⟨rfl, rfl, rfl, rfl⟩, ?_⟩ (fun _ h => by cases h)
            (fun _ _ _ => by simp)
          simp [List.countP_cons]
          rfl
      · rw [if_neg hkS]
        exact hfwd (fun h => absurd h hkS) (fun h => absurd h hkP)

/-- A `Close` takes the statement from the names that the router answers for. -/
theorem localStatement_close {m n : String} {kind : Char} {r : Option (List Reply)} :
    LocalStatement m (log ++ [⟨.close kind n, r⟩]) ↔ LocalStatement m log ∧ ¬ (kind = 'S' ∧ m = n) := by
  have hon : ¬ ((⟨.close kind n, r⟩ : Exchange).Parses m) := by simp [Exchange.Parses]
  have hoff : (⟨.close kind n, r⟩ : Exchange).msg = .close 'S' m ↔ kind = 'S' ∧ m = n := by simp [eq_comm]
  unfold LocalStatement
  rw [since_concat, hoff]
  simp [hon]

theorem localPortal_close {m n : String} {kind : Char} {r : Option (List Reply)} :
    LocalPortal m (log ++ [⟨.close kind n, r⟩]) ↔ LocalPortal m log ∧ ¬ (kind = 'P' ∧ m = n) := by
  have hon : ¬ ((⟨.close kind n, r⟩ : Exchange).Binds m) := by simp [Exchange.Binds]
  have hoff : (⟨.close kind n, r⟩ : Exchange).msg = .close 'P' m ↔ kind = 'P' ∧ m = n := by simp [eq_comm]
  unfold LocalPortal
  rw [since_concat, hoff]
  simp [hon]

theorem close_good (hk : Known cfg s log) (kind : Char) (n : String) (h : Handler) (hn : n ≠ "<unnamed>") :
    (handle cfg s (.close kind n) h).Good cfg log (.close kind n) := by
  show (closeIntercept s kind n).Good cfg log (.close kind n)
  unfold closeIntercept
  by_cases hP : kind = 'P' ∧ (s.portalIntercepts.get (key n)).isSome
  · rw [if_pos hP]
    refine ⟨⟨rfl, fun h => (by cases h), fun h => (by cases h)⟩, fun hr => ?_, fun m hm => ?_, fun m hm => ?_, hk.sql,
      fun k hsome => ?_⟩
    · have hq := (hk.unrouted hr).2
      simp [hq] at hP
    · exact hk.statements m (localStatement_close.1 hm).1
    · obtain ⟨hm, hne⟩ := localPortal_close.1 hm
      obtain ⟨hm', hget⟩ := hk.portals m hm
      refine ⟨hm', ?_⟩
      rw [Dict.get_erase, if_neg fun he => hne ⟨hP.1, key_inj hm' hn he.symm⟩]
      exact hget
    · rw [Dict.get_erase] at hsome ⊢
      by_cases he : key n = k
      · simp [he] at hsome
      · rw [if_neg he] at hsome ⊢
        exact hk.bound k hsome
  · rw [if_neg hP]
    by_cases hS : kind = 'S' ∧ (s.preparedIntercepts.get (key n)).isSome
    · rw [if_pos hS]
      refine ⟨⟨rfl, fun h => (by cases h), fun h => (by cases h)⟩, fun hr => ?_, fun m hm => ?_, fun m hm =>
        ?_, fun k hsome => ?_,
        hk.bound⟩
      · have hp := (hk.unrouted hr).1
        simp [hp] at hS
      · obtain ⟨hm, hne⟩ := localStatement_close.1 hm
        obtain ⟨hm', hget⟩ := hk.statements m hm
        refine ⟨hm', ?_⟩
        rw [Dict.get_erase, if_neg fun he => hne ⟨hS.1, key_inj hm' hn he.symm⟩]
        exact hget
      · exact hk.portals m (localPortal_close.1 hm).1
      · rw [Dict.get_erase] at hsome ⊢
        by_cases he : key n = k
        · simp [he] at hsome
        · rw [if_neg he] at hsome ⊢
          exact hk.sql k hsome
    · rw [if_neg hS]
      refine ⟨⟨rfl, fun h => (by cases h), fun _ hl => ?_⟩, hk.unrouted, fun m hm =>
        hk.statements m (localStatement_close.1 hm).1,
        fun m hm => hk.portals m (localPortal_close.1 hm).1, hk.sql, hk.bound⟩
      rcases hl with ⟨hkind, hl⟩ | ⟨hkind, hl⟩
      · exact hS ⟨hkind, (hk.statements n hl).2⟩
      · exact hP ⟨hkind, (hk.portals n hl).2⟩

theorem handle_good {st : State} (hst : st.session = some s) (hk : Known cfg s st.log) (h : Handler)
    (hclean : Clean cfg st (.client m h)) : (handle cfg s m h).Good cfg st.log m := by
  have hm := hclean s hst
  cases m with
  | query sql => exact query_good hk sql h
  | parse n sql => exact parse_good hk n sql h hm
  | bind n statement => exact bind_good hk n statement h hm
  | describe kind n => exact describe_good hk kind n h
  | execute portal => exact execute_good hk portal h hm
  | close kind n => exact close_good hk kind n h hm
  | flush => exact flush_good hk h
  | sync => exact sync_good hk h hm

/-! ## What is not clean -/

/-- **An `Execute` of a portal that the router bound never conforms** outside a local transaction: answered, it has a
`ReadyForQuery` of its own before the one of the `Sync`, and forwarded, it names a portal that the server has never
seen. -/
theorem execute_twice_ready {portal : String} (hk : Known cfg s log) (hl : LocalPortal portal log)
    (ha : s.localTransactionActive = false) (h : Handler) :
    (∀ s', handle cfg s (.execute portal) h = .forwarded s' → ¬ Conforms log ⟨.execute portal, none⟩) ∧
      ∀ rs s', handle cfg s (.execute portal) h = .answered rs s' → ¬ Conforms log ⟨.execute portal, some rs⟩ := by
  obtain ⟨-, hsome⟩ := hk.portals portal hl
  have hroutes : cfg.statementRoutes ≠ [] := fun hr => by
    rw [(hk.unrouted hr).2] at hsome
    cases hsome
  obtain ⟨p, hp⟩ := Option.isSome_iff_exists.1 hsome
  obtain ⟨sql, hsql⟩ := Option.isSome_iff_exists.1 (hk.bound _ hsome)
  refine ⟨fun s' _ hconf => hconf.known rfl hl, fun rs s' heq hconf => ?_⟩
  have hexec : handle cfg s (.execute portal) h = executeIntercept s portal h := by
    show (if s.localTransactionActive then transactionExecuteIntercept cfg s portal h
      else if cfg.statementRoutes = [] then .forwarded s else executeIntercept s portal h) = _
    rw [ha, if_neg (by simp), if_neg hroutes]
  rw [hexec] at heq
  simp only [executeIntercept, hp, hsql] at heq
  by_cases hskip : skipIntercept s = true
  · rw [if_pos hskip] at heq
    cases heq
  · rw [if_neg hskip] at heq
    cases h with
    | none => cases heq
    | some result =>
      cases heq
      have hone := hconf.ready
      rw [show (⟨.execute portal, some _⟩ : Exchange).readies = _ from queryResponse_ready result _ true] at hone
      cases hone

/-- Nor does a `Sync` that is answered while the server waits for it. -/
theorem sync_kept (hp : s.localSyncPending = true) (hu : Unsynced log) (h : Handler) :
    ∃ rs s', handle cfg s .sync h = .answered rs s' ∧ ¬ Conforms log ⟨.sync, some rs⟩ := by
  refine ⟨[.readyForQuery s.status], { s with localSyncPending := false }, ?_, fun hconf => ?_⟩
  · show syncIntercept s = _
    rw [syncIntercept, if_pos hp]
  · cases hconf.synced rfl hu

/-! ## Every run -/

/-- The exchanges so far conform, and the client has every `ReadyForQuery` that the server does not owe. -/
structure Inv (cfg : Config) (s : State) : Prop where
  conforms : ∀ before e after, s.log = before ++ e :: after → Conforms before e
  balance : s.readies + s.owed = s.log.countP fun e => e.msg.asks
  known : ∀ session, s.session = some session → Known cfg session s.log

theorem Inv.start : Inv cfg {} where
  conforms := by simp
  balance := rfl
  known := by
    rintro session h
    cases h
    exact ⟨fun _ => ⟨rfl, rfl⟩, fun n hn => absurd hn since_nil, fun n hn => absurd hn since_nil,
      fun k hsome => (by cases hsome), fun k hsome => (by cases hsome)⟩

theorem Inv.exchange {st : State} {e : Exchange} (hI : Inv cfg st) (hc : Conforms st.log e)
    (hk : Known cfg s (st.log ++ [e])) : Inv cfg (st.exchange s e) where
  conforms := by
    intro before x after hlog
    replace hlog : st.log ++ [e] = before ++ x :: after := hlog
    rcases List.eq_nil_or_concat after with rfl | ⟨after, y, rfl⟩
    · obtain ⟨rfl, he⟩ := List.append_inj' hlog rfl
      cases he
      exact hc
    · have h : st.log ++ [e] = (before ++ x :: after) ++ [y] := by simpa using hlog
      exact hI.conforms before x after (List.append_inj' h rfl).1
  balance := by
    show st.readies + (e.replies.getD []).countP Reply.isReady +
      (st.owed + if e.forwarded && e.msg.asks then 1 else 0) =
      (st.log ++ [e]).countP fun e => e.msg.asks
    have hone : (e.replies.getD []).countP Reply.isReady + (if e.forwarded && e.msg.asks then 1 else 0) =
        if e.msg.asks then 1 else 0 := by
      have := hc.ready
      obtain ⟨msg, replies⟩ := e
      cases replies with
      | none => simp [Exchange.forwarded]
      | some rs => simpa [Exchange.forwarded, Exchange.readies] using this
    have hlast : [e].countP (fun e => e.msg.asks) = if e.msg.asks then 1 else 0 := by simp [List.countP_cons]
    have := hI.balance
    rw [List.countP_append, hlast]
    omega
  known := by
    rintro session h
    cases h
    exact hk

theorem Inv.step {st st' : State} {a : Act} (hI : Inv cfg st) (hclean : Clean cfg st a)
    (hs : step cfg st a = some st') :
    Inv cfg st' := by
  cases a with
  | client m h =>
    obtain ⟨session, hsession, heq⟩ := Option.map_eq_some_iff.1 hs
    have hgood := handle_good hsession (hI.known session hsession) h hclean
    cases ho : handle cfg session m h with
    | forwarded s' =>
      rw [ho] at hgood heq
      exact heq ▸ hI.exchange hgood.1 hgood.2
    | answered rs s' =>
      rw [ho] at hgood heq
      exact heq ▸ hI.exchange hgood.1 hgood.2
    | raised =>
      rw [ho] at heq
      subst heq
      exact ⟨hI.conforms, hI.balance, fun _ h => by cases h⟩
  | ready status =>
    simp only [PgRouter.step] at hs
    by_cases howed : 0 < st.owed
    · rw [if_pos howed] at hs
      cases hs
      refine ⟨hI.conforms, ?_, fun session h => ?_⟩
      · have := hI.balance
        show st.readies + 1 + (st.owed - 1) = st.log.countP fun e => e.msg.asks
        omega
      · obtain ⟨s₀, h₀, rfl⟩ := Option.map_eq_some_iff.1 h
        have hk := hI.known s₀ h₀
        exact ⟨hk.unrouted, hk.statements, hk.portals, hk.sql, hk.bound⟩
    · rw [if_neg howed] at hs
      cases hs

def Act.msg : Act → Option Msg
  | .client m _ => some m
  | .ready _ => none

/-- While the session lives, the log has every message of the client. -/
theorem log_sent {acts : List Act} : ∀ {st : State}, Trace.exec (step cfg) {} acts = some st → st.session.isSome →
    st.log.map Exchange.msg = acts.filterMap Act.msg := by
  induction acts using List.reverseRecOn with
  | nil =>
    intro st h _
    cases h
    rfl
  | append_singleton acts a ih =>
    intro st h hlive
    obtain ⟨t, ht, h⟩ := Trace.exec_append.1 h
    obtain ⟨u, hu, hnil⟩ := Trace.exec_cons.1 h
    cases hnil
    rw [List.filterMap_append]
    cases a with
    | client m hd =>
      obtain ⟨session, hsession, heq⟩ := Option.map_eq_some_iff.1 hu
      have hih := ih ht (by rw [hsession]; rfl)
      cases ho : handle cfg session m hd with
      | raised =>
        rw [ho] at heq
        subst heq
        cases hlive
      | forwarded s' =>
        rw [ho] at heq
        subst heq
        simpa [State.exchange, Act.msg] using hih
      | answered rs s' =>
        rw [ho] at heq
        subst heq
        simpa [State.exchange, Act.msg] using hih
    | ready status =>
      simp only [step] at hu
      split at hu
      · cases hu
        rw [show [Act.ready status].filterMap Act.msg = [] from rfl, List.append_nil]
        have hlog := ih ht (by simpa using hlive)
        exact hlog
      · cases hu

/-- **A session of clean messages**: every exchange conforms, the log is what the client sent, and it gets one
`ReadyForQuery` for each `Sync` and `Query`. -/
theorem session_verdict (cfg : Config) {acts : List Act} {st : State} (hrun : Trace.exec (step cfg) {} acts = some st)
    (hclean : Trace.Meets (step cfg) (Clean cfg) {} acts) :
    (∀ before e after, st.log = before ++ e :: after → Conforms before e) ∧
      (st.session.isSome → st.log.map Exchange.msg = acts.filterMap Act.msg) ∧
      st.readies + st.owed = st.log.countP fun e => e.msg.asks := by
  have hI : Inv cfg st := Trace.exec_invariant (fun _ _ _ hI hok hs => Inv.step hI hok hs) .start hclean hrun
  exact ⟨hI.conforms, log_sent hrun, hI.balance⟩

/-! ## Two sessions -/

def plainText : Text := ⟨id, id, id⟩

def oneRoute : Config := { text := plainText, statementRoutes := [⟨"SELECT 1", ["a"]⟩] }

/-- A routed statement that is prepared, described and not executed, then a query of the server. -/
def describedActs : List Act :=
  [.client (.parse "" "SELECT 1") none, .client (.bind "" "") none, .client (.describe 'P' "") none, .client .sync none,
    .client (.query "SELECT 2") none, .ready .idle]

/-- `Clean`, for a cycle that only the router answers. -/
def cleanCheck (cfg : Config) (s : State) : Act → Bool
  | .client m _ => s.session.all fun session => match m with
    | .parse n _ => cfg.statementRoutes = [] || n ≠ "<unnamed>" && (session.preparedSql.get (key n)).isNone
    | .bind n _ => cfg.statementRoutes = [] || n ≠ "<unnamed>" && (session.portalBindings.get (key n)).isNone
    | .close _ n => n ≠ "<unnamed>"
    | .execute portal => session.localTransactionActive || (session.portalIntercepts.get (key portal)).isNone
    | .sync => !session.localSyncPending || s.log.all fun e => !e.forwarded
    | _ => true
  | .ready _ => true

theorem clean_of_check {st : State} {a : Act} (hcheck : cleanCheck cfg st a = true) : Clean cfg st a := by
  cases a with
  | ready _ => trivial
  | client m hd =>
    intro session hsession
    simp only [cleanCheck, hsession, Option.all_some] at hcheck
    cases m with
    | parse n sql =>
      simp only [Bool.or_eq_true, Bool.and_eq_true, decide_eq_true_eq, Option.isNone_iff_eq_none] at hcheck
      exact hcheck.imp_right fun h => ⟨h.1, .inl h.2⟩
    | bind n statement =>
      simp only [Bool.or_eq_true, Bool.and_eq_true, decide_eq_true_eq, Option.isNone_iff_eq_none] at hcheck
      exact hcheck.imp_right fun h => ⟨h.1, .inl h.2⟩
    | close kind n => simpa using hcheck
    | execute portal => simpa using hcheck
    | sync =>
      simp only [Bool.or_eq_true, Bool.not_eq_true', List.all_eq_true] at hcheck
      refine hcheck.imp_right fun h => ?_
      rintro ⟨before, e, after, hlog, ⟨hfwd, -⟩, -⟩
      have := h e (by simp [hlog])
      rw [hfwd] at this
      cases this
    | query sql => trivial
    | describe kind n => trivial
    | flush => trivial

theorem session_verdict_described : ∃ st, Trace.exec (step oneRoute) {} describedActs = some st ∧ st.readies = 2 ∧
    st.owed = 0 ∧ st.readies + st.owed = st.log.countP fun e => e.msg.asks := by
  have hlive : (Trace.exec (step oneRoute) {} describedActs).map (fun st => (st.readies, st.owed)) = some (2, 0) := by
    decide +kernel
  obtain ⟨st, hrun, hst⟩ := Option.map_eq_some_iff.1 hlive
  obtain ⟨hreadies, howed⟩ := Prod.mk.inj hst
  have hcheck : Trace.meetsCheck (step oneRoute) (cleanCheck oneRoute) {} describedActs = true := by decide +kernel
  have hclean := (Trace.meets_of_check hcheck).mono fun _ _ => clean_of_check
  exact ⟨st, hrun, hreadies, howed, (session_verdict oneRoute hrun hclean).2.2⟩

/-- A routed statement that is executed: two `ReadyForQuery` messages for one `Sync`, the first of them before it. -/
def executedActs : List Act :=
  [.client (.parse "" "SELECT 1") none, .client (.bind "" "") none, .client (.execute "") (some {}), .client .sync none]

theorem routed_execute_ready :
    ((Trace.exec (step oneRoute) {} executedActs).map fun st => (st.readies, st.owed)) = some (2, 0) ∧
      ((Trace.exec (step oneRoute) {} (executedActs.take 3)).map fun st => (st.readies, st.owed)) = some (1, 0) ∧
      (executedActs.filterMap Act.msg).countP Msg.asks = 1 ∧
      ¬ ∀ (cfg : Config) (acts : List Act) (st : State), Trace.exec (step cfg) {} acts = some st →
        ∀ before e after, st.log = before ++ e :: after → Conforms before e := by
  refine ⟨by decide +kernel, by decide +kernel, by decide +kernel, fun hall => ?_⟩
  have hlog : (Trace.exec (step oneRoute) {} executedActs).map
      (fun st => st.log.map fun e => (e.readies, e.msg.asks)) = some [(0, false), (0, false), (1, false), (1, true)] := by
    decide +kernel
  obtain ⟨st, hrun, hst⟩ := Option.map_eq_some_iff.1 hlog
  -- the third exchange answers an `Execute` with a `ReadyForQuery`
  rcases h : st.log with _ | ⟨e₁, _ | ⟨e₂, _ | ⟨e₃, rest⟩⟩⟩
  all_goals rw [h] at hst
  · cases hst
  · simp at hst
  · simp at hst
  · have hready := (hall oneRoute executedActs st hrun [e₁, e₂] e₃ rest h).ready
    simp only [List.map_cons, List.cons.injEq, Prod.mk.injEq] at hst
    rw [hst.2.2.1.1, hst.2.2.1.2] at hready
    cases hready

end SynnoDB.PgRouter
