import SynnoDB.Lib.Dict
import SynnoDB.Lib.Trace
import Mathlib.Data.List.Nodup

/-!
# The query execution cache (`query_execution_cache.py:67-311`, `utils.py:272-295`)

| here | there |
| --- | --- |
| `Call`            | what all entries of a batch share: system, benchmark, settings and configuration |
| `Setup.hash`      | the digest of the payload of `_get_cache_filepath`; `Setup.dir` is `_get_cache_dir` |
| `Setup.execute`   | DuckDB or Umbra on the missing queries; `none`: it raises |
| `Result`          | `QueryExecutionResult` |
| `State.executed`  | the queries of the executions that returned, in order |
| `Act.restart`     | a new `QueryExecutionCache` over the same directory |

A batch is looked up, what is missing is executed and written, and the batch is looked up again. The memory is
filled by reading the disk only, so **an answer that cannot be written cannot be returned**: with `do_not_cache`
every missing entry fails (`uncached_fails`), and so does a key that is missing twice, since its second result is
refused by `dump_pickle`.
-/

namespace SynnoDB.Workload.QueryCache

variable {Call Entry Raw : Type}

structure Result (Call Entry Raw : Type) where
  call : Call
  entry : Entry
  raw : Raw

structure Setup (Call Entry Raw : Type) where
  hash : Call → Entry → String
  dir : Call → String
  execute : Call → List Entry → Option (List Raw)

structure State (Call Entry Raw : Type) where
  mem : Dict String (Result Call Entry Raw) := []
  disk : Dict (String × String) (Result Call Entry Raw) := []
  executed : List (Call × Entry) := []

structure Flags where
  doNotCache : Bool := false
  onlyFromCache : Bool := false

section
variable (S : Setup Call Entry Raw) (c : Call)

/-- `_get_cache_filepath`. -/
def path (e : Entry) : String × String := (S.dir c, S.hash c e)

/-- `_lookup_entry`. -/
def lookupEntry (st : State Call Entry Raw) (e : Entry) : State Call Entry Raw × Option (Result Call Entry Raw) :=
  match st.mem.get (S.hash c e) with
  | some r => (st, some r)
  | none => match st.disk.get (path S c e) with
    | some r => ({ st with mem := st.mem.set (S.hash c e) r }, some r)
    | none => (st, none)

/-- The first loop over the batch. -/
def findMissing : State Call Entry Raw → List Entry → State Call Entry Raw × List Entry
  | st, [] => (st, [])
  | st, e :: es => match lookupEntry S c st e with
    | (st, some _) => findMissing st es
    | (st, none) => let (st, missing) := findMissing st es; (st, e :: missing)

/-- The last loop over the batch, with its assertion. -/
def collect : State Call Entry Raw → List Entry → State Call Entry Raw × Option (List (Result Call Entry Raw))
  | st, [] => (st, some [])
  | st, e :: es => match lookupEntry S c st e with
    | (st, some r) => let (st, rs) := collect st es; (st, rs.map (r :: ·))
    | (st, none) => (st, none)

/-- `dump_pickle` of each result in turn, and whether none raised. -/
def dumpAll (doNotCache : Bool) : State Call Entry Raw → List (Result Call Entry Raw) → State Call Entry Raw × Bool
  | st, [] => (st, true)
  | st, r :: rs =>
    if doNotCache || (st.disk.get (path S r.call r.entry)).isSome then (st, false)
    else dumpAll doNotCache { st with disk := st.disk.set (path S r.call r.entry) r } rs

/-- `_exec_missing_queries`. -/
def execMissing (doNotCache : Bool) (st : State Call Entry Raw) (missing : List Entry) : State Call Entry Raw × Bool :=
  match S.execute c missing with
  | none => (st, false)
  | some raws =>
    let st := { st with executed := st.executed ++ missing.map (c, ·) }
    if raws.length ≠ missing.length then (st, false)
    else dumpAll S doNotCache st (List.zipWith (Result.mk c) missing raws)

def lookupOrExecuteQueryBatch (flags : Flags) (st : State Call Entry Raw) (batch : List Entry) :
    State Call Entry Raw × Option (List (Result Call Entry Raw)) :=
  let (st, missing) := findMissing S c st batch
  if missing = [] then collect S c st batch
  else if flags.onlyFromCache then (st, none)
  else match execMissing S c flags.doNotCache st missing with
    | (st, true) => collect S c st batch
    | (st, false) => (st, none)

end

/-! ## Runs -/

inductive Act (Call Entry : Type) where
  | batch (flags : Flags) (c : Call) (entries : List Entry)
  | restart

def step (S : Setup Call Entry Raw) (st : State Call Entry Raw) : Act Call Entry → Option (State Call Entry Raw)
  | .batch flags c entries => some (lookupOrExecuteQueryBatch S c flags st entries).1
  | .restart => some { st with mem := [] }

section
variable (S : Setup Call Entry Raw) (c : Call) (st : State Call Entry Raw) (batch : List Entry)

def known (e : Entry) : Bool := (st.mem.get (S.hash c e)).isSome || (st.disk.get (path S c e)).isSome

/-- The entries of a batch that are in neither cache. -/
def missing : List Entry := batch.filter fun e => !known S c st e

/-- The system executes the queries it is given. -/
def Executes (entries : List Entry) : Prop := ∃ raws, S.execute c entries = some raws ∧ raws.length = entries.length

/-- The results of the queries that are executed now. -/
def fresh : List (Result Call Entry Raw) :=
  (S.execute c (missing S c st batch)).elim [] (List.zipWith (Result.mk c) (missing S c st batch))

/-- **Every answer, in order**: of an execution of the entry's key, and of the one now if the key was missing. -/
def Answered (doNotCache : Bool) : Prop :=
  ∃ rs, (lookupOrExecuteQueryBatch S c { doNotCache } st batch).2 = some rs ∧
    List.Forall₂ (fun e r => S.hash r.call r.entry = S.hash c e ∧ (known S c st e = false → r ∈ fresh S c st batch))
      batch rs ∧
    (lookupOrExecuteQueryBatch S c { doNotCache } st batch).1.executed = st.executed ++ (missing S c st batch).map (c, ·)

end

/-! ## The loops -/
section
variable {S : Setup Call Entry Raw} {c : Call} {st st' : State Call Entry Raw} {e : Entry} {es : List Entry}
  {rs : List (Result Call Entry Raw)}

/-- Both caches hold results under their own keys. -/
structure Sound (S : Setup Call Entry Raw) (st : State Call Entry Raw) : Prop where
  mem : ∀ k r, st.mem.get k = some r → S.hash r.call r.entry = k
  disk : ∀ p r, st.disk.get p = some r → path S r.call r.entry = p

/-- A lookup tells whether the entry is known, and changes neither this nor the disk. -/
theorem lookupEntry_spec (S : Setup Call Entry Raw) (c : Call) (st : State Call Entry Raw) (e : Entry) :
    ((lookupEntry S c st e).2.isSome = known S c st e) ∧ (lookupEntry S c st e).1.disk = st.disk ∧
      (lookupEntry S c st e).1.executed = st.executed ∧ ∀ d, known S c (lookupEntry S c st e).1 d = known S c st d := by
  unfold lookupEntry
  cases hm : st.mem.get (S.hash c e) with
  | some r => exact ⟨by simp [known, hm], rfl, rfl, fun d => rfl⟩
  | none =>
    cases hd : st.disk.get (path S c e) with
    | none => exact ⟨by simp [known, hm, hd], rfl, rfl, fun d => rfl⟩
    | some r =>
      refine ⟨by simp [known, hm, hd], rfl, rfl, fun d => ?_⟩
      by_cases hkey : S.hash c e = S.hash c d
      · have hpath : path S c d = path S c e := by rw [path, path, hkey]
        simp [known, hkey, hpath, hd]
      · simp [known, hkey]

theorem Sound.lookup (h : Sound S st) : Sound S (lookupEntry S c st e).1 ∧
    ∀ r, (lookupEntry S c st e).2 = some r → S.hash r.call r.entry = S.hash c e := by
  unfold lookupEntry
  cases hm : st.mem.get (S.hash c e) with
  | some r =>
    refine ⟨h, fun r' hr => ?_⟩
    cases hr
    exact h.mem _ r hm
  | none =>
    cases hd : st.disk.get (path S c e) with
    | none => exact ⟨h, fun r hr => by cases hr⟩
    | some r =>
      have hkey : S.hash r.call r.entry = S.hash c e := (Prod.mk.inj (h.disk _ r hd)).2
      refine ⟨⟨fun k r' hr => ?_, h.disk⟩, fun r' hr => ?_⟩
      · rw [Dict.get_set] at hr
        split at hr
        · cases hr
          exact hkey.trans ‹_›
        · exact h.mem k r' hr
      · cases hr
        exact hkey

theorem findMissing_spec : ∀ (es : List Entry) (st : State Call Entry Raw),
    (findMissing S c st es).2 = missing S c st es ∧
    (findMissing S c st es).1.disk = st.disk ∧ (findMissing S c st es).1.executed = st.executed ∧
    ∀ d, known S c (findMissing S c st es).1 d = known S c st d
  | [], st => ⟨rfl, rfl, rfl, fun _ => rfl⟩
  | e :: es, st => by
    obtain ⟨hsome, hdisk, hexecuted, hknown⟩ := lookupEntry_spec S c st e
    obtain ⟨hmissing, hdisk', hexecuted', hknown'⟩ := findMissing_spec es (lookupEntry S c st e).1
    have hrest : missing S c (lookupEntry S c st e).1 es = missing S c st es := by simp only [missing, hknown]
    rw [findMissing]
    cases hl : lookupEntry S c st e with
    | mk st₁ found =>
      rw [hl] at hsome hdisk hexecuted hknown hmissing hdisk' hexecuted' hknown' hrest
      cases found with
      | some r =>
        have he : known S c st e = true := hsome.symm
        refine ⟨?_, hdisk'.trans hdisk, hexecuted'.trans hexecuted, fun d => (hknown' d).trans (hknown d)⟩
        rw [hmissing, hrest, missing, missing, List.filter_cons_of_neg (by simp [he])]
      | none =>
        have he : known S c st e = false := hsome.symm
        refine ⟨?_, hdisk'.trans hdisk, hexecuted'.trans hexecuted, fun d => (hknown' d).trans (hknown d)⟩
        show e :: (findMissing S c st₁ es).2 = _
        rw [hmissing, hrest, missing, missing, List.filter_cons_of_pos (by simp [he])]

theorem Sound.findMissing : ∀ (es : List Entry) {st : State Call Entry Raw}, Sound S st →
    Sound S (QueryCache.findMissing S c st es).1
  | [], _, h => h
  | e :: es, st, h => by
    have hl := (h.lookup (c := c) (e := e)).1
    rw [QueryCache.findMissing]
    cases hcase : lookupEntry S c st e with
    | mk st₁ found =>
      rw [hcase] at hl
      cases found with
      | some r => exact hl.findMissing es
      | none => exact hl.findMissing es

/-- A name that is taken is refused. -/
theorem dumpAll_taken {doNotCache : Bool} {r : Result Call Entry Raw} :
    ∀ {rs : List (Result Call Entry Raw)} {st : State Call Entry Raw},
    r ∈ rs → (st.disk.get (path S r.call r.entry)).isSome = true → (dumpAll S doNotCache st rs).2 = false
  | r' :: rs, st, hr, htaken => by
    rw [dumpAll]
    split
    · rfl
    · rename_i hfree
      rcases List.mem_cons.1 hr with rfl | hr
      · simp [htaken] at hfree
      · refine dumpAll_taken hr ?_
        rw [Dict.get_set]
        split
        · rfl
        · exact htaken

/-- **The disk takes results once**: each of them, unless writing is off, under names that are new and differ. -/
theorem dumpAll_returns (doNotCache : Bool) : ∀ (rs : List (Result Call Entry Raw)) (st : State Call Entry Raw),
    (∀ r ∈ rs, st.disk.get (path S r.call r.entry) = none) →
    ((dumpAll S doNotCache st rs).2 = true ↔ rs = [] ∨ doNotCache = false ∧
      (rs.map fun r => path S r.call r.entry).Nodup)
  | [], _, _ => iff_of_true rfl (.inl rfl)
  | r :: rs, st, hnew => by
    have hr : st.disk.get (path S r.call r.entry) = none := hnew r List.mem_cons_self
    cases doNotCache with
    | true => simp [dumpAll]
    | false =>
      have hstep : dumpAll S false st (r :: rs) =
          dumpAll S false { st with disk := st.disk.set (path S r.call r.entry) r } rs := by simp [dumpAll, hr]
      rw [hstep, List.map_cons, List.nodup_cons]
      by_cases hmem : path S r.call r.entry ∈ rs.map fun r => path S r.call r.entry
      · refine iff_of_false (fun htrue => ?_) (by simp [hmem])
        -- the second result of the name is refused
        obtain ⟨r', hr', hpath⟩ := List.mem_map.1 hmem
        have hrefused : (dumpAll S false { st with disk := st.disk.set (path S r.call r.entry) r } rs).2 = false := by
          refine dumpAll_taken hr' ?_
          rw [hpath, Dict.get_set, if_pos rfl]
          rfl
        rw [hrefused] at htrue
        cases htrue
      · have hnew' : ∀ r' ∈ rs, (st.disk.set (path S r.call r.entry) r).get (path S r'.call r'.entry) = none := by
          intro r' hr'
          rw [Dict.get_set, if_neg]
          · exact hnew r' (List.mem_cons_of_mem _ hr')
          · intro heq
            exact hmem (heq ▸ List.mem_map_of_mem (f := fun r => path S r.call r.entry) hr')
        have ih : (dumpAll S false { st with disk := st.disk.set (path S r.call r.entry) r } rs).2 = true ↔
            rs = [] ∨ false = false ∧ (rs.map fun r => path S r.call r.entry).Nodup := dumpAll_returns false rs _ hnew'
        rw [ih]
        constructor
        · rintro (rfl | ⟨-, hnodup⟩)
          · exact .inr ⟨rfl, hmem, List.nodup_nil⟩
          · exact .inr ⟨rfl, hmem, hnodup⟩
        · rintro (hnil | ⟨-, -, hnodup⟩)
          · cases hnil
          · exact .inr ⟨rfl, hnodup⟩

/-- What is on the disk afterwards was there or is one of the results. -/
theorem dumpAll_spec (doNotCache : Bool) : ∀ (rs : List (Result Call Entry Raw)) (st : State Call Entry Raw),
    (dumpAll S doNotCache st rs).1.mem = st.mem ∧ (dumpAll S doNotCache st rs).1.executed = st.executed ∧
      (∀ p r, (dumpAll S doNotCache st rs).1.disk.get p = some r → st.disk.get p = some r ∨ r ∈ rs ∧
        path S r.call r.entry = p) ∧
      (∀ p, (st.disk.get p).isSome = true → (dumpAll S doNotCache st rs).1.disk.get p = st.disk.get p) ∧
      ((dumpAll S doNotCache st rs).2 = true →
        ∀ r ∈ rs, ((dumpAll S doNotCache st rs).1.disk.get (path S r.call r.entry)).isSome = true)
  | [], st => ⟨rfl, rfl, fun p r h => .inl h, fun p h => rfl, fun _ r hr => by cases hr⟩
  | r :: rs, st => by
    rw [dumpAll]
    split
    · exact ⟨rfl, rfl, fun p r h => .inl h, fun p h => rfl, fun h => by cases h⟩
    · rename_i hfree
      have hnone : st.disk.get (path S r.call r.entry) = none := by
        simpa using (Bool.or_eq_false_iff.1 (eq_false_of_ne_true hfree)).2
      obtain ⟨hmem, hexecuted, hfrom, hkept, hall⟩ := dumpAll_spec doNotCache rs
        { st with disk := st.disk.set (path S r.call r.entry) r }
      refine ⟨hmem, hexecuted, fun p r' hr' => ?_, fun p hp => ?_, fun htrue r' hr' => ?_⟩
      · rcases hfrom p r' hr' with hold | ⟨hin, hpath⟩
        · rw [Dict.get_set] at hold
          split at hold
          · cases hold
            exact .inr ⟨List.mem_cons_self, ‹_›⟩
          · exact .inl hold
        · exact .inr ⟨List.mem_cons_of_mem _ hin, hpath⟩
      · have hne : path S r.call r.entry ≠ p := by
          rintro rfl
          rw [hnone] at hp
          cases hp
        have hget : (st.disk.set (path S r.call r.entry) r).get p = st.disk.get p := by rw [Dict.get_set, if_neg hne]
        exact (hkept p (by rw [hget]; exact hp)).trans hget
      · rcases List.mem_cons.1 hr' with rfl | hr'
        · have hset : ((st.disk.set (path S r'.call r'.entry) r').get (path S r'.call r'.entry)) = some r' := by simp
          rw [hkept _ (by rw [hset]; rfl), hset]
          rfl
        · exact hall htrue r' hr'

theorem Sound.dumpAll (doNotCache : Bool) (rs : List (Result Call Entry Raw)) (h : Sound S st) :
    Sound S (QueryCache.dumpAll S doNotCache st rs).1 := by
  obtain ⟨hmem, -, hfrom, -, -⟩ := dumpAll_spec (S := S) doNotCache rs st
  refine ⟨fun k r hr => h.mem k r (hmem ▸ hr), fun p r hr => ?_⟩
  rcases hfrom p r hr with hold | ⟨-, hpath⟩
  · exact h.disk p r hold
  · exact hpath

theorem Sound.execMissing (doNotCache : Bool) (es : List Entry) (h : Sound S st) :
    Sound S (QueryCache.execMissing S c doNotCache st es).1 := by
  unfold QueryCache.execMissing
  cases S.execute c es with
  | none => exact h
  | some raws =>
    have hexecuted : Sound S { st with executed := st.executed ++ es.map (c, ·) } := ⟨h.mem, h.disk⟩
    show Sound S (if raws.length ≠ es.length then _ else _ : State Call Entry Raw × Bool).1
    split
    · exact hexecuted
    · exact hexecuted.dumpAll doNotCache _

theorem Sound.collect : ∀ {es : List Entry} {st : State Call Entry Raw}, Sound S st →
    Sound S (QueryCache.collect S c st es).1
  | [], _, h => h
  | e :: es, st, h => by
    have hl := (h.lookup (c := c) (e := e)).1
    rw [QueryCache.collect]
    cases hcase : lookupEntry S c st e with
    | mk st₁ found =>
      rw [hcase] at hl
      cases found with
      | some r => exact hl.collect
      | none => exact hl

/-- Whatever the caches hold for an entry has `Q`. -/
def Holds (S : Setup Call Entry Raw) (c : Call) (st : State Call Entry Raw) (Q : Entry → Result Call Entry Raw → Prop) : Prop :=
  ∀ e r, st.mem.get (S.hash c e) = some r ∨ st.disk.get (path S c e) = some r → Q e r

theorem Holds.lookup {Q : Entry → Result Call Entry Raw → Prop} (h : Holds S c st Q) (e : Entry) :
    Holds S c (lookupEntry S c st e).1 Q ∧ ∀ r, (lookupEntry S c st e).2 = some r → Q e r := by
  unfold lookupEntry
  cases hm : st.mem.get (S.hash c e) with
  | some r =>
    refine ⟨h, fun r' hr => ?_⟩
    cases hr
    exact h e r (.inl hm)
  | none =>
    cases hd : st.disk.get (path S c e) with
    | none => exact ⟨h, fun r hr => by cases hr⟩
    | some r =>
      refine ⟨fun d r' hr => ?_, fun r' hr => ?_⟩
      · rcases hr with hr | hr
        · rw [Dict.get_set] at hr
          split at hr
          · rename_i hkey
            cases hr
            exact h d r (.inr (by rw [path, ← hkey]; exact hd))
          · exact h d r' (.inl hr)
        · exact h d r' (.inr hr)
      · cases hr
        exact h e r (.inr hd)

/-- **The last loop**: known entries are all found, and what is found has what the caches hold. -/
theorem collect_spec {Q : Entry → Result Call Entry Raw → Prop} : ∀ {es : List Entry} {st : State Call Entry Raw},
    Holds S c st Q → (∀ e ∈ es, known S c st e = true) →
    (collect S c st es).1.executed = st.executed ∧ ∃ rs, (collect S c st es).2 = some rs ∧ List.Forall₂ Q es rs
  | [], _, _, _ => ⟨rfl, [], rfl, .nil⟩
  | e :: es, st, h, hall => by
    obtain ⟨hsome, -, hexecuted, hknown⟩ := lookupEntry_spec S c st e
    obtain ⟨hl, hQ⟩ := h.lookup e
    rw [hall e List.mem_cons_self] at hsome
    rw [collect]
    cases hcase : lookupEntry S c st e with
    | mk st₁ found =>
      rw [hcase] at hsome hexecuted hknown hl hQ
      cases found with
      | none => cases hsome
      | some r =>
        have hall' : ∀ d ∈ es, known S c st₁ d = true := fun d hd =>
          (hknown d).trans (hall d (List.mem_cons_of_mem _ hd))
        obtain ⟨hexecuted', rs, hrs, hforall⟩ := collect_spec hl hall'
        refine ⟨hexecuted'.trans hexecuted, r :: rs, ?_, .cons (hQ r rfl) hforall⟩
        show (collect S c st₁ es).2.map (r :: ·) = _
        rw [hrs]
        rfl

end

/-! ## Batches -/
section
variable {S : Setup Call Entry Raw} {c : Call} {st : State Call Entry Raw} {es : List Entry} {doNotCache : Bool}

theorem Sound.answers (h : Sound S st) (flags : Flags) (batch : List Entry) :
    Sound S (lookupOrExecuteQueryBatch S c flags st batch).1 := by
  have hfind := h.findMissing (c := c) batch
  unfold lookupOrExecuteQueryBatch
  cases hcase : QueryCache.findMissing S c st batch with
  | mk st₁ es =>
    rw [hcase] at hfind
    have hexec := hfind.execMissing (c := c) flags.doNotCache es
    dsimp only
    split
    · exact hfind.collect
    · split
      · exact hfind
      · cases hdump : QueryCache.execMissing S c flags.doNotCache st₁ es with
        | mk st₂ ok =>
          rw [hdump] at hexec
          cases ok with
          | true => exact hexec.collect
          | false => exact hexec

theorem sound_new : Sound S {} := by
  constructor <;> intro _ _ hr <;> cases hr

theorem sound_step {a : Act Call Entry} {st' : State Call Entry Raw} (h : Sound S st)
    (hs : step S st a = some st') : Sound S st' := by
  cases a with
  | batch flags c entries => exact Option.some.inj hs ▸ h.answers flags entries
  | restart => exact Option.some.inj hs ▸ ⟨fun _ _ hr => (nomatch hr), h.disk⟩

/-- Both caches of every reachable state hold results under their own keys. -/
theorem reach_sound (hreach : Trace.Reach (step S) {} st) : Sound S st :=
  Trace.reach_invariant (fun _ _ _ => sound_step) sound_new hreach

theorem known_eq_false {e : Entry} :
    known S c st e = false ↔ st.mem.get (S.hash c e) = none ∧ st.disk.get (path S c e) = none := by
  simp [known]

/-- What the caches of a reachable state hold: results of the entry's key, and nothing for an entry that is not
known. -/
theorem Sound.holds (h : Sound S st) {st₀ : State Call Entry Raw} (hknown : ∀ d, known S c st d = known S c st₀ d)
    (F : List (Result Call Entry Raw)) :
    Holds S c st fun e r => S.hash r.call r.entry = S.hash c e ∧ (known S c st₀ e = false → r ∈ F) := by
  intro e r hr
  constructor
  · rcases hr with hmem | hdisk
    · exact h.mem _ r hmem
    · exact (Prod.mk.inj (h.disk _ r hdisk)).2
  · intro hunknown
    obtain ⟨hmem, hdisk⟩ := known_eq_false.1 ((hknown e).trans hunknown)
    rw [hmem, hdisk] at hr
    rcases hr with hr | hr <;> cases hr

theorem map_path_results (S : Setup Call Entry Raw) (c : Call) :
    ∀ {es : List Entry} {raws : List Raw}, raws.length = es.length →
    (List.zipWith (Result.mk c) es raws).map (fun r => path S r.call r.entry) = es.map (path S c)
  | [], _, _ => rfl
  | e :: es, raw :: raws, h => by
    rw [List.zipWith_cons_cons, List.map_cons, List.map_cons, map_path_results S c (Nat.succ.inj h)]

theorem nodup_paths : (es.map (path S c)).Nodup ↔ (es.map (S.hash c)).Nodup := by
  have hpath : es.map (path S c) = (es.map (S.hash c)).map (Prod.mk (S.dir c)) := by
    rw [List.map_map]
    rfl
  rw [hpath]
  exact List.nodup_map_iff fun _ _ h => (Prod.mk.inj h).2

/-- **The middle pass**: of entries that are not on the disk, all are written, unless writing is off or a key comes
twice. -/
theorem execMissing_returns (doNotCache : Bool) {raws : List Raw} (hraws : S.execute c es = some raws)
    (hlen : raws.length = es.length) (hnew : ∀ e ∈ es, st.disk.get (path S c e) = none) :
    (execMissing S c doNotCache st es).2 = true ↔ es = [] ∨ doNotCache = false ∧ (es.map (S.hash c)).Nodup := by
  have hnil : List.zipWith (Result.mk c) es raws = [] ↔ es = [] := by
    rw [List.zipWith_eq_nil_iff]
    constructor
    · rintro (rfl | rfl)
      · rfl
      · exact List.length_eq_zero_iff.1 hlen.symm
    · exact .inl
  have hnew' : ∀ r ∈ List.zipWith (Result.mk c) es raws, st.disk.get (path S r.call r.entry) = none := by
    intro r hr
    have hpath : path S r.call r.entry ∈ es.map (path S c) := by
      rw [← map_path_results S c hlen]
      exact List.mem_map_of_mem (f := fun r : Result Call Entry Raw => path S r.call r.entry) hr
    obtain ⟨e, he, heq⟩ := List.mem_map.1 hpath
    rw [← heq]
    exact hnew e he
  unfold execMissing
  rw [hraws]
  simp only [hlen, ne_eq, not_true_eq_false, if_false]
  have hreturns := dumpAll_returns (S := S) doNotCache (List.zipWith (Result.mk c) es raws)
    { st with executed := st.executed ++ es.map (c, ·) } hnew'
  rw [hreturns, hnil, map_path_results S c hlen, nodup_paths]

/-- What it leaves: nothing but results of the execution is new, and all of them are there. -/
theorem execMissing_spec (doNotCache : Bool) (st : State Call Entry Raw) {raws : List Raw}
    (hraws : S.execute c es = some raws)
    (hlen : raws.length = es.length) (htrue : (execMissing S c doNotCache st es).2 = true) :
    (execMissing S c doNotCache st es).1.mem = st.mem ∧
      (execMissing S c doNotCache st es).1.executed = st.executed ++ es.map (c, ·) ∧
      (∀ p r, (execMissing S c doNotCache st es).1.disk.get p = some r →
        st.disk.get p = some r ∨ r ∈ List.zipWith (Result.mk c) es raws) ∧
      (∀ p, (st.disk.get p).isSome = true → ((execMissing S c doNotCache st es).1.disk.get p).isSome = true) ∧
      ∀ e ∈ es, ((execMissing S c doNotCache st es).1.disk.get (path S c e)).isSome = true := by
  have heq : execMissing S c doNotCache st es =
      dumpAll S doNotCache { st with executed := st.executed ++ es.map (c, ·) }
        (List.zipWith (Result.mk c) es raws) := by
    unfold execMissing
    rw [hraws]
    simp [hlen]
  rw [heq] at htrue ⊢
  obtain ⟨hmem, hexecuted, hfrom, hkept, hall⟩ := dumpAll_spec (S := S) doNotCache (List.zipWith (Result.mk c) es raws)
    { st with executed := st.executed ++ es.map (c, ·) }
  refine ⟨hmem, hexecuted, fun p r hr => (hfrom p r hr).imp_right And.left, fun p hp => ?_, fun e he => ?_⟩
  · rw [hkept p hp]
    exact hp
  · have hpath : path S c e ∈ (List.zipWith (Result.mk c) es raws).map fun r => path S r.call r.entry := by
      rw [map_path_results S c hlen]
      exact List.mem_map_of_mem he
    obtain ⟨r, hr, hr'⟩ := List.mem_map.1 hpath
    rw [← hr']
    exact hall htrue r hr

end

/-- **When a batch is answered** after any calls and restarts, if its missing queries can be executed: none is
missing, or they may be written and no two of them have one key. -/
theorem batch_answered_iff (S : Setup Call Entry Raw) {st : State Call Entry Raw} (hreach : Trace.Reach (step S) {} st)
    (doNotCache : Bool) (c : Call) (batch : List Entry) (hsys : Executes S c (missing S c st batch)) :
    Answered S c st batch doNotCache ↔
      missing S c st batch = [] ∨ doNotCache = false ∧ ((missing S c st batch).map (S.hash c)).Nodup := by
  have hsound := reach_sound hreach
  obtain ⟨raws, hraws, hlen⟩ := hsys
  have hfind := findMissing_spec (S := S) (c := c) batch st
  have hfound := hsound.findMissing (c := c) batch
  have hfresh : fresh S c st batch = List.zipWith (Result.mk c) (missing S c st batch) raws := by rw [fresh, hraws]; rfl
  unfold Answered lookupOrExecuteQueryBatch
  cases hcase : findMissing S c st batch with
  | mk st₁ es =>
    rw [hcase] at hfind hfound
    obtain ⟨hes, hdisk, hexecuted, hknown⟩ := hfind
    dsimp only at hes hdisk hexecuted hknown hfound ⊢
    subst hes
    by_cases hnone : missing S c st batch = []
    · -- all is known: the last loop finds it
      have hall : ∀ e ∈ batch, known S c st₁ e = true := by
        intro e he
        rw [hknown]
        by_contra hunknown
        have hin : e ∈ missing S c st batch := List.mem_filter.2 ⟨he, by simp [hunknown]⟩
        rw [hnone] at hin
        cases hin
      obtain ⟨hexecuted', rs, hrs, hforall⟩ := collect_spec (hfound.holds hknown (fresh S c st batch)) hall
      refine iff_of_true ⟨rs, ?_⟩ (.inl hnone)
      rw [if_pos hnone, hnone]
      exact ⟨hrs, hforall, by rw [hexecuted', hexecuted]; simp⟩
    · rw [if_neg hnone, if_neg Bool.false_ne_true]
      have hnew : ∀ e ∈ missing S c st batch, st₁.disk.get (path S c e) = none := by
        intro e he
        rw [hdisk]
        exact (known_eq_false.1 (by simpa using (List.mem_filter.1 he).2)).2
      have hreturns := execMissing_returns doNotCache hraws hlen hnew
      have hspec := execMissing_spec doNotCache st₁ hraws hlen
      rw [← hreturns]
      cases hexec : execMissing S c doNotCache st₁ (missing S c st batch) with
      | mk st₂ ok =>
        rw [hexec] at hspec
        cases ok with
        | false => exact iff_of_false (fun ⟨rs, hrs, _⟩ => by cases hrs) Bool.false_ne_true
        | true =>
          obtain ⟨hmem, hexecuted', hfrom, hkept, hwritten⟩ := hspec rfl
          dsimp only at hmem hexecuted' hfrom hkept hwritten ⊢
          have hall : ∀ e ∈ batch, known S c st₂ e = true := by
            intro e he
            rw [known, hmem, Bool.or_eq_true]
            by_cases hunknown : known S c st e = true
            · rw [← hknown, known, Bool.or_eq_true] at hunknown
              exact hunknown.imp_right (hkept _)
            · exact .inr (hwritten e (List.mem_filter.2 ⟨he, by simp [hunknown]⟩))
          -- new on the disk are the results of the execution
          have hholds : Holds S c st₂ fun e r =>
              S.hash r.call r.entry = S.hash c e ∧ (known S c st e = false → r ∈ fresh S c st batch) := by
            have hsound₂ : Sound S st₂ := by
              have := hfound.execMissing (c := c) doNotCache (missing S c st batch)
              rw [hexec] at this
              exact this
            intro e r hr
            rw [hmem] at hr
            refine ⟨?_, fun hunknown => ?_⟩
            · rcases hr with hr | hr
              · exact hfound.mem _ r hr
              · exact (Prod.mk.inj (hsound₂.disk _ r hr)).2
            · obtain ⟨hmem', hdisk'⟩ := known_eq_false.1 ((hknown e).trans hunknown)
              rcases hr with hr | hr
              · rw [hmem'] at hr
                cases hr
              · rw [hfresh]
                refine (hfrom _ r hr).resolve_left fun hold => ?_
                rw [hdisk'] at hold
                cases hold
          obtain ⟨hexecuted'', rs, hrs, hforall⟩ := collect_spec hholds hall
          refine iff_of_true ⟨rs, hrs, hforall, ?_⟩ rfl
          rw [hexecuted'', hexecuted', hexecuted]

/-! ## An example -/

/-- A system that answers each query with its length. -/
def lengths : Setup Unit String Nat :=
  { hash := fun _ e => e, dir := fun _ => "", execute := fun _ es => some (es.map String.length) }

theorem answered_twice : Answered lengths () (lookupOrExecuteQueryBatch lengths () {} {} ["q1"]).1 ["q1", "q22", "q1"] false :=
  (batch_answered_iff lengths ⟨[.batch {} () ["q1"]], rfl⟩ false () ["q1", "q22", "q1"] ⟨[3], by decide +kernel⟩).2
    (.inr ⟨rfl, by decide +kernel⟩)

/-- With `do_not_cache` a missing query cannot be answered: `dump_pickle` asserts that it is not called, and
nothing else fills the memory. -/
theorem uncached_fails : ¬∀ (doNotCache : Bool) (batch : List String),
    Executes lengths () (missing lengths () {} batch) → Answered lengths () {} batch doNotCache := by
  intro h
  obtain ⟨rs, hrs, -⟩ := h true ["q1"] ⟨[2], by decide +kernel⟩
  have hraised : (lookupOrExecuteQueryBatch lengths () { doNotCache := true } {} ["q1"]).2.isSome = false := by decide +kernel
  rw [hrs] at hraised
  cases hraised

end SynnoDB.Workload.QueryCache
