import Mathlib.Data.List.TakeWhile
import SynnoDB.Hotpatch.Wire
import SynnoDB.Lib.Dict

/-!
# The environment of a run (`hotpatch/pipeline.hpp:268-310`)

| here | there |
| --- | --- |
| `CString`, `cStr`     | `std::string::c_str()`: a C string ends at the first NUL |
| `getenv`, `setenv`, `unsetenv` | the calls of libc, on the array of `NAME=value` entries |
| `PreviousEnv`         | the struct of `:270-274` |
| `constructLoop`, `construct` | `RunEnvGuard::RunEnvGuard` (`:277-293`) |
| `destruct`            | `RunEnvGuard::~RunEnvGuard` (`:298-306`) |
| `lifetime`            | a guard built and given up; one whose constructor threw is never destroyed |

`setenv` can fail for want of memory, in the constructor and in the destructor alike; `Memory` says at
which pair it does. **The guard restores the environment exactly as long as its constructor
completes** (`lifetime_restores_iff`): the pairs set before a throw stay set.
-/

namespace SynnoDB.Hotpatch.RunEnv

/-! ## The environment -/

structure CString where
  bytes : Bytes
  noNul : 0 ∉ bytes
deriving DecidableEq

theorem CString.ext_bytes {s t : CString} (h : s.bytes = t.bytes) : s = t := by
  cases s
  cases t
  subst h
  rfl

/-- `s.c_str()` as a libc call reads it. -/
def cStr (s : Bytes) : CString := ⟨s.takeWhile fun b => b ≠ 0, fun h => by simpa using List.mem_takeWhile_imp h⟩

@[simp] theorem cStr_bytes (s : CString) : cStr s.bytes = s :=
  CString.ext_bytes (List.takeWhile_eq_self_iff.2 fun b hb => by
    have hne : b ≠ 0 := fun h => s.noNul (h ▸ hb)
    simpa using hne)

/-- `environ`: its entries in order. Of two entries of one name the calls below see the first. -/
abbrev Environment := Dict CString CString

def equals : UInt8 := 61

def getenv (env : Environment) (name : CString) : Option CString := Dict.get env name

/-- `setenv(name, value, 1)`; `none` is `-1`. -/
def setenv (room : Bool) (env : Environment) (name value : CString) : Option Environment :=
  if name.bytes = [] ∨ equals ∈ name.bytes ∨ room = false then none else some (Dict.set env name value)

def unsetenv (env : Environment) (name : CString) : Environment :=
  if name.bytes = [] ∨ equals ∈ name.bytes then env else Dict.erase env name

/-! ## The guard -/

/-- At which pair a `setenv` finds the memory it needs: the constructor's call and the destructor's. -/
structure Memory where
  set : Nat → Bool
  reset : Nat → Bool

structure PreviousEnv where
  key : Bytes
  hadValue : Bool
  value : Bytes
deriving DecidableEq

inductive Failure where
  | invalidKey (key : Bytes)
  | setenvFailed (key : Bytes)
deriving DecidableEq

/-- `what()` of the `runtime_error`. -/
def Failure.what : Failure → Bytes
  | .invalidKey key => "invalid run_env key: ".toUTF8.toList ++ key
  | .setenvFailed key => "setenv failed for run_env key: ".toUTF8.toList ++ key

/-- The test of `:280`. -/
def InvalidKey (key : Bytes) : Prop := key = [] ∨ equals ∈ key

instance (key : Bytes) : Decidable (InvalidKey key) := inferInstanceAs (Decidable (_ ∨ _))

def record (env : Environment) (key : Bytes) : PreviousEnv :=
  match getenv env (cStr key) with
  | some oldValue => ⟨key, true, oldValue.bytes⟩
  | none => ⟨key, false, []⟩

def constructLoop (memory : Memory) :
    Environment → List PreviousEnv → List (Bytes × Bytes) → Environment × Except Failure (List PreviousEnv)
  | env, previous, [] => (env, .ok previous)
  | env, previous, (key, value) :: rest =>
    if InvalidKey key then (env, .error (.invalidKey key))
    else
      match setenv (memory.set previous.length) env (cStr key) (cStr value) with
      | none => (env, .error (.setenvFailed key))
      | some env' => constructLoop memory env' (previous ++ [record env key]) rest

def construct (memory : Memory) (batch : RunBatch) (env : Environment) :
    Environment × Except Failure (List PreviousEnv) :=
  constructLoop memory env [] batch.runEnv

/-- One turn of the destructor's loop; what `setenv` answers is not looked at. -/
def PreviousEnv.restore (p : PreviousEnv) (room : Bool) (env : Environment) : Environment :=
  if p.hadValue then (setenv room env (cStr p.key) (cStr p.value)).getD env else unsetenv env (cStr p.key)

/-- The destructor on the records, **last first**. -/
def destruct (memory : Memory) : List PreviousEnv → Environment → Environment
  | [], env => env
  | p :: rest, env => destruct memory rest (p.restore (memory.reset rest.length) env)

/-- The environment a guard leaves behind, and what its constructor threw. -/
def lifetime (memory : Memory) (batch : RunBatch) (env : Environment) : Environment × Option Failure :=
  match construct memory batch env with
  | (env', .error e) => (env', some e)
  | (env', .ok previous) => (destruct memory previous.reverse env', none)

/-! ## What the pairs say -/

/-- The pair stops the constructor: a bad key, a key that is empty as a C string, or no memory. -/
def Throws (memory : Memory) (i : Nat) (key : Bytes) : Prop :=
  InvalidKey key ∨ (cStr key).bytes = [] ∨ memory.set i = false

instance (memory : Memory) (i : Nat) (key : Bytes) : Decidable (Throws memory i key) :=
  inferInstanceAs (Decidable (_ ∨ _))

/-- The pairs before the one the constructor throws at; `none` when it takes them all. -/
def beforeThrow (memory : Memory) : Nat → List (Bytes × Bytes) → Option (List (Bytes × Bytes))
  | _, [] => none
  | i, (key, value) :: rest =>
    if Throws memory i key then some [] else (beforeThrow memory (i + 1) rest).map ((key, value) :: ·)

/-- The last value the pairs give the variable, `w` if they do not name it. -/
def lastGiven (k : CString) : List (Bytes × Bytes) → Option CString → Option CString
  | [], w => w
  | (key, value) :: rest, w => lastGiven k rest (if cStr key = k then some (cStr value) else w)

/-- Where the variable ends: at the value before its first pair whose restoring call works. A
variable that was absent is unset, which needs no memory. -/
def settled (reset : Nat → Bool) (k : CString) : Nat → List (Bytes × Bytes) → Option CString → Option CString
  | _, [], w => w
  | i, (key, value) :: rest, w =>
    if cStr key = k then
      if reset i = true ∨ w = none then w else settled reset k (i + 1) rest (some (cStr value))
    else settled reset k (i + 1) rest w

/-- Each variable is left at the value, or the absence, it had: the constructor throws after pairs
that changed nothing, or completes and its destructor's failing calls change nothing. -/
def LeavesAsItWas (memory : Memory) (batch : RunBatch) (env : Environment) : Prop :=
  match beforeThrow memory 0 batch.runEnv with
  | some pairs => ∀ k, lastGiven k pairs (getenv env k) = getenv env k
  | none => ∀ k, settled memory.reset k 0 batch.runEnv (getenv env k) = getenv env k

/-! ## One pair -/

variable {memory : Memory} {env : Environment} {previous : List PreviousEnv} {key value : Bytes}

theorem equals_notMem (h : ¬ InvalidKey key) : equals ∉ (cStr key).bytes :=
  fun hm => h (.inr ((List.takeWhile_sublist _).subset hm))

variable (memory env previous key value) in
/-- What the loop does with the first of the pairs left. -/
theorem constructLoop_cons (rest : List (Bytes × Bytes)) :
    (Throws memory previous.length key ∧
      ∃ e, constructLoop memory env previous ((key, value) :: rest) = (env, .error e)) ∨
    (¬ Throws memory previous.length key ∧
      constructLoop memory env previous ((key, value) :: rest) =
        constructLoop memory (Dict.set env (cStr key) (cStr value)) (previous ++ [record env key]) rest) := by
  rw [constructLoop.eq_2]
  by_cases hkey : InvalidKey key
  · exact .inl ⟨.inl hkey, _, if_pos hkey⟩
  have hname := equals_notMem hkey
  by_cases hfail : (cStr key).bytes = [] ∨ memory.set previous.length = false
  · refine .inl ⟨.inr hfail, .setenvFailed key, ?_⟩
    have : setenv (memory.set previous.length) env (cStr key) (cStr value) = none :=
      if_pos (hfail.imp_right .inr)
    rw [if_neg hkey, this]
  · refine .inr ⟨fun h => h.elim hkey hfail, ?_⟩
    have : setenv (memory.set previous.length) env (cStr key) (cStr value) =
        some (Dict.set env (cStr key) (cStr value)) :=
      if_neg fun h => hfail (h.imp_right fun h => h.resolve_left hname)
    simp only [if_neg hkey, this]

/-- A record puts its variable back and touches no other. -/
theorem restore_get {i : Nat} (hkey : ¬ Throws memory i key) (env' : Environment) (k : CString) (room : Bool) :
    getenv ((record env key).restore room env') k =
      if cStr key = k ∧ (room = true ∨ getenv env k = none) then getenv env k else getenv env' k := by
  have hne : ¬ ((cStr key).bytes = [] ∨ equals ∈ (cStr key).bytes) := by
    rintro (h | h)
    · exact hkey (.inr (.inl h))
    · exact equals_notMem (fun h => hkey (.inl h)) h
  unfold record
  cases hold : getenv env (cStr key) with
  | some w =>
    by_cases hk : cStr key = k
    · subst hk
      cases room with
      | true => simp_all [PreviousEnv.restore, setenv, getenv]
      | false => simp [PreviousEnv.restore, setenv, hold]
    · cases room <;> simp_all [PreviousEnv.restore, setenv, getenv]
  | none =>
    by_cases hk : cStr key = k
    · subst hk
      simp_all [PreviousEnv.restore, unsetenv, getenv]
    · simp_all [PreviousEnv.restore, unsetenv, getenv]

/-! ## The whole batch -/

theorem getenv_set (env : Environment) (name v k : CString) :
    getenv (Dict.set env name v) k = if name = k then some v else getenv env k :=
  Dict.get_set env name k v

/-- A constructor that throws leaves what the pairs before gave. -/
theorem constructLoop_throws : ∀ (pairs : List (Bytes × Bytes)) (env : Environment) (previous : List PreviousEnv)
    (done : List (Bytes × Bytes)), beforeThrow memory previous.length pairs = some done →
    ∃ env' e, constructLoop memory env previous pairs = (env', .error e) ∧
      ∀ k, getenv env' k = lastGiven k done (getenv env k)
  | [], _, _, _, h => by cases h
  | (key, value) :: rest, env, previous, done, h => by
    rw [beforeThrow] at h
    obtain ⟨hthrow, e, he⟩ | ⟨hgoes, hloop⟩ := constructLoop_cons memory env previous key value rest
    · rw [if_pos hthrow, Option.some.injEq] at h
      subst h
      exact ⟨env, e, he, fun _ => rfl⟩
    · rw [if_neg hgoes, Option.map_eq_some_iff] at h
      obtain ⟨done', h', rfl⟩ := h
      obtain ⟨env', e, he, hget⟩ := constructLoop_throws rest (Dict.set env (cStr key) (cStr value))
        (previous ++ [record env key]) done' (by simpa using h')
      refine ⟨env', e, hloop.trans he, fun k => ?_⟩
      rw [hget k, lastGiven, getenv_set]

/-- A constructor that completes, and then the destructor on what it recorded: down to the records
made before these pairs, every variable has settled. -/
theorem constructLoop_completes : ∀ (pairs : List (Bytes × Bytes)) (env : Environment) (previous : List PreviousEnv),
    beforeThrow memory previous.length pairs = none →
    ∃ env' log env'', constructLoop memory env previous pairs = (env', .ok log) ∧
      destruct memory log.reverse env' = destruct memory previous.reverse env'' ∧
      ∀ k, getenv env'' k = settled memory.reset k previous.length pairs (getenv env k)
  | [], env, previous, _ => ⟨env, previous, env, rfl, rfl, fun _ => rfl⟩
  | (key, value) :: rest, env, previous, h => by
    rw [beforeThrow] at h
    obtain ⟨hthrow, e, he⟩ | ⟨hgoes, hloop⟩ := constructLoop_cons memory env previous key value rest
    · rw [if_pos hthrow] at h
      cases h
    · rw [if_neg hgoes, Option.map_eq_none_iff] at h
      obtain ⟨env', log, back, hok, hdestruct, hget⟩ := constructLoop_completes rest
        (Dict.set env (cStr key) (cStr value)) (previous ++ [record env key]) (by simpa using h)
      refine ⟨env', log, (record env key).restore (memory.reset previous.length) back, hloop.trans hok, ?_, ?_⟩
      · rw [hdestruct, List.reverse_append, List.reverse_singleton, List.singleton_append, destruct,
          List.length_reverse]
      · intro k
        rw [restore_get hgoes, hget k, settled, getenv_set, List.length_append, List.length_singleton]
        by_cases hk : cStr key = k
        · by_cases hw : memory.reset previous.length = true ∨ getenv env k = none
          · rw [if_pos ⟨hk, hw⟩, if_pos hk, if_pos hw]
          · rw [if_neg fun h => hw h.2, if_pos hk, if_neg hw, if_pos hk]
        · rw [if_neg fun h => hk h.1, if_neg hk, if_neg hk]

theorem lifetime_throws {batch : RunBatch} {done : List (Bytes × Bytes)}
    (h : beforeThrow memory 0 batch.runEnv = some done) (env : Environment) (k : CString) :
    getenv (lifetime memory batch env).1 k = lastGiven k done (getenv env k) := by
  obtain ⟨env', e, he, hget⟩ := constructLoop_throws batch.runEnv env [] done h
  unfold lifetime construct
  rw [he]
  exact hget k

theorem lifetime_completes {batch : RunBatch} (h : beforeThrow memory 0 batch.runEnv = none) (env : Environment)
    (k : CString) : getenv (lifetime memory batch env).1 k = settled memory.reset k 0 batch.runEnv (getenv env k) := by
  obtain ⟨env', log, back, hok, hdestruct, hget⟩ := constructLoop_completes batch.runEnv env [] h
  unfold lifetime construct
  rw [hok]
  exact (congrArg (getenv · k) hdestruct).trans (hget k)

/-- **After a guard every variable has the value, or the absence, it had before, if and only if the
pairs leave it so.** -/
theorem lifetime_restores_iff (memory : Memory) (batch : RunBatch) (env : Environment) :
    (∀ k, getenv (lifetime memory batch env).1 k = getenv env k) ↔ LeavesAsItWas memory batch env := by
  unfold LeavesAsItWas
  cases h : beforeThrow memory 0 batch.runEnv with
  | some done => exact forall_congr' fun k => by rw [lifetime_throws h]
  | none => exact forall_congr' fun k => by rw [lifetime_completes h]

theorem settled_of_room {reset : Nat → Bool} (hroom : ∀ i, reset i = true) (k : CString) :
    ∀ (pairs : List (Bytes × Bytes)) (i : Nat) (w : Option CString), settled reset k i pairs w = w
  | [], _, _ => rfl
  | (key, value) :: rest, i, w => by
    by_cases hk : cStr key = k
    · rw [settled, if_pos hk, if_pos (.inl (hroom i))]
    · rw [settled, if_neg hk, settled_of_room hroom k rest]

/-- A guard with memory for its calls restores every variable, however often the pairs name it, as
soon as its constructor completes: the first record of a variable is replayed last. -/
theorem lifetime_restores {batch : RunBatch} (hroom : ∀ i, memory.reset i = true)
    (hgoes : beforeThrow memory 0 batch.runEnv = none) (env : Environment) (k : CString) :
    getenv (lifetime memory batch env).1 k = getenv env k := by
  rw [lifetime_completes hgoes, settled_of_room hroom]

/-- The pairs `A=1` and one with an empty key, with `A` unset and all the memory one wants: the
constructor throws at the second and `A` stays `1`. -/
theorem first_pair_stays :
    let batch : RunBatch := ⟨0, [], [([65], [49]), ([], [50])]⟩
    let memory : Memory := ⟨fun _ => true, fun _ => true⟩
    (lifetime memory batch []).2 = some (.invalidKey []) ∧
      ¬ ∀ k, getenv (lifetime memory batch []).1 k = getenv [] k := by
  refine ⟨by decide, fun h => ?_⟩
  have hA := h (cStr [65])
  revert hA
  decide

end SynnoDB.Hotpatch.RunEnv
