import Mathlib.Data.List.Basic

/-!
# Readers over a token stream

A reader consumes a prefix of a token list and returns a value or fails. `Reads r bs a rest` says
that `r`, started on `bs` followed by `rest`, returns `a` and leaves exactly `rest`: the rules
compose it along `bind`, `map` and counted loops, so a round trip of a record is the composition
of the round trips of its fields.
-/

/-- A reader of tokens `τ` that may fail with an `ε`. -/
abbrev Reader (ε τ : Type) (α : Type) := StateT (List τ) (Except ε) α

namespace Reader

variable {ε τ α β : Type}

/-- `r` turns `bs ++ rest` into `a` and leaves `rest`. -/
def Reads (r : Reader ε τ α) (bs : List τ) (a : α) (rest : List τ) : Prop :=
  r.run (bs ++ rest) = .ok (a, rest)

theorem run_bind_ok {r : Reader ε τ α} {f : α → Reader ε τ β} {s s' : List τ} {a : α}
    (h : r.run s = .ok (a, s')) : (r >>= f).run s = (f a).run s' := by
  rw [StateT.run_bind, h]; rfl

theorem run_bind_error {r : Reader ε τ α} {f : α → Reader ε τ β} {s : List τ} {e : ε}
    (h : r.run s = .error e) : (r >>= f).run s = .error e := by
  rw [StateT.run_bind, h]; rfl

/-- A computation that returned did so through its first part. -/
theorem of_run_bind_ok {r : Reader ε τ α} {f : α → Reader ε τ β} {s t : List τ} {b : β}
    (h : (r >>= f).run s = .ok (b, t)) : ∃ a s', r.run s = .ok (a, s') ∧ (f a).run s' = .ok (b, t) := by
  cases hr : r.run s with
  | error e => rw [run_bind_error hr] at h; cases h
  | ok p => exact ⟨p.1, p.2, rfl, by rw [run_bind_ok hr] at h; exact h⟩

theorem Reads.bind {r : Reader ε τ α} {f : α → Reader ε τ β} {bs cs rest : List τ} {a : α} {b : β}
    (h : Reads r bs a (cs ++ rest)) (hf : Reads (f a) cs b rest) : Reads (r >>= f) (bs ++ cs) b rest := by
  unfold Reads
  rw [List.append_assoc, run_bind_ok h]
  exact hf

theorem Reads.map {r : Reader ε τ α} {bs rest : List τ} {a : α} (g : α → β) (h : Reads r bs a rest) :
    Reads (r >>= fun x => pure (g x)) bs (g a) rest := by
  unfold Reads
  rw [run_bind_ok h]
  rfl

/-- Reading leaves no choice: what is read from a stream is a function of the stream. -/
theorem Reads.unique {r : Reader ε τ α} {bs rest rest' : List τ} {a b : α}
    (h : Reads r bs a rest) (h' : r.run (bs ++ rest) = .ok (b, rest')) : b = a ∧ rest' = rest := by
  rw [h] at h'
  cases h'
  exact ⟨rfl, rfl⟩

/-- What comes after the tokens that it consumes makes no difference to a reader that returns. -/
def Local (r : Reader ε τ α) : Prop := ∀ s a s' t, r.run s = .ok (a, s') → r.run (s ++ t) = .ok (a, s' ++ t)

theorem local_pure (a : α) : Local (pure a : Reader ε τ α) := by
  intro s b s' t h
  cases h
  rfl

theorem local_throw (e : ε) : Local (throw e : Reader ε τ α) := by
  intro s b s' t h
  cases h

theorem Local.bind {r : Reader ε τ α} {f : α → Reader ε τ β} (hr : Local r) (hf : ∀ a, Local (f a)) :
    Local (r >>= f) := by
  intro s b s' t h
  obtain ⟨a, u, ha, hb⟩ := of_run_bind_ok h
  rw [run_bind_ok (hr s a u t ha)]
  exact hf a u b s' t hb

/-- Before its last token has come, nothing is read. -/
theorem Reads.unfinished {r : Reader ε τ α} {bs p q : List τ} {a b : α} {s' : List τ} (hr : Local r)
    (h : Reads r bs a [])
    (hbs : p ++ q = bs) (hq : q ≠ []) : r.run p ≠ .ok (b, s') := by
  intro hp
  have hlong := hr p b s' q hp
  rw [hbs, ← List.append_nil bs] at hlong
  have hnil := (h.unique hlong).2
  exact hq (List.append_eq_nil_iff.1 hnil).2

/-- The counted loop: one element per index, in order. -/
def times (f : Nat → Reader ε τ α) : Nat → Nat → Reader ε τ (List α)
  | _, 0 => pure []
  | i, n + 1 => do
    let a ← f i
    let as ← times f (i + 1) n
    pure (a :: as)

/-- If the `k`-th body of the loop turns the `k`-th chunk into the `k`-th value, whatever follows,
the loop turns the concatenation into the list of values. -/
theorem reads_times {γ : Type} (f : Nat → Reader ε τ α) (enc : γ → List τ) (val : Nat → γ → α) :
    ∀ (xs : List γ) (i : Nat) (rest : List τ),
      (∀ k x, xs[k]? = some x → ∀ rest, Reads (f (i + k)) (enc x) (val (i + k) x) rest) →
      Reads (times f i xs.length) (xs.flatMap enc) (xs.mapIdx fun k x => val (i + k) x) rest
  | [], i, rest, _ => rfl
  | x :: xs, i, rest, h => by
    have h0 : Reads (f i) (enc x) (val i x) (xs.flatMap enc ++ rest) := h 0 x rfl _
    have ih := reads_times f enc val xs (i + 1) rest fun k y hy => by
      have := h (k + 1) y (by simpa using hy)
      simpa [Nat.add_assoc, Nat.add_comm 1 k] using this
    have hidx : (x :: xs).mapIdx (fun k y => val (i + k) y) =
        val i x :: xs.mapIdx (fun k y => val (i + 1 + k) y) := by
      simp [List.mapIdx_cons, Nat.add_assoc, Nat.add_comm 1]
    rw [hidx]
    simp only [List.length_cons, List.flatMap_cons, times]
    refine h0.bind ?_
    exact ih.map (val i x :: ·)

theorem local_times {f : Nat → Reader ε τ α} (h : ∀ i, Local (f i)) : ∀ n i, Local (times f i n)
  | 0, _ => local_pure _
  | n + 1, i => (h i).bind fun _ => (local_times h n (i + 1)).bind fun _ => local_pure _

end Reader
