import Mathlib.Data.Nat.ModEq
import SynnoDB.Ssd.BufferPoolInv

/-!
# Which frame CLOCK evicts (`buffer_pool.hpp:308-327`)

`evictLocked` of `BufferPool.lean` from any state: any number of frames, any hand, pins and reference bits.
The loop passes over frames until one is ready, that is unpinned with its bit clear; a frame it has passed over
and that is not pinned is ready from then on, so that the second sweep of the hand ends at the latest at the first
unpinned frame (`evictLocked_correct`).

A frame has a buffer of 2 MiB, so that `2 * n` is far below what an `int` holds.
-/

namespace SynnoDB.Ssd.BufferPool

variable {n : Nat} {Data : Type} {s : BufferPool n Data} {h i v : Fin n} {d e m : Nat}

/-! ## The frames in hand order -/

/-- The frame `d` places after `h`. -/
def ahead (h : Fin n) (d : Nat) : Fin n := next^[d] h

@[simp] theorem ahead_zero : ahead h 0 = h := rfl

theorem ahead_succ : ahead h (d + 1) = next (ahead h d) := Function.iterate_succ_apply' next d h

theorem ahead_val : (ahead h d).1 = (h.1 + d) % n := by
  induction d with
  | zero => exact (Nat.mod_eq_of_lt h.2).symm
  | succ d ih =>
    have hnext : (next (ahead h d)).1 = ((ahead h d).1 + 1) % n := rfl
    rw [ahead_succ, hnext, ih, Nat.mod_add_mod, Nat.add_assoc]

/-- Every frame is less than one turn away. -/
theorem exists_ahead (h i : Fin n) : ∃ d < n, ahead h d = i := by
  have hh := h.2
  have hi := i.2
  by_cases hle : h.1 ≤ i.1
  · refine ⟨i.1 - h.1, by omega, Fin.ext ?_⟩
    rw [ahead_val, Nat.add_sub_cancel' hle, Nat.mod_eq_of_lt hi]
  · refine ⟨i.1 + n - h.1, by omega, Fin.ext ?_⟩
    have hsum : h.1 + (i.1 + n - h.1) = i.1 + n := by omega
    rw [ahead_val, hsum, Nat.add_mod_right, Nat.mod_eq_of_lt hi]

theorem ahead_add_turn : ahead h (n + d) = ahead h d := by
  apply Fin.ext
  rw [ahead_val, ahead_val, Nat.add_left_comm, Nat.add_mod_left]

/-- In one turn no frame comes twice. -/
theorem ahead_inj (hd : d < n) (he : e < n) (heq : ahead h d = ahead h e) : d = e := by
  have hval := congrArg Fin.val heq
  rw [ahead_val, ahead_val] at hval
  have hmod : Nat.ModEq n d e := Nat.ModEq.add_left_cancel' h.1 hval
  exact hmod.eq_of_lt_of_lt hd he

/-! ## Passing over a frame -/

def Free (s : BufferPool n Data) (i : Fin n) : Prop := (s.frames i).pinCount = 0

/-- Unpinned, with its bit clear. -/
def Ready (s : BufferPool n Data) (i : Fin n) : Prop := Free s i ∧ (s.frames i).clockBit = false

/-- A turn of the loop that does not return. -/
def passOver (s : BufferPool n Data) : BufferPool n Data :=
  let f := s.frames s.clockHand
  if f.pinCount = 0 then { s.setFrame s.clockHand { f with clockBit := false } with clockHand := next s.clockHand }
  else { s with clockHand := next s.clockHand }

/-- The turn that returns the frame under the hand. -/
def take (s : BufferPool n Data) : BufferPool n Data :=
  { s with pageMap := s.evictedMap s.clockHand, clockHand := next s.clockHand }

theorem evictLoop_ready (hr : Ready s s.clockHand) : evictLoop (m + 1) s = (s.take, some s.clockHand) := by
  obtain ⟨hfree, hbit⟩ := hr
  have hpin : (s.frames s.clockHand).pinCount = 0 := hfree
  simp only [evictLoop, hpin, hbit, ↓reduceIte, Bool.false_eq_true]
  rfl

theorem evictLoop_passOver (hr : ¬ Ready s s.clockHand) : evictLoop (m + 1) s = evictLoop m s.passOver := by
  unfold passOver
  by_cases hpin : (s.frames s.clockHand).pinCount = 0
  · have hbit : (s.frames s.clockHand).clockBit = true := by
      by_contra hclear
      exact hr ⟨hpin, Bool.eq_false_iff.mpr hclear⟩
    simp only [evictLoop, hpin, hbit, ↓reduceIte]
  · simp only [evictLoop, hpin, ↓reduceIte]

/-- The state after `d` turns that do not return. -/
def passed (s : BufferPool n Data) (d : Nat) : BufferPool n Data := passOver^[d] s

theorem passed_succ : s.passed (d + 1) = (s.passed d).passOver := Function.iterate_succ_apply' passOver d s

/-- The loop returns at the first frame that is ready when the hand is there, if that comes soon enough. -/
theorem evictLoop_cases (s : BufferPool n Data) (m : Nat) :
    ((∀ d < m, ¬ Ready (s.passed d) (s.passed d).clockHand) ∧ evictLoop m s = (s.passed m, none)) ∨
    ∃ d < m, (∀ e < d, ¬ Ready (s.passed e) (s.passed e).clockHand) ∧
      Ready (s.passed d) (s.passed d).clockHand ∧
      evictLoop m s = ((s.passed d).take, some (s.passed d).clockHand) := by
  induction m generalizing s with
  | zero => exact .inl ⟨fun d hd => absurd hd (Nat.not_lt_zero d), rfl⟩
  | succ m ih =>
    by_cases hr : Ready s s.clockHand
    · exact .inr ⟨0, Nat.succ_pos m, fun e he => absurd he (Nat.not_lt_zero e), hr, evictLoop_ready hr⟩
    · rw [evictLoop_passOver hr]
      -- the turns of `s.passOver` are those of `s` from the second on
      have hshift : ∀ p : Nat → Prop, p 0 → ∀ d, (∀ e < d, p (e + 1)) → ∀ e < d + 1, p e := by
        intro p h0 d hp e he
        cases e with
        | zero => exact h0
        | succ e => exact hp e (Nat.lt_of_succ_lt_succ he)
      rcases ih s.passOver with ⟨hnone, heq⟩ | ⟨d, hd, hnone, hready, heq⟩
      · exact .inl ⟨hshift (fun d => ¬ Ready (s.passed d) (s.passed d).clockHand) hr m hnone, heq⟩
      · exact .inr ⟨d + 1, Nat.succ_lt_succ hd,
          hshift (fun d => ¬ Ready (s.passed d) (s.passed d).clockHand) hr d hnone, hready, heq⟩

theorem passOver_hand : s.passOver.clockHand = next s.clockHand := by
  by_cases hpin : (s.frames s.clockHand).pinCount = 0
  · simp only [passOver, hpin, ↓reduceIte]
  · simp only [passOver, hpin, ↓reduceIte]

theorem passOver_map : s.passOver.pageMap = s.pageMap := by
  by_cases hpin : (s.frames s.clockHand).pinCount = 0
  · simp only [passOver, hpin, ↓reduceIte, setFrame]
  · simp only [passOver, hpin, ↓reduceIte]

theorem passOver_frames : (i = s.clockHand ∧ Free s i → s.passOver.frames i = { s.frames i with clockBit := false }) ∧
    (¬ (i = s.clockHand ∧ Free s i) → s.passOver.frames i = s.frames i) := by
  by_cases hpin : (s.frames s.clockHand).pinCount = 0
  · simp only [passOver, hpin, ↓reduceIte, setFrame]
    refine ⟨?_, fun hnot => ?_⟩
    · rintro ⟨rfl, -⟩
      rw [Function.update_self, hpin]
    · have hi : i ≠ s.clockHand := fun hi => hnot ⟨hi, by rw [hi]; exact hpin⟩
      rw [Function.update_of_ne hi]
  · simp only [passOver, hpin, ↓reduceIte]
    refine ⟨?_, fun _ => trivial⟩
    rintro ⟨rfl, hfree⟩
    exact absurd hfree hpin

theorem passed_hand : (s.passed d).clockHand = ahead s.clockHand d := by
  induction d with
  | zero => rfl
  | succ d ih => rw [passed_succ, passOver_hand, ih, ahead_succ]

theorem passed_map : (s.passed d).pageMap = s.pageMap := by
  induction d with
  | zero => rfl
  | succ d ih => rw [passed_succ, passOver_map, ih]

/-- The frames that were passed over and are not pinned have lost their bits; nothing else has changed. -/
theorem passed_frames : ((∃ e < d, ahead s.clockHand e = i) ∧ Free s i →
      (s.passed d).frames i = { s.frames i with clockBit := false }) ∧
    (¬ ((∃ e < d, ahead s.clockHand e = i) ∧ Free s i) → (s.passed d).frames i = s.frames i) := by
  induction d with
  | zero => exact ⟨fun ⟨⟨e, he, _⟩, _⟩ => absurd he (Nat.not_lt_zero e), fun _ => rfl⟩
  | succ d ih =>
    have hfree : Free (s.passed d) i ↔ Free s i := by
      unfold Free
      by_cases hpast : (∃ e < d, ahead s.clockHand e = i) ∧ Free s i
      · rw [ih.1 hpast]
      · rw [ih.2 hpast]
    have hstep := passOver_frames (s := s.passed d) (i := i)
    rw [passed_hand, hfree] at hstep
    rw [passed_succ]
    by_cases hnow : i = ahead s.clockHand d ∧ Free s i
    · rw [hstep.1 hnow]
      refine ⟨fun _ => ?_, fun hnot => absurd ⟨⟨d, Nat.lt_succ_self d, hnow.1.symm⟩, hnow.2⟩ hnot⟩
      by_cases hpast : (∃ e < d, ahead s.clockHand e = i) ∧ Free s i
      · rw [ih.1 hpast]
      · rw [ih.2 hpast]
    · rw [hstep.2 hnow]
      refine ⟨fun ⟨⟨e, he, hei⟩, hf⟩ => ?_, fun hnot => ih.2 fun ⟨⟨e, he, hei⟩, hf⟩ => ?_⟩
      · have hne : e ≠ d := fun hed => hnow ⟨by rw [← hei, hed], hf⟩
        exact ih.1 ⟨⟨e, by omega, hei⟩, hf⟩
      · exact hnot ⟨⟨e, by omega, hei⟩, hf⟩

/-- The frame under the hand is ready if its bit was clear or the hand has been there. -/
theorem ready_passed : Ready (s.passed d) (s.passed d).clockHand ↔
    Free s (ahead s.clockHand d) ∧
      ((s.frames (ahead s.clockHand d)).clockBit = false ∨ ∃ e < d, ahead s.clockHand e = ahead s.clockHand d) := by
  rw [passed_hand]
  unfold Ready Free
  by_cases hpast : (∃ e < d, ahead s.clockHand e = ahead s.clockHand d) ∧ Free s (ahead s.clockHand d)
  · rw [passed_frames.1 hpast]
    exact ⟨fun h => ⟨h.1, .inr hpast.1⟩, fun h => ⟨h.1, rfl⟩⟩
  · rw [passed_frames.2 hpast]
    refine ⟨fun h => ⟨h.1, .inl h.2⟩, fun h => ⟨h.1, ?_⟩⟩
    rcases h.2 with hclear | he
    · exact hclear
    · exact absurd ⟨he, h.1⟩ hpast

/-! ## The victim -/

/-- The first of `p` in hand order. -/
def FirstAhead (h : Fin n) (p : Fin n → Prop) (v : Fin n) : Prop :=
  p v ∧ ∃ d < n, ahead h d = v ∧ ∀ e < d, ¬ p (ahead h e)

/-- The first frame that is unpinned with its bit clear; if there is none, the first that is unpinned. -/
def Victim (s : BufferPool n Data) (v : Fin n) : Prop :=
  FirstAhead s.clockHand (Ready s) v ∨ (∀ i, ¬ Ready s i) ∧ FirstAhead s.clockHand (Free s) v

/-- In the first turn the bits that the hand has cleared are behind it. -/
theorem ready_first_turn (hd : d < n) :
    Ready (s.passed d) (s.passed d).clockHand ↔ Ready s (ahead s.clockHand d) := by
  rw [ready_passed]
  refine ⟨fun ⟨hfree, hbit⟩ => ⟨hfree, hbit.resolve_right ?_⟩, fun ⟨hfree, hbit⟩ => ⟨hfree, .inl hbit⟩⟩
  rintro ⟨e, he, heq⟩
  have hed := ahead_inj (Nat.lt_trans he hd) hd heq
  omega

/-- In the second turn every unpinned frame is ready. -/
theorem ready_second_turn : Ready (s.passed (n + d)) (s.passed (n + d)).clockHand ↔ Free s (ahead s.clockHand d) := by
  have hn : 0 < n := Fin.pos s.clockHand
  rw [ready_passed, ahead_add_turn]
  exact ⟨fun h => h.1, fun hfree => ⟨hfree, .inr ⟨d, by omega, rfl⟩⟩⟩

/-- Where the loop returns in its two turns. -/
theorem victim_of_first (hd : d < 2 * n) (hready : Ready (s.passed d) (s.passed d).clockHand)
    (hnone : ∀ e < d, ¬ Ready (s.passed e) (s.passed e).clockHand) :
    Victim s (s.passed d).clockHand := by
  unfold Victim
  rw [passed_hand]
  by_cases hturn : d < n
  · have hr := (ready_first_turn hturn).mp hready
    exact .inl ⟨hr, d, hturn, rfl, fun e he hre => hnone e he ((ready_first_turn (Nat.lt_trans he hturn)).mpr hre)⟩
  · obtain ⟨k, rfl⟩ : ∃ k, d = n + k := ⟨d - n, by omega⟩
    have hfree := ready_second_turn.mp hready
    have hno : ∀ i, ¬ Ready s i := by
      intro i hi
      obtain ⟨e, he, rfl⟩ := exists_ahead s.clockHand i
      exact hnone e (by omega) ((ready_first_turn he).mpr hi)
    rw [ahead_add_turn]
    exact .inr ⟨hno, hfree, k, by omega, rfl, fun e he hfe => hnone (n + e) (by omega) (ready_second_turn.mpr hfe)⟩

/-- **`evict_locked` returns a frame exactly if one is unpinned**: the one that CLOCK prefers. It takes no more out
of the map than the entry of that frame, changes nothing of a pinned frame, and of the others at most the bit. -/
theorem evictLocked_correct (s : BufferPool n Data) :
    (s.evictLocked.2 = none ↔ ∀ i, ¬ Free s i) ∧
    (∀ v, s.evictLocked.2 = some v → Free s v ∧ Victim s v ∧ s.evictLocked.1.pageMap = s.evictedMap v) ∧
    (s.evictLocked.2 = none → s.evictLocked.1.pageMap = s.pageMap) ∧
    (∀ i, ¬ Free s i → s.evictLocked.1.frames i = s.frames i) ∧
    ∀ i, s.evictLocked.1.frames i = s.frames i ∨ s.evictLocked.1.frames i = { s.frames i with clockBit := false } := by
  have hframes : ∀ d i, (s.passed d).frames i = s.frames i ∨
      Free s i ∧ (s.passed d).frames i = { s.frames i with clockBit := false } := by
    intro d i
    by_cases hpast : (∃ e < d, ahead s.clockHand e = i) ∧ Free s i
    · exact .inr ⟨hpast.2, passed_frames.1 hpast⟩
    · exact .inl (passed_frames.2 hpast)
  unfold evictLocked
  rcases evictLoop_cases s (2 * n) with ⟨hnone, heq⟩ | ⟨d, hd, hnone, hready, heq⟩
  · have hpinned : ∀ i, ¬ Free s i := by
      intro i hfree
      obtain ⟨e, he, rfl⟩ := exists_ahead s.clockHand i
      exact hnone (n + e) (by omega) (ready_second_turn.mpr hfree)
    rw [heq]
    refine ⟨⟨fun _ => hpinned, fun _ => rfl⟩, fun v hv => (nomatch hv), fun _ => passed_map, fun i hi => ?_, fun i => ?_⟩
    · exact (hframes (2 * n) i).resolve_right fun h => hi h.1
    · exact (hframes (2 * n) i).imp_right And.right
  · have hfree : Free s (s.passed d).clockHand := by
      rw [passed_hand]
      exact (ready_passed.mp hready).1
    have hmap : (s.passed d).take.pageMap = s.evictedMap (s.passed d).clockHand := by
      unfold take evictedMap
      rcases hframes d (s.passed d).clockHand with hsame | ⟨-, hcleared⟩
      · simp only [hsame, passed_map]
      · simp only [hcleared, passed_map]
    rw [heq]
    refine ⟨⟨fun h => (nomatch h), fun h => absurd hfree (h _)⟩, fun v hv => ?_, fun h => (nomatch h), fun i hi => ?_,
      fun i => ?_⟩
    · obtain rfl := Option.some.inj hv
      exact ⟨hfree, victim_of_first hd hready hnone, hmap⟩
    · exact (hframes d i).resolve_right fun h => hi h.1
    · exact (hframes d i).imp_right And.right

end SynnoDB.Ssd.BufferPool
