import Mathlib.Data.List.Perm.Basic
import SynnoDB.Ssd.BufferPool

/-!
# The buffer pool hands out the page that was asked for

`Inv` is what every step keeps, with one exception: a failing read clears its frame and sets
`pin_count = 0` (`buffer_pool.hpp:150-155`) also when other threads have joined the read, i.e. when the
frame's pin count is above the one pin of the reader. The joined threads still return the frame's
buffer: `joined_failed_read`. Away from such a step (`SoleReader`) `PagesCorrect` holds in every state of
every run (`pages_correct`).
-/

namespace SynnoDB.Ssd

variable {Data : Type} {n : Nat}

theorem Carries.unique {f : Frame Data} {k k' : PageKey} (h : Carries f k) (h' : Carries f k') : k = k' :=
  h.2.trans h'.2.symm

namespace BufferPool

variable {page : PageKey → Data} {s s' : BufferPool n Data}

/-! ## What a correct pool is -/

/-- (a) map and frames agree and the pin counts are the outstanding pins; (b) a returned pin's frame
carries its page, completely read. -/
structure PagesCorrect (page : PageKey → Data) (s : BufferPool n Data) : Prop where
  bijection : ∀ k i, s.pageMap k = some i ↔ Carries (s.frames i) k
  pinned : ∀ k i, Carries (s.frames i) k → (s.frames i).pinCount = s.calls.countP (·.key = k)
  returned : ∀ c ∈ s.calls, c.phase = .holding → Carries (s.frames c.frame) c.key ∧
    (s.frames c.frame).loading = false ∧ (s.frames c.frame).data = page c.key ∧
    ∃ col, s.colOf c.key = .ok col ∧ c.bytes = pageBytes col c.key

/-- Call `c` is reading into frame `i`. -/
def reads (i : Fin n) (c : Call n) : Bool := c.frame = i ∧ c.phase = .loading

@[simp] theorem reads_iff {i : Fin n} {c : Call n} : reads i c = true ↔ c.frame = i ∧ c.phase = .loading := by
  simp [reads]

structure Inv (page : PageKey → Data) (s : BufferPool n Data) : Prop where
  map : ∀ k i, s.pageMap k = some i ↔ Carries (s.frames i) k
  pins : ∀ i, (s.frames i).pinCount = s.calls.countP (·.frame = i)
  /-- At most one thread reads into a frame, exactly one while `loading` is set. -/
  reader : ∀ i, s.calls.countP (reads i) = if (s.frames i).loading then 1 else 0
  call : ∀ c ∈ s.calls, Carries (s.frames c.frame) c.key
  held : ∀ c ∈ s.calls, c.phase = .holding → (s.frames c.frame).loading = false
  full : ∀ i k, Carries (s.frames i) k → (s.frames i).loading = false → (s.frames i).data = page k
  bytes : ∀ c ∈ s.calls, ∃ col, s.colOf c.key = .ok col ∧ c.bytes = pageBytes col c.key

theorem Inv.frame_eq_iff (h : Inv page s) {i : Fin n} {k : PageKey} (hk : Carries (s.frames i) k) {c : Call n}
    (hc : c ∈ s.calls) : c.key = k ↔ c.frame = i := by
  constructor
  · rintro rfl
    have h1 := (h.map _ _).2 (h.call c hc)
    have h2 := (h.map _ _).2 hk
    rw [h1] at h2
    exact Option.some.inj h2
  · rintro rfl
    exact (h.call c hc).unique hk

theorem Inv.pagesCorrect (h : Inv page s) : PagesCorrect page s where
  bijection := h.map
  pinned k i hk := by
    rw [h.pins]
    exact List.countP_congr fun c hc => by simp [h.frame_eq_iff hk hc]
  returned c hc hp := ⟨h.call c hc, h.held c hc hp, h.full _ _ (h.call c hc) (h.held c hc hp), h.bytes c hc⟩

theorem inv_init (hn : 0 < n) (cols : List ColInfo) (blank : Data) : Inv page (init hn cols blank) where
  map k i := by simp [init, Carries]
  pins i := by simp [init]
  reader i := by simp [init]
  call c hc := by simp [init] at hc
  held c hc := by simp [init] at hc
  full i k hk := by simp [init, Carries] at hk
  bytes c hc := by simp [init] at hc

/-! ## Counting calls -/

theorem countP_erase (p : Call n → Bool) {l : List (Call n)} {c : Call n} (hc : c ∈ l) :
    l.countP p = (l.erase c).countP p + if p c then 1 else 0 := by
  rw [(List.perm_cons_erase hc).countP_eq p, List.countP_cons]

theorem countP_erase_of_pos {p : Call n → Bool} {l : List (Call n)} {c : Call n} (hc : c ∈ l) (hp : p c) :
    l.countP p = (l.erase c).countP p + 1 := by
  rw [countP_erase p hc, if_pos hp]

theorem countP_erase_of_neg {p : Call n → Bool} {l : List (Call n)} {c : Call n} (hc : c ∈ l) (hp : ¬ p c) :
    l.countP p = (l.erase c).countP p := by
  rw [countP_erase p hc, if_neg hp, Nat.add_zero]

/-- A frame with one pin has no other call on it. -/
theorem Inv.sole_pin (h : Inv page s) {c d : Call n} (hc : c ∈ s.calls) (h1 : (s.frames c.frame).pinCount = 1)
    (hd : d ∈ s.calls.erase c) : d.frame ≠ c.frame := by
  intro he
  have hcount := countP_erase_of_pos (p := fun d => d.frame = c.frame) hc (by simp)
  rw [← h.pins, h1] at hcount
  have hpos : 0 < (s.calls.erase c).countP (·.frame = c.frame) := List.countP_pos_iff.2 ⟨d, hd, by simpa using he⟩
  omega

/-- A frame with no pin has no call on it. -/
theorem Inv.no_pin (h : Inv page s) {i : Fin n} (h0 : (s.frames i).pinCount = 0) {c : Call n} (hc : c ∈ s.calls) :
    c.frame ≠ i := by
  rw [h.pins, List.countP_eq_zero] at h0
  simpa using h0 c hc

/-! ## The CLOCK hand only moves and clears reference bits -/

/-- Same columns, calls and frames, reference bits aside. -/
structure SameButClock (s s' : BufferPool n Data) : Prop where
  cols : s'.cols = s.cols
  calls : s'.calls = s.calls
  frames : ∀ i, s'.frames i = { s.frames i with clockBit := (s'.frames i).clockBit }

/-- What `evict_locked` leaves in the map when it returns frame `v`. -/
def evictedMap (s : BufferPool n Data) (v : Fin n) : PageKey → Option (Fin n) :=
  if 0 ≤ (s.frames v).colId then Function.update s.pageMap ⟨(s.frames v).colId, (s.frames v).pageIdx⟩ none
  else s.pageMap

theorem SameButClock.refl (s : BufferPool n Data) : SameButClock s s := ⟨rfl, rfl, fun _ => rfl⟩

theorem SameButClock.trans {t : BufferPool n Data} (h : SameButClock s t) (h' : SameButClock t s') :
    SameButClock s s' where
  cols := h'.cols.trans h.cols
  calls := h'.calls.trans h.calls
  frames i := by rw [h'.frames i, h.frames i]

theorem evictLoop_spec (m : Nat) : ∀ s : BufferPool n Data,
    SameButClock s (evictLoop m s).1 ∧
    ((evictLoop m s).2 = none → (evictLoop m s).1.pageMap = s.pageMap) ∧
    (∀ v, (evictLoop m s).2 = some v →
      (s.frames v).pinCount = 0 ∧ (evictLoop m s).1.pageMap = s.evictedMap v) := by
  induction m with
  | zero => intro s; exact ⟨.refl s, fun _ => rfl, fun v hv => by cases hv⟩
  | succ m ih =>
    intro s
    -- a step that evicts nothing changes at most the reference bit under the hand
    have skip : ∀ t : BufferPool n Data, SameButClock s t → t.pageMap = s.pageMap →
        SameButClock s (evictLoop m t).1 ∧
        ((evictLoop m t).2 = none → (evictLoop m t).1.pageMap = s.pageMap) ∧
        (∀ v, (evictLoop m t).2 = some v →
          (s.frames v).pinCount = 0 ∧ (evictLoop m t).1.pageMap = s.evictedMap v) := by
      intro t ht hm
      obtain ⟨h1, h2, h3⟩ := ih t
      refine ⟨ht.trans h1, fun hn => (h2 hn).trans hm, fun v hv => ?_⟩
      obtain ⟨hp, hmap⟩ := h3 v hv
      rw [ht.frames v] at hp
      refine ⟨hp, hmap.trans ?_⟩
      unfold evictedMap
      rw [ht.frames v, hm]
    unfold evictLoop
    by_cases hpin : (s.frames s.clockHand).pinCount = 0
    · by_cases hbit : (s.frames s.clockHand).clockBit
      · simp only [hpin, hbit, ↓reduceIte]
        refine skip _ ⟨rfl, rfl, fun i => ?_⟩ rfl
        by_cases hi : i = s.clockHand
        · subst hi; simp [setFrame, hpin]
        · simp [setFrame, Function.update_of_ne hi]
      · simp only [hpin, hbit, ↓reduceIte, Bool.false_eq_true]
        refine ⟨⟨rfl, rfl, fun _ => rfl⟩, fun hn => (by cases hn), fun v hv => ?_⟩
        cases hv
        exact ⟨hpin, rfl⟩
    · simp only [hpin, ↓reduceIte]
      exact skip _ ⟨rfl, rfl, fun _ => rfl⟩ rfl

theorem Inv.evictedMap_eq (h : Inv page s) (v i : Fin n) (k : PageKey) :
    s.evictedMap v k = some i ↔ s.pageMap k = some i ∧ i ≠ v := by
  unfold evictedMap
  by_cases hv : 0 ≤ (s.frames v).colId
  · rw [if_pos hv]
    have hmap := (h.map ⟨(s.frames v).colId, (s.frames v).pageIdx⟩ v).2 ⟨hv, rfl⟩
    by_cases hk : k = ⟨(s.frames v).colId, (s.frames v).pageIdx⟩
    · subst hk
      simp only [Function.update_self, hmap, Option.some.injEq, reduceCtorEq, false_iff, not_and, not_not]
      exact fun he => he.symm
    · rw [Function.update_of_ne hk]
      refine ⟨fun hm => ⟨hm, ?_⟩, And.left⟩
      rintro rfl
      exact hk ((h.map _ _).1 hm).2
  · rw [if_neg hv]
    refine ⟨fun hm => ⟨hm, ?_⟩, And.left⟩
    rintro rfl
    exact hv ((h.map _ _).1 hm).1

/-! ## Each step keeps the invariant -/

theorem colOf_nonneg {k : PageKey} {c : ColInfo} (h : s.colOf k = .ok c) : 0 ≤ k.colId := by
  unfold colOf at h
  split at h
  · cases h
  · omega

theorem SameButClock.inv (h : SameButClock s s') (hm : s'.pageMap = s.pageMap) (hi : Inv page s) : Inv page s' where
  map k i := by rw [hm, h.frames i]; exact hi.map k i
  pins i := by rw [h.frames i, h.calls]; exact hi.pins i
  reader i := by rw [h.frames i, h.calls]; exact hi.reader i
  call c hc := by rw [h.frames]; exact hi.call c (h.calls ▸ hc)
  held c hc hp := by rw [h.frames]; exact hi.held c (h.calls ▸ hc) hp
  full i k hk hl := by rw [h.frames] at hk hl ⊢; exact hi.full i k hk hl
  bytes c hc := by
    unfold colOf
    rw [h.cols]
    exact hi.bytes c (h.calls ▸ hc)

theorem inv_hit (h : Inv page s) {t : Nat} {k : PageKey} {col : ColInfo} {i : Fin n} (hcol : s.colOf k = .ok col)
    (hm : s.pageMap k = some i) : Inv page (s.pinPage t k).1 := by
  simp only [pinPage, hcol, hm]
  have hk := (h.map _ _).1 hm
  refine ⟨fun k' j => ?_, fun j => ?_, fun j => ?_, fun c hc => ?_, fun c hc hp => ?_, fun j k' hk' hl => ?_,
    fun c hc => ?_⟩
  · by_cases hj : j = i
    · subst hj; simpa [setFrame, Carries] using h.map k' j
    · simpa [setFrame, Function.update_of_ne hj] using h.map k' j
  · by_cases hj : j = i
    · subst hj; simp [setFrame, h.pins]
    · simp [setFrame, Function.update_of_ne hj, h.pins, Ne.symm hj]
  · have hnew : (s.frames i).loading = true → i = j → (s.frames i).loading = false → False := by
      intro h1 _ h2; rw [h1] at h2; cases h2
    have hphase : (if (s.frames i).loading = true then Phase.waiting else Phase.holding) ≠ Phase.loading := by
      split <;> simp
    rw [List.countP_cons_of_neg (by simp [hphase])]
    by_cases hj : j = i
    · subst hj; simpa [setFrame] using h.reader j
    · simpa [setFrame, Function.update_of_ne hj] using h.reader j
  · simp only [setFrame, List.mem_cons] at hc ⊢
    rcases hc with rfl | hc
    · simpa [Carries] using hk
    · by_cases hj : c.frame = i
      · have := h.call c hc
        rw [hj] at this ⊢
        simpa [Carries] using this
      · simpa [Function.update_of_ne hj] using h.call c hc
  · simp only [setFrame, List.mem_cons] at hc ⊢
    rcases hc with rfl | hc
    · simp only at hp
      simp only [Function.update_self]
      by_contra hl
      simp [hl] at hp
    · by_cases hj : c.frame = i
      · have := h.held c hc hp
        rw [hj] at this ⊢
        simpa using this
      · simpa [Function.update_of_ne hj] using h.held c hc hp
  · by_cases hj : j = i
    · subst hj
      simp only [setFrame, Function.update_self] at hl ⊢
      exact h.full j k' (by simpa [setFrame, Carries] using hk') hl
    · simp only [setFrame, Function.update_of_ne hj] at hk' hl ⊢
      exact h.full j k' hk' hl
  · simp only [setFrame, List.mem_cons] at hc
    rcases hc with rfl | hc
    · exact ⟨col, hcol, rfl⟩
    · exact h.bytes c hc

/-- A page that is not mapped may take an unpinned frame over. -/
theorem inv_claim (h : Inv page s) (hs : SameButClock s s') {t : Nat} {k : PageKey} {v : Fin n} {col : ColInfo}
    (hmap : s'.pageMap = s.evictedMap v) (h0 : (s.frames v).pinCount = 0) (hcol : s.colOf k = .ok col)
    (hm : s.pageMap k = none) : Inv page (s'.claim t k v (pageBytes col k)) := by
  have hfree : ∀ c ∈ s.calls, c.frame ≠ v := fun c hc => h.no_pin h0 hc
  have hother : ∀ {i}, i ≠ v → (s'.claim t k v (pageBytes col k)).frames i = s'.frames i := fun hi => by
    simp [claim, setFrame, Function.update_of_ne hi]
  have hvictim : Carries ((s'.claim t k v (pageBytes col k)).frames v) k := by
    simpa [claim, setFrame, Carries] using colOf_nonneg hcol
  refine ⟨fun k' i => ?_, fun i => ?_, fun i => ?_, fun c hc => ?_, fun c hc hp => ?_, fun i k' hk' hl => ?_,
    fun c hc => ?_⟩
  · by_cases hk : k' = k
    · subst hk
      by_cases hi : i = v
      · subst hi; simpa [claim] using hvictim
      · rw [hother hi, hs.frames i]
        have := h.map k' i
        rw [hm] at this
        simpa [claim, Ne.symm hi, Carries] using this
    · simp only [claim, Function.update_of_ne hk, hmap, h.evictedMap_eq, h.map]
      by_cases hi : i = v
      · subst hi
        simp only [ne_eq, not_true_eq_false, and_false, false_iff]
        exact fun hc => hk (hc.unique hvictim)
      · have := hother hi
        simp only [claim] at this
        rw [this, hs.frames i]
        simp [hi, Carries]
  · by_cases hi : i = v
    · subst hi
      have : s'.calls.countP (·.frame = i) = 0 := by
        rw [hs.calls, ← h.pins, h0]
      simp [claim, setFrame, this]
    · rw [hother hi, hs.frames i]
      simp [claim, hs.calls, Ne.symm hi, h.pins]
  · by_cases hi : i = v
    · subst hi
      have : s'.calls.countP (reads i) = 0 := by
        rw [hs.calls, List.countP_eq_zero]
        exact fun c hc => by simp [hfree c hc]
      simp [claim, setFrame, this]
    · rw [hother hi, hs.frames i]
      simp [claim, hs.calls, Ne.symm hi, h.reader]
  · rcases List.mem_cons.1 hc with rfl | hc
    · exact hvictim
    · rw [hs.calls] at hc
      rw [hother (hfree c hc), hs.frames]
      exact h.call c hc
  · rcases List.mem_cons.1 hc with rfl | hc
    · cases hp
    · rw [hs.calls] at hc
      rw [hother (hfree c hc), hs.frames]
      exact h.held c hc hp
  · by_cases hi : i = v
    · subst hi; simp [claim, setFrame] at hl
    · rw [hother hi, hs.frames i] at hk' hl ⊢
      exact h.full i k' hk' hl
  · have hcols : (s'.claim t k v (pageBytes col k)).colOf c.key = s.colOf c.key := by
      simp only [colOf, claim, setFrame, hs.cols]
    rw [hcols]
    rcases List.mem_cons.1 hc with rfl | hc
    · exact ⟨col, hcol, rfl⟩
    · exact h.bytes c (hs.calls ▸ hc)

theorem inv_pinPage (h : Inv page s) (t : Nat) (k : PageKey) : Inv page (s.pinPage t k).1 := by
  cases hcol : s.colOf k with
  | error e => simpa only [pinPage, hcol] using h
  | ok col => cases hm : s.pageMap k with
    | some i => exact inv_hit h hcol hm
    | none =>
      obtain ⟨hclock, hnone, hsome⟩ := evictLoop_spec (2 * n) s
      simp only [pinPage, hcol, hm, evictLocked]
      rcases hr : evictLoop (2 * n) s with ⟨s', _ | v⟩ <;> rw [hr] at hclock hnone hsome
      · exact hclock.inv (hnone rfl) h
      · exact inv_claim h hclock (hsome v rfl).2 (hsome v rfl).1 hcol hm

/-- A joined call returns once the frame is no longer loading. -/
theorem inv_wake (h : Inv page s) {c : Call n} (hc : c ∈ s.calls) (hp : c.phase = .waiting)
    (hl : (s.frames c.frame).loading = false) : Inv page (s.advance c .holding) where
  map := h.map
  pins i := by
    have hcount := h.pins i
    rw [countP_erase _ hc] at hcount
    simpa [advance, List.countP_cons] using hcount
  reader i := by
    have hcount := h.reader i
    rw [countP_erase_of_neg hc (by simp [hp])] at hcount
    exact (List.countP_cons_of_neg (by simp)).trans hcount
  call d hd := by
    rcases List.mem_cons.1 hd with rfl | hd
    · exact h.call c hc
    · exact h.call d (List.mem_of_mem_erase hd)
  held d hd hq := by
    rcases List.mem_cons.1 hd with rfl | hd
    · exact hl
    · exact h.held d (List.mem_of_mem_erase hd) hq
  full := h.full
  bytes d hd := by
    rcases List.mem_cons.1 hd with rfl | hd
    · exact h.bytes c hc
    · exact h.bytes d (List.mem_of_mem_erase hd)

theorem Inv.loading_of_reader (h : Inv page s) {c : Call n} (hc : c ∈ s.calls) (hp : c.phase = .loading) :
    (s.frames c.frame).loading = true := by
  by_contra hl
  have hcount := h.reader c.frame
  rw [if_neg hl, List.countP_eq_zero] at hcount
  simpa [hp] using hcount c hc

/-- No second thread reads into the reader's frame. -/
theorem Inv.no_other_reader (h : Inv page s) {c : Call n} (hc : c ∈ s.calls) (hp : c.phase = .loading) :
    (s.calls.erase c).countP (reads c.frame) = 0 := by
  have hcount := h.reader c.frame
  rw [if_pos (h.loading_of_reader hc hp), countP_erase_of_pos hc (by simp [hp])] at hcount
  omega

theorem inv_readOk (h : Inv page s) {c : Call n} (hc : c ∈ s.calls) (hp : c.phase = .loading) :
    Inv page (s.readOk page c) := by
  have hother : ∀ {i}, i ≠ c.frame → (s.readOk page c).frames i = s.frames i := fun hi => by
    simp [readOk, advance, setFrame, Function.update_of_ne hi]
  have hself : (s.readOk page c).frames c.frame = { s.frames c.frame with data := page c.key, loading := false } := by
    simp [readOk, advance, setFrame]
  have hkey : ∀ i k, Carries ((s.readOk page c).frames i) k ↔ Carries (s.frames i) k := fun i k => by
    by_cases hi : i = c.frame
    · subst hi; rw [hself]; rfl
    · rw [hother hi]
  refine ⟨fun k i => ?_, fun i => ?_, fun i => ?_, fun d hd => ?_, fun d hd hq => ?_, fun i k hk hl => ?_,
    fun d hd => ?_⟩
  · rw [hkey]; exact h.map k i
  · have hcount := h.pins i
    rw [countP_erase _ hc] at hcount
    by_cases hi : i = c.frame
    · subst hi; simpa [readOk, advance, setFrame, List.countP_cons] using hcount
    · rw [hother hi]; simpa [readOk, advance, setFrame, List.countP_cons] using hcount
  · by_cases hi : i = c.frame
    · subst hi; simpa [readOk, advance, setFrame] using h.no_other_reader hc hp
    · have hcount := h.reader i
      rw [countP_erase_of_neg hc (by simp [Ne.symm hi])] at hcount
      rw [hother hi]
      simpa [readOk, advance, setFrame] using hcount
  · rw [hkey]
    rcases List.mem_cons.1 hd with rfl | hd
    · exact h.call c hc
    · exact h.call d (List.mem_of_mem_erase hd)
  · by_cases hi : d.frame = c.frame
    · rw [hi, hself]
    · rw [hother hi]
      rcases List.mem_cons.1 hd with rfl | hd
      · exact absurd rfl hi
      · exact h.held d (List.mem_of_mem_erase hd) hq
  · rw [hkey] at hk
    by_cases hi : i = c.frame
    · subst hi
      rw [hself]
      exact congrArg page ((h.call c hc).unique hk)
    · rw [hother hi] at hl ⊢
      exact h.full i k hk hl
  · rcases List.mem_cons.1 hd with rfl | hd
    · exact h.bytes c hc
    · exact h.bytes d (List.mem_of_mem_erase hd)

/-- The cleared frame is clean again: nobody else was on it. -/
theorem inv_readFail (h : Inv page s) {c : Call n} (hc : c ∈ s.calls) (hp : c.phase = .loading)
    (h1 : (s.frames c.frame).pinCount = 1) (junk : Data) : Inv page (s.readFail c junk) := by
  have hother : ∀ {i}, i ≠ c.frame → (s.readFail c junk).frames i = s.frames i := fun hi => by
    simp [readFail, setFrame, Function.update_of_ne hi]
  have hself : (s.readFail c junk).frames c.frame = { data := junk } := by simp [readFail, setFrame]
  have hne : ∀ d ∈ s.calls.erase c, d.frame ≠ c.frame := fun d hd => h.sole_pin hc h1 hd
  refine ⟨fun k i => ?_, fun i => ?_, fun i => ?_, fun d hd => ?_, fun d hd hq => ?_, fun i k hk hl => ?_,
    fun d hd => ?_⟩
  · by_cases hk : k = c.key
    · subst hk
      have hmap := (h.map _ _).2 (h.call c hc)
      by_cases hi : i = c.frame
      · subst hi; rw [hself]; simp [readFail, Carries]
      · rw [hother hi]
        have := h.map c.key i
        rw [hmap] at this
        simpa [readFail, Ne.symm hi] using this
    · simp only [readFail, Function.update_of_ne hk]
      by_cases hi : i = c.frame
      · subst hi
        have hnot : ¬ Carries (s.frames c.frame) k := fun hc' => hk (hc'.unique (h.call c hc))
        rw [Carries, not_and] at hnot
        simpa [setFrame, h.map, Carries] using hnot
      · simp [setFrame, Function.update_of_ne hi, h.map]
  · have hcount := h.pins i
    by_cases hi : i = c.frame
    · subst hi
      rw [hself]
      exact (List.countP_eq_zero.2 fun d hd => by simpa using hne d hd).symm
    · rw [countP_erase_of_neg hc (by simp [Ne.symm hi])] at hcount
      rw [hother hi]
      exact hcount
  · by_cases hi : i = c.frame
    · subst hi; rw [hself]; exact h.no_other_reader hc hp
    · have hcount := h.reader i
      rw [countP_erase_of_neg hc (by simp [Ne.symm hi])] at hcount
      rw [hother hi]
      exact hcount
  · rw [hother (hne d hd)]; exact h.call d (List.mem_of_mem_erase hd)
  · rw [hother (hne d hd)]; exact h.held d (List.mem_of_mem_erase hd) hq
  · by_cases hi : i = c.frame
    · subst hi; rw [hself] at hk; exact absurd hk.1 (by simp)
    · rw [hother hi] at hk hl ⊢; exact h.full i k hk hl
  · exact h.bytes d (List.mem_of_mem_erase hd)

theorem inv_unpin (h : Inv page s) {c : Call n} (hc : c ∈ s.calls) (hp : c.phase = .holding)
    (hs : s.unpinPage c.key = .ok s') : Inv page { s' with calls := s'.calls.erase c } := by
  have hmap := (h.map _ _).2 (h.call c hc)
  have hpos : 0 < (s.frames c.frame).pinCount := by
    rw [h.pins]
    exact List.countP_pos_iff.2 ⟨c, hc, by simp⟩
  obtain ⟨col, hcol, -⟩ := h.bytes c hc
  simp only [unpinPage, hcol, hmap, if_neg hpos.ne', Except.ok.injEq] at hs
  subst hs
  have hkey : ∀ i k, Carries ((s.setFrame c.frame { s.frames c.frame with
      pinCount := (s.frames c.frame).pinCount - 1 }).frames i) k ↔ Carries (s.frames i) k := fun i k => by
    by_cases hi : i = c.frame
    · subst hi; simp [setFrame, Carries]
    · simp [setFrame, Function.update_of_ne hi]
  have hload : ∀ i, ((s.setFrame c.frame { s.frames c.frame with
      pinCount := (s.frames c.frame).pinCount - 1 }).frames i).loading = (s.frames i).loading := fun i => by
    by_cases hi : i = c.frame
    · subst hi; simp [setFrame]
    · simp [setFrame, Function.update_of_ne hi]
  refine ⟨fun k i => ?_, fun i => ?_, fun i => ?_, fun d hd => ?_, fun d hd hq => ?_, fun i k hk hl => ?_,
    fun d hd => ?_⟩
  · rw [hkey]; exact h.map k i
  · have hcount := h.pins i
    by_cases hi : i = c.frame
    · subst hi
      rw [countP_erase_of_pos hc (by simp)] at hcount
      simp only [setFrame, Function.update_self, hcount, Nat.add_sub_cancel]
    · rw [countP_erase_of_neg hc (by simp [Ne.symm hi])] at hcount
      simpa [setFrame, Function.update_of_ne hi] using hcount
  · have hcount := h.reader i
    rw [countP_erase_of_neg hc (by simp [hp])] at hcount
    rw [hload]
    exact hcount
  · rw [hkey]; exact h.call d (List.mem_of_mem_erase hd)
  · rw [hload]; exact h.held d (List.mem_of_mem_erase hd) hq
  · rw [hkey] at hk
    rw [hload] at hl
    rw [← h.full i k hk hl]
    by_cases hi : i = c.frame
    · subst hi; simp [setFrame]
    · simp [setFrame, Function.update_of_ne hi]
  · exact h.bytes d (List.mem_of_mem_erase hd)

/-! ## Runs -/

/-- A failing read is alone on its frame: no other thread has joined it. -/
def SoleReader (s : BufferPool n Data) : PoolAction Data → Prop
  | .readFail t _ => ∀ c ∈ s.callOf t .loading, (s.frames c.frame).pinCount = 1
  | _ => True

theorem callOf_eq {t : Nat} {p : Phase} {c : Call n} (h : s.callOf t p = some c) : c ∈ s.calls ∧ c.phase = p := by
  have hp := List.find?_some h
  simp only [decide_eq_true_eq] at hp
  exact ⟨List.mem_of_find?_eq_some h, hp.2⟩

theorem pinOf_eq {t : Nat} {k : PageKey} {c : Call n} (h : s.pinOf t k = some c) :
    c ∈ s.calls ∧ c.thread = t ∧ c.phase = .holding ∧ c.key = k := by
  have hp := List.find?_some h
  simp only [decide_eq_true_eq] at hp
  exact ⟨List.mem_of_find?_eq_some h, hp⟩

/-- `pin_page` ends no call. -/
theorem calls_pinPage (t : Nat) (k : PageKey) {c : Call n} (hc : c ∈ s.calls) : c ∈ (s.pinPage t k).1.calls := by
  cases hcol : s.colOf k with
  | error e => simpa only [pinPage, hcol] using hc
  | ok col => cases hm : s.pageMap k with
    | some i =>
      simp only [pinPage, hcol, hm]
      exact List.mem_cons_of_mem _ hc
    | none =>
      have hclock := (evictLoop_spec (2 * n) s).1
      simp only [pinPage, hcol, hm, evictLocked]
      rcases hr : evictLoop (2 * n) s with ⟨s', _ | v⟩ <;> rw [hr] at hclock
      · exact hclock.calls ▸ hc
      · exact List.mem_cons_of_mem _ (hclock.calls ▸ hc)

theorem calls_unpinPage {k : PageKey} (h : s.unpinPage k = .ok s') : s'.calls = s.calls := by
  unfold unpinPage at h
  split at h
  · cases h
  · split at h
    · cases h
    · simp only at h
      split at h
      · cases h
      · cases h; rfl

theorem inv_step (h : Inv page s) {a : PoolAction Data} (hok : SoleReader s a) (hs : step page s a = some s') :
    Inv page s' := by
  cases a with
  | pin t k =>
    simp only [step, Option.ite_none_right_eq_some, Option.some.injEq] at hs
    exact hs.2 ▸ inv_pinPage h t k
  | readOk t =>
    simp only [step, Option.map_eq_some_iff] at hs
    obtain ⟨c, hc, rfl⟩ := hs
    exact inv_readOk h (callOf_eq hc).1 (callOf_eq hc).2
  | readFail t junk =>
    simp only [step, Option.map_eq_some_iff] at hs
    obtain ⟨c, hc, rfl⟩ := hs
    exact inv_readFail h (callOf_eq hc).1 (callOf_eq hc).2 (hok c hc) junk
  | wake t =>
    simp only [step] at hs
    split at hs
    · rename_i c hc
      simp only [Option.ite_none_left_eq_some, Bool.not_eq_true, Option.some.injEq] at hs
      exact hs.2 ▸ inv_wake h (callOf_eq hc).1 (callOf_eq hc).2 hs.1
    · cases hs
  | unpin t k =>
    simp only [step, Option.ite_none_right_eq_some] at hs
    obtain ⟨-, hs⟩ := hs
    split at hs
    · rename_i c s₁ hc hu
      cases hs
      obtain ⟨hmem, -, hp, rfl⟩ := pinOf_eq hc
      exact inv_unpin h hmem hp hu
    · cases hs; exact h
    · cases hs; exact h
    · cases hs

/-- A returned pin stays on its frame until the thread that took it unpins the page. -/
theorem held_until_unpin {c : Call n} (hc : c ∈ s.calls) (hp : c.phase = .holding) {a : PoolAction Data}
    (hs : step page s a = some s') (ha : a ≠ .unpin c.thread c.key) : c ∈ s'.calls := by
  have hkeep : ∀ {d : Call n}, d.phase ≠ .holding → c ∈ s.calls.erase d := fun {d} hd =>
    (List.mem_erase_of_ne (by rintro rfl; exact hd hp)).2 hc
  cases a with
  | pin t k =>
    simp only [step, Option.ite_none_right_eq_some, Option.some.injEq] at hs
    rw [← hs.2]
    exact calls_pinPage t k hc
  | readOk t =>
    simp only [step, Option.map_eq_some_iff] at hs
    obtain ⟨d, hd, rfl⟩ := hs
    exact List.mem_cons_of_mem _ (hkeep (by simp [(callOf_eq hd).2]))
  | readFail t junk =>
    simp only [step, Option.map_eq_some_iff] at hs
    obtain ⟨d, hd, rfl⟩ := hs
    exact hkeep (by simp [(callOf_eq hd).2])
  | wake t =>
    simp only [step] at hs
    split at hs
    · rename_i d hd
      simp only [Option.ite_none_left_eq_some, Option.some.injEq] at hs
      rw [← hs.2]
      exact List.mem_cons_of_mem _ (hkeep (by simp [(callOf_eq hd).2]))
    · cases hs
  | unpin t k =>
    simp only [step, Option.ite_none_right_eq_some] at hs
    obtain ⟨-, hs⟩ := hs
    split at hs
    · rename_i d s₁ hd hu
      cases hs
      obtain ⟨-, ht, -, hk⟩ := pinOf_eq hd
      rw [calls_unpinPage hu]
      exact (List.mem_erase_of_ne fun he => ha (by rw [he, ht, hk])).2 hc
    · cases hs; exact hc
    · cases hs; exact hc
    · cases hs

/-- **Page correctness**: in every state of every run in which no read fails that other threads have
joined, map, frames and pin counts agree, each returned pin shows its page, and it keeps its frame until
it is unpinned. -/
theorem pages_correct (hn : 0 < n) (cols : List ColInfo) (blank : Data) (as : List (PoolAction Data))
    (hok : Trace.Meets (step page) SoleReader (init hn cols blank) as)
    (hrun : Trace.exec (step page) (init hn cols blank) as = some s) :
    PagesCorrect page s ∧ ∀ c ∈ s.calls, c.phase = .holding → ∀ a s', step page s a = some s' →
      a ≠ .unpin c.thread c.key → c ∈ s'.calls :=
  ⟨(Trace.exec_invariant (fun _ _ _ h hok hs => inv_step h hok hs) (inv_init hn cols blank) hok hrun).pagesCorrect,
    fun _ hc hp _ _ hs ha => held_until_unpin hc hp hs ha⟩

/-- One column with one full page. -/
def oneCol : List ColInfo := [⟨bpPageBytes, 1⟩]

def onePool : BufferPool 1 Nat := init (by decide) oneCol 0

/-- Thread 1's read fails alone, thread 2 reads again, thread 1 joins. -/
def loneFailure : List (PoolAction Nat) :=
  [.pin 1 ⟨0, 0⟩, .readFail 1 3, .pin 2 ⟨0, 0⟩, .pin 1 ⟨0, 0⟩, .readOk 2, .wake 1]

theorem pages_correct_lone_failure :
    ∃ s, Trace.exec (step fun _ => 7) onePool loneFailure = some s ∧ PagesCorrect (fun _ => 7) s := by
  refine ⟨_, rfl, (pages_correct (by decide) oneCol 0 loneFailure ?_ rfl).1⟩
  refine ⟨trivial, fun s1 h1 => ⟨?_, fun s2 _ => ⟨trivial, fun s3 _ => ⟨trivial, fun s4 _ => ⟨trivial, fun s5 _ =>
    ⟨trivial, fun _ _ => trivial⟩⟩⟩⟩⟩⟩
  cases h1
  intro c hc
  cases hc
  rfl

/-- Thread 2 joins thread 1's read; the read fails; thread 2 still returns the cleared frame. -/
theorem joined_failed_read : ∃ s,
    Trace.exec (step fun _ => 7) onePool [.pin 1 ⟨0, 0⟩, .pin 2 ⟨0, 0⟩, .readFail 1 3, .wake 2] = some s ∧
    ¬ PagesCorrect (fun _ => 7) s := by
  refine ⟨_, rfl, fun h => ?_⟩
  obtain ⟨hk, -⟩ := h.returned ⟨2, ⟨0, 0⟩, 0, bpPageBytes, .holding⟩ (List.mem_cons_self ..) rfl
  exact absurd hk.1 (by decide)

end BufferPool

end SynnoDB.Ssd
