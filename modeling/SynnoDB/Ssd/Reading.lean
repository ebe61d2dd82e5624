import SynnoDB.Ssd.ColumnHandle

/-!
# What an access of a column reads (`buffer_pool.hpp:113-181`, `:308-327`, `column_handle.hpp:46-183`)

A frame that is not pinned is found within two rounds of the hand (`evictLocked_free`), so in a pool with nothing
pinned every page of a registered file can be pinned, shows the file's bytes and can be unpinned again
(`pin_spec`). Over that, a handle whose file has its values where `valueAt` looks for them reads them back, one by
one and in ranges.
-/

namespace SynnoDB.Ssd

open Hotpatch (Bytes leBytes leValue length_leBytes leValue_leBytes)

namespace BufferPool

variable {Data : Type} {n : Nat} {s : BufferPool n Data} {v : Fin n}

/-! ## The hand finds a frame -/

theorem next_iterate (d : Nat) (h : Fin n) : (next^[d] h).1 = (h.1 + d) % n := by
  induction d generalizing h with
  | zero => exact (Nat.mod_eq_of_lt h.2).symm
  | succ d ih =>
    rw [Function.iterate_succ_apply, ih]
    show ((h.1 + 1) % n + d) % n = _
    rw [Nat.mod_add_mod]
    congr 1
    omega

/-- The hand gets to every frame. -/
theorem exists_iterate (h v : Fin n) : ∃ d < n, next^[d] h = v := by
  refine ⟨(v.1 + n - h.1) % n, Nat.mod_lt _ (Fin.pos h), Fin.ext ?_⟩
  have hh := h.2
  rw [next_iterate, Nat.add_mod_mod, show h.1 + (v.1 + n - h.1) = v.1 + n by omega, Nat.add_mod_right,
    Nat.mod_eq_of_lt v.2]

/-- A frame that is neither pinned nor marked is taken when the hand comes to it, if none was before. -/
theorem evictLoop_clear {d : Nat} : ∀ {s : BufferPool n Data} {m : Nat}, next^[d] s.clockHand = v →
    (s.frames v).pinCount = 0 → (s.frames v).clockBit = false → d < m → (evictLoop m s).2 ≠ none := by
  induction d with
  | zero =>
    intro s m hv hpin hbit hm
    obtain ⟨m, rfl⟩ : ∃ m', m = m' + 1 := ⟨m - 1, by omega⟩
    cases hv
    have hpin : (s.frames s.clockHand).pinCount = 0 := hpin
    have hbit : (s.frames s.clockHand).clockBit = false := hbit
    simp [evictLoop, hpin, hbit]
  | succ d ih =>
    intro s m hv hpin hbit hm
    obtain ⟨m, rfl⟩ : ∃ m', m = m' + 1 := ⟨m - 1, by omega⟩
    rw [Function.iterate_succ_apply] at hv
    unfold evictLoop
    by_cases hpin' : (s.frames s.clockHand).pinCount = 0
    · by_cases hbit' : (s.frames s.clockHand).clockBit = true
      · simp only [hpin', hbit', if_true]
        have hne : v ≠ s.clockHand := by
          rintro rfl
          rw [hbit] at hbit'
          cases hbit'
        apply ih hv
        · simpa [setFrame, Function.update_of_ne hne] using hpin
        · simpa [setFrame, Function.update_of_ne hne] using hbit
        · omega
      · simp [hpin', hbit']
    · simp only [hpin', if_false]
      exact ih hv hpin hbit (by omega)

theorem evictLoop_free {d : Nat} : ∀ {s : BufferPool n Data} {m : Nat}, next^[d] s.clockHand = v →
    (s.frames v).pinCount = 0 → d + n < m → (evictLoop m s).2 ≠ none := by
  induction d with
  | zero =>
    intro s m hv hpin hm
    obtain ⟨m, rfl⟩ : ∃ m', m = m' + 1 := ⟨m - 1, by omega⟩
    cases hv
    have hpin : (s.frames s.clockHand).pinCount = 0 := hpin
    unfold evictLoop
    by_cases hbit : (s.frames s.clockHand).clockBit = true
    · simp only [hpin, hbit, if_true]
      -- the hand is back in `n` steps, and the mark is gone
      have hn := Fin.pos s.clockHand
      apply evictLoop_clear (v := s.clockHand) (d := n - 1)
      · apply Fin.ext
        show (next^[n - 1] (next s.clockHand)).1 = _
        rw [← Function.iterate_succ_apply, next_iterate, show s.clockHand.1 + (n - 1).succ = s.clockHand.1 + n by omega,
          Nat.add_mod_right, Nat.mod_eq_of_lt s.clockHand.2]
      · simp [setFrame]
      · simp [setFrame]
      · omega
    · simp [hpin, hbit]
  | succ d ih =>
    intro s m hv hpin hm
    obtain ⟨m, rfl⟩ : ∃ m', m = m' + 1 := ⟨m - 1, by omega⟩
    rw [Function.iterate_succ_apply] at hv
    unfold evictLoop
    by_cases hpin' : (s.frames s.clockHand).pinCount = 0
    · by_cases hbit' : (s.frames s.clockHand).clockBit = true
      · simp only [hpin', hbit', if_true]
        apply ih hv
        · by_cases hne : v = s.clockHand
          · simp [setFrame, hne]
          · simpa [setFrame, Function.update_of_ne hne] using hpin
        · omega
      · simp [hpin', hbit']
    · simp only [hpin', if_false]
      exact ih hv hpin (by omega)

/-- **`evict_locked` finds a frame** if one is not pinned. -/
theorem evictLocked_free (hv : (s.frames v).pinCount = 0) : ∃ w, s.evictLocked.2 = some w := by
  obtain ⟨d, hd, hdv⟩ := exists_iterate s.clockHand v
  exact Option.ne_none_iff_exists'.1 (evictLoop_free hdv hv (by omega))

end BufferPool

/-! ## One access -/

namespace Pool

variable {n : Nat} {p p' : Pool n} {k : PageKey} {cid : Int} {file : Bytes} {numBytes : Int}

/-- Files and frames belong to registered columns. -/
structure Tables (p : Pool n) : Prop where
  sized : p.files.length = p.pool.cols.length
  known : ∀ i, (p.pool.frames i).colId < p.pool.cols.length

/-- Nothing is pinned, and the frames show what they carry. -/
structure Ready (p : Pool n) : Prop extends Tables p where
  inv : BufferPool.Inv (page p.files) p.pool
  quiet : p.pool.calls = []

/-- One page is pinned. -/
structure Held (p : Pool n) (k : PageKey) : Prop extends Tables p where
  inv : BufferPool.Inv (page p.files) p.pool
  held : ∃ c : Call n, p.pool.calls = [c] ∧ c.thread = 0 ∧ c.key = k ∧ c.phase = .holding

structure SameFiles (p p' : Pool n) : Prop where
  files : p'.files = p.files
  cols : p'.pool.cols = p.pool.cols

/-- The column is this file, registered with this size. -/
structure Serves (p : Pool n) (cid : Int) (file : Bytes) (numBytes : Int) : Prop where
  nonneg : 0 ≤ cid
  file : p.files[cid.toNat]? = some file
  col : p.pool.cols[cid.toNat]? = some ⟨numBytes, (numBytes + bpPageBytes - 1) / bpPageBytes⟩

theorem SameFiles.trans {q : Pool n} (h : SameFiles p p') (h' : SameFiles p' q) : SameFiles p q :=
  ⟨h'.files.trans h.files, h'.cols.trans h.cols⟩

theorem Serves.same (h : Serves p cid file numBytes) (hs : SameFiles p p') : Serves p' cid file numBytes :=
  ⟨h.nonneg, hs.files ▸ h.file, hs.cols ▸ h.col⟩

theorem Ready.unpinned (h : Ready p) (i : Fin n) : (p.pool.frames i).pinCount = 0 := by
  rw [h.inv.pins, h.quiet, List.countP_nil]

theorem Ready.loaded (h : Ready p) (i : Fin n) : (p.pool.frames i).loading = false := by
  have := h.inv.reader i
  rw [h.quiet, List.countP_nil] at this
  by_contra hl
  simp [hl] at this

/-- A page in the file and within the registered size. -/
theorem Serves.colOf (h : Serves p cid file numBytes) {idx : Int} (h0 : 0 ≤ idx) (hidx : idx * bpPageBytes < numBytes) :
    p.pool.colOf ⟨cid, idx⟩ = .ok ⟨numBytes, (numBytes + bpPageBytes - 1) / bpPageBytes⟩ := by
  have hpages : idx < (numBytes + bpPageBytes - 1) / bpPageBytes := by
    unfold bpPageBytes at *
    omega
  have hneg : ¬ cid < 0 := not_lt.2 h.nonneg
  have hin : ¬ (idx < 0 ∨ idx ≥ (numBytes + bpPageBytes - 1) / bpPageBytes) := by omega
  simp only [BufferPool.colOf, hneg, if_false, h.col, hin]

/-- The bytes of the file on the page. -/
theorem Serves.page (h : Serves p cid file numBytes) (idx : Int) :
    page p.files ⟨cid, idx⟩ = (file.drop (idx.toNat * bpPage)).take bpPage := by
  simp [Pool.page, h.file]

/-- The pin of a pool with one page pinned. -/
theorem Held.pinOf (hH : Held p k) : ∃ c col, p.pool.pinOf 0 k = some c ∧ p.pool.calls = [c] ∧ c.key = k ∧
    c.phase = .holding ∧
    (p.pool.frames c.frame).data = page p.files k ∧ p.pool.colOf k = .ok col ∧
      c.bytes = BufferPool.pageBytes col k := by
  obtain ⟨c, hcalls, hthread, hkey, hphase⟩ := hH.held
  have hmem : c ∈ p.pool.calls := by rw [hcalls]; exact List.mem_cons_self
  obtain ⟨col, hcol, hbytes⟩ := hH.inv.bytes c hmem
  have hcarry := hH.inv.call c hmem
  have hloaded := hH.inv.held c hmem hphase
  have hdata := hH.inv.full _ _ hcarry hloaded
  rw [hkey] at hcol hbytes hdata
  refine ⟨c, col, ?_, hcalls, hkey, hphase, hdata, hcol, hbytes⟩
  simp [BufferPool.pinOf, hcalls, hthread, hkey, hphase]

theorem colOf_lt {s : BufferPool n Bytes} {col : ColInfo} (hcol : s.colOf k = .ok col) : k.colId < s.cols.length := by
  have h0 := BufferPool.colOf_nonneg hcol
  unfold BufferPool.colOf at hcol
  rw [if_neg (by omega)] at hcol
  split at hcol
  · cases hcol
  · rename_i c hc
    have := (List.getElem?_eq_some_iff.1 hc).1
    omega

/-- A page in the pool: one more pin. -/
theorem pin_hit (hR : Ready p) {col : ColInfo} (hcol : p.pool.colOf k = .ok col) {i : Fin n}
    (hm : p.pool.pageMap k = some i) : ∃ s, p.pool.pinPage 0 k = (s, none) ∧ s.callOf 0 .loading = none ∧
      Held ⟨s, p.files⟩ k ∧ s.cols = p.pool.cols := by
  have hinv := BufferPool.inv_pinPage hR.inv 0 k
  obtain ⟨s, hs⟩ : ∃ s, s = (p.pool.pinPage 0 k).1 := ⟨_, rfl⟩
  have hpin : p.pool.pinPage 0 k = (s, none) := by
    rw [hs]
    simp only [BufferPool.pinPage, hcol, hm]
  have hcalls : s.calls = [⟨0, k, i, BufferPool.pageBytes col k, .holding⟩] := by
    rw [hs]
    simp [BufferPool.pinPage, hcol, hm, BufferPool.setFrame, hR.loaded, hR.quiet]
  have hcols : s.cols = p.pool.cols := by
    rw [hs]
    simp [BufferPool.pinPage, hcol, hm, BufferPool.setFrame]
  have hframes : ∀ j, (s.frames j).colId = (p.pool.frames j).colId := by
    intro j
    rw [hs]
    simp only [BufferPool.pinPage, hcol, hm, BufferPool.setFrame]
    by_cases hj : j = i
    · simp [hj]
    · simp [Function.update_of_ne hj]
  rw [← hs] at hinv
  refine ⟨s, hpin, ?_, ⟨⟨?_, fun j => ?_⟩, hinv, _, hcalls, rfl, rfl, rfl⟩, hcols⟩
  · simp [BufferPool.callOf, hcalls]
  · show p.files.length = s.cols.length
    rw [hcols]
    exact hR.sized
  · show (s.frames j).colId < s.cols.length
    rw [hframes, hcols]
    exact hR.known j

/-- A page that is not in the pool: a frame is found, and the read fills it. -/
theorem pin_miss (hR : Ready p) {col : ColInfo} (hcol : p.pool.colOf k = .ok col) (hm : p.pool.pageMap k = none) :
    ∃ s c, p.pool.pinPage 0 k = (s, none) ∧ s.callOf 0 .loading = some c ∧ c.bytes = BufferPool.pageBytes col k ∧
      Held ⟨s.readOk (page p.files) c, p.files⟩ k ∧ (s.readOk (page p.files) c).cols = p.pool.cols := by
  obtain ⟨w, hw⟩ := BufferPool.evictLocked_free (hR.unpinned p.pool.clockHand)
  obtain ⟨hclock, -, hsome⟩ := BufferPool.evictLoop_spec (2 * n) p.pool
  obtain ⟨h0, hmap⟩ := hsome w hw
  obtain ⟨s', hs'⟩ : ∃ s', s' = p.pool.evictLocked.1 := ⟨_, rfl⟩
  have hevict : p.pool.evictLocked = (s', some w) := Prod.ext hs'.symm hw
  change p.pool.evictLocked.1.pageMap = _ at hmap
  change BufferPool.SameButClock p.pool p.pool.evictLocked.1 at hclock
  rw [← hs'] at hmap hclock
  have hinv := BufferPool.inv_claim (t := 0) hR.inv hclock hmap h0 hcol hm
  have hpin : p.pool.pinPage 0 k = (s'.claim 0 k w (BufferPool.pageBytes col k), none) := by
    simp only [BufferPool.pinPage, hcol, hm, hevict]
  obtain ⟨c, hc⟩ : ∃ c : Call n, c = ⟨0, k, w, BufferPool.pageBytes col k, .loading⟩ := ⟨_, rfl⟩
  have hcalls : (s'.claim 0 k w (BufferPool.pageBytes col k)).calls = [c] := by
    rw [hc]
    simp [BufferPool.claim, hclock.calls, hR.quiet]
  have hphase : c.phase = .loading := by rw [hc]
  have hread := BufferPool.inv_readOk hinv (c := c) (by rw [hcalls]; exact List.mem_cons_self) hphase
  refine ⟨_, c, hpin, ?_, by rw [hc],
    ⟨⟨?_, fun j => ?_⟩, hread, { c with phase := .holding }, ?_, by rw [hc], by rw [hc], rfl⟩, ?_⟩
  · simp [BufferPool.callOf, hcalls, hc]
  · show p.files.length = s'.cols.length
    rw [hclock.cols]
    exact hR.sized
  · show ((BufferPool.readOk _ _ _).frames j).colId < s'.cols.length
    rw [hclock.cols]
    by_cases hj : j = w
    · subst hj
      simpa [BufferPool.readOk, BufferPool.advance, BufferPool.setFrame, BufferPool.claim, hc] using colOf_lt hcol
    · have := hR.known j
      rw [show (p.pool.frames j).colId = (s'.frames j).colId by rw [hclock.frames j]] at this
      simpa [BufferPool.readOk, BufferPool.advance, BufferPool.setFrame, BufferPool.claim, hc,
        Function.update_of_ne hj] using this
  · show _ :: List.erase (s'.claim 0 k w (BufferPool.pageBytes col k)).calls c = _
    rw [hcalls]
    simp
  · exact hclock.cols

theorem pin_held (hR : Ready p) {col : ColInfo} (hcol : p.pool.colOf k = .ok col)
    (hlen : BufferPool.pageBytes col k ≤ (page p.files k).length) :
    ∃ p', p.pinPage k = .ok ((page p.files k).take (BufferPool.pageBytes col k).toNat, BufferPool.pageBytes col k, p') ∧
      Held p' k ∧ SameFiles p p' := by
  -- what is returned once the page is there
  have hreturn : ∀ s : BufferPool n Bytes, Held ⟨s, p.files⟩ k → s.cols = p.pool.cols →
      ∃ c, s.pinOf 0 k = some c ∧ (s.frames c.frame).data = page p.files k ∧ c.bytes = BufferPool.pageBytes col k := by
    intro s hH hcols
    obtain ⟨c, col', hpin, -, -, -, hdata, hcol', hbytes⟩ := hH.pinOf
    have : s.colOf k = p.pool.colOf k := by simp only [BufferPool.colOf, hcols]
    rw [this, hcol] at hcol'
    cases hcol'
    exact ⟨c, hpin, hdata, hbytes⟩
  cases hm : p.pool.pageMap k with
  | some i =>
    obtain ⟨s, hpin, hcall, hH, hcols⟩ := pin_hit hR hcol hm
    obtain ⟨c, hc, hdata, hbytes⟩ := hreturn s hH hcols
    refine ⟨⟨s, p.files⟩, ?_, hH, ⟨rfl, hcols⟩⟩
    simp only [Pool.pinPage, hpin, hcall, hc, hdata, hbytes]
  | none =>
    obtain ⟨s, c, hpin, hcall, hb, hH, hcols⟩ := pin_miss hR hcol hm
    obtain ⟨d, hd, hdata, hbytes⟩ := hreturn _ hH hcols
    refine ⟨_, ?_, hH, ⟨rfl, hcols⟩⟩
    simp only [Pool.pinPage, hpin, hcall, hb, if_neg (not_lt.2 hlen), hd, hdata, hbytes]

theorem unpin_ready (hH : Held p k) : ∃ p', p.unpinPage k = .ok p' ∧ Ready p' ∧ SameFiles p p' := by
  obtain ⟨c, col, hpin, hcalls, hkey, hphase, -, hcol, -⟩ := hH.pinOf
  have hmem : c ∈ p.pool.calls := by rw [hcalls]; exact List.mem_cons_self
  have hmap : p.pool.pageMap k = some c.frame := (hH.inv.map _ _).2 (hkey ▸ hH.inv.call c hmem)
  have hcount : (p.pool.frames c.frame).pinCount = 1 := by
    rw [hH.inv.pins, hcalls]
    simp
  obtain ⟨s, hs⟩ : ∃ s, p.pool.unpinPage k = .ok s := by
    simp [BufferPool.unpinPage, hcol, hmap, hcount]
  have hcalls' := BufferPool.calls_unpinPage hs
  have hinv := BufferPool.inv_unpin hH.inv hmem hphase (hkey ▸ hs)
  have hpin' : s.pinOf 0 k = some c := by rwa [BufferPool.pinOf, hcalls']
  have hunpin : p.unpinPage k = .ok ⟨{ s with calls := s.calls.erase c }, p.files⟩ := by
    simp only [Pool.unpinPage, hs, hpin']
  have heq : s = p.pool.setFrame c.frame { p.pool.frames c.frame with pinCount := 0 } := by
    simp only [BufferPool.unpinPage, hcol, hmap, hcount] at hs
    cases hs
    rfl
  refine ⟨_, hunpin, ⟨⟨?_, fun j => ?_⟩, hinv, ?_⟩, rfl, ?_⟩
  · rw [heq]
    exact hH.sized
  · have := hH.known j
    rw [heq]
    by_cases hj : j = c.frame
    · subst hj
      simpa [BufferPool.setFrame] using this
    · simpa [BufferPool.setFrame, Function.update_of_ne hj] using this
  · show s.calls.erase c = []
    rw [hcalls', hcalls]
    simp
  · rw [heq]
    rfl

/-- The bytes of page `idx` of the file. -/
def pageAt (file : Bytes) (idx : Nat) : Bytes := (file.drop (idx * bpPage)).take bpPage

/-- **One access**: a page of a file that is registered with its size. -/
theorem pin_spec (hR : Ready p) (hS : Serves p cid file file.length) {idx : Nat} (hidx : idx * bpPage < file.length) :
    ∃ p' p'', p.pinPage ⟨cid, idx⟩ = .ok (pageAt file idx, (pageAt file idx).length, p') ∧
      p'.unpinPage ⟨cid, idx⟩ = .ok p'' ∧ Ready p'' ∧ SameFiles p p'' := by
  have hin : (idx : Int) * bpPageBytes < file.length := by
    unfold bpPage at hidx
    unfold bpPageBytes
    omega
  have hcol := hS.colOf (Int.natCast_nonneg idx) hin
  have hpage : Pool.page p.files ⟨cid, idx⟩ = pageAt file idx := hS.page idx
  have hbytes : BufferPool.pageBytes ⟨file.length, (file.length + bpPageBytes - 1) / bpPageBytes⟩ ⟨cid, idx⟩ =
      (pageAt file idx).length := by
    rw [pageAt, List.length_take, List.length_drop]
    unfold BufferPool.pageBytes bpPageBytes bpPage at *
    simp only
    omega
  obtain ⟨p', hpin, hH, hsame⟩ := pin_held hR hcol (by rw [hbytes, hpage])
  obtain ⟨p'', hunpin, hR'', hsame'⟩ := unpin_ready hH
  refine ⟨p', p'', ?_, hunpin, hR'', hsame.trans hsame'⟩
  rw [hpin, hbytes, hpage, Int.toNat_natCast, List.take_length]

/-- A pool in which nothing was pinned yet and no column is registered. -/
theorem ready_init (hn : 0 < n) (blank : Bytes) : Ready ⟨BufferPool.init hn [] blank, []⟩ where
  sized := rfl
  known i := by simp [BufferPool.init]
  inv := BufferPool.inv_init hn [] blank
  quiet := rfl

/-- **Registering** a file in a ready pool: the pool stays ready, and the other columns are as they were. -/
theorem register_spec (hR : Ready p) (file : Bytes) (h0 : 0 ≤ numBytes) :
    ∃ p', p.registerColumn file numBytes = .ok (p.pool.cols.length, p') ∧ Ready p' ∧
      Serves p' p.pool.cols.length file numBytes ∧ ∀ cid f m, Serves p cid f m → Serves p' cid f m := by
  obtain ⟨col, hcol⟩ : ∃ col, col = ColInfo.mk numBytes ((numBytes + bpPageBytes - 1) / bpPageBytes) := ⟨_, rfl⟩
  refine ⟨⟨{ p.pool with cols := p.pool.cols ++ [col] }, p.files ++ [file]⟩, ?_,
    ⟨⟨?_, fun i => ?_⟩, ?_, hR.quiet⟩, ?_, ?_⟩
  · simp only [registerColumn, Ssd.registerColumn, if_neg (not_lt.2 h0), hcol]
  · simp [hR.sized]
  · have := hR.known i
    show (p.pool.frames i).colId < (p.pool.cols ++ [col]).length
    rw [List.length_append, List.length_singleton]
    omega
  · refine ⟨hR.inv.map, hR.inv.pins, hR.inv.reader, hR.inv.call, hR.inv.held, fun i k hk hl => ?_, fun c hc => ?_⟩
    · -- a frame carries a page of a column that was there before
      have hlt : k.colId.toNat < p.files.length := by
        have := hR.known i
        have h0 : 0 ≤ (p.pool.frames i).colId := hk.1
        have hid : k.colId = (p.pool.frames i).colId := by rw [hk.2]
        have hsized := hR.sized
        omega
      rw [hR.inv.full i k hk hl]
      simp [Pool.page, List.getElem?_append_left hlt]
    · rw [hR.quiet] at hc
      cases hc
  · exact ⟨by omega, by simp [← hR.sized], by simp [hcol]⟩
  · intro cid f m h
    refine ⟨h.nonneg, ?_, ?_⟩
    · have := (List.getElem?_eq_some_iff.1 h.file).1
      simpa [List.getElem?_append_left this] using h.file
    · have := (List.getElem?_eq_some_iff.1 h.col).1
      simpa [List.getElem?_append_left this] using h.col

end Pool

/-! ## Through a handle -/

theorem div_of_block {q m b : Nat} (h : m < b) : (q * b + m) / b = q := by
  rw [Nat.add_comm, Nat.add_mul_div_right _ _ (by omega), Nat.div_eq_of_lt h, Nat.zero_add]

theorem mod_of_block {q m b : Nat} (h : m < b) : (q * b + m) % b = m := by
  rw [Nat.add_comm, Nat.add_mul_mod_self_right, Nat.mod_eq_of_lt h]

/-- `ROWS_PER_PAGE` as a count. -/
def rowsIn (size : Nat) : Nat := bpPage / size

/-- Where the value of a row starts in the file. -/
def valueStart (size i : Nat) : Nat := i / rowsIn size * bpPage + i % rowsIn size * size

def valueAt (size : Nat) (file : Bytes) (i : Nat) : Bytes := (file.drop (valueStart size i)).take size

/-- The file has all of the values. -/
def Covers (size : Nat) (file : Bytes) (rows : Nat) : Prop := ∀ i < rows, valueStart size i + size ≤ file.length

namespace ColumnHandle

open Pool

variable {n : Nat} {p : Pool n} {h : ColumnHandle} {size rows : Nat} {file : Bytes}

theorem rowsPerPage_eq (size : Nat) : rowsPerPage size = rowsIn size := by
  simp [rowsPerPage, rowsIn, bpPageBytes, bpPage]

theorem rowsIn_pos (h0 : 0 < size) (h1 : size ≤ bpPage) : 0 < rowsIn size := Nat.div_pos h1 h0

theorem rowsIn_mul_le (size : Nat) : rowsIn size * size ≤ bpPage := Nat.div_mul_le_self ..

/-- A handle over a file of the pool. -/
structure On (h : ColumnHandle) (p : Pool n) (file : Bytes) (rows : Nat) : Prop where
  pool : h.pool = true
  rows : h.numRows = rows
  serves : Serves p h.colId file file.length

theorem On.same {p' : Pool n} (hO : h.On p file rows) (hs : SameFiles p p') : h.On p' file rows :=
  ⟨hO.pool, hO.rows, hO.serves.same hs⟩

theorem On.valid (hO : h.On p file rows) : h.valid = true := by
  simp [ColumnHandle.valid, hO.pool, hO.serves.nonneg]

/-- The values on a page are those of its rows. -/
theorem cells_pageAt {pg j : Nat} (hj : j < rowsIn size) (hin : j < (cells size (pageAt file pg)).length) :
    (cells size (pageAt file pg))[j] = valueAt size file (pg * rowsIn size + j) := by
  have hfit : j * size + size ≤ bpPage := by
    have := Nat.mul_le_mul_right size hj
    have := rowsIn_mul_le size
    rw [Nat.succ_mul] at *
    omega
  simp only [cells, List.getElem_map, List.getElem_range, valueAt, valueStart, div_of_block hj, mod_of_block hj, pageAt]
  rw [List.drop_take, List.take_take, List.drop_drop, min_eq_left (by omega)]

theorem length_cells (size : Nat) (raw : Bytes) : (cells size raw).length = raw.length / size := by simp [cells]

/-- A page of the handle. -/
theorem pinPage_spec (hR : Ready p) (hO : h.On p file rows) {pg : Nat} (hpg : (pg : Int) < h.numPages size)
    (hfile : pg * bpPage < file.length) :
    ∃ p' p'', h.pinPage size p pg = .ok (cells size (pageAt file pg), (cells size (pageAt file pg)).length, p') ∧
      h.unpinPage p' pg = .ok p'' ∧ Ready p'' ∧ SameFiles p p'' := by
  obtain ⟨p', p'', hpin, hunpin, hR'', hsame⟩ := pin_spec hR hO.serves hfile
  refine ⟨p', p'', ?_, ?_, hR'', hsame⟩
  · have hin : ¬ ((pg : Int) < 0 ∨ (pg : Int) ≥ h.numPages size) := by omega
    simp only [pinPage, hO.valid, Bool.not_true, Bool.false_eq_true, if_false, hin, hpin, length_cells]
    norm_cast
  · simpa only [unpinPage, hO.valid, Bool.not_true, Bool.false_eq_true, if_false] using hunpin

theorem numPages_eq (hrows : h.numRows = rows) (hpos : 0 < rowsIn size) :
    h.numPages size = ((rows + rowsIn size - 1) / rowsIn size : Nat) := by
  rw [numPages, hrows, rowsPerPage_eq]
  have : ((rows : Int) + rowsIn size - 1) = ((rows + rowsIn size - 1 : Nat) : Int) := by omega
  rw [this]
  norm_cast

/-- The page of a row is a page of the file. -/
theorem page_of_row {a : Nat} (h0 : 0 < size) (h1 : size ≤ bpPage) (hcov : Covers size file rows) (ha : a < rows) :
    a / rowsIn size * bpPage < file.length ∧ a / rowsIn size < (rows + rowsIn size - 1) / rowsIn size := by
  have hpos := rowsIn_pos h0 h1
  refine ⟨?_, ?_⟩
  · have := hcov a ha
    unfold valueStart at this
    omega
  · have := Nat.div_le_div_right (c := rowsIn size) (show a + rowsIn size ≤ rows + rowsIn size - 1 by omega)
    rw [Nat.add_div_right _ hpos] at this
    omega

/-- How far a request reaches: its page's end, and the rows that there are. -/
def reach (size rows a m : Nat) : Nat := min m (min rows (a / rowsIn size * rowsIn size + rowsIn size) - a)

theorem reach_pos {a m : Nat} (hpos : 0 < rowsIn size) (ha : a < rows) (hm : 0 < m) : 0 < reach size rows a m := by
  have := Nat.lt_div_mul_add (a := a) hpos
  unfold reach
  omega

theorem contiguousRows_spec (hrows : h.numRows = rows) (hpos : 0 < rowsIn size) {a m : Nat} (ha : a ≤ rows) :
    h.contiguousRows size a m = .ok (reach size rows a m : Nat) := by
  have hin : ¬ ((a : Int) < 0 ∨ (a : Int) > h.numRows ∨ (m : Int) < 0) := by
    rw [hrows]
    omega
  rw [contiguousRows, if_neg hin, hrows]
  by_cases h0 : a = rows ∨ m = 0
  · rw [if_pos (by omega), show reach size rows a m = 0 by unfold reach; omega]
    rfl
  · rw [if_neg (by omega), pageRowEnd, pageForRow, pageRowBegin, rowsPerPage_eq, hrows]
    have hlt := Nat.lt_div_mul_add (a := a) hpos
    have hcast : (a : Int) / (rowsIn size : Int) * (rowsIn size : Int) = (a / rowsIn size * rowsIn size : Nat) := by
      push_cast
      rfl
    rw [hcast, reach]
    congr 1
    generalize a / rowsIn size * rowsIn size = b at *
    omega

/-- Nothing is pinned for a request that is empty. -/
theorem pinRange_empty (hrows : h.numRows = rows) (hpos : 0 < rowsIn size) {a m : Nat} (ha : a ≤ rows)
    (h0 : reach size rows a m = 0) : h.pinRange size p a m = .ok ({}, p) := by
  simp only [pinRange, contiguousRows_spec hrows hpos ha, h0, Nat.cast_zero, if_true]

/-- The values of a request are on the page. -/
theorem reach_le_cells (h0 : 0 < size) (h1 : size ≤ bpPage) (hcov : Covers size file rows) {a m : Nat} (ha : a < rows)
    (hm : 0 < m) : a % rowsIn size + reach size rows a m ≤ (cells size (pageAt file (a / rowsIn size))).length := by
  have hpos := rowsIn_pos h0 h1
  have hr := reach_pos hpos ha hm
  -- the last row of the request
  obtain ⟨b, hb⟩ : ∃ b, b = a + reach size rows a m - 1 := ⟨_, rfl⟩
  have hsplit := Nat.div_add_mod' a (rowsIn size)
  have hmod := Nat.mod_lt a hpos
  have hend : b < rows ∧ a % rowsIn size + reach size rows a m ≤ rowsIn size := by
    unfold reach at *
    generalize a / rowsIn size * rowsIn size = q at *
    omega
  have hbeq : b = a / rowsIn size * rowsIn size + (a % rowsIn size + reach size rows a m - 1) := by omega
  have hcovb := hcov b hend.1
  rw [hbeq, valueStart, div_of_block (by omega), mod_of_block (by omega)] at hcovb
  rw [length_cells, Nat.le_div_iff_mul_le h0, pageAt, List.length_take, List.length_drop]
  have hsize : (a % rowsIn size + reach size rows a m) * size =
    (a % rowsIn size + reach size rows a m - 1) * size + size := by
    rw [← Nat.succ_mul]
    congr 1
    omega
  have hroom := (Nat.mul_le_mul_right size hend.2).trans (rowsIn_mul_le size)
  refine le_min hroom (Nat.le_sub_of_add_le ?_)
  rw [hsize, Nat.add_comm, ← Nat.add_assoc]
  exact hcovb

/-- **A range**: the values of the rows from `a` on, as far as the page goes. -/
theorem pinRange_spec (hR : Ready p) (hO : h.On p file rows) (h0 : 0 < size) (h1 : size ≤ bpPage)
    (hcov : Covers size file rows) {a m : Nat} (ha : a < rows) (hm : 0 < m) :
    ∃ r p' p'', h.pinRange size p a m = .ok (r, p') ∧ r.count = (reach size rows a m : Nat) ∧
      r.data.take (reach size rows a m) = (List.range (reach size rows a m)).map (fun j => valueAt size file (a + j)) ∧
      h.unpinPage p' r.pageIdx = .ok p'' ∧ Ready p'' ∧ SameFiles p p'' := by
  have hpos := rowsIn_pos h0 h1
  obtain ⟨hfile, hpg⟩ := page_of_row h0 h1 hcov ha
  have hnum : (a / rowsIn size : Nat) < h.numPages size := by
    rw [numPages_eq hO.rows hpos]
    exact_mod_cast hpg
  obtain ⟨p', p'', hpin, hunpin, hR'', hsame⟩ := pinPage_spec hR hO hnum hfile
  have hcount := contiguousRows_spec hO.rows hpos (m := m) ha.le
  have hne : ¬ ((reach size rows a m : Nat) : Int) = 0 := by
    have := reach_pos hpos ha hm
    omega
  have hpage : pageForRow size a = (a / rowsIn size : Nat) := by
    rw [pageForRow, rowsPerPage_eq]
    norm_cast
  -- the row's place on its page
  have hoff : (a : Int) - pageRowBegin size (a / rowsIn size : Nat) = (a % rowsIn size : Nat) := by
    rw [pageRowBegin, rowsPerPage_eq]
    have := Nat.div_add_mod' a (rowsIn size)
    generalize a / rowsIn size = q at *
    have hmul : ((q : Int) * (rowsIn size : Int)) = (q * rowsIn size : Nat) := by push_cast; rfl
    rw [hmul]
    omega
  have hreach : a % rowsIn size + reach size rows a m ≤ rowsIn size := by
    have := Nat.div_add_mod' a (rowsIn size)
    have := Nat.mod_lt a hpos
    unfold reach
    generalize a / rowsIn size * rowsIn size = b at *
    omega
  have hcells : a % rowsIn size + reach size rows a m ≤ (cells size (pageAt file (a / rowsIn size))).length :=
    reach_le_cells h0 h1 hcov ha hm
  refine ⟨⟨(cells size (pageAt file (a / rowsIn size))).drop (a % rowsIn size), (a / rowsIn size : Nat), a,
    (reach size rows a m : Nat), (a % rowsIn size : Nat)⟩, p', p'', ?_, rfl, ?_, hunpin, hR'', hsame⟩
  · have hle : ¬ ((a % rowsIn size : Nat) : Int) + (reach size rows a m : Nat) >
        ((cells size (pageAt file (a / rowsIn size))).length : Nat) := by omega
    simp only [pinRange, hcount, if_neg hne, hpage, hpin, hoff, if_neg hle, Int.toNat_natCast]
  · apply List.ext_getElem
    · simp only [List.length_take, List.length_drop, List.length_map, List.length_range]
      omega
    · intro j hj hj'
      simp only [List.length_map, List.length_range] at hj'
      rw [List.getElem_take, List.getElem_drop, cells_pageAt (by omega), List.getElem_map, List.getElem_range]
      have := Nat.div_add_mod' a (rowsIn size)
      rw [← Nat.add_assoc, this]

/-- **One value**. -/
theorem get_spec (hR : Ready p) (hO : h.On p file rows) (h0 : 0 < size) (h1 : size ≤ bpPage)
    (hcov : Covers size file rows)
    {i : Nat} (hi : i < rows) :
    ∃ p', h.get size p i = .ok (valueAt size file i, p') ∧ Ready p' ∧ SameFiles p p' := by
  obtain ⟨r, p', p'', hpin, hcount, hdata, hunpin, hR'', hsame⟩ := pinRange_spec hR hO h0 h1 hcov hi Nat.one_pos
  have hone : reach size rows i 1 = 1 := by
    have := reach_pos (m := 1) (rowsIn_pos h0 h1) hi Nat.one_pos
    unfold reach at *
    omega
  have hin : ¬ ((i : Int) < 0 ∨ (i : Int) ≥ h.numRows) := by
    rw [hO.rows]
    omega
  have hvalue : r.data.getD 0 [] = valueAt size file i := by
    rw [hone] at hdata
    cases hd : r.data with
    | nil => simp [hd] at hdata
    | cons x xs => simpa [hd] using hdata
  refine ⟨p'', ?_, hR'', hsame⟩
  rw [ColumnHandle.get, if_neg hin]
  rw [show ((1 : Nat) : Int) = 1 from rfl] at hpin
  simp only [hpin, hunpin, hvalue]

theorem take_count (values : List Bytes) : values.take ((values.length : Nat) : Int).toNat = values := by
  rw [Int.toNat_natCast, List.take_length]

/-- The pages from `pg` on. -/
theorem scanFrom_spec {pages : Nat} (hpages : h.numPages size = pages) (hfile : ∀ pg < pages, pg * bpPage < file.length)
    {k : Nat} : ∀ {pg : Nat} {p : Pool n}, pg + k = pages → Ready p → h.On p file rows →
      ∃ p', h.scanFrom size k p pg = .ok ((List.range' pg k).flatMap fun pg => cells size (pageAt file pg), p')
        ∧ Ready p' ∧
        SameFiles p p' := by
  induction k with
  | zero =>
    intro pg p _ hR _
    exact ⟨p, rfl, hR, rfl, rfl⟩
  | succ k ih =>
    intro pg p hk hR hO
    have hlt : (pg : Int) < h.numPages size := by
      rw [hpages]
      omega
    have hpg : pg < pages := by omega
    have hnext : pg + 1 + k = pages := by omega
    obtain ⟨p₁, p₂, hpin, hunpin, hR₂, hsame⟩ := pinPage_spec hR hO hlt (hfile pg hpg)
    obtain ⟨p₃, hrest, hR₃, hsame'⟩ := ih hnext hR₂ (hO.same hsame)
    refine ⟨p₃, ?_, hR₃, hsame.trans hsame'⟩
    rw [Nat.cast_add, Nat.cast_one] at hrest
    rw [scanFrom, if_pos hlt]
    rw [List.range'_succ, List.flatMap_cons]
    simp only [hpin, hunpin, hrest, take_count]

/-- **A scan** delivers every value that a page has room for. -/
theorem scan_spec (hR : Ready p) (hO : h.On p file rows) {pages : Nat} (hpages : h.numPages size = pages)
    (hfile : ∀ pg < pages, pg * bpPage < file.length) :
    ∃ p', h.scan size p = .ok ((List.range pages).flatMap fun pg => cells size (pageAt file pg), p') ∧ Ready p' ∧
      SameFiles p p' := by
  obtain ⟨p', hscan, hR', hsame⟩ := scanFrom_spec hpages hfile (Nat.zero_add _) hR hO
  refine ⟨p', ?_, hR', hsame⟩
  rw [Nat.cast_zero] at hscan
  rw [scan, hpages, Int.toNat_natCast, List.range_eq_range', hscan]

end ColumnHandle

end SynnoDB.Ssd
