import Mathlib.Data.String.Basic
import SynnoDB.Router.Truncated

/-!
# What a truncated ranking may answer

`TopQuery` is what `ORDER BY k LIMIT n OFFSET m` ranks: rows with exact keys, in any linear order of the key tuples. A
legal answer is the window of any ranking of the rows (`Answer`). Whatever pool `candidateSuperset` returns, the
cross-check accepts only rows that are, within tolerance in the floating columns, a legal answer; and it accepts every
legal answer whose floating columns hold nulls and numbers (`truncated_verdict`).
-/

namespace SynnoDB.Router

open List Pairing

variable {κ : Type} [LinearOrder κ]

structure TopQuery (κ : Type) [LinearOrder κ] where
  width : Nat
  all : List Row
  rect : ∀ r ∈ all, r.length = width
  keys : List Nat
  keys_lt : ∀ i ∈ keys, i < width
  exact_keys : ∀ r ∈ all, ∀ i ∈ keys, (r.getD i .null).isFloat = false
  /-- The place of a key tuple in the order, each number in one spelling. -/
  worth : Row → κ
  worth_inj : Function.Injective worth
  limit : Nat
  offset : Nat

namespace TopQuery

variable (q : TopQuery κ)

def rank (r : Row) : κ := q.worth ((pick q.keys r).map canon)

abbrev Ranked (l : List Row) : Prop := Ranking q.rank q.all l

/-- Row by row related to the window of a ranking. -/
def Answer (rel : Row → Row → Prop) (rows : List Row) : Prop :=
  ∃ l, q.Ranked l ∧ Forall₂ rel rows (window q.offset q.limit l)

/-- The result of the query itself, and the top of a ranking for every widened query that is answered. -/
structure Reference where
  table : ArrowTable
  width_eq : table.width = q.width
  answer : q.Answer Eq table.rows
  full : table.rows.length = q.limit
  fetchWidened : Nat → Option Table
  fetch_top : ∀ N t, fetchWidened N = some t → ∃ l, q.Ranked l ∧ t.rows = l.take N

variable {q}

def Reference.candidates (ref : q.Reference) (floatOfStr : String → Option PyFloat) (tol : Rat) : Option (List Row) :=
  candidateSuperset floatOfStr tol ref.table.toTable q.keys (some q.limit) q.offset ref.fetchWidened

def Reference.accepts (ref : q.Reference) (floatOfStr : String → Option PyFloat) (tol : Rat) (pool : List Row)
    (engine : ArrowTable) : Bool :=
  resultsEqualTop floatOfStr tol true (some q.keys) (some q.limit) (some pool) engine.toTable ref.table.toTable

variable (q) in
/-- No key cell is a float. -/
def ExactKeys (rows : List Row) : Prop := ∀ r ∈ rows, ∀ i ∈ q.keys, (r.getD i .null).isFloat = false

/-! ## The keys -/

variable {floatOfStr : String → Option PyFloat} {tol : Rat} {r s : Row} {rows rows' pool : List Row}

theorem ExactKeys.of_subset (h : q.ExactKeys rows') (hsub : ∀ r ∈ rows, r ∈ rows') : q.ExactKeys rows :=
  fun r hr => h r (hsub r hr)

theorem ExactKeys.cells (h : q.ExactKeys rows) (hr : r ∈ rows) : ∀ c ∈ pick q.keys r, c.isFloat = false := by
  intro c hc
  obtain ⟨i, hi, rfl⟩ := mem_map.1 hc
  exact h r hr i hi

theorem rank_eq_iff : q.rank r = q.rank s ↔ (pick q.keys r).map canon = (pick q.keys s).map canon :=
  q.worth_inj.eq_iff

theorem rowEqual_keys_iff (h : q.ExactKeys rows) (h' : q.ExactKeys rows') (hr : r ∈ rows) (hs : s ∈ rows') :
    rowEqual floatOfStr tol (pick q.keys r) (pick q.keys s) = true ↔ q.rank r = q.rank s := by
  rw [rowEqual_iff (h.cells hr) (h'.cells hs), rank_eq_iff]

/-- The positional comparison of the keys. -/
theorem keys_compare_iff (h : q.ExactKeys rows) (h' : q.ExactKeys rows') (hlen : rows.length = rows'.length) :
    ((rows.zip rows').all fun (a, b) => rowEqual floatOfStr tol (pick q.keys a) (pick q.keys b)) = true ↔
      rows.map q.rank = rows'.map q.rank := by
  rw [zip_all_iff hlen, ← forall₂_eq_eq_eq, forall₂_map_left_iff, forall₂_map_right_iff, forall₂_iff_zip,
    forall₂_iff_zip]
  refine and_congr_right fun _ => ?_
  constructor
  · intro hall a b hab
    exact (rowEqual_keys_iff h h' (of_mem_zip hab).1 (of_mem_zip hab).2).1 (hall hab)
  · intro hall a b hab
    exact (rowEqual_keys_iff h h' (of_mem_zip hab).1 (of_mem_zip hab).2).2 (hall hab)

theorem rank_of_same (h : q.ExactKeys rows) (hr : r ∈ rows) (hs : s ∈ rows) (hrs : Same r s) : q.rank r = q.rank s := by
  refine rank_eq_iff.2 ?_
  unfold pick
  rw [map_map, map_map]
  exact map_congr_left fun i hi => canon_of_same hrs (h r hr i hi) (h s hs i hi)

/-- Exact keys are exact columns. -/
theorem rank_of_near (h : q.ExactKeys rows) (hrs : Near floatOfStr tol q.width rows r s) : q.rank r = q.rank s := by
  have hexact : ∀ i ∈ q.keys, i ∈ exactColumns q.width rows := by
    intro i hi
    refine mem_filter.2 ⟨mem_range.2 (q.keys_lt i hi), ?_⟩
    rw [decide_eq_true_eq]
    intro hfloat
    obtain ⟨t, ht, hcell⟩ := any_eq_true.1 (mem_filter.1 hfloat).2
    rw [h t ht i hi] at hcell
    cases hcell
  refine rank_eq_iff.2 ?_
  unfold pick
  rw [map_map, map_map]
  exact map_congr_left fun i hi => exactKey_eq_iff.1 hrs.1 i (hexact i hi)

/-! ## The reference -/

namespace Reference

variable (ref : q.Reference)

theorem exists_window : ∃ l, q.Ranked l ∧ ref.table.rows = window q.offset q.limit l := by
  obtain ⟨l, hl, hrows⟩ := ref.answer
  exact ⟨l, hl, by rwa [forall₂_eq_eq_eq] at hrows⟩

theorem subset_all : ∀ r ∈ ref.table.rows, r ∈ q.all := by
  obtain ⟨l, hl, hrows⟩ := ref.exists_window
  intro r hr
  rw [hrows] at hr
  exact hl.perm.subset (drop_subset _ _ (take_subset _ _ hr))

/-- The keys of every legal answer. -/
theorem keys_eq : ref.table.rows.map q.rank = window q.offset q.limit (ranks q.rank q.all) := by
  obtain ⟨l, hl, hrows⟩ := ref.exists_window
  rw [hrows, window_map, hl.keys]

theorem full_le (hne : ref.table.rows ≠ []) : q.offset + q.limit ≤ q.all.length := by
  have hlen := congrArg length ref.keys_eq
  rw [length_map, ref.full, window, length_take, length_drop, length_ranks] at hlen
  have hpos := length_pos_iff.2 hne
  rw [ref.full] at hpos
  omega

/-- **The pool is complete**: it holds every part of the rows that has the keys of the window. -/
theorem pool_complete (hpool : ref.candidates floatOfStr tol = some pool) {part : List Row} (hpart : part <+~ q.all)
    (hkeys : part.map q.rank = window q.offset q.limit (ranks q.rank q.all)) : part <+~ pool := by
  obtain ⟨hne, -, -, N, t, hN, hfetch, rfl, hpoolne, hend⟩ := candidateSuperset_some hpool
  obtain ⟨l, hl, htop⟩ := ref.fetch_top N t hfetch
  obtain ⟨front, z, hz⟩ : ∃ front z, ref.table.rows = front ++ [z] := eq_nil_or_concat' _ |>.resolve_left hne
  have hsorted : (window q.offset q.limit (ranks q.rank q.all)).Pairwise (· ≤ ·) :=
    (ranks_pairwise q.rank q.all).sublist ((take_sublist _ _).trans (drop_sublist _ _))
  have hlast : (window q.offset q.limit (ranks q.rank q.all)).getLast? = some (q.rank z) := by
    rw [← ref.keys_eq, hz]
    simp
  have hle : ∀ x ∈ part, q.rank x ≤ q.rank z := fun x hx =>
    le_getLast hsorted hlast (hkeys ▸ mem_map_of_mem hx)
  rw [htop]
  refine subperm_top hl hpart hle ?_
  rcases hend with hshort | hdiffers
  · rw [htop, length_take] at hshort
    exact .inl (by omega)
  · -- The widened top is full and ends on another key, which comes after the window's last.
    obtain ⟨front', y, hy⟩ : ∃ front' y, t.rows = front' ++ [y] := eq_nil_or_concat' _ |>.resolve_left hpoolne
    have hgetLast : (l.take N).getLast? = some y := by
      rw [← htop, hy]
      simp
    refine .inr ⟨y, hgetLast, lt_of_le_of_ne ?_ ?_⟩
    · have htopSorted : ((ranks q.rank q.all).take N).Pairwise (· ≤ ·) :=
        (ranks_pairwise q.rank q.all).sublist (take_sublist _ _)
      have htopLast : ((ranks q.rank q.all).take N).getLast? = some (q.rank y) := by
        rw [← hl.keys, ← map_take, getLast?_map, hgetLast]
        rfl
      rw [ref.full] at hN
      exact le_getLast htopSorted htopLast (mem_take_of_mem_window (mem_of_getLast? hlast) hN)
    · intro heq
      have hymem : y ∈ q.all := hl.perm.subset (take_subset _ _ (mem_of_getLast? hgetLast))
      have hzmem : z ∈ q.all := ref.subset_all z (by simp [hz])
      have hequal : rowEqual floatOfStr tol (pick q.keys y) (pick q.keys z) = true :=
        (rowEqual_keys_iff q.exact_keys q.exact_keys hymem hzmem).2 heq.symm
      rw [hy, hz] at hdiffers
      simp [hequal] at hdiffers

/-! ## The verdict -/

variable {ref} {engine : ArrowTable}

theorem accepts_iff (hpool : ref.candidates floatOfStr tol = some pool) (hwidth : engine.width = q.width)
    (hkeys : q.ExactKeys engine.rows) : ref.accepts floatOfStr tol pool engine = true ↔
      engine.rows.map q.rank = ref.table.rows.map q.rank ∧
        multisetContained floatOfStr tol engine.rows pool = true := by
  obtain ⟨-, hne, -, -⟩ := candidateSuperset_some hpool
  have hcolumns : engine.columnNames.length = ref.table.columnNames.length := hwidth.trans ref.width_eq.symm
  have hrefKeys : q.ExactKeys ref.table.rows := ExactKeys.of_subset q.exact_keys ref.subset_all
  unfold accepts resultsEqualTop
  rw [if_neg (not_not.2 hcolumns)]
  by_cases hlen : engine.rows.length = ref.table.rows.length
  · have hcompare : ((engine.rows.zip ref.table.rows).all fun (a, b) =>
          rowEqual floatOfStr tol (pick q.keys a) (pick q.keys b)) = true ↔
        engine.rows.map q.rank = ref.table.rows.map q.rank := keys_compare_iff hkeys hrefKeys hlen
    rw [if_neg (not_not.2 hlen), ← hcompare, ← Bool.and_eq_true]
    obtain ⟨k, ks, hcons⟩ := exists_cons_of_ne_nil hne
    simp only [hcons, ref.full, Bool.not_true, Bool.false_eq_true, if_false, if_true]
  · rw [if_pos hlen]
    refine iff_of_false Bool.false_ne_true fun h => hlen ?_
    simpa using congrArg length h.1

theorem pool_subset (hpool : ref.candidates floatOfStr tol = some pool) : pool <+~ q.all := by
  obtain ⟨-, -, -, N, t, -, hfetch, rfl, -, -⟩ := candidateSuperset_some hpool
  obtain ⟨l, hl, htop⟩ := ref.fetch_top N t hfetch
  rw [htop]
  exact (take_sublist N l).subperm.trans hl.perm.subperm

/-- Rows of one key sequence with the window's, related to rows of the ranking of their own, answer the query. -/
theorem answer_of_embeds {rel : Row → Row → Prop} (hpool : ref.candidates floatOfStr tol = some pool)
    (h : Embeds rel engine.rows pool) (hrank : ∀ r ∈ engine.rows, ∀ s ∈ pool, rel r s → q.rank r = q.rank s)
    (hkeys : engine.rows.map q.rank = ref.table.rows.map q.rank) : q.Answer rel engine.rows := by
  obtain ⟨part, hpart, hrel⟩ := h
  have hsame : engine.rows.map q.rank = part.map q.rank := by
    rw [← forall₂_eq_eq_eq, forall₂_map_left_iff, forall₂_map_right_iff, forall₂_iff_zip]
    refine ⟨hrel.length_eq, fun {r s} hrs => ?_⟩
    have hmem := of_mem_zip hrs
    exact hrank r hmem.1 s (hpart.subset hmem.2) ((forall₂_iff_zip.1 hrel).2 hrs)
  have hwindow := hsame.symm.trans (hkeys.trans ref.keys_eq)
  have hne := (candidateSuperset_some hpool).1
  obtain ⟨l, hl, rfl⟩ := (exists_ranking_iff (hpart.trans (pool_subset hpool)) (ref.full_le hne)).2 hwindow
  exact ⟨l, hl, hrel⟩

/-- What is accepted is near a legal answer. -/
theorem answer_of_accepts (hpool : ref.candidates floatOfStr tol = some pool) (hwidth : engine.width = q.width)
    (hkeys : q.ExactKeys engine.rows) (h : ref.accepts floatOfStr tol pool engine = true) :
    q.Answer (Near floatOfStr tol q.width (engine.rows ++ pool)) engine.rows := by
  obtain ⟨hranks, hcontained⟩ := (accepts_iff hpool hwidth hkeys).1 h
  have hexact : q.ExactKeys (engine.rows ++ pool) := by
    intro r hr
    rcases mem_append.1 hr with hr | hr
    · exact hkeys r hr
    · exact q.exact_keys r ((pool_subset hpool).subset hr)
  have hembeds := multisetContained_sound (fun r hr => (engine.rect r hr).trans hwidth) hcontained
  exact answer_of_embeds hpool hembeds (fun r _ s _ hrs => rank_of_near hexact hrs) hranks

/-- The floating columns hold nulls, bools, ints and floats other than NaN. -/
def PlainRows (w : Nat) (rows : List Row) : Prop := ∀ r ∈ rows, ∀ c ∈ floatVec w rows r, c.Plain

theorem PlainRows.of_subset {w : Nat} (h : PlainRows w rows') (hsub : ∀ r ∈ rows, r ∈ rows') : PlainRows w rows := by
  intro r hr c hc
  obtain ⟨i, hi, rfl⟩ := mem_map.1 hc
  obtain ⟨hw, hany⟩ := mem_filter.1 hi
  obtain ⟨s, hs, hcell⟩ := any_eq_true.1 hany
  exact h r (hsub r hr) _ (mem_map.2 ⟨i, mem_filter.2 ⟨hw, any_eq_true.2 ⟨s, hsub s hs, hcell⟩⟩, rfl⟩)

/-- A legal answer with plain floating columns is accepted. -/
theorem accepts_of_answer (hpool : ref.candidates floatOfStr tol = some pool) (hwidth : engine.width = q.width)
    (hkeys : q.ExactKeys engine.rows) (hplain : PlainRows q.width (engine.rows ++ q.all))
    (h : q.Answer Same engine.rows) : ref.accepts floatOfStr tol pool engine = true := by
  obtain ⟨l, hl, hsame⟩ := h
  have hpart : window q.offset q.limit l <+~ q.all := hl.window_subperm
  have hwindow : (window q.offset q.limit l).map q.rank = window q.offset q.limit (ranks q.rank q.all) := by
    rw [window_map, hl.keys]
  have hexact : q.ExactKeys (engine.rows ++ q.all) := by
    intro r hr
    rcases mem_append.1 hr with hr | hr
    · exact hkeys r hr
    · exact q.exact_keys r hr
  have hranks : engine.rows.map q.rank = (window q.offset q.limit l).map q.rank := by
    rw [← forall₂_eq_eq_eq, forall₂_map_left_iff, forall₂_map_right_iff, forall₂_iff_zip]
    refine ⟨hsame.length_eq, fun {r s} hrs => ?_⟩
    have hmem := of_mem_zip hrs
    exact rank_of_same hexact (mem_append_left _ hmem.1) (mem_append_right _ (hpart.subset hmem.2))
      ((forall₂_iff_zip.1 hsame).2 hrs)
  have hembeds : Embeds Same engine.rows pool := ⟨_, ref.pool_complete hpool hpart hwindow, hsame⟩
  have hplain : PlainRows q.width (engine.rows ++ pool) := hplain.of_subset fun r hr => by
    rcases mem_append.1 hr with hr | hr
    · exact mem_append_left _ hr
    · exact mem_append_right _ ((pool_subset hpool).subset hr)
  refine (accepts_iff hpool hwidth hkeys).2 ⟨hranks.trans (hwindow.trans ref.keys_eq.symm), ?_⟩
  refine multisetContained_complete (fun r hr => (engine.rect r hr).trans hwidth) ?_ fun r hr s hs hrs => ?_
  · refine hembeds.mono fun r hr s hs hrs => sameRank_of_same hrs (mem_append_left _ hr) (mem_append_right _ hs) ?_ ?_
    · exact hplain r (mem_append_left _ hr)
    · exact hplain s (mem_append_right _ hs)
  · exact vecClose_of_sameRank (hplain r (mem_append_left _ hr)) (hplain s (mem_append_right _ hs)) hrs

theorem floatColumns_of_exact {w : Nat} (h : ∀ r ∈ rows, ∀ c ∈ r, c.isFloat = false) : floatColumns w rows = [] := by
  refine filter_eq_nil_iff.2 fun i _ => ?_
  rw [Bool.not_eq_true, any_eq_false]
  intro r hr
  rw [Bool.not_eq_true, getD_eq_getElem?_getD]
  cases hget : r[i]? with
  | none => rfl
  | some c => exact h r hr c (mem_of_getElem? hget)

/-- Without floats near rows are equal. -/
theorem same_of_near {w : Nat} (hcolumns : floatColumns w rows = []) (hr : ∀ c ∈ r, c.isFloat = false)
    (hs : ∀ c ∈ s, c.isFloat = false) (hrw : r.length = w) (hsw : s.length = w)
    (h : Near floatOfStr tol w rows r s) : Same r s := by
  have hexact : exactColumns w rows = range w := by
    rw [exactColumns, hcolumns]
    simp
  have hpick : ∀ {r : Row}, r.length = w → pick (range w) r = r := fun hrw => by
    subst hrw
    exact map_getD_range _ _
  have hkey := h.1
  rw [exactKey, exactKey, hexact, hpick hrw, hpick hsw] at hkey
  exact (keyEq_iff hr hs).2 hkey

end Reference

/-- **The cross-check of a truncated ranking.** With exact keys, what is accepted is a legal answer up to the tolerance
in the floating columns; a legal answer is accepted where these hold nulls and numbers; so without floats the answers
that are accepted are the legal ones. -/
theorem truncated_verdict (q : TopQuery κ) (ref : q.Reference) (floatOfStr : String → Option PyFloat) (tol : Rat)
    (pool : List Row) (hpool : ref.candidates floatOfStr tol = some pool) (engine : ArrowTable)
    (hwidth : engine.width = q.width) (hkeys : q.ExactKeys engine.rows) :
    (ref.accepts floatOfStr tol pool engine = true →
        q.Answer (Near floatOfStr tol q.width (engine.rows ++ pool)) engine.rows) ∧
      (Reference.PlainRows q.width (engine.rows ++ q.all) → q.Answer Same engine.rows →
        ref.accepts floatOfStr tol pool engine = true) ∧
      ((∀ r ∈ engine.rows ++ q.all, ∀ c ∈ r, c.isFloat = false) →
        (ref.accepts floatOfStr tol pool engine = true ↔ q.Answer Same engine.rows)) := by
  refine ⟨Reference.answer_of_accepts hpool hwidth hkeys, Reference.accepts_of_answer hpool hwidth hkeys,
    fun hexact => ⟨fun h => ?_, fun h => ?_⟩⟩
  · obtain ⟨l, hl, hnear⟩ := Reference.answer_of_accepts hpool hwidth hkeys h
    refine ⟨l, hl, forall₂_iff_zip.2 ⟨hnear.length_eq, fun {r s} hrs => ?_⟩⟩
    obtain ⟨hr, hs⟩ := of_mem_zip hrs
    have hall : s ∈ q.all := hl.window_subperm.subset hs
    have hcolumns : floatColumns q.width (engine.rows ++ pool) = [] := by
      refine Reference.floatColumns_of_exact fun t ht => ?_
      rcases mem_append.1 ht with ht | ht
      · exact hexact t (mem_append_left _ ht)
      · exact hexact t (mem_append_right _ ((Reference.pool_subset hpool).subset ht))
    exact Reference.same_of_near hcolumns (hexact r (mem_append_left _ hr)) (hexact s (mem_append_right _ hall))
      ((engine.rect r hr).trans hwidth) (q.rect s hall) ((forall₂_iff_zip.1 hnear).2 hrs)
  · refine Reference.accepts_of_answer hpool hwidth hkeys (fun r hr c hc => ?_) h
    rw [floatVec, Reference.floatColumns_of_exact hexact] at hc
    exact absurd hc not_mem_nil

/-! ## A ranking with a tie at the cut -/

abbrev CellCode := Nat ×ₗ Rat ×ₗ String

def code (kind : Nat) (value : Rat) (text : String) : CellCode := toLex (kind, toLex (value, text))

/-- An order of all cells: by kind, then by value. -/
def cellCode : Cell → CellCode
  | .null => code 0 0 ""
  | .bool b => code 1 (if b then 1 else 0) ""
  | .int i => code 2 i ""
  | .decimal d => code 3 d ""
  | .float .nan => code 4 0 ""
  | .float (.inf true) => code 5 0 ""
  | .float (.fin f) => code 6 f ""
  | .float (.inf false) => code 7 0 ""
  | .str t => code 8 0 t
  | .date d => code 9 d ""

def cellOfCode (c : CellCode) : Cell :=
  match (ofLex c).1 with
  | 1 => .bool ((ofLex (ofLex c).2).1 = 1)
  | 2 => .int (ofLex (ofLex c).2).1.num
  | 3 => .decimal (ofLex (ofLex c).2).1
  | 4 => .float .nan
  | 5 => .float (.inf true)
  | 6 => .float (.fin (ofLex (ofLex c).2).1)
  | 7 => .float (.inf false)
  | 8 => .str (ofLex (ofLex c).2).2
  | 9 => .date (ofLex (ofLex c).2).1.num
  | _ => .null

theorem cellOfCode_cellCode (c : Cell) : cellOfCode (cellCode c) = c := by
  cases c with
  | bool b => cases b <;> rfl
  | float f => cases f with
    | inf s => cases s <;> rfl
    | _ => rfl
  | _ => rfl

theorem cellCode_injective : Function.Injective cellCode := Function.LeftInverse.injective cellOfCode_cellCode

/-- `ORDER BY x LIMIT 1` over two rows that tie. -/
def tied : TopQuery (List CellCode) where
  width := 2
  all := [[.int 1, .str "a"], [.int 1, .str "b"]]
  rect := by decide
  keys := [0]
  keys_lt := by decide
  exact_keys := by decide
  worth := map cellCode
  worth_inj := map_injective_iff.2 cellCode_injective
  limit := 1
  offset := 0

def table (rows : List Row) (h : ∀ r ∈ rows, r.length = 2) : ArrowTable where
  columnNames := ["x", "y"]
  rows := rows
  rect := h

theorem tied_ranked : tied.Ranked tied.all := ⟨.refl _, by simp [tied, rank, pick]⟩

/-- The database answers with the first row. -/
def tiedReference : tied.Reference where
  table := table [[.int 1, .str "a"]] (by decide)
  width_eq := rfl
  answer := ⟨tied.all, tied_ranked, forall₂_same.2 fun _ _ => rfl⟩
  full := rfl
  fetchWidened N := some (table (tied.all.take N) fun r hr => tied.rect r (take_subset _ _ hr)).toTable
  fetch_top N t ht := ⟨tied.all, tied_ranked, by cases ht; rfl⟩

/-- And the engine with the other one. -/
theorem tied_accepted : tiedReference.accepts (fun _ => none) (1 / 1000000) tied.all
    (table [[.int 1, .str "b"]] (by decide)) = true := by
  have hpool : tiedReference.candidates (fun _ => none) (1 / 1000000) = some tied.all := by decide +kernel
  have hkeys : tied.ExactKeys [[.int 1, .str "b"]] := by
    unfold ExactKeys
    decide
  refine ((truncated_verdict tied tiedReference _ _ _ hpool (table [[.int 1, .str "b"]] (by decide)) rfl hkeys).2.2
    (by decide)).2 ?_
  refine ⟨[[.int 1, .str "b"], [.int 1, .str "a"]], ⟨.swap _ _ _, by simp [rank, pick, tied]⟩, ?_⟩
  exact .cons (by decide) .nil

/-- `ORDER BY x LIMIT 1` over one row with a float. -/
def single : TopQuery (List CellCode) where
  width := 2
  all := [[.int 1, .float (.fin 1)]]
  rect := by decide
  keys := [0]
  keys_lt := by decide
  exact_keys := by decide
  worth := map cellCode
  worth_inj := map_injective_iff.2 cellCode_injective
  limit := 1
  offset := 0

theorem single_ranked : single.Ranked single.all := ⟨.refl _, by simp [single]⟩

def singleReference : single.Reference where
  table := table single.all single.rect
  width_eq := rfl
  answer := ⟨single.all, single_ranked, forall₂_same.2 fun _ _ => rfl⟩
  full := rfl
  fetchWidened N := some (table (single.all.take N) fun r hr => single.rect r (take_subset _ _ hr)).toTable
  fetch_top N t ht := ⟨single.all, single_ranked, by cases ht; rfl⟩

/-- Within the tolerance another float is accepted, and it is no legal answer. -/
theorem tolerated : singleReference.candidates (fun _ => none) (1 / 1000000) = some single.all ∧
    singleReference.accepts (fun _ => none) (1 / 1000000) single.all
      (table [[.int 1, .float (.fin (10000001 / 10000000))]] (by decide)) = true ∧
    ¬ single.Answer Same [[.int 1, .float (.fin (10000001 / 10000000))]] := by
  refine ⟨by decide +kernel, by decide +kernel, ?_⟩
  rintro ⟨l, hl, hsame⟩
  have hone : l = single.all := perm_singleton.1 hl.perm
  subst hone
  cases hsame with
  | cons hrow _ => exact absurd hrow (by decide +kernel)

end TopQuery

end SynnoDB.Router
