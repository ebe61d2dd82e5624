import SynnoDB.Lib.Occurs

/-!
# Patterns that a mark opens

A pattern that begins with a mark and has it nowhere else (`Opened`) overlaps neither itself nor another such
pattern, so texts can be cut before a mark: what is counted and replaced in the parts is what is counted and
replaced in the whole. **Where the parts of any cut count as much as the whole, they are replaced one by one**
(`replaceAll_append`).
-/

namespace Occurs

variable {α : Type*}

/-- The pattern begins with the mark and has it nowhere else. -/
def Opened (mark : α) (pat : List α) : Prop := ∃ tl, pat = mark :: tl ∧ mark ∉ tl

variable {pat new s x y : List α} {c mark : α}

theorem Opened.ne_nil (h : Opened mark pat) : pat ≠ [] := by
  obtain ⟨tl, rfl, -⟩ := h
  exact List.cons_ne_nil _ _

theorem drop_pattern (hpat : pat = c :: x) (s : List α) : (x ++ s).drop (pat.length - 1) = s := by
  rw [hpat, List.length_cons, Nat.add_sub_cancel, List.drop_left]

/-- A pattern at the start of two parts is within the first, or ends in the second and leaves no mark before its end. -/
theorem Opened.straddles (h : Opened mark pat) (hp : pat <+: c :: x ++ y) :
    (∃ x', c :: x = pat ++ x') ∨
      ∃ t y', y = t ++ y' ∧ pat = c :: x ++ t ∧ t ≠ [] ∧ mark ∉ t ∧ c :: x ++ y = pat ++ y' := by
  obtain ⟨z, hz⟩ := hp
  rcases List.append_eq_append_iff.1 hz.symm with ⟨t, ht, hy⟩ | ⟨x', hx, -⟩
  · by_cases hnil : t = []
    · subst hnil
      rw [List.append_nil] at ht
      exact .inl ⟨[], by rw [ht, List.append_nil]⟩
    · refine .inr ⟨t, z, hy, ht, hnil, fun hmem => ?_, hz.symm⟩
      obtain ⟨tl, htl, hnotin⟩ := h
      rw [htl] at ht
      have htl' : tl = x ++ t := (List.cons.inj ht).2
      exact hnotin (htl' ▸ List.mem_append_right x hmem)
  · exact .inl ⟨x', hx⟩

section
variable [DecidableEq α]

/-! ## One step at a time -/

theorem count_skip : ∀ (skip : Nat) (s : List α), count pat skip s = count pat 0 (s.drop skip)
  | 0, s => by rw [List.drop_zero]
  | skip + 1, [] => rfl
  | skip + 1, c :: s => count_skip skip s

theorem replaceAll_skip : ∀ (skip : Nat) (s : List α), replaceAll pat new skip s = replaceAll pat new 0 (s.drop skip)
  | 0, s => by rw [List.drop_zero]
  | skip + 1, [] => rfl
  | skip + 1, c :: s => replaceAll_skip skip s

theorem count_cons (h : ¬pat <+: c :: s) : count pat 0 (c :: s) = count pat 0 s := by
  rw [count, if_neg fun hp => h (List.isPrefixOf_iff_prefix.1 hp)]

theorem replaceAll_cons (h : ¬pat <+: c :: s) : replaceAll pat new 0 (c :: s) = c :: replaceAll pat new 0 s := by
  rw [replaceAll, if_neg fun hp => h (List.isPrefixOf_iff_prefix.1 hp)]

theorem count_pattern (hpat : pat ≠ []) (s : List α) : count pat 0 (pat ++ s) = count pat 0 s + 1 := by
  obtain ⟨c, x, hcx⟩ := List.exists_cons_of_ne_nil hpat
  have happend : pat ++ s = c :: (x ++ s) := by rw [hcx, List.cons_append]
  rw [happend, count, if_pos, count_skip, drop_pattern hcx]
  exact List.isPrefixOf_iff_prefix.2 ⟨s, happend⟩

theorem replaceAll_pattern (hpat : pat ≠ []) (s : List α) : replaceAll pat new 0 (pat ++ s) =
    new ++ replaceAll pat new 0 s := by
  obtain ⟨c, x, hcx⟩ := List.exists_cons_of_ne_nil hpat
  have happend : pat ++ s = c :: (x ++ s) := by rw [hcx, List.cons_append]
  rw [happend, replaceAll, if_pos, replaceAll_skip, drop_pattern hcx]
  exact List.isPrefixOf_iff_prefix.2 ⟨s, happend⟩

theorem count_eq_zero (hpat : pat ≠ []) : count pat 0 s = 0 ↔ ∀ i, ¬At pat s i := by
  rw [← Nat.not_lt.trans Nat.le_zero, count_pos hpat]
  simp

theorem replaceAll_of_count_eq_zero : ∀ {s : List α}, count pat 0 s = 0 → replaceAll pat new 0 s = s
  | [], _ => rfl
  | c :: s, h => by
    by_cases hp : pat <+: c :: s
    · rw [count, if_pos (List.isPrefixOf_iff_prefix.2 hp)] at h
      cases h
    · rw [count_cons hp] at h
      rw [replaceAll_cons hp, replaceAll_of_count_eq_zero h]

/-- The first occurrence. -/
theorem exists_first (hpat : pat ≠ []) : ∀ {s : List α}, 0 < count pat 0 s →
    ∃ a b, s = a ++ (pat ++ b) ∧ count pat 0 a = 0 ∧ count pat 0 s = count pat 0 b + 1
  | [], h => by cases h
  | c :: s, h => by
    by_cases hp : pat <+: c :: s
    · obtain ⟨b, hb⟩ := hp
      exact ⟨[], b, hb.symm, rfl, by rw [← hb, count_pattern hpat]⟩
    · rw [count_cons hp] at h ⊢
      obtain ⟨a, b, rfl, ha, hb⟩ := exists_first hpat h
      refine ⟨c :: a, b, rfl, ?_, hb⟩
      rw [count_cons, ha]
      exact fun hpa => hp (hpa.trans (List.prefix_append (c :: a) _))

/-! ## Cuts -/

/-- A part without the mark does not count. -/
theorem Opened.count_of_notMem (h : Opened mark pat) : ∀ {x : List α}, mark ∉ x → count pat 0 (x ++ y) = count pat 0 y
  | [], _ => rfl
  | c :: x, hx => by
    rw [List.mem_cons, not_or] at hx
    rw [List.cons_append, count_cons, h.count_of_notMem hx.2]
    obtain ⟨tl, rfl, -⟩ := h
    intro hp
    exact hx.1 (List.cons_prefix_cons.1 hp).1

theorem Opened.replaceAll_of_notMem (h : Opened mark pat) : ∀ {x : List α}, mark ∉ x →
    replaceAll pat new 0 (x ++ y) = x ++ replaceAll pat new 0 y
  | [], _ => rfl
  | c :: x, hx => by
    rw [List.mem_cons, not_or] at hx
    rw [List.cons_append, replaceAll_cons, h.replaceAll_of_notMem hx.2, List.cons_append]
    obtain ⟨tl, rfl, -⟩ := h
    intro hp
    exact hx.1 (List.cons_prefix_cons.1 hp).1

/-- **The parts count no more than the whole**, and where they count as much they are replaced one by one. -/
theorem Opened.append (h : Opened mark pat) (new y : List α) : ∀ x : List α,
    count pat 0 x + count pat 0 y ≤ count pat 0 (x ++ y) ∧
      (count pat 0 (x ++ y) = count pat 0 x + count pat 0 y →
        replaceAll pat new 0 (x ++ y) = replaceAll pat new 0 x ++ replaceAll pat new 0 y) := by
  intro x
  induction hlen : x.length using Nat.strong_induction_on generalizing x with
  | _ n ih =>
    cases x with
    | nil => exact ⟨by simp [count], fun _ => rfl⟩
    | cons c x =>
      by_cases hp : pat <+: c :: x ++ y
      · rcases h.straddles hp with ⟨x', hx⟩ | ⟨t, y', rfl, hpat, hne, hmark, hall⟩
        · have hshorter : x'.length < n := by
            rw [← hlen, hx, List.length_append]
            have := List.length_pos_iff.2 h.ne_nil
            omega
          obtain ⟨hle, hsplit⟩ := ih x'.length hshorter x' rfl
          rw [hx, List.append_assoc, count_pattern h.ne_nil, count_pattern h.ne_nil, replaceAll_pattern h.ne_nil,
            replaceAll_pattern h.ne_nil]
          refine ⟨by omega, fun heq => ?_⟩
          rw [hsplit (by omega), List.append_assoc]
        · -- an occurrence over the cut is one more
          have hfirst : count pat 0 (c :: x) = 0 := by
            rw [count_eq_zero h.ne_nil]
            intro i hat
            have hlength := hat.length_le h.ne_nil
            rw [hpat, List.length_append] at hlength
            have := List.length_pos_iff.2 hne
            omega
          have hrest : count pat 0 (t ++ y') = count pat 0 y' := h.count_of_notMem hmark
          rw [hall, count_pattern h.ne_nil, hfirst, hrest]
          exact ⟨by omega, fun heq => by omega⟩
      · have hfirst : ¬pat <+: c :: x := fun hpx => hp (hpx.trans (List.prefix_append _ _))
        obtain ⟨hle, hsplit⟩ := ih x.length (by rw [← hlen]; exact Nat.lt_succ_self _) x rfl
        have hp' : ¬pat <+: c :: (x ++ y) := hp
        rw [List.cons_append, count_cons hp', count_cons hfirst, replaceAll_cons hp', replaceAll_cons hfirst]
        exact ⟨hle, fun heq => by rw [hsplit heq, List.cons_append]⟩

theorem Opened.count_append_le (h : Opened mark pat) (x y : List α) :
    count pat 0 x + count pat 0 y ≤ count pat 0 (x ++ y) :=
  (h.append [] y x).1

theorem Opened.replaceAll_append (h : Opened mark pat) (heq : count pat 0 (x ++ y) = count pat 0 x + count pat 0 y) :
    replaceAll pat new 0 (x ++ y) = replaceAll pat new 0 x ++ replaceAll pat new 0 y := (h.append new y x).2 heq

/-- **A cut before a mark** goes through no occurrence. -/
theorem Opened.count_cut (h : Opened mark pat) (y : List α) : ∀ x : List α,
    count pat 0 (x ++ mark :: y) = count pat 0 x + count pat 0 (mark :: y) := by
  intro x
  induction hlen : x.length using Nat.strong_induction_on generalizing x with
  | _ n ih =>
    cases x with
    | nil => simp [count]
    | cons c x =>
      by_cases hp : pat <+: c :: x ++ mark :: y
      · rcases h.straddles hp with ⟨x', hx⟩ | ⟨t, y', ht, -, hne, hmark, -⟩
        · have hshorter : x'.length < n := by
            rw [← hlen, hx, List.length_append]
            have := List.length_pos_iff.2 h.ne_nil
            omega
          rw [hx, List.append_assoc, count_pattern h.ne_nil, count_pattern h.ne_nil, ih x'.length hshorter x' rfl]
          omega
        · obtain ⟨d, t', rfl⟩ := List.exists_cons_of_ne_nil hne
          rw [List.cons_append, List.cons.injEq] at ht
          exact absurd (List.mem_cons.2 (.inl ht.1)) hmark
      · have hfirst : ¬pat <+: c :: x := fun hpx => hp (hpx.trans (List.prefix_append _ _))
        have hp' : ¬pat <+: c :: (x ++ mark :: y) := hp
        rw [List.cons_append, count_cons hp', count_cons hfirst]
        exact ih x.length (by rw [← hlen]; exact Nat.lt_succ_self _) x rfl

theorem Opened.replaceAll_cut (h : Opened mark pat) (x y : List α) :
    replaceAll pat new 0 (x ++ mark :: y) = replaceAll pat new 0 x ++ replaceAll pat new 0 (mark :: y) :=
  h.replaceAll_append (h.count_cut y x)

/-- An element that ends no occurrence may be added. -/
theorem Opened.count_concat (h : Opened mark pat) (hc : pat.getLast? ≠ some c) (x : List α) :
    count pat 0 (x ++ [c]) = count pat 0 x := by
  induction hlen : x.length using Nat.strong_induction_on generalizing x with
  | _ n ih =>
    cases x with
    | nil =>
      show count pat 0 [c] = 0
      rw [count_cons, count]
      intro hp
      rcases List.prefix_cons_iff.1 hp with hnil | ⟨t, ht, hnil⟩
      · exact h.ne_nil hnil
      · rw [ht, List.prefix_nil.1 hnil] at hc
        exact hc rfl
    | cons d x =>
      by_cases hp : pat <+: d :: x ++ [c]
      · rcases h.straddles hp with ⟨x', hx⟩ | ⟨t, y', ht, hpat, hne, -, -⟩
        · have hshorter : x'.length < n := by
            rw [← hlen, hx, List.length_append]
            have := List.length_pos_iff.2 h.ne_nil
            omega
          rw [hx, List.append_assoc, count_pattern h.ne_nil, count_pattern h.ne_nil, ih x'.length hshorter x' rfl]
        · obtain ⟨e, t', rfl⟩ := List.exists_cons_of_ne_nil hne
          have hnil : t' = [] := by
            rw [List.cons_append, List.cons.injEq] at ht
            exact (List.append_eq_nil_iff.1 ht.2.symm).1
          subst hnil
          rw [List.cons_append, List.cons.injEq] at ht
          rw [hpat, List.getLast?_concat, ht.1] at hc
          exact absurd rfl hc
      · have hfirst : ¬pat <+: d :: x := fun hpx => hp (hpx.trans (List.prefix_append _ _))
        have hp' : ¬pat <+: d :: (x ++ [c]) := hp
        rw [List.cons_append, count_cons hp', count_cons hfirst]
        exact ih x.length (by rw [← hlen]; exact Nat.lt_succ_self _) x rfl

/-- A text up to its first occurrence. -/
theorem Opened.replaceAll_first (h : Opened mark pat) (hx : count pat 0 x = 0) :
    replaceAll pat new 0 (x ++ (pat ++ y)) = x ++ (new ++ replaceAll pat new 0 y) := by
  rw [← replaceAll_pattern h.ne_nil]
  obtain ⟨tl, rfl, -⟩ := id h
  rw [List.cons_append, h.replaceAll_cut, replaceAll_of_count_eq_zero hx]

/-! ## Two patterns -/

/-- Neither pattern begins with the other. -/
def Apart (pat pat' : List α) : Prop := ¬pat <+: pat' ∧ ¬pat' <+: pat

variable {pat' : List α} {w : α}

omit [DecidableEq α] in
theorem Apart.not_prefix (h : Apart pat pat') (y : List α) : ¬pat <+: pat' ++ y := by
  intro hp
  rcases List.prefix_or_prefix_of_prefix hp (List.prefix_append pat' y) with h' | h'
  · exact h.1 h'
  · exact h.2 h'

theorem Opened.count_between (h : Opened mark pat) (h' : Opened mark pat') (hapart : Apart pat pat') (x y : List α) :
    count pat 0 (x ++ (pat' ++ y)) = count pat 0 x + count pat 0 y := by
  obtain ⟨tl, rfl, hnotin⟩ := h'
  have hp : ¬pat <+: mark :: (tl ++ y) := hapart.not_prefix y
  rw [List.cons_append, h.count_cut, count_cons hp, h.count_of_notMem hnotin]

/-- Occurrences of one pattern are not lost where another is replaced. -/
theorem Opened.count_le_replaceAll (h : Opened mark pat) (h' : Opened mark pat') (hapart : Apart pat pat')
    (new : List α) :
    ∀ s : List α, count pat 0 s ≤ count pat 0 (replaceAll pat' new 0 s) := by
  intro s
  induction hn : count pat' 0 s using Nat.strong_induction_on generalizing s with
  | _ n ih =>
    by_cases hpos : 0 < count pat' 0 s
    · obtain ⟨a, b, rfl, ha, hb⟩ := exists_first h'.ne_nil hpos
      have hrest := ih (count pat' 0 b) (by omega) b rfl
      have hwhole := h.count_append_le a (new ++ replaceAll pat' new 0 b)
      have hend := h.count_append_le new (replaceAll pat' new 0 b)
      rw [h.count_between h' hapart, h'.replaceAll_first ha]
      omega
    · rw [replaceAll_of_count_eq_zero (Nat.eq_zero_of_not_pos hpos)]

/-- All occurrences are put between two `w`. -/
def wrap (w : α) (pat s : List α) : List α := replaceAll pat (w :: (pat ++ [w])) 0 s

theorem Opened.wrap_first (h : Opened mark pat) (hx : count pat 0 x = 0) :
    wrap w pat (x ++ (pat ++ y)) = x ++ [w] ++ (pat ++ w :: wrap w pat y) := by
  rw [wrap, h.replaceAll_first hx]
  simp [wrap]

theorem Opened.count_cons_ne (h : Opened mark pat) (hw : w ≠ mark) (s : List α) :
    count pat 0 (w :: s) = count pat 0 s :=
  h.count_of_notMem (x := [w]) (by simpa using Ne.symm hw)

/-- **Wrapping one pattern** leaves the others alone. -/
theorem Opened.count_wrap (h : Opened mark pat) (h' : Opened mark pat') (hapart : Apart pat pat') (hw : w ≠ mark)
    (hlast : pat.getLast? ≠ some w) : ∀ s : List α, count pat 0 (wrap w pat' s) = count pat 0 s := by
  intro s
  induction hn : count pat' 0 s using Nat.strong_induction_on generalizing s with
  | _ n ih =>
    by_cases hpos : 0 < count pat' 0 s
    · obtain ⟨a, b, rfl, ha, hb⟩ := exists_first h'.ne_nil hpos
      rw [h'.wrap_first ha, h.count_between h' hapart, h.count_between h' hapart, h.count_concat hlast,
        h.count_cons_ne hw,
        ih (count pat' 0 b) (by omega) b rfl]
    · rw [wrap, replaceAll_of_count_eq_zero (Nat.eq_zero_of_not_pos hpos)]

/-- Replacing what is wrapped puts the new part between two `w`. -/
theorem Opened.replaceAll_wrap (h : Opened mark pat) (hw : w ≠ mark) (hlast : pat.getLast? ≠ some w) (new : List α) :
    ∀ s : List α, replaceAll pat new 0 (wrap w pat s) = replaceAll pat (w :: (new ++ [w])) 0 s := by
  intro s
  induction hn : count pat 0 s using Nat.strong_induction_on generalizing s with
  | _ n ih =>
    by_cases hpos : 0 < count pat 0 s
    · obtain ⟨a, b, rfl, ha, hb⟩ := exists_first h.ne_nil hpos
      have ha' : count pat 0 (a ++ [w]) = 0 := by rw [h.count_concat hlast, ha]
      have hrest : replaceAll pat new 0 (w :: wrap w pat b) = w :: replaceAll pat new 0 (wrap w pat b) :=
        h.replaceAll_of_notMem (x := [w]) (by simpa using Ne.symm hw)
      rw [h.wrap_first ha, h.replaceAll_first ha', hrest, ih (count pat 0 b) (by omega) b rfl, h.replaceAll_first ha]
      simp
    · have hzero := Nat.eq_zero_of_not_pos hpos
      rw [wrap, replaceAll_of_count_eq_zero hzero, replaceAll_of_count_eq_zero hzero, replaceAll_of_count_eq_zero hzero]

/-- **Wrapping one pattern and replacing another commute** where the replacement adds no occurrence of the first. -/
theorem Opened.replaceAll_wrap_comm (h : Opened mark pat) (h' : Opened mark pat') (hapart : Apart pat pat')
    (hapart' : Apart pat' pat)
    (hw : w ≠ mark) (hlast : pat'.getLast? ≠ some w) (new : List α) : ∀ s : List α,
    count pat 0 (replaceAll pat' new 0 s) = count pat 0 s →
      replaceAll pat' new 0 (wrap w pat s) = wrap w pat (replaceAll pat' new 0 s) := by
  intro s
  induction hn : count pat' 0 s using Nat.strong_induction_on generalizing s with
  | _ n ih =>
    intro hcount
    by_cases hpos : 0 < count pat' 0 s
    · obtain ⟨a, b, rfl, ha, hb⟩ := exists_first h'.ne_nil hpos
      have hmono := h.count_le_replaceAll h' hapart new b
      have hwhole := h.count_append_le a (new ++ replaceAll pat' new 0 b)
      have hend := h.count_append_le new (replaceAll pat' new 0 b)
      rw [h'.replaceAll_first ha, h.count_between h' hapart] at hcount
      -- the wrapped text has its first occurrence where the text has
      have hsplit : wrap w pat (a ++ (pat' ++ b)) = wrap w pat a ++ (pat' ++ wrap w pat b) := by
        have hcut : count pat 0 (a ++ (pat' ++ b)) = count pat 0 a + count pat 0 (pat' ++ b) := by
          have := h.count_between h' hapart [] b
          rw [h.count_between h' hapart]
          simpa [count] using this.symm
        have hcut' : count pat 0 (pat' ++ b) = count pat 0 pat' + count pat 0 b := by
          have hfull := h.count_between h' hapart [] b
          have hpat' := h.count_between h' hapart [] []
          simp only [List.nil_append, List.append_nil, count, Nat.zero_add] at hfull hpat'
          omega
        have hself : count pat 0 pat' = 0 := by
          have hpat' := h.count_between h' hapart [] []
          simpa [count] using hpat'
        rw [wrap, h.replaceAll_append hcut, h.replaceAll_append hcut', replaceAll_of_count_eq_zero hself]
        rfl
      have ha' : count pat' 0 (wrap w pat a) = 0 := by rw [h'.count_wrap h hapart' hw hlast, ha]
      have hnew : count pat 0 new = 0 := by omega
      rw [hsplit, h'.replaceAll_first ha', ih (count pat' 0 b) (by omega) b rfl (by omega), h'.replaceAll_first ha]
      rw [wrap, wrap, wrap, h.replaceAll_append (by omega), h.replaceAll_append (by omega),
        replaceAll_of_count_eq_zero hnew]
    · have hzero := Nat.eq_zero_of_not_pos hpos
      rw [replaceAll_of_count_eq_zero hzero, replaceAll_of_count_eq_zero]
      rw [h'.count_wrap h hapart' hw hlast, hzero]

end

end Occurs
