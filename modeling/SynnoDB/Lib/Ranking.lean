import SynnoDB.Lib.Pairing

/-!
# Windows of a ranking

A ranking of `all` puts its elements in the order of a key and breaks ties in any way. Every ranking has the same
keys at the same places. The elements of a window are therefore exactly those parts of `all` that have the window's
keys (`exists_ranking_iff`), and a prefix of any one ranking that ends after the last key of the window holds all of
them (`subperm_top`).
-/

namespace Pairing

open List

variable {α κ : Type*} [LinearOrder κ] {ρ : α → κ} {all l part : List α} {m n N : Nat}

structure Ranking (ρ : α → κ) (all l : List α) : Prop where
  perm : l ~ all
  sorted : l.Pairwise fun x y => ρ x ≤ ρ y

def window (m n : Nat) (l : List α) : List α := (l.drop m).take n

theorem window_map {β : Type*} (f : α → β) : (window m n l).map f = window m n (l.map f) := by
  rw [window, window, map_take, map_drop]

theorem mem_take_of_mem_window {x : α} (h : x ∈ window m n l) (hN : m + n ≤ N) : x ∈ l.take N := by
  have hwindow : window m n l = (l.take (m + n)).drop m := by rw [drop_take, Nat.add_sub_cancel_left, window]
  rw [hwindow] at h
  exact (take_sublist_take_left hN).subset (drop_subset _ _ h)

theorem le_getLast {ks : List κ} {k last : κ} (h : ks.Pairwise (· ≤ ·)) (hlast : ks.getLast? = some last)
    (hk : k ∈ ks) : k ≤ last := by
  obtain ⟨front, rfl⟩ := getLast?_eq_some_iff.1 hlast
  rcases mem_append.1 hk with hk | hk
  · exact (pairwise_append.1 h).2.2 k hk last (mem_singleton_self last)
  · exact (mem_singleton.1 hk).le

/-- The keys of a ranking are fixed. -/
theorem Ranking.keys (h : Ranking ρ all l) : l.map ρ = ranks ρ all := by
  rw [← ranks_perm ρ h.perm, ranks, sortBy_eq h.sorted]

theorem Ranking.of_keys (hperm : l ~ all) (h : l.map ρ = ranks ρ all) : Ranking ρ all l :=
  ⟨hperm, pairwise_map.1 (h ▸ ranks_pairwise ρ all)⟩

theorem Ranking.window_subperm (h : Ranking ρ all l) : window m n l <+~ all :=
  ((take_sublist _ _).trans (drop_sublist _ _)).subperm.trans h.perm.subperm

theorem Subperm.exists_perm_append {l l' : List α} (h : l <+~ l') : ∃ d, l' ~ l ++ d := by
  obtain ⟨s, hs, hsub⟩ := h
  obtain ⟨d, hd⟩ := hsub.exists_perm_append
  exact ⟨d, hd.trans (hs.append_right d)⟩

/-- Without a part that has a window's keys, the keys before and after the window are left. -/
theorem ranks_rest {rest : List α} (hrest : all ~ part ++ rest) (hkeys : part.map ρ = window m n (ranks ρ all)) :
    ranks ρ rest = (ranks ρ all).take m ++ (ranks ρ all).drop (m + n) := by
  have hsplit : ranks ρ all = (ranks ρ all).take m ++ (part.map ρ ++ (ranks ρ all).drop (m + n)) := by
    rw [hkeys, window, ← drop_drop, take_append_drop, take_append_drop]
  have hperm : rest.map ρ ~ (ranks ρ all).take m ++ (ranks ρ all).drop (m + n) := by
    have hall : part.map ρ ++ rest.map ρ ~ ranks ρ all := by
      rw [← map_append]
      exact (hrest.symm.map ρ).trans ((sortBy_perm ρ all).symm.map ρ)
    rw [hsplit] at hall
    exact (perm_append_left_iff _).1 (hall.trans (perm_append_comm_assoc _ _ _))
  have hsub : (ranks ρ all).take m ++ (ranks ρ all).drop (m + n) <+ ranks ρ all := by
    conv_rhs => rw [hsplit]
    exact (Sublist.refl _).append (sublist_append_right _ _)
  have hsorted : ranks ρ rest ~ rest.map ρ := (sortBy_perm ρ rest).map ρ
  exact (hsorted.trans hperm).eq_of_pairwise' (ranks_pairwise ρ rest) ((ranks_pairwise ρ all).sublist hsub)

/-- **A part of `all` is a window of some ranking exactly when it has the window's keys.** -/
theorem exists_ranking_iff (hpart : part <+~ all) (hfull : m + n ≤ all.length) :
    (∃ l, Ranking ρ all l ∧ window m n l = part) ↔ part.map ρ = window m n (ranks ρ all) := by
  constructor
  · rintro ⟨l, hl, rfl⟩
    rw [window_map, hl.keys]
  · intro hkeys
    obtain ⟨rest, hrest⟩ := Subperm.exists_perm_append hpart
    have hleft := ranks_rest hrest hkeys
    have hlen := length_ranks ρ all
    have hpartlen : part.length = n := by
      have hlen' := congrArg length hkeys
      rw [length_map, window, length_take, length_drop, hlen] at hlen'
      omega
    have htakelen : ((ranks ρ all).take m).length = m := by
      rw [length_take, hlen]
      omega
    have hrestlen : m ≤ (sortBy ρ rest).length := by
      have hcount := hrest.length_eq
      rw [length_append, hpartlen] at hcount
      rw [(sortBy_perm ρ rest).length_eq]
      omega
    -- The other elements keep their order, and the part goes between them.
    refine ⟨(sortBy ρ rest).take m ++ (part ++ (sortBy ρ rest).drop m), Ranking.of_keys ?_ ?_, ?_⟩
    · refine (perm_append_comm_assoc _ _ _).trans (((Perm.refl part).append ?_).trans hrest.symm)
      rw [take_append_drop]
      exact sortBy_perm ρ rest
    · have hfirst : ((sortBy ρ rest).take m).map ρ = (ranks ρ all).take m := by
        rw [map_take, ← ranks, hleft, take_left' htakelen]
      have hlast : ((sortBy ρ rest).drop m).map ρ = (ranks ρ all).drop (m + n) := by
        rw [map_drop, ← ranks, hleft, drop_left' htakelen]
      rw [map_append, map_append, hfirst, hlast, hkeys, window, ← drop_drop, take_append_drop, take_append_drop]
    · rw [window, drop_left' (by rw [length_take]; omega), take_left' hpartlen]

/-- **The top of one ranking holds every part whose keys come before its last key.** -/
theorem subperm_top {last : κ} (hl : Ranking ρ all l) (hpart : part <+~ all) (hle : ∀ x ∈ part, ρ x ≤ last)
    (hend : l.length < N ∨ ∃ x, (l.take N).getLast? = some x ∧ last < ρ x) : part <+~ l.take N := by
  rcases hend with hshort | ⟨x, hlast, hx⟩
  · rw [take_of_length_le hshort.le]
    exact hpart.trans hl.perm.symm.subperm
  · have hfilter : part.filter (fun y => ρ y ≤ last) = part := filter_eq_self.2 fun y hy => decide_eq_true (hle y hy)
    have hdrop : (l.drop N).filter (fun y => ρ y ≤ last) = [] := by
      refine filter_eq_nil_iff.2 fun y hy => ?_
      have hsorted := hl.sorted
      rw [← take_append_drop N l, pairwise_append] at hsorted
      have hxy := hsorted.2.2 x (mem_of_getLast? hlast) y hy
      simpa using hx.trans_le hxy
    have htop : l.filter (fun y => ρ y ≤ last) = (l.take N).filter fun y => ρ y ≤ last := by
      conv_lhs => rw [← take_append_drop N l]
      rw [filter_append, hdrop, append_nil]
    have hkept := (hpart.trans hl.perm.symm.subperm).filter fun y => ρ y ≤ last
    rw [hfilter, htop] at hkept
    exact hkept.trans filter_sublist.subperm

end Pairing
