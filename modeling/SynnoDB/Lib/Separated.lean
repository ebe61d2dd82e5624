import Mathlib.Data.List.Basic

/-!
# Texts that a separator joins

What can be read back: the part before the first separator (`cut_first`), the part after the last one (`cut_last`),
and of a list of parts, each of which begins in a known way, what follows there (`intercalate_inj`).
-/

namespace Separated

variable {α ι : Type} {c : α} {a b x y : List α}

theorem cut_first (ha : c ∉ a) (hb : c ∉ b) (h : a ++ c :: x = b ++ c :: y) : a = b ∧ x = y := by
  induction a generalizing b with
  | nil =>
    cases b with
    | nil => exact ⟨rfl, (List.cons.inj h).2⟩
    | cons e b => exact absurd (List.cons.inj h).1 fun hc => hb (hc ▸ List.mem_cons_self)
  | cons d a ih =>
    cases b with
    | nil => exact absurd (List.cons.inj h).1 fun hc => ha (hc ▸ List.mem_cons_self)
    | cons e b =>
      obtain ⟨hde, htail⟩ := List.cons.inj h
      obtain ⟨hab, hxy⟩ := ih (fun hc => ha (.tail _ hc)) (fun hc => hb (.tail _ hc)) htail
      exact ⟨by rw [hde, hab], hxy⟩

theorem cut_last (hx : c ∉ x) (hy : c ∉ y) (h : a ++ c :: x = b ++ c :: y) : a = b ∧ x = y := by
  have hr : x.reverse ++ c :: a.reverse = y.reverse ++ c :: b.reverse := by simpa using congrArg List.reverse h
  obtain ⟨hx', ha'⟩ := cut_first (by simpa using hx) (by simpa using hy) hr
  exact ⟨List.reverse_injective ha', List.reverse_injective hx'⟩

/-- Only what follows the known beginnings must be free of the separator. -/
theorem intercalate_inj {ns : List ι} {known body body' : ι → List α} (hb : ∀ n ∈ ns, c ∉ body n)
    (hb' : ∀ n ∈ ns, c ∉ body' n)
    (h : [c].intercalate (ns.map fun n => known n ++ body n) = [c].intercalate (ns.map fun n => known n ++ body' n)) :
    ∀ n ∈ ns, body n = body' n := by
  induction ns with
  | nil => exact fun n hn => absurd hn List.not_mem_nil
  | cons n ns ih =>
    cases ns with
    | nil =>
      have hn : body n = body' n := by simpa using h
      simpa using hn
    | cons m ns =>
      simp only [List.map_cons, List.intercalate_cons_cons, List.append_assoc, List.append_cancel_left_eq,
        List.cons_append, List.nil_append] at h
      obtain ⟨hn, hrest⟩ := cut_first (hb n List.mem_cons_self) (hb' n List.mem_cons_self) h
      have htail := ih (fun k hk => hb k (.tail _ hk)) (fun k hk => hb' k (.tail _ hk)) (by simpa using hrest)
      exact List.forall_mem_cons.mpr ⟨hn, htail⟩

end Separated
