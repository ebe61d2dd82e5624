import Mathlib
import SynnoDB.Lib.Runs
import SynnoDB.Lib.Weave
import SynnoDB.Router.Meaning

/-!
# Splitting a literal into its parameters (`normalize.py:754-814`)

| here | there |
| --- | --- |
| `IsSplit`            | cores around which the literal has the constants; not in the source |
| `splitLiteral`       | `split_literal`: the regex takes the longest first core, then the longest second one, … |
| `SplitsExactly`      | the split is the only one, and is found whenever there is one; not in the source |
| `bindingGroups_cut`  | `binding_groups` as runs of neighbours with one id |
| `mergeSplit_iff`     | `merge_split` on strings |

The split of a literal is exact iff the specs have the literal's constants and **each constant between two
parameters has a wildcard** (`splitsExactly_iff`): `'[A]-[B]'` reads `a-b-c` in two ways.
-/

namespace SynnoDB.Router

open Weave Runs

/-! ## Groups -/

/-- The spec goes to the group of its left neighbour. -/
def joins (a b : PlaceholderSpec) : Prop := 0 ≤ b.group ∧ a.group = b.group

instance (a b : PlaceholderSpec) : Decidable (joins a b) := inferInstanceAs (Decidable (_ ∧ _))

theorem addToGroups_concat (gs : List Group) (a s : PlaceholderSpec) (g : Group) :
    addToGroups (gs ++ [a :: g]) s = gs ++ if joins a s then [a :: g ++ [s]] else [a :: g, [s]] := by
  rw [addToGroups, List.getLast?_concat]
  dsimp only
  by_cases h : joins a s
  · rw [if_pos h, if_pos ⟨h.1, congrArg some h.2⟩, List.dropLast_concat]
  · rw [if_neg h, if_neg fun h' => h ⟨h'.1, Option.some.inj h'.2⟩, List.append_assoc]
    rfl

/-- Only the last group grows. -/
theorem foldl_addToGroups (specs : List PlaceholderSpec) : ∀ (gs : List Group) (a : PlaceholderSpec) (g : Group),
    specs.foldl addToGroups (gs ++ [a :: g]) = gs ++ specs.foldl addToGroups [a :: g] := by
  induction specs with
  | nil => exact fun _ _ _ => rfl
  | cons s specs ih =>
    intro gs a g
    rw [List.foldl_cons, List.foldl_cons, addToGroups_concat, ← List.nil_append [a :: g], addToGroups_concat]
    by_cases h : joins a s
    · rw [if_pos h, List.nil_append, List.cons_append, ih gs a (g ++ [s])]
    · rw [if_neg h, List.nil_append, show gs ++ [a :: g, [s]] = (gs ++ [a :: g]) ++ [[s]] by simp,
        show [a :: g, [s]] = [a :: g] ++ [[s]] from rfl, ih, ih [a :: g], List.append_assoc]

/-- One step cuts or goes on, and so do all that follow. -/
theorem foldl_cut : ∀ {specs : List PlaceholderSpec} {a : PlaceholderSpec} {g : Group}, (∀ b ∈ g, b.group = a.group) →
    (a :: g).IsChain joins → Cut joins (specs.foldl addToGroups [a :: g]) ∧
      (specs.foldl addToGroups [a :: g]).flatten = a :: g ++ specs ∧
      ∃ t rest, specs.foldl addToGroups [a :: g] = (a :: g ++ t) :: rest
  | [], a, g, _, hchain => by
    refine ⟨⟨by simp, ?_, List.isChain_singleton _⟩, by simp, [], [], by simp⟩
    intro g' hg'
    rw [List.foldl_nil, List.mem_singleton] at hg'
    exact hg' ▸ hchain
  | s :: specs, a, g, hids, hchain => by
    rw [List.foldl_cons, ← List.nil_append [a :: g], addToGroups_concat, List.nil_append]
    have hlast : ∀ x ∈ (a :: g).getLast?, x.group = a.group := by
      intro x hx
      rcases List.mem_cons.1 (List.mem_of_getLast? hx) with rfl | hx
      · rfl
      · exact hids x hx
    by_cases h : joins a s
    · rw [if_pos h, List.cons_append]
      have hids' : ∀ b ∈ g ++ [s], b.group = a.group := by
        intro b hb
        rcases List.mem_append.1 hb with hb | hb
        · exact hids b hb
        · rw [List.mem_singleton.1 hb]
          exact h.2.symm
      have hchain' : (a :: (g ++ [s])).IsChain joins := by
        rw [← List.cons_append, List.isChain_append]
        refine ⟨hchain, List.isChain_singleton _, fun x hx y hy => ?_⟩
        cases hy
        exact ⟨h.1, (hlast x hx).trans h.2⟩
      obtain ⟨hcut, hflat, t, rest, heq⟩ := @foldl_cut specs a (g ++ [s]) hids' hchain'
      exact ⟨hcut, by rw [hflat]; simp, s :: t, rest, by rw [heq]; simp⟩
    · rw [if_neg h, show [a :: g, [s]] = [a :: g] ++ [[s]] from rfl, foldl_addToGroups]
      obtain ⟨hcut, hflat, t, rest, heq⟩ := @foldl_cut specs s [] nofun (List.isChain_singleton _)
      refine ⟨⟨?_, ?_, ?_⟩, ?_, [], specs.foldl addToGroups [[s]], by simp⟩
      · rw [List.singleton_append, List.mem_cons, not_or]
        exact ⟨nofun, hcut.nonempty⟩
      · rw [List.singleton_append, List.forall_mem_cons]
        exact ⟨hchain, hcut.inside⟩
      · rw [heq, List.singleton_append, List.isChain_cons_cons, ← heq]
        refine ⟨fun x hx y hy hjoins => h ?_, hcut.across⟩
        cases hy
        exact ⟨hjoins.1, (hlast x hx).symm.trans hjoins.2⟩
      · rw [List.singleton_append, List.flatten_cons, hflat]
        simp

/-- **The groups are the runs** of neighbours with one id. -/
theorem bindingGroups_cut (specs : List PlaceholderSpec) :
    Cut joins (bindingGroups specs) ∧ (bindingGroups specs).flatten = specs := by
  cases specs with
  | nil => exact ⟨⟨nofun, nofun, List.isChain_nil⟩, rfl⟩
  | cons s specs =>
    have hfirst : bindingGroups (s :: specs) = specs.foldl addToGroups [[s]] := rfl
    obtain ⟨hcut, hflat, -⟩ := @foldl_cut specs s [] nofun (List.isChain_singleton _)
    rw [hfirst]
    exact ⟨hcut, hflat⟩

/-! ## One literal -/

/-- `[^%_]`. -/
def wildcardFree (d : Char) : Bool := d ≠ '%' ∧ d ≠ '_'

/-- The literal has the constants around these cores, none with a wildcard. -/
structure IsSplit (c₀ : List Char) (cs : List (List Char)) (text : List Char) (cores : List (List Char)) : Prop where
  length : cores.length = cs.length
  free : ∀ k ∈ cores, Free wildcardFree k
  recomposes : text = c₀ ++ weave cs cores

/-- A name that is used twice has one core. -/
def Agree (names : List String) (cores : List (List Char)) : Prop :=
  ∀ p ∈ names.zip cores, ∀ q ∈ names.zip cores, p.1 = q.1 → p.2 = q.2

/-- What `split_literal` returns are these cores, under their names. -/
def PartsOf (parts : Dict String PyValue) (names : List String) (cores : List (List Char)) : Prop :=
  (∀ p ∈ names.zip cores, parts.get p.1 = some (.one (.str (String.ofList p.2)))) ∧ ∀ n ∈ parts.map Prod.fst, n ∈ names

/-- For every string: a split is found iff there is one, it is a split, and it is the only one. -/
structure SplitsExactly (c₀ : List Char) (cs : List (List Char)) (g : Group) : Prop where
  found : ∀ text : String, (∃ parts, splitLiteral (.one (.str text)) g = some parts) ↔
    ∃ cores, IsSplit c₀ cs text.toList cores ∧ Agree g.names cores
  unique : ∀ (text : String) parts, splitLiteral (.one (.str text)) g = some parts →
    ∃ cores, IsSplit c₀ cs text.toList cores ∧ PartsOf parts g.names cores ∧
      ∀ cores', IsSplit c₀ cs text.toList cores' → cores' = cores

theorem matchCores_sound {cs : List (List Char)} {text : List Char} {cores : List (List Char)}
    (h : matchCores cs text = some cores) :
    cores.length = cs.length ∧ (∀ k ∈ cores, Free wildcardFree k) ∧ text = weave cs cores := by
  obtain ⟨hlen, htext⟩ := matchCores_eq h
  refine ⟨hlen, ?_, by rw [weave_eq_flatMap, htext]⟩
  clear hlen htext
  induction cs generalizing text cores with
  | nil =>
    rw [matchCores, Option.ite_none_right_eq_some] at h
    cases h.2
    intro k hk
    cases hk
  | cons c cs ih =>
    rw [matchCores] at h
    obtain ⟨k, hk, hmatch⟩ := List.exists_of_findSome?_eq_some h
    obtain ⟨rest, hrest, rfl⟩ := Option.map_eq_some_iff.1 hmatch
    obtain ⟨r, -, hr⟩ := Option.bind_eq_some_iff.1 hrest
    refine List.forall_mem_cons.2 ⟨fun d hd => ?_, ih hr⟩
    rw [List.mem_reverse, List.mem_range] at hk
    have hsub : text.take k <+: text.takeWhile wildcardFree :=
      List.prefix_of_prefix_length_le (List.take_prefix k text) (List.takeWhile_prefix _)
        ((List.length_take_le k text).trans (by exact Nat.le_of_lt_succ hk))
    exact List.mem_takeWhile_imp (hsub.subset hd)

/-- A split is found if there is one. -/
theorem matchCores_complete : ∀ {cs : List (List Char)} {cores : List (List Char)}, cores.length = cs.length →
    (∀ k ∈ cores, Free wildcardFree k) → ∃ cores', matchCores cs (weave cs cores) = some cores'
  | [], cores, _, _ => ⟨[], by cases cores <;> rfl⟩
  | _ :: _, [], hlen, _ => by cases hlen
  | c :: cs, k :: cores, hlen, hfree => by
    rw [List.forall_mem_cons] at hfree
    obtain ⟨rest, hrest⟩ := matchCores_complete (Nat.succ.inj hlen) hfree.2
    have hmatch : ((stripConst c ((weave (c :: cs) (k :: cores)).drop k.length)).bind (matchCores cs)).map
        ((weave (c :: cs) (k :: cores)).take k.length :: ·) = some (k :: rest) := by
      rw [weave, List.drop_left, List.take_left, stripConst, List.take_left, if_pos rfl, List.drop_left,
        Option.bind_some, hrest]
      rfl
    have hmem : k.length ∈ (List.range
      (((weave (c :: cs) (k :: cores)).takeWhile wildcardFree).length + 1)).reverse := by
      rw [List.mem_reverse, List.mem_range, weave, List.takeWhile_append_of_pos hfree.1, List.length_append]
      omega
    rw [matchCores]
    refine Option.isSome_iff_exists.1 (List.findSome?_isSome_iff.2 ⟨k.length, hmem, ?_⟩)
    rw [hmatch]
    rfl

/-- The cores are collected iff they agree. -/
theorem collectCores_isSome : ∀ {items : List (String × String)} {out : Dict String PyValue},
    (∀ p ∈ items, ∀ q ∈ items, p.1 = q.1 → p.2 = q.2) → (∀ p ∈ items, ∀ w, out.get p.1 = some w → w = .one (.str p.2)) →
    ∃ parts, collectCores items out = some parts
  | [], out, _, _ => ⟨out, rfl⟩
  | (name, core) :: items, out, hagree, hout => by
    have hagree' : ∀ p ∈ items, ∀ q ∈ items, p.1 = q.1 → p.2 = q.2 := fun p hp q hq =>
      hagree p (List.mem_cons_of_mem _ hp) q (List.mem_cons_of_mem _ hq)
    have hout' : ∀ p ∈ items, ∀ w, (out.set name (.one (.str core))).get p.1 = some w → w = .one (.str p.2) := by
      intro p hp w hw
      rw [Dict.get_set] at hw
      split at hw
      · rename_i heq
        cases hw
        exact congrArg (fun c => PyValue.one (.str c))
          (hagree (name, core) List.mem_cons_self p (List.mem_cons_of_mem _ hp) heq)
      · exact hout p (List.mem_cons_of_mem _ hp) w hw
    obtain ⟨parts, hparts⟩ := collectCores_isSome hagree' hout'
    refine ⟨parts, ?_⟩
    rw [collectCores]
    split
    · rename_i w hw
      rw [if_pos (hout _ List.mem_cons_self w hw)]
      exact hparts
    · exact hparts

section
variable {g : Group} {text : String} {parts : Dict String PyValue} {c₀ : List Char} {cs cores cores' : List (List Char)}

theorem Group.length_names (g : Group) : g.names.length = g.length := List.length_map _

theorem splitLiteral_plain {s : PlaceholderSpec} (hs : g.plain? = some s) (v : PyValue) :
    splitLiteral v g = some [(s.name, v)] := by
  unfold splitLiteral
  rw [hs]

theorem splitLiteral_embedded (hs : g.plain? = none) (text : String) : splitLiteral (.one (.str text)) g =
    ((stripConst g.consts.1 text.toList).bind (matchCores g.consts.2)).bind fun cores =>
      collectCores (g.names.zip (cores.map String.ofList)) [] := by
  unfold splitLiteral
  rw [hs]
  rfl

/-- What a split of a string gives back, with the constants of the specs. -/
theorem splitLiteral_cores (h : splitLiteral (.one (.str text)) g = some parts) :
    ∃ cores, cores.length = g.length ∧ text.toList = g.consts.1 ++ weave g.consts.2 cores ∧
      PartsOf parts g.names cores ∧
      Agree g.names cores ∧ (g.plain? = none → ∀ k ∈ cores, Free wildcardFree k) := by
  cases hs : g.plain? with
  | some s =>
    rw [splitLiteral_plain hs] at h
    cases h
    obtain ⟨rfl, hpre, hpost⟩ := Group.plain?_eq_some.1 hs
    have hconsts : Group.consts [s] = ([], [[]]) := by
      rw [Group.consts, List.map_singleton, List.head?_cons, Option.map_some, Option.getD_some, hpre, hpost]
      rfl
    refine ⟨[text.toList], rfl, ?_, ⟨?_, ?_⟩, ?_, fun h => (by cases h)⟩
    · rw [hconsts]
      exact (List.append_nil _).symm
    · intro p hp
      rw [List.mem_singleton.1 hp]
      exact (if_pos rfl).trans (by rw [String.ofList_toList])
    · exact fun n hn => hn
    · intro p hp q hq _
      rw [List.mem_singleton.1 hp, List.mem_singleton.1 hq]
  | none =>
    rw [splitLiteral_embedded hs] at h
    obtain ⟨cores, h, hc⟩ := Option.bind_eq_some_iff.1 h
    obtain ⟨r, hr, hm⟩ := Option.bind_eq_some_iff.1 h
    obtain ⟨hlen, hfree, hr'⟩ := matchCores_sound hm
    have hlen' : cores.length = g.length := by rw [hlen, Group.consts, List.length_map]
    obtain ⟨-, hitems, -, hkeys⟩ := collectCores_spec hc (by simp [Dict.Keyed])
    have hzip : ∀ p ∈ g.names.zip cores, (p.1, String.ofList p.2) ∈ g.names.zip (cores.map String.ofList) := by
      intro p hp
      rw [List.zip_map_right]
      exact List.mem_map.2 ⟨p, hp, rfl⟩
    refine ⟨cores, hlen', by rw [stripConst_eq hr, hr'], ⟨fun p hp => hitems _ (hzip p hp), fun n hn => ?_⟩, ?_,
      fun _ => hfree⟩
    · rcases hkeys n hn with h | h
      · cases h
      · obtain ⟨p, hp, rfl⟩ := List.mem_map.1 h
        exact (List.of_mem_zip hp).1
    · intro p hp q hq heq
      have h1 := hitems _ (hzip p hp)
      rw [heq, hitems _ (hzip q hq)] at h1
      injection h1 with h1
      injection h1 with h1
      injection h1 with h1
      exact (String.ofList_injective h1).symm

theorem PartsOf.unique (h : PartsOf parts g.names cores) (h' : PartsOf parts g.names cores')
    (hlen : cores.length = g.length)
    (hlen' : cores'.length = g.length) : cores = cores' := by
  refine List.ext_getElem (hlen.trans hlen'.symm) fun i hi hi' => ?_
  have hname : i < g.names.length := by rw [g.length_names]; omega
  have hmem : ∀ {l : List (List Char)} (hl : i < l.length), (g.names[i], l[i]) ∈ g.names.zip l := fun hl =>
    List.mem_iff_getElem.2 ⟨i, by rw [List.length_zip]; omega, List.getElem_zip⟩
  have h1 := h.1 _ (hmem hi)
  rw [h'.1 _ (hmem hi')] at h1
  injection h1 with h1
  injection h1 with h1
  injection h1 with h1
  exact (String.ofList_injective h1).symm

theorem exists_other (y : Char) : ∃ z, wildcardFree z = true ∧ z ≠ y := by
  by_cases h : y = 'a'
  · exact ⟨'b', by decide, by rw [h]; decide⟩
  · exact ⟨'a', by decide, Ne.symm h⟩

theorem agree_replicate (names : List String) (n : Nat) (x : List Char) : Agree names (List.replicate n x) := by
  intro p hp q hq _
  rw [List.eq_of_mem_replicate (List.of_mem_zip hp).2, List.eq_of_mem_replicate (List.of_mem_zip hq).2]

/-- **A literal is split exactly** iff the specs have its constants and each of them between two parameters has a
wildcard. -/
theorem splitsExactly_iff (hlen : cs.length = g.length) (hembedded : 1 < cs.length ∨ c₀ ≠ [] ∨ cs ≠ [[]]) :
    SplitsExactly c₀ cs g ↔ g.consts = (c₀, cs) ∧ ∀ c ∈ cs.dropLast, ¬Free wildcardFree c := by
  constructor
  · intro h
    -- a text that has a split is split into just that
    have hsame : ∀ x, Free wildcardFree x → ∃ parts, splitLiteral
      (.one (.str (String.ofList (c₀ ++ weave cs (List.replicate cs.length x))))) g =
        some parts ∧ PartsOf parts g.names (List.replicate cs.length x) ∧
        ∀ cores, cores.length = cs.length → (∀ k ∈ cores, Free wildcardFree k) →
          weave cs (List.replicate cs.length x) = weave cs cores → cores = List.replicate cs.length x := by
      intro x hx
      have hsplit : IsSplit c₀ cs (String.ofList (c₀ ++ weave cs (List.replicate cs.length x))).toList
        (List.replicate cs.length x) :=
        ⟨List.length_replicate, fun k hk => List.eq_of_mem_replicate hk ▸ hx, String.toList_ofList⟩
      obtain ⟨parts, hparts⟩ := (h.found _).2 ⟨_, hsplit, agree_replicate _ _ _⟩
      obtain ⟨cores, -, hof, honly⟩ := h.unique _ _ hparts
      obtain rfl := honly _ hsplit
      refine ⟨parts, hparts, hof, fun cores' hlen' hfree heq => honly _ ⟨hlen', hfree, ?_⟩⟩
      rw [String.toList_ofList, heq]
    refine ⟨?_, fun c hc hfree => ?_⟩
    · have hdet : c₀ = g.consts.1 ∧ cs = g.consts.2 := by
        refine weave_determines exists_other (by rw [hlen, Group.consts, List.length_map]) fun z hz => ?_
        obtain ⟨parts, hparts, hof, -⟩ := hsame [z] fun y hy => List.mem_singleton.1 hy ▸ hz
        obtain ⟨cores, hlen', htext, hof', -⟩ := splitLiteral_cores hparts
        rw [String.toList_ofList] at htext
        rw [htext, hof.unique hof' (by rw [List.length_replicate, hlen]) hlen']
      rw [hdet.1, hdet.2]
    · obtain ⟨x, ks, hx, hks, hkfree, hne, heq⟩ := weave_ambiguous (z := 'a') (by decide) hc hfree
      obtain ⟨-, -, -, honly⟩ := hsame x hx
      exact hne (honly ks hks hkfree heq.symm)
  · rintro ⟨hconsts, hsep⟩
    have hplain : g.plain? = none := by
      cases hs : g.plain? with
      | none => rfl
      | some s =>
        obtain ⟨rfl, hpre, hpost⟩ := Group.plain?_eq_some.1 hs
        rw [Group.consts, List.map_singleton, List.head?_cons, Option.map_some, Option.getD_some, hpre,
          hpost] at hconsts
        obtain ⟨rfl, rfl⟩ := Prod.mk.inj hconsts
        rcases hembedded with h | h | h
        · exact absurd h (by decide)
        · exact absurd rfl h
        · exact absurd rfl h
    have hcuts : ∀ {text : List Char} {cores cores'}, IsSplit c₀ cs text cores → IsSplit c₀ cs text cores' →
      cores' = cores := by
      intro text cores cores' h h'
      have heq : c₀ ++ weave cs cores' = c₀ ++ weave cs cores := h'.recomposes.symm.trans h.recomposes
      exact weave_injective hsep h'.length h.length h'.free h.free (List.append_cancel_left heq)
    have hsplits : ∀ {text : String} {parts}, splitLiteral (.one (.str text)) g = some parts →
        ∃ cores, IsSplit c₀ cs text.toList cores ∧ PartsOf parts g.names cores ∧ Agree g.names cores := by
      intro text parts h
      obtain ⟨cores, hlen', htext, hof, hagree, hfree⟩ := splitLiteral_cores h
      rw [hconsts] at htext
      exact ⟨cores, ⟨hlen'.trans hlen.symm, hfree hplain, htext⟩, hof, hagree⟩
    refine ⟨fun text => ⟨?_, ?_⟩, fun text parts h => ?_⟩
    · rintro ⟨parts, h⟩
      obtain ⟨cores, hsplit, -, hagree⟩ := hsplits h
      exact ⟨cores, hsplit, hagree⟩
    · rintro ⟨cores, hsplit, hagree⟩
      obtain ⟨cores', hmatch⟩ := matchCores_complete hsplit.length hsplit.free
      obtain ⟨hlen', hfree, heq⟩ := matchCores_sound hmatch
      obtain rfl : cores' = cores := hcuts hsplit ⟨hlen', hfree, by rw [hsplit.recomposes, heq]⟩
      have hitems : ∀ p ∈ g.names.zip (cores'.map String.ofList), ∀ q ∈ g.names.zip (cores'.map String.ofList),
          p.1 = q.1 → p.2 = q.2 := by
        rw [List.zip_map_right]
        intro p hp q hq heq
        obtain ⟨p', hp', rfl⟩ := List.mem_map.1 hp
        obtain ⟨q', hq', rfl⟩ := List.mem_map.1 hq
        exact congrArg String.ofList (hagree p' hp' q' hq' heq)
      obtain ⟨parts, hparts⟩ := @collectCores_isSome _ [] hitems (fun p hp w hw => by cases hw)
      refine ⟨parts, ?_⟩
      rw [splitLiteral_embedded hplain, hconsts, hsplit.recomposes, stripConst, List.take_left, if_pos rfl,
        List.drop_left, Option.bind_some, hmatch]
      exact hparts
    · obtain ⟨cores, hsplit, hof, -⟩ := hsplits h
      exact ⟨cores, hsplit, hof, fun cores' h' => hcuts hsplit h'⟩

end

/-! ## Several literals -/
section
variable {d d' : Dict String PyValue} {k : String} {items : List (String × PyValue)}

/-- All values are strings. -/
def Strings (d : Dict String PyValue) : Prop := ∀ n w, d.get n = some w → ∃ t, w = .one (.str t)

theorem looseEq_str {a b : String} : looseEq (.one (.str a)) (.one (.str b)) = true ↔ a = b := by
  rw [looseEq, Bool.or_eq_true, decide_eq_true_iff]
  exact ⟨fun h => h.elim (fun h => by simpa [PyValue.pyEq, Const.pyEq, Const.number] using h) id, .inr⟩

theorem record_strings {t : String} (hd : Strings d) :
    (∃ d', record k (.one (.str t)) d = some d') ↔ ∀ w, d.get k = some w → w = .one (.str t) := by
  unfold record
  cases hget : d.get k with
  | none => exact ⟨fun _ => nofun, fun _ => ⟨_, rfl⟩⟩
  | some w =>
    obtain ⟨u, rfl⟩ := hd k w hget
    dsimp only
    by_cases h : u = t
    · rw [if_pos (looseEq_str.2 h), h]
      exact ⟨fun _ w hw => (Option.some.inj hw).symm, fun _ => ⟨_, rfl⟩⟩
    · rw [if_neg (mt looseEq_str.1 h)]
      refine ⟨nofun, fun hall => absurd ?_ h⟩
      have heq := hall _ rfl
      injection heq with heq
      injection heq

theorem Strings.set (hd : Strings d) (k t : String) : Strings (d.set k (.one (.str t))) := by
  intro n w hw
  rw [Dict.get_set] at hw
  split at hw
  · exact ⟨t, (Option.some.inj hw).symm⟩
  · exact hd n w hw

/-- Strings are recorded iff each agrees with the one that is there, and are there afterwards. -/
theorem recordAll_strings : ∀ {items d : Dict String PyValue}, Dict.Keyed items → Strings items → Strings d →
    ((∃ d', recordAll items d = some d') ↔ ∀ n v w, items.get n = some v → d.get n = some w → w = v) ∧
    ∀ d', recordAll items d = some d' → Strings d' ∧ ∀ n, d'.get n = (items.get n).or (d.get n)
  | [], d, _, _, hd => by
    refine ⟨⟨fun _ => nofun, fun _ => ⟨d, rfl⟩⟩, fun d' h => ?_⟩
    cases h
    exact ⟨hd, fun n => rfl⟩
  | (k, v) :: items, d, hkeyed, hitems, hd => by
    rw [Dict.Keyed, List.map_cons, List.nodup_cons] at hkeyed
    have hnone : Dict.get items k = none := Option.eq_none_iff_forall_not_mem.2 fun w hw =>
      hkeyed.1 (List.mem_map.2 ⟨_, Dict.mem_of_get hw, rfl⟩)
    have hget : ∀ n, Dict.get ((k, v) :: items) n = if k = n then some v else Dict.get items n := fun _ => rfl
    obtain ⟨t, rfl⟩ := hitems k v (by rw [hget, if_pos rfl])
    have hitems' : Strings items := by
      intro n w hw
      refine hitems n w ?_
      rw [hget, if_neg]
      · exact hw
      · rintro rfl
        rw [hnone] at hw
        cases hw
    obtain ⟨hiff, hvalues⟩ := recordAll_strings (d := d.set k (.one (.str t))) hkeyed.2 hitems' (hd.set k t)
    have hstep : ∀ {d'}, recordAll ((k, .one (.str t)) :: items) d = some d' ↔
        (∃ d₁, record k (.one (.str t)) d = some d₁) ∧ recordAll items (d.set k (.one (.str t))) = some d' := by
      intro d'
      rw [recordAll, Option.bind_eq_some_iff]
      constructor
      · rintro ⟨d₁, h₁, h⟩
        exact ⟨⟨d₁, h₁⟩, record_eq h₁ ▸ h⟩
      · rintro ⟨⟨d₁, h₁⟩, h⟩
        exact ⟨d₁, h₁, (record_eq h₁).symm ▸ h⟩
    refine ⟨⟨?_, ?_⟩, fun d' h => ?_⟩
    · rintro ⟨d', h⟩ n v w hv hw
      obtain ⟨hrecord, hrest⟩ := hstep.1 h
      rw [hget] at hv
      split at hv
      · rename_i heq
        cases hv
        exact (record_strings hd).1 hrecord w (heq ▸ hw)
      · rename_i hne
        exact hiff.1 ⟨d', hrest⟩ n v w hv (by rw [Dict.get_set, if_neg hne, hw])
    · intro hagree
      have hrecord := (record_strings hd).2 fun w hw => hagree k _ w (by rw [hget, if_pos rfl]) hw
      obtain ⟨d', hd'⟩ := hiff.2 fun n v w hv hw => by
        rw [Dict.get_set] at hw
        split at hw
        · rename_i heq
          rw [← heq, hnone] at hv
          cases hv
        · rename_i hne
          exact hagree n v w (by rw [hget, if_neg hne, hv]) hw
      exact ⟨d', hstep.2 ⟨hrecord, hd'⟩⟩
    · obtain ⟨hstrings, hvalue⟩ := hvalues d' (hstep.1 h).2
      refine ⟨hstrings, fun n => ?_⟩
      rw [hvalue n, hget, Dict.get_set]
      by_cases hn : k = n
      · rw [if_pos hn, if_pos hn, ← hn, hnone]
        rfl
      · rw [if_neg hn, if_neg hn]

end

section
variable {gs : List Group} {texts : List String} {d : Dict String PyValue}

/-- The parts that the literals are split into, one after the other. -/
def Splits (gs : List Group) (texts : List String) (partss : List (Dict String PyValue)) : Prop :=
  List.Forall₂ (fun p parts => splitLiteral (.one (.str p.2)) p.1 = some parts) (gs.zip texts) partss

/-- No name has two values. -/
def Consistent (partss : List (Dict String PyValue)) : Prop :=
  ∀ parts ∈ partss, ∀ parts' ∈ partss, ∀ n v w, parts.get n = some v → parts'.get n = some w → v = w

theorem Consistent.of_cover {partss partss' : List (Dict String PyValue)} (h : Consistent partss')
    (hcover : ∀ parts ∈ partss, ∀ n v, parts.get n = some v → ∃ parts' ∈ partss', parts'.get n = some v) :
      Consistent partss := by
  intro parts hparts parts' hparts' n v w hv hw
  obtain ⟨q, hq, hqv⟩ := hcover parts hparts n v hv
  obtain ⟨q', hq', hqw⟩ := hcover parts' hparts' n w hw
  exact h q hq q' hq' n v w hqv hqw

/-- What is recorded stands for what was there and what came. -/
theorem consistent_recorded {parts d d' : Dict String PyValue} {partss : List (Dict String PyValue)}
    (hagree : ∀ n v w, parts.get n = some v → d.get n = some w → w = v)
      (hget : ∀ n, d'.get n = (parts.get n).or (d.get n)) :
    Consistent (d :: parts :: partss) ↔ Consistent (d' :: partss) := by
  constructor
  · refine fun h => h.of_cover ?_
    rintro q (_ | ⟨_, hq⟩) n v hv
    · rw [hget, Option.or_eq_some_iff] at hv
      rcases hv with hv | ⟨-, hv⟩
      · exact ⟨parts, List.mem_cons_of_mem _ List.mem_cons_self, hv⟩
      · exact ⟨d, List.mem_cons_self, hv⟩
    · exact ⟨q, List.mem_cons_of_mem _ (List.mem_cons_of_mem _ hq), hv⟩
  · refine fun h => h.of_cover ?_
    rintro q (_ | ⟨_, _ | ⟨_, hq⟩⟩) n v hv
    · refine ⟨d', List.mem_cons_self, ?_⟩
      rw [hget]
      cases hn : parts.get n with
      | none => exact hv
      | some u => rw [hagree n u v hn hv]; rfl
    · exact ⟨d', List.mem_cons_self, by rw [hget, hv]; rfl⟩
    · exact ⟨q, List.mem_cons_of_mem _ hq, hv⟩

theorem splitLiteral_strings {g : Group} {text : String} {parts : Dict String PyValue}
    (h : splitLiteral (.one (.str text)) g = some parts) : Dict.Keyed parts ∧ Strings parts := by
  refine ⟨(splitLiteral_spec h).1, fun n w hw => ?_⟩
  obtain ⟨cores, hlen, -, ⟨hof, hkeys⟩, -⟩ := splitLiteral_cores h
  have hn : n ∈ (g.names.zip cores).map Prod.fst := by
    rw [List.map_fst_zip (by rw [hlen, g.length_names])]
    exact hkeys n (List.mem_map.2 ⟨_, Dict.mem_of_get hw, rfl⟩)
  obtain ⟨p, hp, rfl⟩ := List.mem_map.1 hn
  exact ⟨_, Option.some.inj (hw.symm.trans (hof p hp))⟩

theorem consistent_single (d : Dict String PyValue) : Consistent [d] := by
  intro parts hparts parts' hparts' n v w hv hw
  rw [List.mem_singleton.1 hparts] at hv
  rw [List.mem_singleton.1 hparts', hv] at hw
  exact Option.some.inj hw

theorem mergeSplit_strings : ∀ {gs : List Group} {texts : List String} {d : Dict String PyValue}, Strings d →
    ((∃ bound, mergeSplit gs (texts.map fun t => .one (.str t)) d = some bound) ↔
      ∃ partss, Splits gs texts partss ∧ Consistent (d :: partss))
  | [], texts, d, _ => ⟨fun _ => ⟨[], .nil, consistent_single d⟩, fun _ => ⟨d, rfl⟩⟩
  | g :: gs, [], d, _ => ⟨fun _ => ⟨[], .nil, consistent_single d⟩, fun _ => ⟨d, rfl⟩⟩
  | g :: gs, text :: texts, d, hd => by
    rw [List.map_cons, mergeSplit]
    constructor
    · rintro ⟨bound, h⟩
      obtain ⟨parts, hparts, h⟩ := Option.bind_eq_some_iff.1 h
      obtain ⟨d', hd', h⟩ := Option.bind_eq_some_iff.1 h
      obtain ⟨hkeyed, hstrings⟩ := splitLiteral_strings hparts
      obtain ⟨hiff, hvalues⟩ := recordAll_strings hkeyed hstrings hd
      obtain ⟨hstrings', hget⟩ := hvalues d' hd'
      obtain ⟨partss, hsplits, hconsistent⟩ := (mergeSplit_strings hstrings').1 ⟨bound, h⟩
      exact ⟨parts :: partss, .cons hparts hsplits, (consistent_recorded (hiff.1 ⟨d', hd'⟩) hget).2 hconsistent⟩
    · rintro ⟨partss, hsplits, hconsistent⟩
      obtain ⟨parts, partss, hparts, hrest, rfl⟩ := List.forall₂_cons_left_iff.1 hsplits
      obtain ⟨hkeyed, hstrings⟩ := splitLiteral_strings hparts
      obtain ⟨hiff, hvalues⟩ := recordAll_strings hkeyed hstrings hd
      have hagree : ∀ n v w, parts.get n = some v → d.get n = some w → w = v := fun n v w hv hw =>
        hconsistent d List.mem_cons_self parts (List.mem_cons_of_mem _ List.mem_cons_self) n w v hw hv
      obtain ⟨d', hd'⟩ := hiff.2 hagree
      obtain ⟨hstrings', hget⟩ := hvalues d' hd'
      obtain ⟨bound, h⟩ := (mergeSplit_strings hstrings').2 ⟨partss, hrest,
        (consistent_recorded hagree hget).1 hconsistent⟩
      exact ⟨bound, by rw [hparts, Option.bind_some, hd', Option.bind_some, h]⟩

/-- **Literals are merged iff** each can be split and no name has two cores. -/
theorem mergeSplit_iff (gs : List Group) (texts : List String) :
    (∃ bound, mergeSplit gs (texts.map fun t => .one (.str t)) [] = some bound) ↔
      ∃ partss, Splits gs texts partss ∧ Consistent partss := by
  rw [mergeSplit_strings fun n w hw => by cases hw]
  refine exists_congr fun partss => and_congr_right fun _ => ⟨fun h => h.of_cover ?_, fun h => h.of_cover ?_⟩
  · exact fun parts hparts n v hv => ⟨parts, List.mem_cons_of_mem _ hparts, hv⟩
  · rintro parts (_ | ⟨_, hparts⟩) n v hv
    · cases hv
    · exact ⟨parts, hparts, hv⟩

end

end SynnoDB.Router
