import Mathlib.Data.List.Basic
import Mathlib.Data.List.Induction

/-!
# Insertion-ordered dictionaries

A dictionary is the list of its items in insertion order: assigning to a key that is present keeps the
key's place. Everything a caller needs to know of it is `get` after `set` and after `erase`.
-/

abbrev Dict (κ ν : Type*) := List (κ × ν)

namespace Dict

variable {κ ν : Type*} [DecidableEq κ]

instance lawfulBEq_optionString : LawfulBEq (Option String) := inferInstance

def get : Dict κ ν → κ → Option ν
  | [], _ => none
  | (a, b) :: d, k => if a = k then some b else get d k

def set : Dict κ ν → κ → ν → Dict κ ν
  | [], k, v => [(k, v)]
  | (a, b) :: d, k, v => if a = k then (a, v) :: d else (a, b) :: set d k v

def erase (d : Dict κ ν) (k : κ) : Dict κ ν := d.filter fun p => p.1 ≠ k

/-- `{k: v for k, v in items}`. -/
def ofItems (items : List (κ × ν)) : Dict κ ν := items.foldl (fun d p => d.set p.1 p.2) []

/-- `d.get(k, dflt)`. -/
def getD (d : Dict κ ν) (k : κ) (dflt : ν) : ν := (d.get k).getD dflt

@[simp] theorem get_nil (k : κ) : get ([] : Dict κ ν) k = none := rfl

@[simp] theorem get_set (d : Dict κ ν) (k j : κ) (v : ν) : get (set d k v) j = if k = j then some v else get d j := by
  induction d with
  | nil => simp [set, get]
  | cons p d ih =>
    obtain ⟨a, b⟩ := p
    by_cases hak : a = k
    · subst hak
      by_cases haj : a = j <;> simp [set, get, haj]
    · by_cases haj : a = j
      · subst haj; simp [set, get, hak, Ne.symm hak]
      · simp [set, get, hak, haj, ih]

@[simp] theorem get_erase (d : Dict κ ν) (k j : κ) : get (erase d k) j = if k = j then none else get d j := by
  induction d with
  | nil => simp [erase, get]
  | cons p d ih =>
    obtain ⟨a, b⟩ := p
    simp only [erase, ne_eq, decide_not] at ih ⊢
    by_cases hak : a = k
    · subst hak
      by_cases haj : a = j
      · subst haj; simpa using ih
      · simpa [haj, get] using ih
    · by_cases haj : a = j
      · subst haj; simp [hak, get, Ne.symm hak]
      · simp [hak, haj, get, ih]

@[simp] theorem getD_set (d : Dict κ ν) (k j : κ) (v dflt : ν) :
    getD (set d k v) j dflt = if k = j then v else getD d j dflt := by
  unfold getD
  rw [get_set]
  split <;> rfl

theorem get_foldl_set_of_notMem {k : κ} : ∀ {items : List (κ × ν)} {d : Dict κ ν}, k ∉ items.map Prod.fst →
    get (items.foldl (fun d p => d.set p.1 p.2) d) k = get d k
  | [], _, _ => rfl
  | p :: items, d, h => by
    simp only [List.map_cons, List.mem_cons, not_or] at h
    rw [List.foldl_cons, get_foldl_set_of_notMem h.2, get_set, if_neg (Ne.symm h.1)]

theorem get_foldl_set {k : κ} {v : ν} : ∀ {items : List (κ × ν)} {d : Dict κ ν}, (items.map Prod.fst).Nodup →
    (k, v) ∈ items → get (items.foldl (fun d p => d.set p.1 p.2) d) k = some v
  | [], _, _, h => by cases h
  | p :: items, d, hn, h => by
    rw [List.map_cons, List.nodup_cons] at hn
    rcases List.mem_cons.1 h with rfl | h
    · rw [List.foldl_cons, get_foldl_set_of_notMem hn.1, get_set, if_pos rfl]
    · rw [List.foldl_cons]
      exact get_foldl_set hn.2 h

theorem get_ofItems {items : List (κ × ν)} {k : κ} {v : ν} (hn : (items.map Prod.fst).Nodup) (h : (k, v) ∈ items) :
    get (ofItems items) k = some v :=
  get_foldl_set hn h

/-- A dictionary updated with items answers from the items first. -/
theorem get_foldl_set_or (items : List (κ × ν)) (d : Dict κ ν) (k : κ) :
    get (items.foldl (fun d p => d.set p.1 p.2) d) k = (get (ofItems items) k).or (get d k) := by
  induction items using List.reverseRecOn with
  | nil => rfl
  | append_singleton items p ih =>
    simp only [ofItems, List.foldl_append, List.foldl_cons, List.foldl_nil, get_set] at ih ⊢
    split
    · rfl
    · exact ih

/-- No key twice, as in every dictionary built by `set`. -/
def Keyed (d : Dict κ ν) : Prop := (d.map Prod.fst).Nodup

theorem mem_of_get : ∀ {d : Dict κ ν} {k : κ} {v : ν}, get d k = some v → (k, v) ∈ d
  | [], _, _, h => by cases h
  | (a, b) :: d, k, v, h => by
    simp only [get] at h
    split at h
    · rename_i hk
      cases h
      exact hk ▸ List.mem_cons_self
    · exact List.mem_cons_of_mem _ (mem_of_get h)

theorem get_isSome_of_mem : ∀ {d : Dict κ ν} {p : κ × ν}, p ∈ d → (d.get p.1).isSome
  | (a, b) :: d, p, h => by
    by_cases ha : a = p.1
    · simp [get, ha]
    · have hp : p ∈ d := by
        rcases List.mem_cons.1 h with rfl | h
        · exact absurd rfl ha
        · exact h
      simpa [get, ha] using get_isSome_of_mem hp

/-- A key that is there stays where it is. -/
theorem keys_set_of_isSome {k : κ} {v : ν} : ∀ {d : Dict κ ν}, (d.get k).isSome →
    (d.set k v).map Prod.fst = d.map Prod.fst
  | [], h => by cases h
  | (a, b) :: d, h => by
    by_cases ha : a = k
    · simp [set, ha]
    · have hd : (get d k).isSome := by simpa [get, ha] using h
      simp [set, ha, keys_set_of_isSome hd]

/-- A new key goes to the end. -/
theorem set_of_notMem {d : Dict κ ν} {k : κ} {v : ν} (h : k ∉ d.map Prod.fst) : d.set k v = d ++ [(k, v)] := by
  induction d with
  | nil => rfl
  | cons p d ih =>
    obtain ⟨a, b⟩ := p
    rw [List.map_cons, List.mem_cons, not_or] at h
    rw [set, if_neg (Ne.symm h.1), ih h.2]
    rfl

theorem Keyed.get_of_mem : ∀ {d : Dict κ ν} {k : κ} {v : ν}, Keyed d → (k, v) ∈ d → get d k = some v
  | [], _, _, _, h => by cases h
  | (a, b) :: d, k, v, hd, h => by
    rw [Keyed, List.map_cons, List.nodup_cons] at hd
    rcases List.mem_cons.1 h with heq | h
    · cases heq
      simp [get]
    · have hne : a ≠ k := by
        rintro rfl
        exact hd.1 (List.mem_map.2 ⟨_, h, rfl⟩)
      simp only [get, hne, if_false]
      exact Keyed.get_of_mem hd.2 h

theorem mem_of_mem_set {d : Dict κ ν} {k : κ} {v : ν} {p : κ × ν} (h : p ∈ set d k v) : p ∈ d ∨ p = (k, v) := by
  induction d with
  | nil => exact .inr (List.mem_singleton.1 h)
  | cons q d ih =>
    obtain ⟨a, b⟩ := q
    simp only [set] at h
    split at h
    · next hak =>
      rcases List.mem_cons.1 h with heq | h
      · exact .inr (hak ▸ heq)
      · exact .inl (.tail _ h)
    · rcases List.mem_cons.1 h with rfl | h
      · exact .inl List.mem_cons_self
      · exact (ih h).imp_left (.tail _)

theorem mem_keys_set {d : Dict κ ν} {k j : κ} {v : ν} : j ∈ (set d k v).map Prod.fst ↔ j = k ∨ j ∈ d.map Prod.fst := by
  induction d with
  | nil => simp [set]
  | cons p d ih =>
    obtain ⟨a, b⟩ := p
    by_cases hak : a = k
    · subst hak
      simp [set]
    · simp only [set, hak, if_false, List.map_cons, List.mem_cons, ih]
      exact or_left_comm

theorem Keyed.set {d : Dict κ ν} (h : Keyed d) (k : κ) (v : ν) : Keyed (set d k v) := by
  induction d with
  | nil => simp [Keyed, Dict.set]
  | cons p d ih =>
    obtain ⟨a, b⟩ := p
    rw [Keyed, List.map_cons, List.nodup_cons] at h
    by_cases hak : a = k
    · subst hak
      simpa [Keyed, Dict.set] using h
    · simp only [Keyed, Dict.set, hak, if_false, List.map_cons, List.nodup_cons]
      refine ⟨fun hmem => ?_, ih h.2⟩
      rcases mem_keys_set.1 hmem with heq | hmem
      · exact hak heq
      · exact h.1 hmem

theorem keyed_foldl_set : ∀ {items : List (κ × ν)} {d : Dict κ ν}, Keyed d →
    Keyed (items.foldl (fun d p => d.set p.1 p.2) d)
  | [], _, h => h
  | p :: items, d, h => by
    rw [List.foldl_cons]
    exact keyed_foldl_set (h.set p.1 p.2)

theorem mem_keys_foldl_set {k : κ} : ∀ {items : List (κ × ν)} {d : Dict κ ν},
    k ∈ (items.foldl (fun d p => d.set p.1 p.2) d).map Prod.fst → k ∈ d.map Prod.fst ∨ k ∈ items.map Prod.fst
  | [], _, h => .inl h
  | p :: items, d, h => by
    rw [List.foldl_cons] at h
    rw [List.map_cons, List.mem_cons]
    rcases mem_keys_foldl_set h with h | h
    · exact (mem_keys_set.1 h).elim (fun h => .inr (.inl h)) .inl
    · exact .inr (.inr h)

theorem keyed_ofItems (items : List (κ × ν)) : Keyed (ofItems items) := keyed_foldl_set List.nodup_nil

/-- The value of a key replaced, if the key is there. -/
def replace (d : Dict κ ν) (k : κ) (v : ν) : Dict κ ν := d.map fun p => if p.1 = k then (k, v) else p

theorem replace_of_notMem {d : Dict κ ν} {k : κ} {v : ν} (h : k ∉ d.map Prod.fst) : replace d k v = d := by
  have hid : ∀ p ∈ d, (if p.1 = k then (k, v) else p) = p := by
    intro p hp
    rw [if_neg]
    rintro rfl
    exact h (List.mem_map.2 ⟨p, hp, rfl⟩)
  rw [replace, List.map_congr_left hid, List.map_id']

theorem replace_set_ne {d : Dict κ ν} {k j : κ} {v w : ν} (h : j ≠ k) :
    replace (set d j w) k v = set (replace d k v) j w := by
  induction d with
  | nil => simp [replace, set, h]
  | cons p d ih =>
    obtain ⟨a, b⟩ := p
    simp only [replace] at ih
    by_cases haj : a = j
    · subst haj
      simp [replace, set, h]
    · by_cases hak : a = k
      · subst hak
        simp [replace, set, haj, ih]
      · simp [replace, set, haj, hak, ih]

theorem replace_set_self {d : Dict κ ν} {k : κ} {v w : ν} (hd : Keyed d) : replace (set d k w) k v = set d k v := by
  induction d with
  | nil => simp [replace, set]
  | cons p d ih =>
    obtain ⟨a, b⟩ := p
    rw [Keyed, List.map_cons, List.nodup_cons] at hd
    by_cases hak : a = k
    · subst hak
      have hrest : replace d a v = d := replace_of_notMem hd.1
      rw [replace] at hrest
      simp [replace, set, hrest]
    · have := ih hd.2
      simp only [replace] at this
      simp [replace, set, hak, this]

theorem replace_foldl_set {k : κ} {v : ν} : ∀ {items : List (κ × ν)} {d : Dict κ ν}, k ∉ items.map Prod.fst →
    replace (items.foldl (fun d p => d.set p.1 p.2) d) k v = items.foldl (fun d p => d.set p.1 p.2) (replace d k v)
  | [], _, _ => rfl
  | p :: items, d, h => by
    rw [List.map_cons, List.mem_cons, not_or] at h
    rw [List.foldl_cons, replace_foldl_set h.2, replace_set_ne (Ne.symm h.1), List.foldl_cons]

theorem get_append (d e : Dict κ ν) (k : κ) : get (d ++ e) k = (get d k).or (get e k) := by
  induction d with
  | nil => rfl
  | cons p d ih =>
    obtain ⟨a, b⟩ := p
    by_cases hak : a = k <;> simp [get, hak, ih]

/-- A filter that looks at the keys only. -/
theorem get_filter (d : Dict κ ν) (q : κ → Bool) (k : κ) : get (d.filter fun p => q p.1) k =
    if q k then get d k else none := by
  induction d with
  | nil => simp
  | cons p d ih =>
    obtain ⟨a, b⟩ := p
    by_cases hak : a = k
    · subst hak
      by_cases hq : q a = true <;> simp_all [get]
    · by_cases hq : q a = true <;> simp [get, hak, hq, ih]

/-- The dictionaries answer alike. -/
def agree [DecidableEq ν] (d e : Dict κ ν) : Bool := ((d ++ e).map Prod.fst).all fun k => d.get k = e.get k

theorem agree_iff [DecidableEq ν] {d e : Dict κ ν} : agree d e = true ↔ ∀ k, d.get k = e.get k := by
  simp only [agree, List.all_eq_true, decide_eq_true_eq]
  refine ⟨fun h k => ?_, fun h k _ => h k⟩
  cases hd : d.get k with
  | some v => exact hd ▸ h k (by simpa using .inl ⟨v, mem_of_get hd⟩)
  | none =>
    cases he : e.get k with
    | none => rfl
    | some v =>
      have hk := h k (by simpa using .inr ⟨v, mem_of_get he⟩)
      rw [hd, he] at hk
      cases hk

/-! ## Groups -/

section
variable {α : Type*} (key : α → κ)

/-- `defaultdict(list)`, filled by key. -/
def group (xs : List α) : Dict κ (List α) := xs.foldl (fun d x => d.set (key x) (d.getD (key x) [] ++ [x])) []

variable {key} {xs g : List α} {x : α} {k : κ}

theorem group_append_singleton (xs : List α) (x : α) :
    group key (xs ++ [x]) = (group key xs).set (key x) ((group key xs).getD (key x) [] ++ [x]) := by
  simp [group]

theorem keyed_group (xs : List α) : Keyed (group key xs) := by
  induction xs using List.reverseRecOn with
  | nil => exact List.nodup_nil
  | append_singleton xs x ih =>
    rw [group_append_singleton]
    exact ih.set _ _

theorem getD_group (xs : List α) (k : κ) : (group key xs).getD k [] = xs.filter fun x => key x = k := by
  induction xs using List.reverseRecOn with
  | nil => rfl
  | append_singleton xs x ih =>
    rw [group_append_singleton, getD_set, List.filter_append]
    by_cases hk : key x = k
    · subst hk
      rw [if_pos rfl, ih]
      simp
    · rw [if_neg hk, ih]
      simp [hk]

/-- A group is what has its key. -/
theorem group_eq (h : (k, g) ∈ group key xs) : g = xs.filter fun x => key x = k := by
  rw [← getD_group, getD, (keyed_group xs).get_of_mem h, Option.getD_some]

theorem mem_keys_group : k ∈ (group key xs).map Prod.fst ↔ ∃ x ∈ xs, key x = k := by
  induction xs using List.reverseRecOn with
  | nil => simp [group]
  | append_singleton xs x ih =>
    rw [group_append_singleton, mem_keys_set, ih]
    simp only [List.mem_append, List.mem_singleton]
    constructor
    · rintro (rfl | ⟨y, hy, rfl⟩)
      · exact ⟨x, .inr rfl, rfl⟩
      · exact ⟨y, .inl hy, rfl⟩
    · rintro ⟨y, hy | rfl, rfl⟩
      · exact .inr ⟨y, hy, rfl⟩
      · exact .inl rfl

theorem exists_group (hx : x ∈ xs) : (key x, xs.filter fun y => key y = key x) ∈ group key xs := by
  have hkey : key x ∈ (group key xs).map Prod.fst := mem_keys_group.2 ⟨x, hx, rfl⟩
  obtain ⟨⟨k, g⟩, hmem, hk⟩ := List.mem_map.1 hkey
  obtain rfl : k = key x := hk
  rwa [← group_eq hmem]

end

end Dict
