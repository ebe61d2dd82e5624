import SynnoDB.Lib.Trace
import Mathlib.Data.List.Basic
import Mathlib.Data.Set.Basic
import Mathlib.Logic.Function.Basic

/-!
# Publishing under a name (`engine_publish.py:296-435`)

| here | there |
| --- | --- |
| `Name`        | the `name` of `_publish_named`: one component of a path, none of the entries the publisher keeps for itself |
| `Version`     | a directory of `.versions`; `owner` is the name it was written for, which **only its own name tells** there |
| `Entry`       | `engines_dir/<name>`: a real directory of older times, or a link into `.versions` |
| `State.held`  | the `flock` on `.locks/<safe>.lock`: held while a publisher that took it is inside, and free once it is dead |
| `State.removed` | which publish removed which version; the code keeps no such record |

Each file-system call is one step, `ok` is false where it raises, and a publisher may die between any two steps.
The entries `.tmp-*` and `.link-*` are read by nobody and left out.
-/

namespace SynnoDB.Workload.NamedPublish

structure Name where
  text : List Char
  plain : text ≠ [] ∧ '/' ∉ text ∧
    text ∉ [".".toList, "..".toList, ".versions".toList, ".locks".toList]
  deriving DecidableEq

/-- `uuid.uuid4().hex`. -/
structure Uuid where
  hex : List Char
  digits : hex.length = 32 ∧ ∀ c ∈ hex, c ∈ "0123456789abcdef".toList

/-- `_version_prefix`. -/
def versionPrefix (n : Name) : List Char := n.text ++ ['@']

/-- `.versions/<name>@<uuid>`. -/
def versionDir (n : Name) (u : Uuid) : List Char := versionPrefix n ++ u.hex

def legacyDir (n : Name) (u : Uuid) : List Char := versionPrefix n ++ ("legacy-".toList ++ u.hex)

/-- The name of the lock file; `isalnum` is `str.isalnum`. -/
def lockName (isalnum : Char → Bool) (n : Name) : List Char :=
  let safe := n.text.map fun c => if isalnum c || "-_.".toList.contains c then c else '_'
  if safe.isEmpty then "engine".toList else safe

structure Version where
  dir : List Char
  owner : Name
  /-- `_populate` was through with it. -/
  complete : Bool
  deriving DecidableEq

inductive Entry where
  | dir
  | link (target : List Char)
  deriving DecidableEq

inductive Pc where
  | start
  | locked
  | staging
  | populated
  | versioned (v : List Char)
  | linked (v : List Char)
  | flipping (v : List Char)
  | flipped (v : List Char)
  /-- In `_gc_versions`, over what `iterdir` gave. -/
  | collecting (v : List Char) (todo : List (List Char))
  /-- `rmtree(staging)`. -/
  | abandoning
  /-- `unlink(tmp_link)`. -/
  | unlinking
  | leaving
  | done
  | dead

/-- Between the two `flock` calls. -/
def Pc.inside : Pc → Bool
  | .start | .done | .dead => false
  | _ => true

structure Publisher where
  name : Name
  pc : Pc

structure State where
  versions : List Version := []
  entries : Name → Option Entry := fun _ => none
  publishers : List Publisher := []
  removed : List (Name × Version) := []

inductive Act where
  | publish (n : Name)
  | step (i : Nat) (ok : Bool) (u : Uuid)
  | crash (i : Nat)

section
variable (isalnum : Char → Bool)

namespace State

variable (s : State)

def held (lock : List Char) : Bool := s.publishers.any fun p => p.pc.inside && lockName isalnum p.name == lock

def goto (i : Nat) (p : Publisher) (pc : Pc) : State := { s with publishers := s.publishers.set i { p with pc } }

def exists? (dir : List Char) : Bool := s.versions.any fun v => v.dir == dir

/-- `shutil.rmtree(v, ignore_errors=True)` by a publish of `n`. -/
def rmtree (n : Name) (dir : List Char) : State := { s with
  versions := s.versions.filter fun v => v.dir != dir
  removed := (s.versions.filter fun v => v.dir == dir).map (fun v => (n, v)) ++ s.removed }

end State

/-- The next step of publisher `i` in `_publish_named`. -/
def publisherStep (s : State) (i : Nat) (p : Publisher) (ok : Bool) (u : Uuid) : Option State :=
  match p.pc with
  | .start =>
    if !ok then some (s.goto i p .done)
    else if s.held isalnum (lockName isalnum p.name) then none
    else some (s.goto i p .locked)
  | .locked => some (s.goto i p (if ok then .staging else .leaving))
  | .staging => some (s.goto i p (if ok then .populated else .abandoning))
  | .populated =>
    -- a directory that is there, and not empty, is not replaced
    if ok && !s.exists? (versionDir p.name u) then
      some { s.goto i p (.versioned (versionDir p.name u)) with
        versions := ⟨versionDir p.name u, p.name, true⟩ :: s.versions }
    else some (s.goto i p .abandoning)
  | .versioned v => some (s.goto i p (if ok then .linked v else .leaving))
  | .linked v => match s.entries p.name with
    | some .dir =>
      if ok && !s.exists? (legacyDir p.name u) then
        some { s.goto i p (.flipping v) with
          entries := Function.update s.entries p.name none
          versions := ⟨legacyDir p.name u, p.name, true⟩ :: s.versions }
      else some (s.goto i p .unlinking)
    | _ => some (s.goto i p (.flipping v))
  | .flipping v => match s.entries p.name with
    | some .dir => some (s.goto i p .unlinking)
    | _ =>
      if ok then some { s.goto i p (.flipped v) with entries := Function.update s.entries p.name (some (.link v)) }
      else some (s.goto i p .unlinking)
  | .flipped v => some (s.goto i p (if ok then .collecting v (s.versions.map Version.dir) else .leaving))
  | .collecting _ [] => some (s.goto i p .leaving)
  | .collecting v (d :: todo) =>
    if (versionPrefix p.name).isPrefixOf d && d != v && ok then some ((s.goto i p (.collecting v todo)).rmtree p.name d)
    else some (s.goto i p (.collecting v todo))
  | .abandoning | .unlinking => some (s.goto i p .leaving)
  | .leaving => some (s.goto i p .done)
  | .done | .dead => none

def step (s : State) : Act → Option State
  | .publish n => some { s with publishers := s.publishers ++ [⟨n, .start⟩] }
  | .step i ok u => match s.publishers[i]? with
    | some p => publisherStep isalnum s i p ok u
    | none => none
  | .crash i => match s.publishers[i]? with
    | some p => some (s.goto i p .dead)
    | none => none

end

/-- An engines directory before the first publish; `legacy` are the names that are real directories there. -/
def start (legacy : Name → Bool) : State := { entries := fun n => if legacy n then some .dir else none }

/-! ## What a version's name tells -/

theorem uuid_no_at (u : Uuid) : '@' ∉ u.hex := fun h => by
  have := u.digits.2 '@' h
  revert this
  decide

/-- The directory is one that a publish of `n` makes. -/
def Named (n : Name) (dir : List Char) : Prop := ∃ suffix, '@' ∉ suffix ∧ dir = versionPrefix n ++ suffix

theorem versionDir_named (n : Name) (u : Uuid) : Named n (versionDir n u) := ⟨u.hex, uuid_no_at u, rfl⟩

theorem legacyDir_named (n : Name) (u : Uuid) : Named n (legacyDir n u) := by
  refine ⟨_, fun h => ?_, rfl⟩
  rcases List.mem_append.1 h with h | h
  · revert h
    decide
  · exact uuid_no_at u h

theorem versionPrefix_inj {n m : Name} (h : versionPrefix n = versionPrefix m) : n = m := by
  cases n
  cases m
  simpa [versionPrefix] using h

/-- The prefix of a publish selects a version of its own name, or of a name that goes on with `@`. -/
theorem prefix_named {n m : Name} {dir : List Char} (h : Named m dir) (hp : versionPrefix n <+: dir) :
    m = n ∨ versionPrefix n <+: m.text := by
  obtain ⟨suffix, hs, rfl⟩ := h
  rcases List.prefix_or_prefix_of_prefix hp (List.prefix_append (versionPrefix m) suffix) with h | h
  · rcases List.prefix_concat_iff.1 h with h | h
    · exact .inl (versionPrefix_inj h.symm)
    · exact .inr h
  · rcases List.prefix_concat_iff.1 h with h | ⟨r, hr⟩
    · exact .inl (versionPrefix_inj h)
    · have hat : r ++ ['@'] <+: suffix := by
        rw [versionPrefix, ← hr, List.append_assoc] at hp
        exact (List.prefix_append_right_inj _).1 hp
      exact absurd (hat.subset (by simp)) hs

/-! ## The invariant -/

section
variable {isalnum : Char → Bool} {N : Set Name} {s s' : State} {i j : Nat} {p q : Publisher} {n : Name}

/-- A finished version of `n` under `dir`. -/
def State.Holds (s : State) (n : Name) (dir : List Char) : Prop :=
  ∃ v ∈ s.versions, v.dir = dir ∧ v.owner = n ∧ v.complete = true

/-- **Crash-atomic and isolated**: a link leads to a finished version of its name, and nobody removes another name's. -/
def State.Safe (s : State) : Prop :=
  (∀ n t, s.entries n = some (.link t) → s.Holds n t) ∧ ∀ r ∈ s.removed, r.2.owner = r.1

/-- The version a publisher has made. -/
def Pc.made : Pc → Option (List Char)
  | .versioned v | .linked v | .flipping v | .flipped v | .collecting v _ => some v
  | _ => none

/-- The link of its name is the publisher's own. -/
def Pc.flippedTo : Pc → Option (List Char)
  | .flipped v | .collecting v _ => some v
  | _ => none

structure Inv (isalnum : Char → Bool) (N : Set Name) (s : State) : Prop where
  /-- One publisher of a name at a time, and of a lock. -/
  alone : ∀ (i j : Nat) (p q : Publisher), s.publishers[i]? = some p → s.publishers[j]? = some q →
    p.pc.inside = true → q.pc.inside = true → lockName isalnum p.name = lockName isalnum q.name → i = j
  names : ∀ p ∈ s.publishers, p.name ∈ N
  versions : ∀ v ∈ s.versions, v.owner ∈ N ∧ Named v.owner v.dir
  made : ∀ p ∈ s.publishers, ∀ v, p.pc.made = some v → s.Holds p.name v
  flipped : ∀ p ∈ s.publishers, ∀ v, p.pc.flippedTo = some v → s.entries p.name = some (.link v)
  link : ∀ n t, s.entries n = some (.link t) → s.Holds n t
  removed : ∀ r ∈ s.removed, r.2.owner = r.1

/-- No name of `N` goes on with `@` where another one ends. -/
def Apart (N : Set Name) : Prop := ∀ n ∈ N, ∀ m ∈ N, ¬ versionPrefix n <+: m.text

theorem Pc.inside_of_made {pc : Pc} {v : List Char} (h : pc.made = some v) : pc.inside = true := by
  cases pc <;> simp_all [Pc.made, Pc.inside]

theorem Pc.made_of_flippedTo {pc : Pc} {v : List Char} (h : pc.flippedTo = some v) : pc.made = some v := by
  cases pc <;> simp_all [Pc.made, Pc.flippedTo]

/-- Another publisher inside has another name. -/
theorem Inv.other_name (hs : Inv isalnum N s) (hp : s.publishers[i]? = some p) (hq : s.publishers[j]? = some q)
    (hpin : p.pc.inside = true) (hqin : q.pc.inside = true) (hij : j ≠ i) : q.name ≠ p.name := by
  intro h
  exact hij (hs.alone j i q p hq hp hqin hpin (by rw [h]))

/-- A step of publisher `i` to `pc`: what it has to leave to the others, and what it says of itself. -/
theorem Inv.moved {pc : Pc} (hs : Inv isalnum N s) (hp : s.publishers[i]? = some p)
    (hpub : s'.publishers = s.publishers.set i { p with pc })
    (hin : pc.inside = true → p.pc.inside = true ∨ s.held isalnum (lockName isalnum p.name) = false)
    (hver : ∀ v ∈ s'.versions, v ∈ s.versions ∨ v.owner = p.name ∧ Named v.owner v.dir)
    (hmade : ∀ j q v, j ≠ i → s.publishers[j]? = some q → q.pc.made = some v → s'.Holds q.name v)
    (hmade' : ∀ v, pc.made = some v → s'.Holds p.name v)
    (hflip : ∀ j q v, j ≠ i → s.publishers[j]? = some q → q.pc.flippedTo = some v → s'.entries q.name = some (.link v))
    (hflip' : ∀ v, pc.flippedTo = some v → s'.entries p.name = some (.link v))
    (hlink : ∀ n t, s'.entries n = some (.link t) → s'.Holds n t)
    (hrem : ∀ r ∈ s'.removed, r.2.owner = r.1) : Inv isalnum N s' := by
  have hi := (List.getElem?_eq_some_iff.1 hp).1
  have hmem := List.mem_of_getElem? hp
  -- the publishers after the step: the others as they were, and this one
  have hget : ∀ (j : Nat) (q : Publisher), s'.publishers[j]? = some q →
      j ≠ i ∧ s.publishers[j]? = some q ∨ j = i ∧ q = { p with pc } := by
    intro j q hq
    rw [hpub, List.getElem?_set] at hq
    by_cases hij : i = j
    · subst hij
      simp only [if_true, hi, Option.some.injEq] at hq
      exact .inr ⟨rfl, hq.symm⟩
    · rw [if_neg hij] at hq
      exact .inl ⟨Ne.symm hij, hq⟩
  -- nobody else is inside under this lock
  have hfree : pc.inside = true → ∀ (j : Nat) (q : Publisher), j ≠ i → s.publishers[j]? = some q → q.pc.inside = true →
      lockName isalnum q.name ≠ lockName isalnum p.name := by
    intro hpc j q hij hq hqin hlock
    rcases hin hpc with h | h
    · exact hij (hs.alone j i q p hq hp hqin h hlock)
    · simp only [State.held, List.any_eq_false] at h
      exact h q (List.mem_of_getElem? hq) (by simp [hqin, hlock])
  constructor
  case alone =>
    intro a b x y hx hy hxin hyin hlock
    rcases hget a x hx with ⟨ha, hx⟩ | ⟨rfl, rfl⟩ <;> rcases hget b y hy with ⟨hb, hy⟩ | ⟨rfl, rfl⟩
    · exact hs.alone a b x y hx hy hxin hyin hlock
    · exact absurd hlock (hfree hyin a x ha hx hxin)
    · exact absurd hlock.symm (hfree hxin b y hb hy hyin)
    · rfl
  case names =>
    intro x hx
    obtain ⟨a, hx⟩ := List.mem_iff_getElem?.1 hx
    rcases hget a x hx with ⟨-, hx⟩ | ⟨-, rfl⟩
    · exact hs.names x (List.mem_of_getElem? hx)
    · exact hs.names p hmem
  case versions =>
    intro v hv
    rcases hver v hv with hv | ⟨h1, h2⟩
    · exact hs.versions v hv
    · exact ⟨h1 ▸ hs.names p hmem, h2⟩
  case made =>
    intro x hx v hv
    obtain ⟨a, hx⟩ := List.mem_iff_getElem?.1 hx
    rcases hget a x hx with ⟨ha, hx⟩ | ⟨-, rfl⟩
    · exact hmade a x v ha hx hv
    · exact hmade' v hv
  case flipped =>
    intro x hx v hv
    obtain ⟨a, hx⟩ := List.mem_iff_getElem?.1 hx
    rcases hget a x hx with ⟨ha, hx⟩ | ⟨-, rfl⟩
    · exact hflip a x v ha hx hv
    · exact hflip' v hv
  case link => exact hlink
  case removed => exact hrem

/-- A step that touches no version and no link. -/
theorem Inv.goto {pc : Pc} (hs : Inv isalnum N s) (hp : s.publishers[i]? = some p)
    (hin : pc.inside = true → p.pc.inside = true ∨ s.held isalnum (lockName isalnum p.name) = false)
    (hmade : ∀ v, pc.made = some v → p.pc.made = some v)
    (hflip : ∀ v, pc.flippedTo = some v → p.pc.flippedTo = some v) : Inv isalnum N (s.goto i p pc) := by
  have hmem := List.mem_of_getElem? hp
  refine hs.moved hp rfl hin (fun v hv => .inl hv) (fun j q v _ hq h => hs.made q (List.mem_of_getElem? hq) v h) ?_
    (fun j q v _ hq h => hs.flipped q (List.mem_of_getElem? hq) v h) ?_ hs.link hs.removed
  · exact fun v h => hs.made p hmem v (hmade v h)
  · exact fun v h => hs.flipped p hmem v (hflip v h)

theorem Holds.cons {v : Version} {dir : List Char} (hv : s'.versions = v :: s.versions) (h : s.Holds n dir) :
    s'.Holds n dir := by
  obtain ⟨x, hx, h⟩ := h
  exact ⟨x, hv ▸ List.mem_cons_of_mem _ hx, h⟩

/-- A version is added, and no link. -/
theorem Inv.adds {pc : Pc} {dir : List Char} (hs : Inv isalnum N s) (hp : s.publishers[i]? = some p)
    (hpub : s'.publishers = s.publishers.set i { p with pc }) (hin : p.pc.inside = true)
    (hver : s'.versions = ⟨dir, p.name, true⟩ :: s.versions) (hdir : Named p.name dir)
    (hent : ∀ n, n ≠ p.name → s'.entries n = s.entries n)
    (hown : ∀ t, s'.entries p.name = some (.link t) → s.entries p.name = some (.link t))
    (hrem : s'.removed = s.removed) (hmade : ∀ v, pc.made = some v → v = dir ∨ p.pc.made = some v)
    (hflip : pc.flippedTo = none) : Inv isalnum N s' := by
  have hmem := List.mem_of_getElem? hp
  refine hs.moved hp hpub (fun _ => .inl hin) (fun v hv => ?_) (fun j q v _ hq h => ?_) (fun v h => ?_)
    (fun j q v hij hq h => ?_) (fun v h => by rw [hflip] at h; cases h) (fun n t h => ?_) (fun r hr => ?_)
  · rw [hver] at hv
    rcases List.mem_cons.1 hv with rfl | hv
    · exact .inr ⟨rfl, hdir⟩
    · exact .inl hv
  · exact Holds.cons hver (hs.made q (List.mem_of_getElem? hq) v h)
  · rcases hmade v h with rfl | h
    · exact ⟨_, hver ▸ List.mem_cons_self, rfl, rfl, rfl⟩
    · exact Holds.cons hver (hs.made p hmem v h)
  · rw [hent q.name (hs.other_name hp hq hin (Pc.inside_of_made (Pc.made_of_flippedTo h)) hij)]
    exact hs.flipped q (List.mem_of_getElem? hq) v h
  · refine Holds.cons hver (hs.link n t ?_)
    by_cases hn : n = p.name
    · subst hn
      exact hown t h
    · rwa [hent n hn] at h
  · exact hs.removed r (hrem ▸ hr)

/-- `os.replace(tmp_link, dest)`. -/
theorem Inv.flips {v : List Char} (hs : Inv isalnum N s) (hp : s.publishers[i]? = some p) (hpc : p.pc = .flipping v) :
    Inv isalnum N { s.goto i p (.flipped v) with entries := Function.update s.entries p.name (some (.link v)) } := by
  have hmem := List.mem_of_getElem? hp
  have hin : p.pc.inside = true := by rw [hpc]; rfl
  have hholds : s.Holds p.name v := hs.made p hmem v (by rw [hpc]; rfl)
  refine hs.moved hp rfl (fun _ => .inl hin) (fun v hv => .inl hv)
    (fun j q v _ hq h => hs.made q (List.mem_of_getElem? hq) v h) (fun w h => ?_) (fun j q w hij hq h => ?_)
    (fun w h => ?_) (fun n t h => ?_) hs.removed
  · cases h
    exact hholds
  · have hne := hs.other_name hp hq hin (Pc.inside_of_made (Pc.made_of_flippedTo h)) hij
    show Function.update s.entries p.name _ q.name = _
    rw [Function.update_of_ne hne]
    exact hs.flipped q (List.mem_of_getElem? hq) w h
  · cases h
    exact Function.update_self _ _ _
  · replace h : Function.update s.entries p.name (some (.link v)) n = some (.link t) := h
    by_cases hn : n = p.name
    · subst hn
      rw [Function.update_self, Option.some.injEq, Entry.link.injEq] at h
      exact h ▸ hholds
    · rw [Function.update_of_ne hn] at h
      exact hs.link n t h

/-- The garbage collection of a name takes no version that anyone else is at or that a link leads to. -/
theorem Inv.collects {v d : List Char} {todo : List (List Char)} (hN : Apart N) (hs : Inv isalnum N s)
    (hp : s.publishers[i]? = some p) (hpc : p.pc = .collecting v (d :: todo)) (hd : versionPrefix p.name <+: d)
      (hv : d ≠ v) :
    Inv isalnum N ((s.goto i p (.collecting v todo)).rmtree p.name d) := by
  have hmem := List.mem_of_getElem? hp
  have hin : p.pc.inside = true := by rw [hpc]; rfl
  have hflip : s.entries p.name = some (.link v) := hs.flipped p hmem v (by rw [hpc]; rfl)
  -- a version under `d` is one of this name
  have howner : ∀ x ∈ s.versions, x.dir = d → x.owner = p.name := by
    intro x hx hxd
    rcases prefix_named (hs.versions x hx).2 (hxd ▸ hd) with h | h
    · exact h
    · exact absurd h (hN _ (hs.names p hmem) _ (hs.versions x hx).1)
  have hkeep : ∀ n t, s.Holds n t → (n = p.name → t ≠ d) →
    ((s.goto i p (.collecting v todo)).rmtree p.name d).Holds n t := by
    rintro n t ⟨x, hx, hxt, hxn, hxc⟩ hne
    refine ⟨x, List.mem_filter.2 ⟨hx, ?_⟩, hxt, hxn, hxc⟩
    simp only [bne_iff_ne]
    intro hxd
    exact hne (hxn ▸ howner x hx hxd) (hxt ▸ hxd)
  refine hs.moved hp rfl (fun _ => .inl hin) (fun x hx => .inl (List.mem_filter.1 hx).1) (fun j q w hij hq h => ?_)
    (fun w h => ?_) (fun j q w _ hq h => hs.flipped q (List.mem_of_getElem? hq) w h) (fun w h => ?_) (fun n t h => ?_)
    (fun r hr => ?_)
  · have hne := hs.other_name hp hq hin (Pc.inside_of_made h) hij
    exact hkeep _ _ (hs.made q (List.mem_of_getElem? hq) w h) fun hn => absurd hn hne
  · cases h
    exact hkeep _ _ (hs.made p hmem v (by rw [hpc]; rfl)) fun _ => Ne.symm hv
  · cases h
    exact hflip
  · refine hkeep n t (hs.link n t h) fun hn => ?_
    subst hn
    have := hflip.symm.trans h
    simp only [Option.some.injEq, Entry.link.injEq] at this
    exact this ▸ Ne.symm hv
  · rcases List.mem_append.1 hr with hr | hr
    · obtain ⟨x, hx, rfl⟩ := List.mem_map.1 hr
      obtain ⟨hx, hxd⟩ := List.mem_filter.1 hx
      exact howner x hx (by simpa using hxd)
    · exact hs.removed r hr

theorem Inv.publisher_step {ok : Bool} {u : Uuid} (hN : Apart N) (hs : Inv isalnum N s) (hp : s.publishers[i]? = some p)
    (h : publisherStep isalnum s i p ok u = some s') : Inv isalnum N s' := by
  have hmem := List.mem_of_getElem? hp
  cases hpc : p.pc with
  | start =>
    simp only [publisherStep, hpc] at h
    split at h
    · simp only [Option.some.injEq] at h
      subst h
      apply hs.goto hp <;> simp [Pc.inside, Pc.made, Pc.flippedTo]
    · split at h
      · cases h
      · rename_i hheld
        simp only [Option.some.injEq] at h
        subst h
        refine hs.goto hp (fun _ => .inr (by simpa using hheld)) ?_ ?_ <;> simp [Pc.made, Pc.flippedTo]
  | populated =>
    simp only [publisherStep, hpc] at h
    split at h <;> simp only [Option.some.injEq] at h <;> subst h
    · refine hs.adds hp rfl (by rw [hpc]; rfl) rfl (versionDir_named _ _) (fun _ _ => rfl) (fun _ h => h) rfl ?_ rfl
      simp +contextual [Pc.made]
    · apply hs.goto hp <;> simp [hpc, Pc.inside, Pc.made, Pc.flippedTo]
  | linked v =>
    simp only [publisherStep, hpc] at h
    split at h
    · split at h <;> simp only [Option.some.injEq] at h <;> subst h
      · refine hs.adds hp rfl (by rw [hpc]; rfl) rfl (legacyDir_named _ _) (fun _ hn => Function.update_of_ne hn _ _)
          (fun t h => ?_) rfl ?_ rfl
        · simp at h
        · simp [hpc, Pc.made]
      · apply hs.goto hp <;> simp [hpc, Pc.inside, Pc.made, Pc.flippedTo]
    · simp only [Option.some.injEq] at h
      subst h
      apply hs.goto hp <;> simp [hpc, Pc.inside, Pc.made, Pc.flippedTo]
  | flipping v =>
    simp only [publisherStep, hpc] at h
    split at h
    · simp only [Option.some.injEq] at h
      subst h
      apply hs.goto hp <;> simp [hpc, Pc.inside, Pc.made, Pc.flippedTo]
    · split at h <;> simp only [Option.some.injEq] at h <;> subst h
      · exact hs.flips hp hpc
      · apply hs.goto hp <;> simp [hpc, Pc.inside, Pc.made, Pc.flippedTo]
  | collecting v todo =>
    cases todo with
    | nil =>
      simp only [publisherStep, hpc, Option.some.injEq] at h
      subst h
      apply hs.goto hp <;> simp [hpc, Pc.inside, Pc.made, Pc.flippedTo]
    | cons d todo =>
      simp only [publisherStep, hpc] at h
      split at h <;> simp only [Option.some.injEq] at h <;> subst h
      · rename_i hcond
        simp only [Bool.and_eq_true, List.isPrefixOf_iff_prefix, bne_iff_ne] at hcond
        exact hs.collects hN hp hpc hcond.1.1 hcond.1.2
      · apply hs.goto hp <;> simp [hpc, Pc.inside, Pc.made, Pc.flippedTo]
  | done | dead => simp [publisherStep, hpc] at h
  | _ =>
    simp only [publisherStep, hpc, Option.some.injEq] at h
    subst h
    apply hs.goto hp <;> cases ok <;> simp [hpc, Pc.inside, Pc.made, Pc.flippedTo]

/-- The publish of a name of `N`. -/
def Act.Within (N : Set Name) : Act → Prop
  | .publish n => n ∈ N
  | _ => True

theorem Inv.step {a : Act} (hN : Apart N) (hs : Inv isalnum N s) (ha : a.Within N) (h : step isalnum s a = some s') :
    Inv isalnum N s' := by
  cases a with
  | publish n =>
    simp only [NamedPublish.step, Option.some.injEq] at h
    subst h
    have hget : ∀ (j : Nat) (q : Publisher), (s.publishers ++ [⟨n, .start⟩])[j]? = some q → q.pc.inside = true →
        s.publishers[j]? = some q := by
      intro j q hq hin
      by_cases hj : j < s.publishers.length
      · rwa [List.getElem?_append_left hj] at hq
      · have hq' := List.mem_of_getElem? hq
        rw [List.getElem?_append_right (by omega)] at hq
        obtain rfl := List.mem_singleton.1 (List.mem_of_getElem? hq)
        cases hin
    have hold : ∀ q ∈ s.publishers ++ [⟨n, .start⟩], q ∈ s.publishers ∨ q = ⟨n, .start⟩ := by simp
    constructor
    case alone =>
      intro x y p q hp hq hpin hqin
      exact hs.alone x y p q (hget x p hp hpin) (hget y q hq hqin) hpin hqin
    case names =>
      intro q hq
      rcases hold q hq with hq | rfl
      · exact hs.names q hq
      · exact ha
    case versions => exact hs.versions
    case made =>
      intro q hq v hv
      rcases hold q hq with hq | rfl
      · exact hs.made q hq v hv
      · cases hv
    case flipped =>
      intro q hq v hv
      rcases hold q hq with hq | rfl
      · exact hs.flipped q hq v hv
      · cases hv
    case link => exact hs.link
    case removed => exact hs.removed
  | step i ok u =>
    simp only [NamedPublish.step] at h
    split at h
    · rename_i p hp
      exact hs.publisher_step hN hp h
    · cases h
  | crash i =>
    simp only [NamedPublish.step] at h
    split at h
    · rename_i p hp
      simp only [Option.some.injEq] at h
      subst h
      apply hs.goto hp <;> simp [Pc.inside, Pc.made, Pc.flippedTo]
    · cases h

theorem Inv.start (legacy : Name → Bool) : Inv isalnum N (start legacy) := by
  constructor
  case link =>
    intro n t h
    simp only [NamedPublish.start] at h
    split at h <;> cases h
  all_goals simp [NamedPublish.start]

theorem Inv.safe (hs : Inv isalnum N s) : s.Safe := ⟨hs.link, hs.removed⟩

theorem within_meets {acts : List Act} (h : ∀ a ∈ acts, a.Within N) :
    ∀ s, Trace.Meets (step isalnum) (fun _ a => a.Within N) s acts := by
  induction acts with
  | nil => exact fun s => trivial
  | cons a acts ih =>
    exact fun s => ⟨h a List.mem_cons_self, fun s' _ => ih (fun b hb => h b (List.mem_cons_of_mem a hb)) s'⟩

theorem safe_of_apart (hN : Apart N) {legacy : Name → Bool} {acts : List Act} (hacts : ∀ a ∈ acts, a.Within N)
    (h : Trace.exec (step isalnum) (start legacy) acts = some s) : s.Safe :=
  (Trace.exec_invariant (I := Inv isalnum N) (fun _ _ _ hi hok hs => hi.step hN hok hs) (Inv.start legacy)
    (within_meets hacts _) h).safe

/-! ## Two names that are not apart -/

def zeros : Uuid := ⟨List.replicate 32 '0', by simp⟩

/-- A publish that nothing disturbs, as publisher `i`, with `k` versions to look at. -/
def wholePublish (n : Name) (i k : Nat) : List Act := .publish n :: List.replicate (10 + k) (.step i true zeros)

/-- The publish of `m` into an empty directory. -/
theorem first_publish (m : Name) :
    Trace.exec (step isalnum) (start fun _ => false) (wholePublish m 0 1) = some
      { versions := [⟨versionDir m zeros, m, true⟩]
        entries := Function.update (fun _ => none) m (some (.link (versionDir m zeros)))
        publishers := [⟨m, .done⟩] } := by
  simp [wholePublish, List.replicate, Trace.exec, step, publisherStep, State.goto, State.held, State.exists?,
    start, Pc.inside]

/-- **A publish of `n` takes the version of `n@…` away.** -/
theorem removes_other {n m : Name} (h : versionPrefix n <+: m.text) :
    ∃ s, Trace.exec (step isalnum) (start fun _ => false) (wholePublish m 0 1 ++ wholePublish n 1 2) = some s ∧
      ¬ s.Safe := by
  have hlen := h.length_le
  simp only [versionPrefix, List.length_append, List.length_singleton] at hlen
  have hne : n ≠ m := by
    rintro rfl
    omega
  have hp : versionPrefix n <+: versionDir m zeros := h.trans (by simp [versionDir, versionPrefix])
  have hd : versionDir m zeros ≠ versionDir n zeros := by
    intro hd
    have := congrArg List.length hd
    simp only [versionDir, versionPrefix, List.length_append] at this
    omega
  refine ⟨{
    versions := [⟨versionDir n zeros, n, true⟩]
    entries := Function.update (Function.update (fun _ => none) m (some (.link (versionDir m zeros)))) n
      (some (.link (versionDir n zeros)))
    publishers := [⟨m, .done⟩, ⟨n, .done⟩]
    removed := [(n, ⟨versionDir m zeros, m, true⟩)] }, Trace.exec_append.2 ⟨_, first_publish m, ?_⟩, fun hsafe => ?_⟩
  · simp [wholePublish, List.replicate, Trace.exec, step, publisherStep, State.goto, State.held, State.exists?,
      State.rmtree,
      Pc.inside, hne, hd, hp, hd.symm]
  · exact hne (hsafe.2 _ List.mem_cons_self).symm

/-- **Named publish is isolated exactly between names that are apart.** -/
theorem named_publish_verdict (isalnum : Char → Bool) (N : Set Name) :
    (∀ legacy acts s, (∀ a ∈ acts, a.Within N) → Trace.exec (step isalnum) (start legacy) acts = some s → s.Safe) ↔
      ∀ n ∈ N, ∀ m ∈ N, ¬ versionPrefix n <+: m.text := by
  constructor
  · intro h n hn m hm hp
    obtain ⟨s, hs, hsafe⟩ : ∃ s, Trace.exec (step isalnum) _ _ = some s ∧ ¬ s.Safe := removes_other hp
    refine hsafe (h _ _ s (fun a ha => ?_) hs)
    simp only [wholePublish, List.cons_append, List.mem_cons, List.mem_append, List.mem_replicate] at ha
    rcases ha with rfl | ⟨-, rfl⟩ | rfl | ⟨-, rfl⟩
    · exact hm
    · trivial
    · exact hn
    · trivial
  · exact fun hN legacy acts s => safe_of_apart hN

/-- The names `a` and `a@b`. -/
theorem at_name_removed : ∃ s, Trace.exec (step Char.isAlphanum) (start fun _ => false)
    (wholePublish ⟨"a@b".toList, by decide⟩ 0 1 ++ wholePublish ⟨"a".toList, by decide⟩ 1 2) = some s ∧ ¬ s.Safe :=
  removes_other (by decide)

end

end SynnoDB.Workload.NamedPublish
