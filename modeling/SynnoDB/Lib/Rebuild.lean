import Mathlib.Logic.Function.Basic
import Mathlib.Data.List.Basic

/-!
# Files with modification times, and commands that read and write them

A disk is a partial map from files to their contents, each with the time it was written and the command that
wrote it. A `Tool` says for every command what it reads and what it produces. Freshness is decided from times:
`Settled` says that none of the listed files is newer than an output, `Sound` that an output whose list is settled
is what its command would produce now. The lemmas say how `Sound` survives writes; they are what an incremental
build that compares modification times relies on, whatever it builds.
-/

namespace Rebuild

variable {ι γ κ : Type*}

structure File (γ κ : Type*) where
  mtime : Nat
  content : γ
  /-- `none`: written by hand. -/
  writer : Option κ
deriving DecidableEq

abbrev Disk (ι γ κ : Type*) := ι → Option (File γ κ)

def contents (d : Disk ι γ κ) : ι → Option γ := fun i => (d i).map File.content

structure Tool (ι γ κ : Type*) where
  reads : κ → (ι → Option γ) → List ι
  result : κ → (ι → Option γ) → γ

/-- What a command reads and produces depends on the command and on what it reads. -/
structure Tool.Deterministic (T : Tool ι γ κ) : Prop where
  reads : ∀ c d d', (∀ i ∈ T.reads c d, d' i = d i) → T.reads c d' = T.reads c d
  result : ∀ c d d', (∀ i ∈ T.reads c d, d' i = d i) → T.result c d' = T.result c d

/-- All of these files are there, and none is newer than `t`. -/
def Settled (d : Disk ι γ κ) (t : Nat) (is : List ι) : Prop := ∀ i ∈ is, ∃ f, d i = some f ∧ f.mtime ≤ t

/-- As long as the listed files are settled, they are all that the command reads and the output is what it gives. -/
def Sound (T : Tool ι γ κ) (d : Disk ι γ κ) (c : κ) (is : List ι) (f : File γ κ) : Prop :=
  Settled d f.mtime is → T.reads c (contents d) ⊆ is ∧ f.content = T.result c (contents d)

variable {T : Tool ι γ κ} {d d' : Disk ι γ κ} {c : κ} {is : List ι} {f : File γ κ} {t : Nat}

theorem contents_eq {i : ι} (h : d' i = d i) : contents d' i = contents d i := by
  simp [contents, h]

/-- The result of a command that reads none of the files that changed. -/
theorem result_eq (hdet : T.Deterministic) (h : ∀ i ∈ T.reads c (contents d), d' i = d i) :
    T.result c (contents d') = T.result c (contents d) :=
  hdet.result c _ _ fun i hi => contents_eq (h i hi)

theorem Settled.congr (h : Settled d t is) (hsame : ∀ i ∈ is, d' i = d i) : Settled d' t is := by
  intro i hi
  rw [hsame i hi]
  exact h i hi

/-- A list that is settled after a later write does not have the written file in it. -/
theorem Settled.of_update [DecidableEq ι] {i : ι} {g : Option (File γ κ)} (hnew : ∀ f, g = some f → t < f.mtime)
    (h : Settled (Function.update d i g) t is) : i ∉ is ∧ Settled d t is := by
  have hnot : i ∉ is := by
    intro hi
    obtain ⟨f, hf, hle⟩ := h i hi
    rw [Function.update_self] at hf
    have hlt := hnew f hf
    omega
  refine ⟨hnot, fun j hj => ?_⟩
  obtain ⟨f, hf, hle⟩ := h j hj
  rw [Function.update_of_ne (ne_of_mem_of_not_mem hj hnot)] at hf
  exact ⟨f, hf, hle⟩

/-- **A later write, or a removal**, of any file keeps an output sound. -/
theorem Sound.update [DecidableEq ι] (hdet : T.Deterministic) {i : ι} {g : Option (File γ κ)}
    (hnew : ∀ h, g = some h → f.mtime < h.mtime) (hs : Sound T d c is f) : Sound T (Function.update d i g) c is f := by
  intro hset
  obtain ⟨hnot, hset⟩ := hset.of_update hnew
  obtain ⟨hsub, hres⟩ := hs hset
  have hsame : ∀ j ∈ T.reads c (contents d), Function.update d i g j = d j := fun j hj =>
    Function.update_of_ne (ne_of_mem_of_not_mem (hsub hj) hnot) _ _
  constructor
  · rw [hdet.reads c (contents d) _ fun j hj => contents_eq (hsame j hj)]
    exact hsub
  · rw [hres, result_eq hdet hsame]

/-- What a command has just written, if it does not read its own output. -/
theorem sound_written [DecidableEq ι] (hdet : T.Deterministic) {i : ι} {g : Option (File γ κ)}
    (hsub : T.reads c (contents d) ⊆ is) (hres : f.content = T.result c (contents d))
    (hnot : i ∉ T.reads c (contents d)) : Sound T (Function.update d i g) c is f := by
  have hsame : ∀ j ∈ T.reads c (contents d), Function.update d i g j = d j := fun j hj =>
    Function.update_of_ne (ne_of_mem_of_not_mem hj hnot) _ _
  intro _
  constructor
  · rw [hdet.reads c (contents d) _ fun j hj => contents_eq (hsame j hj)]
    exact hsub
  · rw [hres, result_eq hdet hsame]

end Rebuild
