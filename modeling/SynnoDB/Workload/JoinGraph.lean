import Mathlib.Data.List.Sort
import Mathlib.Data.List.Dedup
import Mathlib.Data.String.Basic
import Mathlib.Data.Prod.Lex
import SynnoDB.Lib.Dict
import SynnoDB.Lib.Islands

/-!
# The join graph of a workload (`custom_scaler/duckdb_downscale.py:103-182`, `:366-574`)

| here | there |
| --- | --- |
| `JoinEdge`, `make`, `JoinEdge.other` | `JoinEdge` and its methods |
| `JoinRelationship`, `fromEqualities`, `JoinRelationship.other` | `JoinRelationship` and its methods |
| `SchemaInfo`, `ReferentialDownscaler` | the classes of these names, without the connection |
| `adjacency` | `_build_adjacency`, one table's entry |
| `connectedComponents`, `islandAnchors`, `bfsDepth`, `sampleKey` | `_connected_components`, `_island_anchors`, `_bfs_depth`, `_sample_key` |

`edges` is a Python set: its order is the order of the list, and every order is meant. An island has at most one anchor
(`anchor_unique`).
-/

namespace SynnoDB.Workload.Downscale

open Worklist

def sortNames (names : List String) : List String := names.insertionSort (· ≤ ·)

@[simp] theorem mem_sortNames {names : List String} {t : String} : t ∈ sortNames names ↔ t ∈ names :=
  List.mem_insertionSort _

structure JoinEdge where
  tableA : String
  colA : String
  tableB : String
  colB : String
deriving DecidableEq, Repr

namespace JoinEdge

def make (ta ca tb cb : String) : JoinEdge :=
  if toLex (ta, ca) ≤ toLex (tb, cb) then ⟨ta, ca, tb, cb⟩ else ⟨tb, cb, ta, ca⟩

/-- `(own_col, other_table, other_col)`. -/
def other (e : JoinEdge) (table : String) : Option (String × String × String) :=
  if e.tableA = e.tableB then none
  else if table = e.tableA then some (e.colA, e.tableB, e.colB)
  else if table = e.tableB then some (e.colB, e.tableA, e.colA)
  else none

end JoinEdge

structure JoinRelationship where
  tableA : String
  tableB : String
  pairs : List (String × String)
deriving DecidableEq, Repr

/-- `tuple(sorted((ta, tb)))`. -/
def sortedPair (ta tb : String) : String × String := if ta ≤ tb then (ta, tb) else (tb, ta)

namespace JoinRelationship

/-- `None` = `ValueError`. -/
def fromEqualities (equalities : List (String × String × String × String)) : Option JoinRelationship :=
  match (equalities.map fun (ta, _, tb, _) => sortedPair ta tb).dedup with
  | [(tableA, tableB)] =>
    let pairs := (equalities.map fun (ta, ca, tb, cb) => if (ta, tb) = (tableA, tableB) then (ca, cb) else (cb, ca)).dedup
    some ⟨tableA, tableB, pairs.insertionSort fun p q => toLex p ≤ toLex q⟩
  | _ => none

/-- `(own_cols, other_table, other_cols)`, with the columns in pairs. -/
def other (rel : JoinRelationship) (table : String) : Option (String × List (String × String)) :=
  if rel.tableA = rel.tableB then none
  else if table = rel.tableA then some (rel.tableB, rel.pairs)
  else if table = rel.tableB then some (rel.tableA, rel.pairs.map Prod.swap)
  else none

theorem other_some {rel : JoinRelationship} {t u : String} {ps : List (String × String)}
    (h : rel.other t = some (u, ps)) :
    t ≠ u ∧ ((t = rel.tableA ∧ u = rel.tableB ∧ ps = rel.pairs) ∨
      (t = rel.tableB ∧ u = rel.tableA ∧ ps = rel.pairs.map Prod.swap)) := by
  unfold other at h
  split at h
  · cases h
  · rename_i hne
    split at h
    · rename_i ht
      cases h
      exact ⟨ht ▸ hne, .inl ⟨ht, rfl, rfl⟩⟩
    · split at h
      · rename_i ht
        cases h
        exact ⟨fun heq => hne (heq.symm.trans ht), .inr ⟨ht, rfl, rfl⟩⟩
      · cases h

end JoinRelationship

/-! ## What is read off the connection -/

/-- DuckDB compares identifiers up to case. -/
def sameName (s t : String) : Prop := s.toLower = t.toLower

instance (s t : String) : Decidable (sameName s t) := inferInstanceAs (Decidable (s.toLower = t.toLower))

structure SchemaInfo where
  tables : List String
  rowCounts : String → Nat
  columns : String → List String
  pkColumns : String → List String
  /-- By lower-cased column name. -/
  colOwner : String → List String
  /-- The catalog holds a name once. -/
  names : tables.Pairwise fun s t => ¬ sameName s t

theorem SchemaInfo.nodup (schema : SchemaInfo) : schema.tables.Nodup :=
  schema.names.imp fun h heq => h (congrArg String.toLower heq)

/-- The edges are the column pairs of the relationships, and `_reject_self_referential_edges` has let them pass. -/
structure ReferentialDownscaler where
  schema : SchemaInfo
  edges : List JoinEdge
  relationships : List JoinRelationship
  wholeTableThreshold : Nat
  views : ∀ e, e ∈ edges ↔ ∃ rel ∈ relationships, ∃ p ∈ rel.pairs, e = .make rel.tableA p.1 rel.tableB p.2
  distinct : ∀ e ∈ edges, e.tableA ≠ e.tableB
  known : ∀ rel ∈ relationships, rel.tableA ∈ schema.tables ∧ rel.tableB ∈ schema.tables
  conditions : ∀ rel ∈ relationships, rel.pairs ≠ []

namespace ReferentialDownscaler

variable (d : ReferentialDownscaler)

def adjacency (t : String) : List (String × String × String) := d.edges.filterMap fun e => e.other t

def neighbours (t : String) : List String := (d.adjacency t).map fun side => side.2.1

/-! ## Islands and their anchors -/

def connectedComponents : List (List String) := components d.neighbours d.schema.tables.length d.schema.tables []

/-- `max(names, key=counts)`: the first one with the largest count. -/
def largest (counts : String → Nat) : List String → Option String
  | [] => none
  | t :: ts => some (ts.foldl (fun best u => if counts u > counts best then u else best) t)

def islandAnchors : List String :=
  (d.connectedComponents.filterMap fun comp => (largest d.schema.rowCounts (sortNames comp)).filter
    fun t => d.schema.rowCounts t > d.wholeTableThreshold).dedup

/-- The loop of `_bfs_depth`: `depth[v] = depth[u] + 1` for the neighbours that have none. -/
def bfsStep (s : List (String × Nat) × List String) : Option (List (String × Nat) × List String) :=
  match s.2 with
  | [] => none
  | u :: q => some (mark Prod.fst (fun v => (v, Dict.getD s.1 u 0 + 1)) (fun v q => q ++ [v]) (d.neighbours u) (s.1, q))

def bfsDepth (anchors : List String) : Dict String Nat :=
  (drain d.bfsStep d.schema.tables.length (anchors.map fun a => (a, 0), sortNames anchors)).1

def sampleKey (anchor : String) : List String :=
  let cols :=
    if d.schema.pkColumns anchor = [] then sortNames ((d.adjacency anchor).map fun side => side.1).dedup
    else d.schema.pkColumns anchor
  if cols = [] then d.schema.columns anchor else cols

/-! ## Adjacent tables share their island -/

variable {d} {t u a b : String}

theorem mem_neighbours : u ∈ d.neighbours t ↔ ∃ e ∈ d.edges, ∃ own col, e.other t = some (own, u, col) := by
  simp only [neighbours, adjacency, List.mem_map, List.mem_filterMap]
  constructor
  · rintro ⟨⟨own, _, col⟩, ⟨e, he, hside⟩, rfl⟩
    exact ⟨e, he, own, col, hside⟩
  · rintro ⟨e, he, own, col, hside⟩
    exact ⟨(own, u, col), ⟨e, he, hside⟩, rfl⟩

theorem edge_other {e : JoinEdge} {own col : String} (h : e.other t = some (own, u, col)) :
    (t = e.tableA ∧ u = e.tableB ∨ t = e.tableB ∧ u = e.tableA) ∧ e.other u = some (col, t, own) := by
  unfold JoinEdge.other at h
  split at h
  · cases h
  · rename_i hne
    split at h
    · rename_i ht
      cases h
      exact ⟨.inl ⟨ht, rfl⟩, by simp [JoinEdge.other, hne, Ne.symm hne, ht]⟩
    · split at h
      · rename_i ht
        cases h
        exact ⟨.inr ⟨ht, rfl⟩, by simp [JoinEdge.other, hne, ht]⟩
      · cases h

theorem neighbours_symm (h : u ∈ d.neighbours t) : t ∈ d.neighbours u := by
  obtain ⟨e, he, own, col, hside⟩ := mem_neighbours.1 h
  exact mem_neighbours.2 ⟨e, he, col, own, (edge_other hside).2⟩

theorem make_tables (ta ca tb cb : String) :
    ((JoinEdge.make ta ca tb cb).tableA = ta ∧ (JoinEdge.make ta ca tb cb).tableB = tb) ∨
    ((JoinEdge.make ta ca tb cb).tableA = tb ∧ (JoinEdge.make ta ca tb cb).tableB = ta) := by
  unfold JoinEdge.make
  split
  · exact .inl ⟨rfl, rfl⟩
  · exact .inr ⟨rfl, rfl⟩

theorem neighbours_known (t : String) : d.neighbours t ⊆ d.schema.tables := by
  intro u hu
  obtain ⟨e, he, own, col, hside⟩ := mem_neighbours.1 hu
  obtain ⟨rel, hrel, p, hp, rfl⟩ := (d.views e).1 he
  have hknown := d.known rel hrel
  rcases (edge_other hside).1 with ⟨-, hu⟩ | ⟨-, hu⟩ <;>
    rcases make_tables rel.tableA p.1 rel.tableB p.2 with ⟨hA, hB⟩ | ⟨hA, hB⟩
  · rw [hu, hB]
    exact hknown.2
  · rw [hu, hB]
    exact hknown.1
  · rw [hu, hA]
    exact hknown.1
  · rw [hu, hA]
    exact hknown.2

/-- A relationship between two tables makes them neighbours. -/
theorem neighbours_of_relationship {rel : JoinRelationship} {ps : List (String × String)} (hrel : rel ∈ d.relationships)
    (h : rel.other t = some (u, ps)) : u ∈ d.neighbours t := by
  obtain ⟨p, hp⟩ := List.exists_mem_of_ne_nil _ (d.conditions rel hrel)
  have hedge : JoinEdge.make rel.tableA p.1 rel.tableB p.2 ∈ d.edges := (d.views _).2 ⟨rel, hrel, p, hp, rfl⟩
  apply mem_neighbours.2
  refine ⟨_, hedge, ?_⟩
  obtain ⟨hne, ⟨rfl, rfl, -⟩ | ⟨rfl, rfl, -⟩⟩ := JoinRelationship.other_some h
  · unfold JoinEdge.make
    split <;> simp [JoinEdge.other, hne, hne.symm]
  · unfold JoinEdge.make
    split <;> simp [JoinEdge.other, hne, hne.symm]

theorem components_islands : Islands d.neighbours d.schema.tables d.connectedComponents :=
  islands (fun u _ => neighbours_known u) (fun _ _ => neighbours_symm) le_rfl

theorem largest_mem {counts : String → Nat} {names : List String} (h : largest counts names = some t) : t ∈ names := by
  cases names with
  | nil => cases h
  | cons s names =>
    simp only [largest, Option.some.injEq] at h
    subst h
    induction names generalizing s with
    | nil => simp
    | cons u names ih =>
      rw [List.foldl_cons]
      have hmem := ih (if counts u > counts s then u else s)
      rcases List.mem_cons.1 hmem with hhead | htail
      · rw [hhead]
        split <;> simp
      · simp [htail]

theorem mem_islandAnchors : a ∈ d.islandAnchors ↔ ∃ comp ∈ d.connectedComponents,
    largest d.schema.rowCounts (sortNames comp) = some a ∧ d.schema.rowCounts a > d.wholeTableThreshold := by
  simp only [islandAnchors, List.mem_dedup, List.mem_filterMap, Option.filter_eq_some_iff, decide_eq_true_eq]

theorem anchor_big (h : a ∈ d.islandAnchors) : d.schema.rowCounts a > d.wholeTableThreshold := by
  obtain ⟨_, _, _, hbig⟩ := mem_islandAnchors.1 h
  exact hbig

theorem anchor_known (h : a ∈ d.islandAnchors) : a ∈ d.schema.tables := by
  obtain ⟨comp, hcomp, hlargest, -⟩ := mem_islandAnchors.1 h
  exact components_islands.known comp hcomp (mem_sortNames.1 (largest_mem hlargest))

/-- Two neighbours are not both anchors. -/
theorem anchor_unique (ha : a ∈ d.islandAnchors) (hb : b ∈ d.islandAnchors) (hadj : b ∈ d.neighbours a) : a = b := by
  obtain ⟨comp, hcomp, hlargest, -⟩ := mem_islandAnchors.1 ha
  obtain ⟨comp', hcomp', hlargest', -⟩ := mem_islandAnchors.1 hb
  have hmem : b ∈ comp := components_islands.closed comp hcomp a (mem_sortNames.1 (largest_mem hlargest)) b hadj
  have hsame : comp = comp' := components_islands.same hcomp hcomp' hmem (mem_sortNames.1 (largest_mem hlargest'))
  subst hsame
  exact Option.some.inj (hlargest.symm.trans hlargest')

end ReferentialDownscaler

end SynnoDB.Workload.Downscale
