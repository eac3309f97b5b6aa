import CodeHealth.Proofs.Reference
import Mathlib.Data.List.Infix

/-!
# What the graph of references holds

The graph of any list of units in closed form.  Its nodes are the names under which units are
displayed, in the order in which they first come.  Units may share such a name; the last of them
decides which names the node leads to.
-/

namespace CodeHealth.CodeUnit

/-- `u` is the last of the units that are displayed as `k`. -/
def IsLastAs (units : List CodeUnit) (k : Text) (u : CodeUnit) : Prop :=
  ∃ before after, units = before ++ u :: after ∧ u.display = k ∧ k ∉ after.map display

/-- The names of units other than `k` that occur in a text, in the order of the units and as often
as units have them. -/
def namesIn (units : List CodeUnit) (k text : Text) : List Text :=
  (units.filterMap name).filter fun n ↦ n ≠ [] ∧ n ≠ k ∧ n <:+: text

theorem properName?_eq (u : CodeUnit) : u.properName? = u.name.filter (· ≠ []) := by
  unfold properName?
  cases u.name with
  | none => rfl
  | some n =>
    cases n with
    | nil => rfl
    | cons c n => rfl

theorem filter_mentions_eq (units : List CodeUnit) (u : CodeUnit) :
    (units.filterMap properName?).filter u.mentions = namesIn units u.display u.text := by
  have hproper : units.filterMap properName? = (units.filterMap name).filter (· ≠ []) := by
    rw [List.filter_filterMap]
    exact List.filterMap_congr fun v _ ↦ v.properName?_eq
  rw [hproper, List.filter_filter, namesIn]
  refine List.filter_congr fun n _ ↦ ?_
  rw [Bool.eq_iff_iff]
  simp [mentions_iff, and_comm]

theorem keys_referenceGraph (units : List CodeUnit) :
    Assoc.keys (referenceGraph units) = (units.map display).eraseDups := by
  rw [referenceGraph, Assoc.keys_ofList, List.map_map]
  rfl

theorem mem_referenceGraph_iff {units : List CodeUnit} {k : Text} {names : List Text} :
    (k, names) ∈ referenceGraph units ↔
      ∃ u, IsLastAs units k u ∧ names = namesIn units k u.text := by
  rw [referenceGraph, Assoc.mem_ofList_iff]
  constructor
  · rintro ⟨before, after, hsplit, hafter⟩
    obtain ⟨us, us', rfl, -, hus'⟩ := List.map_eq_append_iff.mp hsplit
    obtain ⟨u, vs, rfl, hu, rfl⟩ := List.map_eq_cons_iff.mp hus'
    obtain ⟨rfl, rfl⟩ := Prod.mk.inj hu
    refine ⟨u, ⟨us, vs, rfl, rfl, ?_⟩, filter_mentions_eq _ u⟩
    simpa [Function.comp_def] using hafter
  · rintro ⟨u, ⟨before, after, hunits, rfl, hafter⟩, rfl⟩
    rw [← filter_mentions_eq, hunits, List.map_append, List.map_cons]
    exact ⟨_, _, rfl, by simpa [Function.comp_def] using hafter⟩

/-- The nodes of the graph are the display names, each once and in the order in which they first
come.  A node leads to the names of units other than itself that occur in the text of the last unit
displayed under its name; so no node leads to itself. -/
theorem referenceGraph_exact (units : List CodeUnit) :
    Assoc.keys (referenceGraph units) = (units.map display).eraseDups ∧
    (Assoc.keys (referenceGraph units)).Nodup ∧
    (∀ k names, (k, names) ∈ referenceGraph units ↔
      ∃ u, IsLastAs units k u ∧
        names = (units.filterMap name).filter fun n ↦ n ≠ [] ∧ n ≠ k ∧ n <:+: u.text) ∧
    ∀ k names, (k, names) ∈ referenceGraph units → k ∉ names := by
  refine ⟨keys_referenceGraph units, Assoc.nodup_keys_ofList _, fun k names ↦ mem_referenceGraph_iff,
    fun k names hmem hk ↦ ?_⟩
  obtain ⟨u, -, rfl⟩ := mem_referenceGraph_iff.mp hmem
  simp [namesIn] at hk

/-- Two units without a name, one that is called as they are displayed, and two with one name. -/
def sharedNames : List CodeUnit :=
  [⟨none, 0, 5, "f(); g".toList, .function 0⟩,
   ⟨some "f".toList, 6, 11, "f g anonymous".toList, .function 0⟩,
   ⟨some "anonymous".toList, 12, 17, "anonymous f".toList, .function 0⟩,
   ⟨some "f".toList, 18, 23, "f anonymous".toList, .function 0⟩,
   ⟨some [], 24, 29, "f; anonymous; g".toList, .classOf []⟩]

/-- Under the shared names stands what the last units mention, the name of a function of which there
are two twice. -/
theorem referenceGraph_exact_sharedNames :
    referenceGraph sharedNames =
      [("anonymous".toList, ["f".toList, "f".toList]), ("f".toList, ["anonymous".toList])] ∧
    "anonymous".toList ∉ ["f".toList, "f".toList] := by
  have hgraph : referenceGraph sharedNames =
      [("anonymous".toList, ["f".toList, "f".toList]), ("f".toList, ["anonymous".toList])] := by
    decide +kernel
  refine ⟨hgraph, (referenceGraph_exact sharedNames).2.2.2 _ _ ?_⟩
  rw [hgraph]
  exact List.mem_cons_self

end CodeHealth.CodeUnit
