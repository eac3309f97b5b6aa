import CodeHealth.Proofs.Assoc
import CodeHealth.Proofs.Digraph.Completeness
import CodeHealth.Proofs.Text.Basic
import CodeHealth.Reference

/-!
# The graph of references

For units that are displayed under different names, the edges of the graph are the references
between units, read by name; so its closed walks are those of the references.
-/

namespace CodeHealth.CodeUnit

theorem display_eq_of_properName? {u : CodeUnit} {n : Text} (hn : u.properName? = some n) :
    u.display = n := by
  unfold properName? at hn
  unfold display displayName
  cases hname : u.name with
  | none => simp [hname] at hn
  | some m =>
    cases m with
    | nil => simp [hname] at hn
    | cons c m => simpa [hname] using hn

theorem mentions_iff {u : CodeUnit} {n : Text} :
    u.mentions n = true ↔ n ≠ u.display ∧ n <:+: u.text := by
  simp [mentions, Text.contains_iff]

theorem references_iff {u v : CodeUnit} :
    u.references v = true ↔ v.properName? = some v.display ∧ u.mentions v.display = true := by
  unfold references
  cases hn : v.properName? with
  | none => simp
  | some n => simp [display_eq_of_properName? hn]

theorem display_ne_of_references {u v : CodeUnit} (h : u.references v = true) :
    v.display ≠ u.display :=
  (mentions_iff.mp (references_iff.mp h).2).1

theorem infix_text_of_references {u v : CodeUnit} (h : u.references v = true) :
    v.display <:+: u.text :=
  (mentions_iff.mp (references_iff.mp h).2).2

section Graph

variable {units : List CodeUnit} (hd : (units.map display).Nodup)
include hd

theorem eq_of_display_eq {u v : CodeUnit} (hu : u ∈ units) (hv : v ∈ units)
    (h : u.display = v.display) : u = v :=
  List.inj_on_of_nodup_map hd hu hv h

theorem adj_referenceGraph_iff {a b : Text} :
    (referenceGraph units).Adj a b ↔
      ∃ u ∈ units, ∃ v ∈ units, u.display = a ∧ v.display = b ∧ u.references v = true := by
  have hkeys : ((units.map fun u ↦
      (u.display, (units.filterMap properName?).filter u.mentions)).map Prod.fst).Nodup := by
    simpa [Function.comp_def] using hd
  rw [Digraph.adj_iff]
  constructor
  · rintro ⟨ns, hns, hb⟩
    obtain ⟨u, hu, he⟩ := List.mem_map.mp ((Assoc.get?_ofList_eq_some_iff hkeys).mp hns)
    obtain ⟨rfl, rfl⟩ := Prod.mk.inj he
    obtain ⟨hb, hm⟩ := List.mem_filter.mp hb
    obtain ⟨v, hv, hname⟩ := List.mem_filterMap.mp hb
    have hdisp := display_eq_of_properName? hname
    subst hdisp
    exact ⟨u, hu, v, hv, rfl, rfl, references_iff.mpr ⟨hname, hm⟩⟩
  · rintro ⟨u, hu, v, hv, rfl, rfl, huv⟩
    obtain ⟨hname, hm⟩ := references_iff.mp huv
    refine ⟨_, (Assoc.get?_ofList_eq_some_iff hkeys).mpr (List.mem_map_of_mem hu), ?_⟩
    exact List.mem_filter.mpr ⟨List.mem_filterMap.mpr ⟨v, hv, hname⟩, hm⟩

theorem exists_display_eq_of_mem_isClosedWalk {w : List Text}
    (hw : IsClosedWalk (referenceGraph units).Adj w) {a : Text} (ha : a ∈ w) :
    ∃ u ∈ units, u.display = a := by
  obtain ⟨b, -, hab⟩ := exists_traverses_of_mem ha
  have hadj := (isClosedWalk_iff.mp hw).2 a b hab
  obtain ⟨u, hu, -, -, hua, -⟩ := (adj_referenceGraph_iff hd).mp hadj
  exact ⟨u, hu, hua⟩

/-- The closed walks of the graph are the closed walks along references, read by name. -/
theorem exists_isClosedWalk_referenceGraph_iff :
    (∃ w, IsClosedWalk (referenceGraph units).Adj w) ↔
      ∃ us : List CodeUnit, (∀ u ∈ us, u ∈ units) ∧
        IsClosedWalk (fun u v ↦ u.references v = true) us := by
  constructor
  · rintro ⟨w, hw⟩
    have hunit : ∀ a ∈ w, ∃ u ∈ units, u.display = a := fun a ha ↦
      exists_display_eq_of_mem_isClosedWalk hd hw ha
    obtain ⟨a, ha⟩ := List.exists_mem_of_ne_nil w hw.ne_nil
    have : Nonempty CodeUnit := (hunit a ha).nonempty
    choose! unit hmem hdisp using hunit
    refine ⟨w.map unit, ?_, hw.map unit fun a ha b hb hab ↦ ?_⟩
    · intro u hu
      obtain ⟨a, ha, rfl⟩ := List.mem_map.mp hu
      exact hmem a ha
    · obtain ⟨u, hu, v, hv, hua, hvb, huv⟩ := (adj_referenceGraph_iff hd).mp hab
      have hu' : u = unit a := eq_of_display_eq hd hu (hmem a ha) (hua.trans (hdisp a ha).symm)
      have hv' : v = unit b := eq_of_display_eq hd hv (hmem b hb) (hvb.trans (hdisp b hb).symm)
      exact hu' ▸ hv' ▸ huv
  · rintro ⟨us, hus, hw⟩
    refine ⟨us.map display, hw.map display fun u hu v hv huv ↦ ?_⟩
    exact (adj_referenceGraph_iff hd).mpr ⟨u, hus u hu, v, hus v hv, rfl, rfl, huv⟩

/-- Each name of a loop is mentioned by the unit that the name before it stands for. -/
theorem spec_of_mem_loops_referenceGraph {names : List Text}
    (hnames : names ∈ (referenceGraph units).loops) :
    2 ≤ names.length ∧ names.Nodup ∧ (∀ n ∈ names, ∃ u ∈ units, u.display = n) ∧
      ∀ a b, Traverses names a b → ∃ u ∈ units, u.display = a ∧ b <:+: u.text := by
  have hw := Digraph.isClosedWalk_of_mem_loops hnames
  refine ⟨hw.two_le_length fun a ha ↦ ?_, Digraph.nodup_of_mem_loops hnames, fun n hn ↦ ?_,
    fun a b hab ↦ ?_⟩
  · obtain ⟨u, -, v, -, hua, hva, huv⟩ := (adj_referenceGraph_iff hd).mp ha
    exact display_ne_of_references huv (hva.trans hua.symm)
  · exact exists_display_eq_of_mem_isClosedWalk hd hw hn
  · have hadj := (isClosedWalk_iff.mp hw).2 a b hab
    obtain ⟨u, hu, v, -, rfl, rfl, huv⟩ := (adj_referenceGraph_iff hd).mp hadj
    exact ⟨u, hu, rfl, infix_text_of_references huv⟩

end Graph

end CodeHealth.CodeUnit
