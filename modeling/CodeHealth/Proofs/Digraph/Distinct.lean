import CodeHealth.Proofs.Assoc
import CodeHealth.Proofs.Digraph.Soundness
import Mathlib.Data.List.Perm.Subperm
import Mathlib.Data.List.Rotate

/-!
# No loop is found twice

A search enters every node once, and the nodes of a loop stand in it in the order in which they were
entered; so two loops with the same nodes are the same list.  If no neighbour is listed twice, a
search also looks at every edge once, and no edge closes two loops.  So no loop comes back, not
even turned round, and there are at most as many loops as edges.
-/

namespace CodeHealth.Digraph

open scoped List

variable {α : Type} [BEq α] {g : Digraph α}

/-- The edges of a graph, node by node. -/
def edges (g : Digraph α) : List (α × α) :=
  g.flatMap fun (a, ns) ↦ ns.map (Prod.mk a)

section Lawful

variable [LawfulBEq α]

theorem mem_edges_of_adj {a b : α} (hab : g.Adj a b) : (a, b) ∈ g.edges := by
  obtain ⟨ns, hns, hb⟩ := adj_iff.mp hab
  exact List.mem_flatMap.mpr ⟨(a, ns), Assoc.mem_of_get?_eq_some hns, List.mem_map_of_mem hb⟩

theorem nodup_neighbours (hg : ∀ e ∈ g, e.2.Nodup) (a : α) : (g.neighbours a).Nodup := by
  unfold neighbours
  cases hns : Assoc.get? a g with
  | none => exact .nil
  | some ns => exact hg _ (Assoc.mem_of_get?_eq_some hns)

end Lawful

namespace Search

/-! ## The order of entry -/

/-- The visited nodes tell the order of entry, which the path and all loops follow. -/
structure InEntryOrder (s : Search α) : Prop where
  nodup : s.visited.Nodup
  path : s.path <+ s.visited
  loops : ∀ c ∈ s.loops, c.reverse <+ s.visited

omit [BEq α] in
theorem InEntryOrder.visit {s : Search α} (hs : s.InEntryOrder) {b : α} (hb : b ∉ s.visited) :
    (b :: s.visited).Nodup ∧ ∀ c ∈ s.loops, c.reverse <+ b :: s.visited :=
  ⟨List.nodup_cons.mpr ⟨hb, hs.nodup⟩, fun c hc ↦ (hs.loops c hc).cons b⟩

theorem Move.inEntryOrder {s t : Search α} (h : Move g s t) (hs : s.InEntryOrder) :
    t.InEntryOrder := by
  cases h with
  | leave => exact ⟨hs.nodup, (List.drop_sublist 1 _).trans hs.path, hs.loops⟩
  | skip => exact ⟨hs.nodup, hs.path, hs.loops⟩
  | @close path on b ns ahead vis found hon =>
    refine ⟨hs.nodup, hs.path, List.forall_mem_cons.mpr ⟨?_, hs.loops⟩⟩
    -- A slice of the path, turned round like the path itself.
    have hslice : path.reverse.dropWhile (· != b) <+ path.reverse := List.dropWhile_sublist _
    have hpath := hslice.reverse
    rw [List.reverse_reverse] at hpath
    exact hpath.trans hs.path
  | @enter path on b ns ahead vis found hon hvis =>
    obtain ⟨hnodup, hloops⟩ := hs.visit hvis
    exact ⟨hnodup, hs.path.cons_cons b, hloops⟩

theorem Reached.inEntryOrder {s : Search α} (hs : Reached g s) : s.InEntryOrder := by
  induction hs with
  | initial => exact ⟨.nil, .slnil, fun c hc ↦ absurd hc List.not_mem_nil⟩
  | @start s root hs hend hroot ih =>
    obtain ⟨hnodup, hloops⟩ := ih.visit hroot
    exact ⟨hnodup, (List.nil_sublist _).cons_cons root, hloops⟩
  | move _ hmove ih => exact hmove.inEntryOrder ih

/-! ## Edges that have been looked at -/

/-- The edges that have closed loops are different from each other, lead away from visited nodes,
and are not ahead any more. -/
structure ClosesOnce (s : Search α) : Prop where
  nodup : (closingEdges s.loops).Nodup
  visited : ∀ e ∈ closingEdges s.loops, e.1 ∈ s.visited
  notAhead : ∀ e ∈ s.path.zip s.ahead, ∀ b ∈ e.2, (e.1, b) ∉ closingEdges s.loops

omit [BEq α] in
/-- No edge of a node that has not been visited has closed a loop. -/
theorem ClosesOnce.notMem {s : Search α} (hs : s.ClosesOnce) {a : α} (ha : a ∉ s.visited) (b : α) :
    (a, b) ∉ closingEdges s.loops :=
  fun hab ↦ ha (hs.visited _ hab)

section Lawful

variable [LawfulBEq α]

theorem Move.closesOnce (hg : ∀ a, (g.neighbours a).Nodup) {s t : Search α} (h : Move g s t)
    (hc : Consistent g s) (hs : s.ClosesOnce) : t.ClosesOnce := by
  cases h with
  | leave =>
    obtain ⟨a, p, -, -, rfl⟩ := List.forall₂_cons_right_iff.mp hc.ahead
    exact ⟨hs.nodup, hs.visited, fun e he ↦ hs.notAhead e (List.mem_cons_of_mem _ he)⟩
  | @skip path on b ns ahead vis found hon hvis =>
    obtain ⟨a, p, rfl, -, -, -⟩ := hc.exists_latest
    obtain ⟨hfirst, hrest⟩ := List.forall_mem_cons.mp hs.notAhead
    refine ⟨hs.nodup, hs.visited, List.forall_mem_cons.mpr ⟨fun c hcns ↦ ?_, hrest⟩⟩
    exact hfirst c (List.mem_cons_of_mem b hcns)
  | @enter path on b ns ahead vis found hon hvis =>
    obtain ⟨a, p, rfl, -, -, -⟩ := hc.exists_latest
    obtain ⟨hfirst, hrest⟩ := List.forall_mem_cons.mp hs.notAhead
    refine ⟨hs.nodup, fun e he ↦ List.mem_cons_of_mem b (hs.visited e he), ?_⟩
    refine List.forall_mem_cons.mpr ⟨fun c _ ↦ hs.notMem hvis c, ?_⟩
    exact List.forall_mem_cons.mpr ⟨fun c hcns ↦ hfirst c (List.mem_cons_of_mem b hcns), hrest⟩
  | @close path on b ns ahead vis found hon =>
    obtain ⟨a, p, rfl, -, -, -⟩ := hc.exists_latest
    obtain ⟨hfirst, hrest⟩ := List.forall_mem_cons.mp hs.notAhead
    have hb : b ∈ a :: p := (hc.mem_onPath b).mp hon
    have hedges : closingEdges ((a :: p).reverse.dropWhile (· != b) :: found) =
        (a, b) :: closingEdges found :=
      List.filterMap_cons_some (closingEdge?_slice hb)
    -- `b` is listed once among the neighbours of `a`, and `a` stands on the path once.
    have hns : b ∉ ns := by
      obtain ⟨hsuffix, -⟩ := List.forall₂_cons.mp hc.ahead
      exact (List.nodup_cons.mp ((hg a).sublist hsuffix.sublist)).1
    have hp : a ∉ p := (List.nodup_cons.mp hc.nodup).1
    refine ⟨?_, ?_, ?_⟩
    · rw [hedges]
      exact List.nodup_cons.mpr ⟨hfirst b List.mem_cons_self, hs.nodup⟩
    · rw [hedges]
      exact List.forall_mem_cons.mpr ⟨hc.path_subset List.mem_cons_self, hs.visited⟩
    · simp only [hedges, List.mem_cons, not_or]
      refine List.forall_mem_cons.mpr ⟨fun c hcns ↦ ⟨?_, ?_⟩, fun e he c hce ↦ ⟨?_, hrest e he c hce⟩⟩
      · exact fun heq ↦ hns ((Prod.mk.inj heq).2 ▸ hcns)
      · exact hfirst c (List.mem_cons_of_mem b hcns)
      · exact fun heq ↦ hp ((Prod.mk.inj heq).1 ▸ (List.of_mem_zip he).1)

theorem Reached.closesOnce (hg : ∀ a, (g.neighbours a).Nodup) {s : Search α} (hs : Reached g s) :
    s.ClosesOnce := by
  induction hs with
  | initial =>
    exact ⟨.nil, fun e he ↦ absurd he List.not_mem_nil, fun e he ↦ absurd he List.not_mem_nil⟩
  | @start s root hs hend hroot ih =>
    refine ⟨ih.nodup, fun e he ↦ List.mem_cons_of_mem root (ih.visited e he), ?_⟩
    exact List.forall_mem_singleton.mpr fun b _ ↦ ih.notMem hroot b
  | move hs hmove ih => exact hmove.closesOnce hg hs.consistent ih

end Lawful

end Search

/-! ## The loops found -/

section Lawful

variable [LawfulBEq α]

/-- Loops with the same nodes are the same, whatever the graph. -/
theorem eq_of_perm_of_mem_loops {c d : List α} (hc : c ∈ g.loops) (hd : d ∈ g.loops) (h : c ~ d) :
    c = d := by
  have hs := (reached_search g).inEntryOrder
  have hcs : c.reverse <+ g.search.visited := hs.loops c (List.mem_reverse.mp hc)
  have hds : d.reverse <+ g.search.visited := hs.loops d (List.mem_reverse.mp hd)
  have hperm : c.reverse ~ d.reverse := c.reverse_perm.trans (h.trans d.reverse_perm.symm)
  exact List.reverse_injective ((hs.nodup.perm_iff_eq_of_sublist hcs hds).mp hperm)

theorem exists_closingEdge?_of_mem_loops {c : List α} (hc : c ∈ g.loops) :
    ∃ a b, closingEdge? c = some (a, b) ∧ (a, b) ∈ g.edges := by
  have hwalk := isClosedWalk_of_mem_loops hc
  obtain ⟨a, ha⟩ := Option.isSome_iff_exists.mp (List.getLast?_isSome.mpr hwalk.ne_nil)
  obtain ⟨b, hb⟩ := Option.isSome_iff_exists.mp (List.isSome_head?.mpr hwalk.ne_nil)
  exact ⟨a, b, closingEdge?_eq_some_iff.mpr ⟨ha, hb⟩, mem_edges_of_adj (hwalk.closes a ha b hb)⟩

theorem nodup_closingEdges_loops (hg : ∀ e ∈ g, e.2.Nodup) : (closingEdges g.loops).Nodup := by
  have hs := (reached_search g).closesOnce (nodup_neighbours hg)
  rw [loops, closingEdges, List.filterMap_reverse, List.nodup_reverse]
  exact hs.nodup

theorem pairwise_closingEdge?_loops (hg : ∀ e ∈ g, e.2.Nodup) :
    g.loops.Pairwise fun c d ↦ closingEdge? c ≠ closingEdge? d := by
  have hnodup := List.pairwise_filterMap.mp (nodup_closingEdges_loops hg)
  refine hnodup.imp_of_mem fun {c d} hc hd hne heq ↦ ?_
  obtain ⟨a, b, hclose, -⟩ := exists_closingEdge?_of_mem_loops hc
  exact hne (a, b) hclose (a, b) (heq ▸ hclose) rfl

theorem length_loops_le (hg : ∀ e ∈ g, e.2.Nodup) : g.loops.length ≤ g.edges.length := by
  have hlength : (closingEdges g.loops).length = g.loops.length := by
    refine List.filterMap_length_eq_length.mpr fun c hc ↦ ?_
    obtain ⟨a, b, hclose, -⟩ := exists_closingEdge?_of_mem_loops hc
    exact Option.isSome_iff_exists.mpr ⟨(a, b), hclose⟩
  have hsub : closingEdges g.loops ⊆ g.edges := by
    rintro ⟨a, b⟩ hab
    obtain ⟨c, hc, hclose⟩ := mem_closingEdges.mp hab
    obtain ⟨a', b', hclose', hedge⟩ := exists_closingEdge?_of_mem_loops hc
    rwa [Option.some_inj.mp (hclose.symm.trans hclose')]
  rw [← hlength]
  exact ((nodup_closingEdges_loops hg).subperm hsub).length_le

end Lawful

/-- If no neighbour is listed twice, no two of the loops found are the same up to rotation, and no
two are closed by the same edge.  So there are at most as many loops as edges. -/
theorem loops_distinct (g : Digraph Text) (hg : ∀ e ∈ g, e.2.Nodup) :
    (g.loops.Pairwise fun c d ↦ ¬ c ~r d ∧ closingEdge? c ≠ closingEdge? d) ∧
    (∀ c ∈ g.loops, ∃ a b, closingEdge? c = some (a, b) ∧ (a, b) ∈ g.edges) ∧
    g.loops.length ≤ g.edges.length := by
  refine ⟨?_, fun c hc ↦ exists_closingEdge?_of_mem_loops hc, length_loops_le hg⟩
  refine (pairwise_closingEdge?_loops hg).imp_of_mem fun {c d} hc hd hne ↦ ⟨fun hrot ↦ ?_, hne⟩
  exact hne (congrArg closingEdge? (eq_of_perm_of_mem_loops hc hd hrot.perm))

/-- Three nodes, each of which leads to the others, and one of them to itself. -/
def triangle : Digraph Text :=
  [(['a'], [['b'], ['c']]), (['b'], [['a'], ['c']]), (['c'], [['a'], ['b'], ['c']])]

theorem loops_distinct_triangle :
    (∀ e ∈ triangle, e.2.Nodup) ∧
    triangle.loops = [[['a'], ['b']], [['a'], ['b'], ['c']], [['b'], ['c']], [['c']]] ∧
    (triangle.loops.Pairwise fun c d ↦ ¬ c ~r d ∧ closingEdge? c ≠ closingEdge? d) ∧
    triangle.loops.length ≤ triangle.edges.length := by
  have hg : ∀ e ∈ triangle, e.2.Nodup := by decide
  obtain ⟨hpairs, -, hlength⟩ := loops_distinct triangle hg
  exact ⟨hg, by decide, hpairs, hlength⟩

end CodeHealth.Digraph
