import CodeHealth.Proofs.Digraph.Soundness

/-!
# Every loop is found

A search misses no loop: each closed walk of the graph uses an edge that closes a loop found.  The
argument is by the order in which nodes are left.  When a node is left, each of its edges either
closes a loop found or leads to a node left before; so without the closing edges no endless walk
leaves it, and in the end that holds of all nodes.
-/

namespace CodeHealth.Digraph

variable {α : Type} [BEq α] {g : Digraph α}

/-! ## Edges that are dealt with -/

/-- The edge from `a` to `b` is one of `es`, or no endless walk without `es` leaves `b`. -/
def Settled (g : Digraph α) (es : List (α × α)) (a b : α) : Prop :=
  (a, b) ∈ es ∨ (g.deleteEdges es).Grounded b

section Lawful

variable [LawfulBEq α]

theorem Settled.mono {es fs : List (α × α)} {a b : α} (hsub : es ⊆ fs) (h : g.Settled es a b) :
    g.Settled fs a b :=
  h.imp (fun hab ↦ hsub hab) (fun hb ↦ hb.deleteEdges_mono hsub)

theorem Grounded.of_settled {es : List (α × α)} {a : α}
    (h : ∀ b, g.Adj a b → g.Settled es a b) : (g.deleteEdges es).Grounded a := by
  refine Acc.intro a fun b hab ↦ ?_
  obtain ⟨hadj, hnot⟩ := adj_deleteEdges.mp hab
  exact (h b hadj).resolve_left hnot

end Lawful

/-! ## What has been scanned -/

namespace Search

/-- The edges of the nodes on a path are settled, except those ahead and the one that leads on to
`above`, the node before them. -/
def Scanned (g : Digraph α) (es : List (α × α)) : Option α → List α → List (List α) → Prop
  | above, a :: path, ns :: ahead =>
    (∀ b, g.Adj a b → b ∈ ns ∨ above = some b ∨ g.Settled es a b) ∧
      Scanned g es (some a) path ahead
  | _, _, _ => True

structure Explored (g : Digraph α) (s : Search α) : Prop where
  grounded : ∀ a ∈ s.visited, a ∉ s.path → (g.deleteEdges (closingEdges s.loops)).Grounded a
  scanned : Scanned g (closingEdges s.loops) none s.path s.ahead

/-- Once the node before a path has been left, nothing needs to be excepted for it. -/
theorem Scanned.leave {es : List (α × α)} {a : α} {path : List α} {ahead : List (List α)}
    (ha : (g.deleteEdges es).Grounded a) (h : Scanned g es (some a) path ahead) :
    Scanned g es none path ahead := by
  cases path with
  | nil => trivial
  | cons c path =>
    cases ahead with
    | nil => trivial
    | cons ns ahead =>
      refine ⟨fun b hab ↦ ?_, h.2⟩
      rcases h.1 b hab with hb | hb | hb
      · exact .inl hb
      · exact .inr (.inr (.inr (Option.some_inj.mp hb ▸ ha)))
      · exact .inr (.inr hb)

/-- A neighbour that is settled need no longer be ahead. -/
theorem Scanned.advance {es : List (α × α)} {a b : α} {ns path : List α} {ahead : List (List α)}
    (hb : g.Settled es a b) (h : Scanned g es none (a :: path) ((b :: ns) :: ahead)) :
    Scanned g es none (a :: path) (ns :: ahead) := by
  refine ⟨fun c hac ↦ ?_, h.2⟩
  rcases h.1 c hac with hc | hc
  · rcases List.mem_cons.mp hc with rfl | hc
    · exact .inr (.inr hb)
    · exact .inl hc
  · exact .inr hc

section Lawful

variable [LawfulBEq α]

theorem Scanned.mono {es fs : List (α × α)} (hsub : es ⊆ fs) {above : Option α} {path : List α}
    {ahead : List (List α)} (h : Scanned g es above path ahead) :
    Scanned g fs above path ahead := by
  induction path generalizing above ahead with
  | nil => trivial
  | cons a path ih =>
    cases ahead with
    | nil => trivial
    | cons ns ahead =>
      refine ⟨fun b hab ↦ ?_, ih h.2⟩
      exact (h.1 b hab).imp_right (.imp_right (.mono hsub))

theorem Move.explored {s t : Search α} (h : Move g s t) (hs : Consistent g s)
    (he : Explored g s) : Explored g t := by
  cases h with
  | @leave path on ahead vis found =>
    obtain ⟨a, p, -, -, rfl⟩ := List.forall₂_cons_right_iff.mp hs.ahead
    -- Nothing is ahead of `a` and no node is above it, so all its edges are settled.
    have ha : (g.deleteEdges (closingEdges found)).Grounded a := by
      refine .of_settled fun b hab ↦ ?_
      rcases he.scanned.1 b hab with hb | hb | hb
      · exact absurd hb List.not_mem_nil
      · exact absurd hb (by simp)
      · exact hb
    refine ⟨fun x hx hxp ↦ ?_, he.scanned.2.leave ha⟩
    by_cases hxa : x = a
    · exact hxa ▸ ha
    · exact he.grounded x hx fun hmem ↦ hxp ((List.mem_cons.mp hmem).resolve_left hxa)
  | @close path on b ns ahead vis found hon =>
    obtain ⟨a, p, rfl, -, -, -⟩ := hs.exists_latest
    have hb : b ∈ a :: p := (hs.mem_onPath b).mp hon
    let c := (a :: p).reverse.dropWhile (· != b)
    have hsub : closingEdges found ⊆ closingEdges (c :: found) :=
      closingEdges_subset (List.subset_cons_self c found)
    have hab : (a, b) ∈ closingEdges (c :: found) :=
      mem_closingEdges.mpr ⟨c, List.mem_cons_self, closingEdge?_slice hb⟩
    refine ⟨fun x hx hxp ↦ (he.grounded x hx hxp).deleteEdges_mono hsub, ?_⟩
    exact (he.scanned.mono hsub).advance (.inl hab)
  | @skip path on b ns ahead vis found hon hvis =>
    obtain ⟨a, p, rfl, -, -, -⟩ := hs.exists_latest
    have hb : b ∉ a :: p := fun hmem ↦ hon ((hs.mem_onPath b).mpr hmem)
    exact ⟨he.grounded, he.scanned.advance (.inr (he.grounded b hvis hb))⟩
  | @enter path on b ns ahead vis found hon hvis =>
    obtain ⟨a, p, rfl, -, -, -⟩ := hs.exists_latest
    refine ⟨fun x hx hxp ↦ ?_, fun c hbc ↦ .inl hbc, fun c hac ↦ ?_, he.scanned.2⟩
    · obtain ⟨hxb, hxp⟩ := not_or.mp (mt List.mem_cons.mpr hxp)
      exact he.grounded x ((List.mem_cons.mp hx).resolve_left hxb) hxp
    · -- The edge to `b` is excepted as long as `b` is above `a`.
      rcases he.scanned.1 c hac with hc | hc | hc
      · rcases List.mem_cons.mp hc with rfl | hc
        · exact .inr (.inl rfl)
        · exact .inl hc
      · exact absurd hc (by simp)
      · exact .inr (.inr hc)

theorem Reached.explored {s : Search α} (hs : Reached g s) : Explored g s := by
  induction hs with
  | initial => exact ⟨fun a ha ↦ absurd ha List.not_mem_nil, trivial⟩
  | @start s root hs hend hroot ih =>
    have hpath : s.path = [] := hs.consistent.path_eq_nil hend
    refine ⟨fun a ha hap ↦ ?_, fun b hb ↦ .inl hb, trivial⟩
    have hne : a ≠ root := fun h ↦ hap (h ▸ List.mem_cons_self)
    exact ih.grounded a ((List.mem_cons.mp ha).resolve_left hne) (by simp [hpath])
  | move hs hmove ih => exact hmove.explored hs.consistent ih

end Lawful

end Search

/-! ## Closed walks and closing edges -/

section Lawful

variable [LawfulBEq α]

theorem grounded_deleteEdges_loops (g : Digraph α) (a : α) :
    (g.deleteEdges (closingEdges g.loops)).Grounded a := by
  have hpath : g.search.path = [] := (reached_search g).consistent.path_eq_nil (ahead_search g)
  have hsub : closingEdges g.search.loops ⊆ closingEdges g.loops :=
    closingEdges_subset fun _ hc ↦ List.mem_reverse.mpr hc
  by_cases ha : a ∈ Assoc.keys g
  · have hvis : a ∈ g.search.visited := keys_subset_visited_search g ha
    have hground := (reached_search g).explored.grounded a hvis (by simp [hpath])
    exact hground.deleteEdges_mono hsub
  · exact .of_settled fun b hab ↦ absurd (mem_keys_of_adj hab) ha

theorem acyclic_deleteEdges_loops (g : Digraph α) :
    (g.deleteEdges (closingEdges g.loops)).Acyclic :=
  .of_grounded (grounded_deleteEdges_loops g)

theorem exists_mem_loops_of_isClosedWalk {w : List α} (hw : IsClosedWalk g.Adj w) :
    ∃ c ∈ g.loops, ∃ a b, closingEdge? c = some (a, b) ∧ Traverses w a b := by
  by_contra hnone
  -- Otherwise the walk survives the deletion of the closing edges.
  refine acyclic_deleteEdges_loops g w (isClosedWalk_iff.mpr ⟨hw.ne_nil, fun a b hab ↦ ?_⟩)
  refine adj_deleteEdges.mpr ⟨(isClosedWalk_iff.mp hw).2 a b hab, fun hmem ↦ ?_⟩
  obtain ⟨c, hc, hclose⟩ := mem_closingEdges.mp hmem
  exact hnone ⟨c, hc, a, b, hclose, hab⟩

theorem loops_eq_nil_iff : g.loops = [] ↔ g.Acyclic := by
  constructor
  · intro hnil w hw
    obtain ⟨c, hc, -⟩ := exists_mem_loops_of_isClosedWalk hw
    rw [hnil] at hc
    exact List.not_mem_nil hc
  · intro hacyc
    refine List.eq_nil_iff_forall_not_mem.mpr fun c hc ↦ ?_
    exact hacyc c (isClosedWalk_of_mem_loops hc)

end Lawful

/-- No loop is missed: every closed walk uses the closing edge of a loop found.  So without these
edges the graph has no closed walk, and no loop is found exactly if it has none as it is. -/
theorem loops_complete (g : Digraph Text) :
    (∀ w, IsClosedWalk g.Adj w →
      ∃ c ∈ g.loops, ∃ a b, closingEdge? c = some (a, b) ∧ Traverses w a b) ∧
    (g.deleteEdges (closingEdges g.loops)).Acyclic ∧
    (g.loops = [] ↔ g.Acyclic) :=
  ⟨fun _ hw ↦ exists_mem_loops_of_isClosedWalk hw, acyclic_deleteEdges_loops g, loops_eq_nil_iff⟩

theorem loops_complete_entangled :
    IsClosedWalk entangled.Adj [['b'], ['b'], ['a']] ∧
      ∃ c ∈ entangled.loops, ∃ a b, closingEdge? c = some (a, b) ∧
        Traverses [['b'], ['b'], ['a']] a b :=
  ⟨by decide, (loops_complete entangled).1 _ (by decide)⟩

end CodeHealth.Digraph
