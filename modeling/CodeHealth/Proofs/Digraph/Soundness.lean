import CodeHealth.Proofs.Digraph.Search
import CodeHealth.Text.Basic
import Mathlib.Data.List.Nodup

/-!
# Every loop found is a loop

The registers of a search stay in step: the path is a walk without repetition, the lookup holds
exactly its nodes, and the neighbours still ahead of a node are the last ones of its list.  So the
part of the path that a search records is a closed walk without repetition.
-/

namespace CodeHealth.Digraph

variable {α : Type} [BEq α] {g : Digraph α}

/-! ## Slices of a path -/

section Slices

variable [LawfulBEq α]

theorem exists_dropWhile_bne_eq_cons {b : α} {l : List α} (hb : b ∈ l) :
    ∃ r, l.dropWhile (· != b) = b :: r := by
  induction l with
  | nil => exact absurd hb List.not_mem_nil
  | cons a l ih =>
    by_cases hab : a = b
    · exact ⟨l, by simp [hab]⟩
    · have hb' : b ∈ l := (List.mem_cons.mp hb).resolve_left (Ne.symm hab)
      obtain ⟨r, hr⟩ := ih hb'
      exact ⟨r, by simp [hab, hr]⟩

/-- The slice that a search records starts at `b` and ends at the latest node. -/
theorem closingEdge?_slice {a b : α} {path : List α} (hb : b ∈ a :: path) :
    closingEdge? ((a :: path).reverse.dropWhile (· != b)) = some (a, b) := by
  obtain ⟨r, hr⟩ := exists_dropWhile_bne_eq_cons (List.mem_reverse.mpr hb)
  obtain ⟨l, hl⟩ := List.dropWhile_suffix (l := (a :: path).reverse) (· != b)
  have hlast : (a :: path).reverse.getLast? = some a := by simp
  rw [hr] at hl ⊢
  rw [← hl, List.getLast?_append] at hlast
  obtain ⟨c, hc⟩ : ∃ c, (b :: r).getLast? = some c := ⟨_, List.getLast?_eq_some_getLast (by simp)⟩
  rw [hc, Option.some_or] at hlast
  exact closingEdge?_eq_some_iff.mpr ⟨hc.trans hlast, rfl⟩

theorem isClosedWalk_slice {a b : α} {path : List α}
    (hchain : (a :: path).IsChain fun b a ↦ g.Adj a b) (hb : b ∈ a :: path) (hab : g.Adj a b) :
    IsClosedWalk g.Adj ((a :: path).reverse.dropWhile (· != b)) where
  ne_nil := by
    obtain ⟨r, hr⟩ := exists_dropWhile_bne_eq_cons (List.mem_reverse.mpr hb)
    simp only [hr, ne_eq, reduceCtorEq, not_false_eq_true]
  chain := (List.isChain_reverse.mpr hchain).suffix (List.dropWhile_suffix _)
  closes := by
    obtain ⟨hlast, hhead⟩ := closingEdge?_eq_some_iff.mp (closingEdge?_slice hb)
    intro x hx y hy
    rw [Option.mem_def, hlast, Option.some_inj] at hx
    rw [Option.mem_def, hhead, Option.some_inj] at hy
    exact hx ▸ hy ▸ hab

end Slices

/-! ## The registers of a search -/

namespace Search

structure Consistent (g : Digraph α) (s : Search α) : Prop where
  nodup : s.path.Nodup
  mem_onPath : ∀ a, a ∈ s.onPath ↔ a ∈ s.path
  path_subset : s.path ⊆ s.visited
  chain : s.path.IsChain fun b a ↦ g.Adj a b
  ahead : List.Forall₂ (fun a ns ↦ ns <:+ g.neighbours a) s.path s.ahead

theorem Consistent.path_eq_nil {s : Search α} (hs : Consistent g s) (hend : s.ahead = []) :
    s.path = [] :=
  List.forall₂_nil_right_iff.mp (hend ▸ hs.ahead)

/-- While a neighbour is ahead there is a latest node, which leads to it. -/
theorem Consistent.exists_latest {path on ns : List α} {b : α} {ahead : List (List α)}
    {vis : List α} {found : List (List α)}
    (hs : Consistent g ⟨path, on, (b :: ns) :: ahead, vis, found⟩) :
    ∃ a p, path = a :: p ∧ g.Adj a b ∧ ns <:+ g.neighbours a ∧
      List.Forall₂ (fun a ns ↦ ns <:+ g.neighbours a) p ahead := by
  obtain ⟨a, p, hns, hp, rfl⟩ := List.forall₂_cons_right_iff.mp hs.ahead
  exact ⟨a, p, rfl, hns.subset List.mem_cons_self, (List.suffix_cons b ns).trans hns, hp⟩

theorem consistent_initial : Consistent g initial where
  nodup := List.nodup_nil
  mem_onPath _ := Iff.rfl
  path_subset := List.nil_subset _
  chain := .nil
  ahead := .nil

theorem consistent_start (s : Search α) (root : α) : Consistent g (s.start g root) where
  nodup := List.nodup_singleton root
  mem_onPath _ := Iff.rfl
  path_subset := List.cons_subset.mpr ⟨List.mem_cons_self, List.nil_subset _⟩
  chain := .singleton root
  ahead := .cons (List.suffix_refl _) .nil

section Lawful

variable [LawfulBEq α]

theorem Move.consistent {s t : Search α} (h : Move g s t) (hs : Consistent g s) :
    Consistent g t := by
  cases h with
  | @leave path on ahead vis found =>
    obtain ⟨a, p, -, hp, rfl⟩ := List.forall₂_cons_right_iff.mp hs.ahead
    have hnodup : a ∉ p ∧ p.Nodup := List.nodup_cons.mp hs.nodup
    refine ⟨hnodup.2, ?_, fun x hx ↦ hs.path_subset (List.mem_cons_of_mem a hx), hs.chain.tail, hp⟩
    intro x
    have hmem : x ∈ on ↔ x = a ∨ x ∈ p := (hs.mem_onPath x).trans List.mem_cons
    simp only [List.take_succ_cons, List.take_zero, List.drop_succ_cons, List.drop_zero,
      List.mem_filter, hmem, List.contains_eq_mem, List.mem_singleton, Bool.not_eq_true',
      decide_eq_false_iff_not]
    constructor
    · rintro ⟨hx | hx, hne⟩
      · exact absurd hx hne
      · exact hx
    · intro hx
      exact ⟨.inr hx, fun hxa ↦ hnodup.1 (hxa ▸ hx)⟩
  | close hon | skip hon hvis =>
    obtain ⟨a, p, rfl, -, hns, hp⟩ := hs.exists_latest
    exact ⟨hs.nodup, hs.mem_onPath, hs.path_subset, hs.chain, .cons hns hp⟩
  | @enter path on b ns ahead vis found hon hvis =>
    obtain ⟨a, p, rfl, hab, hns, hp⟩ := hs.exists_latest
    refine ⟨?_, ?_, ?_, ?_, .cons (List.suffix_refl _) (.cons hns hp)⟩
    · exact List.nodup_cons.mpr ⟨fun hb ↦ hvis (hs.path_subset hb), hs.nodup⟩
    · intro x
      simpa only [List.mem_cons] using or_congr_right (hs.mem_onPath x)
    · exact List.cons_subset.mpr
        ⟨List.mem_cons_self, fun x hx ↦ List.mem_cons_of_mem b (hs.path_subset hx)⟩
    · exact List.isChain_cons_cons.mpr ⟨hab, hs.chain⟩

theorem Reached.consistent {s : Search α} (hs : Reached g s) : Consistent g s := by
  induction hs with
  | initial => exact consistent_initial
  | start => exact consistent_start _ _
  | move _ hmove ih => exact hmove.consistent ih

/-! ## The loops of a search -/

theorem Reached.isClosedWalk_loops {s : Search α} (hs : Reached g s) :
    ∀ c ∈ s.loops, IsClosedWalk g.Adj c ∧ c.Nodup := by
  induction hs with
  | initial => exact fun c hc ↦ absurd hc List.not_mem_nil
  | start _ _ _ ih => exact ih
  | move hs hmove ih =>
    have hcons := hs.consistent
    cases hmove with
    | leave | skip | enter => exact ih
    | @close path on b ns ahead vis found hon =>
      obtain ⟨a, p, rfl, hab, -, -⟩ := hcons.exists_latest
      have hb : b ∈ a :: p := (hcons.mem_onPath b).mp hon
      intro c hc
      rcases List.mem_cons.mp hc with rfl | hc
      · refine ⟨isClosedWalk_slice hcons.chain hb hab, ?_⟩
        exact (List.nodup_reverse.mpr hcons.nodup).sublist (List.dropWhile_sublist _)
      · exact ih c hc

end Lawful

end Search

theorem isClosedWalk_of_mem_loops [LawfulBEq α] {c : List α} (hc : c ∈ g.loops) :
    IsClosedWalk g.Adj c :=
  ((reached_search g).isClosedWalk_loops c (List.mem_reverse.mp hc)).1

theorem nodup_of_mem_loops [LawfulBEq α] {c : List α} (hc : c ∈ g.loops) : c.Nodup :=
  ((reached_search g).isClosedWalk_loops c (List.mem_reverse.mp hc)).2

/-- Every loop found is a closed walk that meets no node twice, whatever the graph. -/
theorem loops_sound (g : Digraph Text) {c : List Text} (hc : c ∈ g.loops) :
    IsClosedWalk g.Adj c ∧ c.Nodup :=
  ⟨isClosedWalk_of_mem_loops hc, nodup_of_mem_loops hc⟩

/-- A graph with a loop of two nodes, a node that leads to itself, a neighbour listed twice and one
that is no node. -/
def entangled : Digraph Text :=
  [(['a'], [['b'], ['b'], ['x']]), (['b'], [['a'], ['b']])]

theorem loops_sound_entangled :
    [['a'], ['b']] ∈ entangled.loops ∧ [['b']] ∈ entangled.loops ∧
      (IsClosedWalk entangled.Adj [['a'], ['b']] ∧ [['a'], ['b']].Nodup) ∧
      (IsClosedWalk entangled.Adj [['b']] ∧ [['b']].Nodup) :=
  ⟨by decide, by decide, loops_sound entangled (by decide), loops_sound entangled (by decide)⟩

end CodeHealth.Digraph
