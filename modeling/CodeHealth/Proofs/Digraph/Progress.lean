import CodeHealth.Proofs.Digraph.Soundness
import Mathlib.Logic.Relation

/-!
# A search never gets stuck

A step takes two things for granted: a node to go back from once no neighbour is left, and a place
on the path for a neighbour that closes a loop.  A turn of the search looks both of them up and
fails where one is missing.  It never does: before every turn the registers are consistent, and then
a turn is a step.  As every turn takes something from `weight`, there is no endless sequence of
turns, and those from a root end with the state that the search goes on with.
-/

namespace CodeHealth.Digraph

variable {α : Type} [BEq α] {g : Digraph α}

namespace Search

/-! ## Turns -/

/-- What a turn may find missing. -/
inductive TurnFault (α : Type)
  /-- There is no node to go back from. -/
  | emptyPath
  /-- The node is marked as lying on the path and does not. -/
  | notOnPath (b : α)

/-- A step that looks up what it needs. -/
def turn (g : Digraph α) (s : Search α) : Except (TurnFault α) (Search α) :=
  match s.ahead with
  | [] => .ok s
  | [] :: ahead =>
    match s.path with
    | [] => .error .emptyPath
    | a :: path => .ok { s with path, onPath := s.onPath.filter (· != a), ahead }
  | (b :: ns) :: rest =>
    let s := { s with ahead := ns :: rest }
    if s.onPath.contains b then
      match s.path.reverse.idxOf? b with
      | none => .error (.notOnPath b)
      | some i => .ok { s with loops := s.path.reverse.drop i :: s.loops }
    else if s.visited.contains b then .ok s
    else .ok (s.enter g b)

/-- As long as a node is on the path, a turn leads from `s` to `t`. -/
def Turns (g : Digraph α) (s t : Search α) : Prop :=
  s.ahead ≠ [] ∧ s.turn g = .ok t

section Lawful

variable [LawfulBEq α]

theorem exists_idxOf?_eq_some {b : α} {l : List α} (hb : b ∈ l) :
    ∃ i, l.idxOf? b = some i ∧ l.drop i = l.dropWhile (· != b) := by
  induction l with
  | nil => exact absurd hb List.not_mem_nil
  | cons a l ih =>
    by_cases hab : a = b
    · exact ⟨0, by simp [hab, List.idxOf?_cons]⟩
    · have hb' : b ∈ l := (List.mem_cons.mp hb).resolve_left (Ne.symm hab)
      obtain ⟨i, hi, hdrop⟩ := ih hb'
      exact ⟨i + 1, by simp [hab, List.idxOf?_cons, hi, hdrop]⟩

/-- While the registers are consistent, nothing is missing. -/
theorem Consistent.turn_eq {s : Search α} (hs : Consistent g s) : s.turn g = .ok (s.step g) := by
  obtain ⟨path, on, ahead, vis, found⟩ := s
  match ahead with
  | [] => rfl
  | [] :: rest =>
    obtain ⟨a, p, -, -, rfl⟩ := List.forall₂_cons_right_iff.mp hs.ahead
    have hfilter : on.filter (· != a) = on.filter fun x ↦ !((a :: p).take 1).contains x :=
      List.filter_congr fun x _ ↦ by simp [bne]
    simp only [turn, step, leave, hfilter, List.drop_succ_cons, List.drop_zero]
  | (b :: ns) :: rest =>
    by_cases hon : b ∈ on
    · have hb : b ∈ path.reverse := List.mem_reverse.mpr ((hs.mem_onPath b).mp hon)
      obtain ⟨i, hi, hdrop⟩ := exists_idxOf?_eq_some hb
      simp [turn, step, close, hon, hi, hdrop]
    · by_cases hvis : b ∈ vis
      · simp [turn, step, hon, hvis]
      · simp [turn, step, hon, hvis]

theorem Turns.move {s t : Search α} (hs : Reached g s) (h : Turns g s t) : Move g s t := by
  have hstep : s.step g = t := Except.ok.inj (hs.consistent.turn_eq.symm.trans h.2)
  exact hstep ▸ move_step h.1

/-! ## Sequences of turns -/

theorem Reached.of_turns {s t : Search α} (hs : Reached g s)
    (h : Relation.ReflTransGen (Turns g) s t) : Reached g t := by
  induction h with
  | refl => exact hs
  | tail _ hturn ih => exact ih.move (hturn.move ih)

/-- No endless sequence of turns leaves a state that a search passes through. -/
theorem Reached.acc_turns {s : Search α} (hs : Reached g s) : Acc (fun t s ↦ Turns g s t) s := by
  induction hweight : s.weight g using Nat.strong_induction_on generalizing s with
  | _ n ih =>
    subst hweight
    refine .intro s fun t ht ↦ ?_
    have hmove := ht.move hs
    exact ih _ hmove.weight_lt (hs.move hmove) rfl

/-- The steps of a run are turns. -/
theorem Reached.turns_run {s : Search α} (hs : Reached g s) (n : Nat) :
    Relation.ReflTransGen (Turns g) s (s.run g n) := by
  induction n generalizing s with
  | zero => exact .refl
  | succ n ih =>
    by_cases hend : s.ahead = []
    · rw [run_of_ahead_eq_nil hend]
    · rw [run_succ_of_ahead_ne_nil hend]
      exact .head ⟨hend, hs.consistent.turn_eq⟩ (ih (hs.move (move_step hend)))

end Lawful

end Search

/-! ## From root to root -/

open Search

/-- The state after the searches from some roots in turn.  The search of a graph is this for its
nodes. -/
def searchFromAll (g : Digraph α) (roots : List α) : Search α :=
  roots.foldl g.searchFrom initial

/-- Wherever a search starts, the registers are consistent before every turn: no node is on the path
twice, the lookup holds exactly the nodes on the path and they have been visited, there is one list
of neighbours ahead for each of them, and each is joined to the next one by an edge.  So a turn finds
everything that it needs and does what a step does.  The turns come to an end, and then the path is
left and the search goes on with the next root. -/
theorem turns_end (g : Digraph Text) (roots : List Text) {root : Text}
    (hroot : root ∉ (g.searchFromAll roots).visited) :
    (∀ t, Relation.ReflTransGen (Turns g) ((g.searchFromAll roots).start g root) t →
      t.path.Nodup ∧ (∀ a, a ∈ t.onPath ↔ a ∈ t.path) ∧ t.onPath ⊆ t.visited ∧
      t.ahead.length = t.path.length ∧ t.path.reverse.IsChain g.Adj ∧
      t.turn g = .ok (t.step g) ∧ Acc (fun u t ↦ Turns g t u) t) ∧
    Relation.ReflTransGen (Turns g) ((g.searchFromAll roots).start g root)
      (g.searchFromAll (roots ++ [root])) ∧
    (g.searchFromAll (roots ++ [root])).ahead = [] ∧
    (g.searchFromAll (roots ++ [root])).path = [] := by
  obtain ⟨hreached, hend, -⟩ := foldl_searchFrom_spec (g := g) roots initial .initial rfl
  have hstart := hreached.start hend hroot
  have hlast : g.searchFromAll (roots ++ [root]) =
      ((g.searchFromAll roots).start g root).run g (g.stepBound + 1) := by
    rw [searchFromAll, List.foldl_concat, ← searchFromAll, searchFrom]
    simp [hroot]
  obtain ⟨hreached', hend', -⟩ := run_spec _ _ hstart (weight_start_le hroot)
  rw [hlast]
  refine ⟨fun t ht ↦ ?_, hstart.turns_run _, hend', hreached'.consistent.path_eq_nil hend'⟩
  have ht := hstart.of_turns ht
  have hcons := ht.consistent
  exact ⟨hcons.nodup, hcons.mem_onPath, fun a ha ↦ hcons.path_subset ((hcons.mem_onPath a).mp ha),
    hcons.ahead.length_eq.symm, List.isChain_reverse.mpr hcons.chain, hcons.turn_eq, ht.acc_turns⟩

/-- The turn that closes the loop of two nodes, and the end of the turns from the first root. -/
theorem turns_end_entangled :
    ∃ t, Relation.ReflTransGen (Turns entangled)
        ((entangled.searchFromAll []).start entangled ['a']) t ∧
      t.path = [['b'], ['a']] ∧ t.turn entangled = .ok (t.step entangled) ∧
      (t.step entangled).loops = [[['a'], ['b']]] ∧
      (entangled.searchFromAll [['a']]).ahead = [] := by
  have hroot : ['a'] ∉ (entangled.searchFromAll []).visited := by decide
  obtain ⟨hturns, -, hend, -⟩ := turns_end entangled [] hroot
  have ht := (Reached.initial.start rfl hroot).turns_run (g := entangled) 1
  obtain ⟨-, -, -, -, -, hturn, -⟩ := hturns _ ht
  exact ⟨_, ht, by decide, hturn, by decide, hend⟩

end CodeHealth.Digraph
