import CodeHealth.Proofs.Digraph.Walk
import Mathlib.Data.List.Forall2

/-!
# Runs of the search

What one step does is said once, by the relation `Move`; the states between steps are those that
are `Reached`.  Every step takes something from `weight`, so the steps that a run is given are
enough to leave the path again, and a search ends with an empty path and all nodes visited.
-/

namespace CodeHealth.Digraph

variable {α : Type} [BEq α] {g : Digraph α}

namespace Search

/-! ## Moves -/

/-- One step of a search that has a node on its path. -/
inductive Move (g : Digraph α) : Search α → Search α → Prop
  /-- No neighbour is left. -/
  | leave {path on ahead vis found} :
      Move g ⟨path, on, [] :: ahead, vis, found⟩
        ⟨path.drop 1, on.filter fun a ↦ !(path.take 1).contains a, ahead, vis, found⟩
  /-- The next neighbour is on the path. -/
  | close {path on b ns ahead vis found} (hon : b ∈ on) :
      Move g ⟨path, on, (b :: ns) :: ahead, vis, found⟩
        ⟨path, on, ns :: ahead, vis, path.reverse.dropWhile (· != b) :: found⟩
  /-- The next neighbour has been left before. -/
  | skip {path on b ns ahead vis found} (hon : b ∉ on) (hvis : b ∈ vis) :
      Move g ⟨path, on, (b :: ns) :: ahead, vis, found⟩ ⟨path, on, ns :: ahead, vis, found⟩
  /-- The next neighbour is new. -/
  | enter {path on b ns ahead vis found} (hon : b ∉ on) (hvis : b ∉ vis) :
      Move g ⟨path, on, (b :: ns) :: ahead, vis, found⟩
        ⟨b :: path, b :: on, g.neighbours b :: ns :: ahead, b :: vis, found⟩

/-- The states that a search passes through. -/
inductive Reached (g : Digraph α) : Search α → Prop
  | initial : Reached g initial
  | start {s : Search α} {root : α} (hs : Reached g s) (hend : s.ahead = [])
      (hroot : root ∉ s.visited) : Reached g (s.start g root)
  | move {s t : Search α} (hs : Reached g s) (hst : Move g s t) : Reached g t

theorem move_step [LawfulBEq α] {s : Search α} (hs : s.ahead ≠ []) : Move g s (s.step g) := by
  obtain ⟨path, on, ahead, vis, found⟩ := s
  match ahead with
  | [] => exact absurd rfl hs
  | [] :: rest => exact .leave
  | (b :: ns) :: rest =>
    by_cases hon : b ∈ on
    · have hstep : step g ⟨path, on, (b :: ns) :: rest, vis, found⟩ =
          ⟨path, on, ns :: rest, vis, path.reverse.dropWhile (· != b) :: found⟩ := by
        simp [step, close, hon]
      exact hstep ▸ .close hon
    · by_cases hvis : b ∈ vis
      · have hstep : step g ⟨path, on, (b :: ns) :: rest, vis, found⟩ =
            ⟨path, on, ns :: rest, vis, found⟩ := by
          simp [step, hon, hvis]
        exact hstep ▸ .skip hon hvis
      · have hstep : step g ⟨path, on, (b :: ns) :: rest, vis, found⟩ =
            ⟨b :: path, b :: on, g.neighbours b :: ns :: rest, b :: vis, found⟩ := by
          simp [step, enter, hon, hvis]
        exact hstep ▸ .enter hon hvis

theorem Move.visited_subset {s t : Search α} (h : Move g s t) : s.visited ⊆ t.visited := by
  cases h with
  | leave | close | skip => exact fun _ ha ↦ ha
  | enter => exact fun _ ha ↦ List.mem_cons_of_mem _ ha

/-! ## Termination -/

/-- What the nodes on the path can still cost.  A neighbour counts twice: it is looked at, and if it
is no node of the graph it may still have to be left. -/
def aheadWeight : List (List α) → Nat
  | [] => 0
  | ns :: rest => 1 + 2 * ns.length + aheadWeight rest

/-- What the nodes that have not been visited can still cost. -/
def freshWeight (vis : List α) : Digraph α → Nat
  | [] => 0
  | (k, ns) :: rest => (if vis.contains k then 0 else 1 + 2 * ns.length) + freshWeight vis rest

/-- A bound on the steps to come. -/
def weight (g : Digraph α) (s : Search α) : Nat :=
  aheadWeight s.ahead + freshWeight s.visited g

theorem freshWeight_le_stepBound (vis : List α) (g : Digraph α) :
    freshWeight vis g ≤ g.stepBound := by
  induction g with
  | nil => exact le_rfl
  | cons e g ih =>
    obtain ⟨k, ns⟩ := e
    simp only [freshWeight, stepBound]
    split <;> omega

theorem run_of_ahead_eq_nil {s : Search α} (hend : s.ahead = []) (n : Nat) : s.run g n = s := by
  cases n with
  | zero => rfl
  | succ n => simp [run, hend]

theorem run_succ_of_ahead_ne_nil {s : Search α} (hne : s.ahead ≠ []) (n : Nat) :
    s.run g (n + 1) = (s.step g).run g n := by
  simp [run, hne]

section Lawful

variable [LawfulBEq α]

theorem freshWeight_cons_le (b : α) (vis : List α) (g : Digraph α) :
    freshWeight (b :: vis) g ≤ freshWeight vis g := by
  induction g with
  | nil => exact le_rfl
  | cons e g ih =>
    obtain ⟨k, ns⟩ := e
    by_cases hk : k ∈ vis
    · simpa [freshWeight, hk] using ih
    · simp only [freshWeight, List.contains_eq_mem, List.mem_cons, hk, or_false, decide_false]
      split <;> simp <;> omega

/-- Entering a node is paid for by the node itself, up to one step for a node that the graph does
not list. -/
theorem freshWeight_enter {b : α} {vis : List α} (hb : b ∉ vis) (g : Digraph α) :
    1 + 2 * (g.neighbours b).length + freshWeight (b :: vis) g ≤ freshWeight vis g + 1 := by
  induction g with
  | nil => simp [freshWeight, neighbours, Assoc.get?]
  | cons e g ih =>
    obtain ⟨k, ns⟩ := e
    by_cases hk : k = b
    · subst hk
      have hmono := freshWeight_cons_le k vis g
      simp only [freshWeight, neighbours_cons_self, List.contains_eq_mem, List.mem_cons, true_or,
        decide_true, if_true, hb, decide_false, Bool.false_eq_true, if_false]
      omega
    · rw [neighbours_cons_of_ne hk]
      simp only [freshWeight, List.contains_eq_mem, List.mem_cons, hk, false_or]
      omega

theorem Move.weight_lt {s t : Search α} (h : Move g s t) : t.weight g < s.weight g := by
  cases h with
  | leave =>
    simp only [weight, aheadWeight]
    omega
  | close | skip =>
    simp only [weight, aheadWeight, List.length_cons]
    omega
  | enter hon hvis =>
    have henter := freshWeight_enter hvis g
    simp only [weight, aheadWeight, List.length_cons]
    omega

theorem weight_start_le {s : Search α} {root : α} (hroot : root ∉ s.visited) :
    (s.start g root).weight g ≤ g.stepBound + 1 := by
  have henter := freshWeight_enter hroot g
  have hbound := freshWeight_le_stepBound s.visited g
  simp only [weight, start, aheadWeight]
  omega

theorem ahead_eq_nil_of_weight_eq_zero {s : Search α} (hs : s.weight g = 0) : s.ahead = [] := by
  by_contra hne
  have hlt := (move_step (g := g) hne).weight_lt
  omega

/-- A run with enough steps leaves the path, through reached states. -/
theorem run_spec (n : Nat) (s : Search α) (hs : Reached g s) (hn : s.weight g ≤ n) :
    Reached g (s.run g n) ∧ (s.run g n).ahead = [] ∧ s.visited ⊆ (s.run g n).visited := by
  induction n generalizing s with
  | zero => exact ⟨hs, ahead_eq_nil_of_weight_eq_zero (Nat.le_zero.mp hn), fun _ ha ↦ ha⟩
  | succ n ih =>
    by_cases hend : s.ahead = []
    · rw [run_of_ahead_eq_nil hend]
      exact ⟨hs, hend, fun _ ha ↦ ha⟩
    · have hmove : Move g s (s.step g) := move_step hend
      have hlt := hmove.weight_lt
      obtain ⟨hr, he, hv⟩ := ih (s.step g) (hs.move hmove) (by omega)
      rw [run_succ_of_ahead_ne_nil hend]
      exact ⟨hr, he, fun a ha ↦ hv (hmove.visited_subset ha)⟩

end Lawful

end Search

/-! ## The whole search -/

section Lawful

variable [LawfulBEq α]

open Search

theorem searchFrom_spec {s : Search α} (root : α) (hs : Reached g s) (hend : s.ahead = []) :
    Reached g (g.searchFrom s root) ∧ (g.searchFrom s root).ahead = [] ∧
      root :: s.visited ⊆ (g.searchFrom s root).visited := by
  by_cases hroot : root ∈ s.visited
  · have hskip : g.searchFrom s root = s := by simp [searchFrom, hroot]
    rw [hskip]
    exact ⟨hs, hend, List.cons_subset.mpr ⟨hroot, fun _ ha ↦ ha⟩⟩
  · have hrun : g.searchFrom s root = (s.start g root).run g (g.stepBound + 1) := by
      simp [searchFrom, hroot]
    rw [hrun]
    exact run_spec _ _ (hs.start hend hroot) (weight_start_le hroot)

theorem foldl_searchFrom_spec (roots : List α) (s : Search α) (hs : Reached g s)
    (hend : s.ahead = []) :
    Reached g (roots.foldl g.searchFrom s) ∧ (roots.foldl g.searchFrom s).ahead = [] ∧
      roots ++ s.visited ⊆ (roots.foldl g.searchFrom s).visited := by
  induction roots generalizing s with
  | nil => exact ⟨hs, hend, fun _ ha ↦ ha⟩
  | cons root roots ih =>
    obtain ⟨hr, he, hv⟩ := searchFrom_spec root hs hend
    obtain ⟨hr', he', hv'⟩ := ih (g.searchFrom s root) hr he
    refine ⟨hr', he', fun a ha ↦ hv' ?_⟩
    rcases List.mem_append.mp ha with ha | ha
    · rcases List.mem_cons.mp ha with rfl | ha
      · exact List.mem_append_right _ (hv List.mem_cons_self)
      · exact List.mem_append_left _ ha
    · exact List.mem_append_right _ (hv (List.mem_cons_of_mem _ ha))

theorem reached_search (g : Digraph α) : Reached g g.search :=
  (foldl_searchFrom_spec _ _ .initial rfl).1

theorem ahead_search (g : Digraph α) : g.search.ahead = [] :=
  (foldl_searchFrom_spec (g := g) _ _ .initial rfl).2.1

theorem keys_subset_visited_search (g : Digraph α) : Assoc.keys g ⊆ g.search.visited :=
  fun _ ha ↦ (foldl_searchFrom_spec _ _ .initial rfl).2.2 (List.mem_append_left _ ha)

end Lawful

end CodeHealth.Digraph
