import CodeHealth.Proofs.Digraph.Search
import CodeHealth.Text.Basic

/-!
# The search as a recursion

A depth-first search may be written as a recursion over the neighbours of a node, in which the path
is handed down and the visited nodes are handed on from one neighbour to the next.  A search with
its path and the neighbours ahead in registers does the same: from any state, looking at the
neighbours ahead of the latest node adds what the recursion finds, and leaves the registers of the
nodes below as they were.
-/

namespace CodeHealth.Digraph

variable {α : Type} [BEq α] {g : Digraph α}

/-! ## The recursion -/

theorem Search.freshWeight_append_le [LawfulBEq α] (new vis : List α) (g : Digraph α) :
    freshWeight (new ++ vis) g ≤ freshWeight vis g := by
  induction new with
  | nil => exact le_rfl
  | cons b new ih => exact (freshWeight_cons_le b _ g).trans ih

/-- Looks at nodes one after another, all of them neighbours of the last node of `path`.  One on the
path closes a loop, one in `vis` is passed over, and any other is marked as visited and its own
neighbours are looked at first.  The result is the nodes visited on the way, the latest first, and
the loops in the order in which they are closed. -/
def explore [LawfulBEq α] (g : Digraph α) (path vis : List α) : List α → List α × List (List α)
  | [] => ([], [])
  | b :: bs =>
    if path.contains b then
      let (new, found) := explore g path vis bs
      (new, path.dropWhile (· != b) :: found)
    else if vis.contains b then explore g path vis bs
    else
      let (inner, closed) := explore g (path ++ [b]) (b :: vis) (g.neighbours b)
      let (new, found) := explore g path (inner ++ b :: vis) bs
      (new ++ inner ++ [b], closed ++ found)
termination_by bs => Search.freshWeight vis g + 2 * bs.length
decreasing_by
  · simp only [List.length_cons]
    omega
  · simp only [List.length_cons]
    omega
  · next _ hvis =>
    have henter := Search.freshWeight_enter (mt List.contains_iff_mem.mpr hvis) g
    simp only [List.length_cons]
    omega
  · have hcons := Search.freshWeight_cons_le b vis g
    have happend := Search.freshWeight_append_le inner (b :: vis) g
    simp only [List.length_cons]
    omega

/-- The loops that the recursion finds from the nodes of the graph in turn.  Before the first node
there is no path, so these close nothing themselves. -/
def recursiveLoops [LawfulBEq α] (g : Digraph α) : List (List α) :=
  (g.explore [] [] (Assoc.keys g)).2

/-! ## Runs to the end -/

namespace Search

/-- The state in which the path is left. -/
def finish (g : Digraph α) (s : Search α) : Search α :=
  s.run g (s.weight g)

theorem finish_of_ahead_eq_nil {s : Search α} (hend : s.ahead = []) : s.finish g = s :=
  run_of_ahead_eq_nil hend _

variable [LawfulBEq α]

theorem Move.step_eq {s t : Search α} (h : Move g s t) : s.step g = t := by
  cases h with
  | leave => rfl
  | close hon => simp [step, Search.close, hon]
  | skip hon hvis => simp [step, hon, hvis]
  | enter hon hvis => simp [step, Search.enter, hon, hvis]

theorem Move.run_succ {s t : Search α} (h : Move g s t) (n : Nat) :
    s.run g (n + 1) = t.run g n := by
  have hne : s.ahead ≠ [] := by
    cases h with
    | leave | close | skip | enter => exact List.cons_ne_nil _ _
  rw [run_succ_of_ahead_ne_nil hne, h.step_eq]

/-- With enough steps, the number of steps does not matter. -/
theorem run_eq_run {s : Search α} {n m : Nat} (hn : s.weight g ≤ n) (hm : s.weight g ≤ m) :
    s.run g n = s.run g m := by
  induction n generalizing s m with
  | zero =>
    have hend := ahead_eq_nil_of_weight_eq_zero (Nat.le_zero.mp hn)
    rw [run_of_ahead_eq_nil hend, run_of_ahead_eq_nil hend]
  | succ n ih =>
    by_cases hend : s.ahead = []
    · rw [run_of_ahead_eq_nil hend, run_of_ahead_eq_nil hend]
    · have hlt := (move_step (g := g) hend).weight_lt
      obtain ⟨m, rfl⟩ : ∃ k, m = k + 1 := Nat.exists_eq_add_one.mpr (by omega)
      rw [run_succ_of_ahead_ne_nil hend, run_succ_of_ahead_ne_nil hend]
      exact ih (by omega) (by omega)

theorem Move.finish_eq {s t : Search α} (h : Move g s t) : s.finish g = t.finish g := by
  have hlt := h.weight_lt
  obtain ⟨n, hn⟩ : ∃ n, s.weight g = n + 1 := Nat.exists_eq_add_one.mpr (by omega)
  rw [finish, finish, hn, h.run_succ]
  exact run_eq_run (by omega) le_rfl

theorem finish_leave {b : α} {path on : List α} {ahead : List (List α)} {vis : List α}
    {found : List (List α)} (hb : b ∉ on) :
    finish g ⟨b :: path, b :: on, [] :: ahead, vis, found⟩ =
      finish g ⟨path, on, ahead, vis, found⟩ := by
  have hon : (b :: on).filter (fun a ↦ !((b :: path).take 1).contains a) = on := by
    simp only [List.take_succ_cons, List.take_zero, List.contains_eq_mem, List.mem_singleton,
      List.filter_cons, decide_true, Bool.not_true, Bool.false_eq_true, if_false]
    refine List.filter_eq_self.mpr fun a ha ↦ ?_
    simpa using ne_of_mem_of_not_mem ha hb
  rw [Move.leave.finish_eq, hon]
  rfl

/-! ## The search and the recursion -/

/-- A search that looks at the neighbours `bs` of its latest node takes up what the recursion
finds there. -/
theorem finish_explore (path vis bs on : List α) (ahead found : List (List α))
    (hon : ∀ a, a ∈ on ↔ a ∈ path) :
    finish g ⟨path.reverse, on, bs :: ahead, vis, found⟩ =
      finish g ⟨path.reverse, on, [] :: ahead, (g.explore path vis bs).1 ++ vis,
        (g.explore path vis bs).2.reverse ++ found⟩ := by
  fun_induction explore g path vis bs generalizing on ahead found with
  | case1 => rfl
  | case2 path vis b bs hb new closed heq ih =>
    have hmem : b ∈ on := (hon b).mpr (List.contains_iff_mem.mp hb)
    rw [(Move.close hmem).finish_eq, ih on ahead _ hon, heq, List.reverse_reverse]
    simp
  | case3 path vis b bs hb hvis ih =>
    have hmem : b ∉ on := fun h ↦ hb (List.contains_iff_mem.mpr ((hon b).mp h))
    rw [(Move.skip hmem (List.contains_iff_mem.mp hvis)).finish_eq, ih on ahead found hon]
  | case4 path vis b bs hb hvis inner closed heq new more heq' ih ih' =>
    have hmem : b ∉ on := fun h ↦ hb (List.contains_iff_mem.mpr ((hon b).mp h))
    have hnew : b ∉ vis := fun h ↦ hvis (List.contains_iff_mem.mpr h)
    have hon' (a : α) : a ∈ b :: on ↔ a ∈ path ++ [b] := by
      rw [List.mem_cons, List.mem_append, List.mem_singleton, hon a, or_comm]
    -- Down to `b`, along its neighbours and back; then on with the neighbours behind `b`.
    have hdown := ih (b :: on) (bs :: ahead) found hon'
    rw [heq, List.reverse_append, List.reverse_singleton, List.singleton_append] at hdown
    rw [(Move.enter hmem hnew).finish_eq, hdown, finish_leave hmem, ih' on ahead _ hon, heq']
    simp

end Search

variable [LawfulBEq α]

open Search

theorem searchFrom_eq {s : Search α} {root : α} (hroot : root ∉ s.visited) :
    g.searchFrom s root =
      ⟨[], [], [], (g.explore [root] (root :: s.visited) (g.neighbours root)).1 ++ root :: s.visited,
        (g.explore [root] (root :: s.visited) (g.neighbours root)).2.reverse ++ s.loops⟩ := by
  have hrun : g.searchFrom s root = (s.start g root).run g (g.stepBound + 1) := by
    simp [searchFrom, hroot]
  have hscan := finish_explore (g := g) [root] (root :: s.visited) (g.neighbours root) [root] []
    s.loops fun _ ↦ Iff.rfl
  rw [hrun, run_eq_run (weight_start_le hroot) le_rfl, ← finish]
  rw [List.reverse_singleton] at hscan
  rw [start, hscan, finish_leave List.not_mem_nil, finish_of_ahead_eq_nil rfl]

theorem loops_foldl_searchFrom (roots : List α) (s : Search α) :
    (roots.foldl g.searchFrom s).loops = (g.explore [] s.visited roots).2.reverse ++ s.loops := by
  induction roots generalizing s with
  | nil => simp [explore]
  | cons root roots ih =>
    by_cases hroot : root ∈ s.visited
    · have hskip : g.searchFrom s root = s := by simp [searchFrom, hroot]
      rw [List.foldl_cons, hskip, ih]
      simp [explore, hroot]
    · rw [List.foldl_cons, searchFrom_eq hroot, ih]
      conv_rhs => rw [explore]
      simp [hroot]

/-- The search finds the loops of the recursion, in the same order. -/
theorem loops_eq_recursiveLoops (g : Digraph Text) : g.loops = g.recursiveLoops := by
  rw [loops, search, loops_foldl_searchFrom, recursiveLoops]
  simp [Search.initial]

end CodeHealth.Digraph
