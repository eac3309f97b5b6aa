import CodeHealth.Assoc

/-!
# Directed graphs and their loops

A graph lists for each of its nodes the neighbours, in order; neighbours need not be nodes
themselves. Loops are found by a depth-first search that keeps the path from the root and, for each
node on it, the neighbours still to be looked at. A neighbour on the path closes a loop, and every
node is entered once.
-/

namespace CodeHealth

abbrev Digraph (α : Type) := List (α × List α)

namespace Digraph

variable {α : Type} [BEq α]

def neighbours (g : Digraph α) (a : α) : List α :=
  (Assoc.get? a g).getD []

/-- The state of a search. -/
structure Search (α : Type) where
  /-- The nodes from the latest one back to the root. -/
  path : List α
  /-- The nodes on the path, to look them up in. -/
  onPath : List α
  /-- For each node on the path the neighbours still to be looked at. -/
  ahead : List (List α)
  visited : List α
  /-- The loops closed so far, the latest first. -/
  loops : List (List α)

namespace Search

/-- Before the first root. -/
def initial : Search α where
  path := []
  onPath := []
  ahead := []
  visited := []
  loops := []

/-- Starts a path at `root`. -/
def start (g : Digraph α) (s : Search α) (root : α) : Search α where
  path := [root]
  onPath := [root]
  ahead := [g.neighbours root]
  visited := root :: s.visited
  loops := s.loops

/-- Goes on from the latest node to `b`. -/
def enter (g : Digraph α) (s : Search α) (b : α) : Search α where
  path := b :: s.path
  onPath := b :: s.onPath
  ahead := g.neighbours b :: s.ahead
  visited := b :: s.visited
  loops := s.loops

/-- Goes back from the latest node. -/
def leave (s : Search α) : Search α :=
  { s with
    path := s.path.drop 1
    onPath := s.onPath.filter fun a => !(s.path.take 1).contains a
    ahead := s.ahead.drop 1 }

/-- Records the path from `b` on as a loop. -/
def close (s : Search α) (b : α) : Search α :=
  { s with loops := s.path.reverse.dropWhile (· != b) :: s.loops }

/-- Looks at the next neighbour of the latest node, or leaves that node. -/
def step (g : Digraph α) (s : Search α) : Search α :=
  match s.ahead with
  | [] => s
  | [] :: _ => s.leave
  | (b :: ns) :: rest =>
    let s := { s with ahead := ns :: rest }
    if s.onPath.contains b then s.close b
    else if s.visited.contains b then s
    else s.enter g b

/-- Steps until the path is left, at most `n` times. -/
def run (g : Digraph α) : Nat → Search α → Search α
  | 0, s => s
  | n + 1, s => if s.ahead.isEmpty then s else run g n (s.step g)

end Search

/-- Enough steps to enter and leave every node and to look at every neighbour. -/
def stepBound : Digraph α → Nat
  | [] => 0
  | (_, ns) :: rest => 2 + 3 * ns.length + stepBound rest

/-- Searches from a root that has not been visited. -/
def searchFrom (g : Digraph α) (s : Search α) (root : α) : Search α :=
  if s.visited.contains root then s
  else (s.start g root).run g (g.stepBound + 1)

/-- The search from every node in turn. -/
def search (g : Digraph α) : Search α :=
  (Assoc.keys g).foldl g.searchFrom Search.initial

/-- The loops of a graph in the order in which the search closes them. -/
def loops (g : Digraph α) : List (List α) :=
  g.search.loops.reverse

end Digraph

end CodeHealth
