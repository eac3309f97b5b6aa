import CodeHealth.Text.Basic

/-!
# Syntax trees

A tree keeps every character of the text it was read from: a token holds the gap before it (white
space and comments) and its own characters. Positions are therefore not stored but follow from the
tree, and the children of a node lie inside it, in order and side by side, whatever the grammar.

Positions are counted in bytes of the UTF-8 form; `Text.ByteIndex` turns them into offsets of the
text.
-/

namespace CodeHealth.Source

/-- What a node stands for, as far as units and branches need it. -/
inductive Kind
  | program | statement | expression | block | parameters | decorator
  | exported | ambient
  | functionDecl | functionSignature
  | classDecl | members | field | method | methodSignature | abstractSignature
  | name | body
  | ifStatement | forStatement | whileStatement
  deriving DecidableEq, Repr

/-- The statements that add a path through the code. -/
def Kind.isBranch : Kind → Bool
  | .ifStatement | .forStatement | .whileStatement => true
  | _ => false

inductive Tree
  /-- A token with the gap before it. -/
  | token (gap text : Text)
  | node (kind : Kind) (children : List Tree)

namespace Tree

def kind? : Tree → Option Kind
  | .token .. => none
  | .node k _ => some k

def children : Tree → List Tree
  | .token .. => []
  | .node _ ts => ts

def isKind (k : Kind) (t : Tree) : Bool :=
  t.kind? == some k

mutual

/-- All characters of a tree, gaps included. -/
def text : Tree → Text
  | .token gap t => gap ++ t
  | .node _ ts => textAll ts

def textAll : List Tree → Text
  | [] => []
  | t :: ts => t.text ++ textAll ts

end

mutual

/-- The first token of a tree. -/
def first? : Tree → Option (Text × Text)
  | .token gap t => some (gap, t)
  | .node _ ts => firstAll? ts

def firstAll? : List Tree → Option (Text × Text)
  | [] => none
  | t :: ts => t.first?.or (firstAll? ts)

end

mutual

/-- The number of tokens and nodes in a tree. -/
def size : Tree → Nat
  | .token .. => 1
  | .node _ ts => 1 + sizeAll ts

def sizeAll : List Tree → Nat
  | [] => 0
  | t :: ts => t.size + sizeAll ts

end

theorem size_eq (t : Tree) : t.size = 1 + sizeAll t.children := by
  cases t <;> rfl

theorem sizeAll_append (ts us : List Tree) : sizeAll (ts ++ us) = sizeAll ts + sizeAll us := by
  induction ts with
  | nil => simp [sizeAll]
  | cons t ts ih => rw [List.cons_append, sizeAll, ih, sizeAll, Nat.add_assoc]

theorem sizeAll_reverse (ts : List Tree) : sizeAll ts.reverse = sizeAll ts := by
  induction ts with
  | nil => rfl
  | cons t ts ih =>
    rw [List.reverse_cons, sizeAll_append, ih, sizeAll, sizeAll, sizeAll, Nat.add_zero, Nat.add_comm]

def isBranch (t : Tree) : Bool :=
  t.kind?.any Kind.isBranch

/-- Adds the branches in a stack of trees, and below them, to `n`. The tree on top is taken off and
its children come on top, the last one first. -/
def addBranches (n : Nat) : List Tree → Nat
  | [] => n
  | t :: stack => addBranches (if t.isBranch then n + 1 else n) (t.children.reverse ++ stack)
termination_by stack => sizeAll stack
decreasing_by
  rw [sizeAll_append, sizeAll_reverse, sizeAll, size_eq]
  omega

/-- The number of branches below a tree, at any depth. -/
def branchCount (t : Tree) : Nat :=
  addBranches 0 t.children.reverse

/-- Whether the word stands before the name of a member, as a modifier does. -/
def hasModifier (w : Text) (t : Tree) : Bool :=
  (t.children.takeWhile fun u => !u.isKind .name).any fun
    | .token _ x => x == w
    | .node .. => false

end Tree

/-- The number of bytes in the UTF-8 form of a text. -/
def byteSize : Text → Nat
  | [] => 0
  | c :: rest => c.utf8Size + byteSize rest

/-- A tree together with the byte position at which its gap begins. -/
structure Placed where
  base : Nat
  tree : Tree

namespace Placed

/-- Where the first token of the tree begins, behind its gap. -/
def start (p : Placed) : Nat :=
  p.base + byteSize ((p.tree.first?.map Prod.fst).getD [])

def stop (p : Placed) : Nat :=
  p.base + byteSize p.tree.text

/-- Trees side by side, from a position on. -/
def row (base : Nat) : List Tree → List Placed
  | [] => []
  | t :: ts => ⟨base, t⟩ :: row (base + byteSize t.text) ts

def children (p : Placed) : List Placed :=
  row p.base p.tree.children

/-- The first child of a kind. -/
def child? (p : Placed) (k : Kind) : Option Placed :=
  p.children.find? fun q => q.tree.isKind k

end Placed

end CodeHealth.Source
