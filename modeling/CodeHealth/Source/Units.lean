import CodeHealth.CodeUnit
import CodeHealth.Source.Grammar
import CodeHealth.Text.ByteIndex

/-!
# The units of a document

Units are the functions and classes among the statements of a document, exported or not. Without a
body they are units only where they are declared as ambient. A unit ranges over its whole
statement.
-/

namespace CodeHealth

inductive Language
  | typescript | typescriptreact | javascript | javascriptreact
  deriving DecidableEq, Repr

namespace Language

def all : List Language :=
  [.typescript, .typescriptreact, .javascript, .javascriptreact]

def name : Language → String
  | .typescript => "typescript"
  | .typescriptreact => "typescriptreact"
  | .javascript => "javascript"
  | .javascriptreact => "javascriptreact"

def ofName? (n : Text) : Option Language :=
  all.find? fun l => l.name.toList == n

/-- Both kinds of JavaScript are read with markup. -/
def dialect : Language → Source.Dialect
  | .typescript => ⟨true, false⟩
  | .typescriptreact => ⟨true, true⟩
  | .javascript | .javascriptreact => ⟨false, true⟩

end Language

namespace Source

/-- Turns places in a tree into parts of the text it was read from. -/
structure Reader where
  text : Text
  index : Text.ByteIndex

namespace Reader

def start (r : Reader) (p : Placed) : Nat :=
  r.index.offset p.start

def stop (r : Reader) (p : Placed) : Nat :=
  r.index.offset p.stop

def textOf (r : Reader) (p : Placed) : Text :=
  (r.text.drop (r.start p)).take (r.stop p - r.start p)

def nameOf (r : Reader) (p : Placed) : Option Text :=
  (p.child? .name).map r.textOf

/-- The branches below the body of a function or method, at any depth. -/
def branchesOf (p : Placed) : Nat :=
  match p.child? .body with
  | some body => body.tree.branchCount
  | none => 0

def methodAt (r : Reader) (p : Placed) (branches : Nat) : Method where
  name := r.nameOf p
  start := r.start p
  stop := r.stop p
  text := r.textOf p
  branches := branches

/-- A member that counts as a method. Accessors and constructors do not count; members without a
body count where the class is ambient; abstract members always count. -/
def method? (r : Reader) (ambient : Bool) (p : Placed) : Option Method :=
  if p.tree.isKind .method || (ambient && p.tree.isKind .methodSignature) then
    if p.tree.hasModifier "get".toList || p.tree.hasModifier "set".toList then none
    else if r.nameOf p == some "constructor".toList then none
    else some (r.methodAt p (branchesOf p))
  else if p.tree.isKind .abstractSignature then some (r.methodAt p 0)
  else none

def methods (r : Reader) (ambient : Bool) (p : Placed) : List Method :=
  match p.child? .members with
  | some body => body.children.filterMap (r.method? ambient)
  | none => []

/-- The shape of the unit that a declaration gives, if it gives one. -/
def shape? (r : Reader) (ambient : Bool) (p : Placed) : Option Shape :=
  if p.tree.isKind .classDecl then some (.classOf (r.methods ambient p))
  else if p.tree.isKind .functionDecl then some (.function (branchesOf p))
  else if ambient && p.tree.isKind .functionSignature then some (.function 0)
  else none

/-- A tree that may be, or hold, the declaration of a unit. -/
def isDeclaration (t : Tree) : Bool :=
  [Kind.functionDecl, .functionSignature, .classDecl, .ambient].any t.isKind

/-- The declaration that a statement exports, or the statement itself. -/
def declaration (p : Placed) : Placed :=
  if p.tree.isKind .exported then (p.children.find? fun q => isDeclaration q.tree).getD p
  else p

/-- The declaration behind `declare`, or the statement itself. -/
def ambientDeclaration (p : Placed) : Placed :=
  (p.children.find? fun q => isDeclaration q.tree).getD p

/-- The unit that a statement declares, with the statement for its range. -/
def unit? (r : Reader) (p : Placed) : Option CodeUnit :=
  let outer := declaration p
  let ambient := outer.tree.isKind .ambient
  let decl := if ambient then ambientDeclaration outer else outer
  (r.shape? ambient decl).map fun shape =>
    { name := r.nameOf decl, start := r.start p, stop := r.stop p, text := r.textOf p, shape }

end Reader

/-- The units of a document, in order. -/
def units (d : Dialect) (t : Text) : List CodeUnit :=
  let r : Reader := ⟨t, .ofText t⟩
  (Placed.row 0 (d.read t).children).filterMap r.unit?

end Source

end CodeHealth
