import CodeHealth.Text.Basic

/-!
# Code units

A unit is a function or a class at the top level of a document. Offsets count code points and are
integers, since callers may hand in units of their own.
-/

namespace CodeHealth

structure Method where
  name : Option Text
  start : Int
  stop : Int
  text : Text
  branches : Int
  deriving DecidableEq, Repr

/-- What tells functions and classes apart. -/
inductive Shape
  | function (branches : Int)
  | classOf (methods : List Method)
  deriving DecidableEq, Repr

structure CodeUnit where
  name : Option Text
  start : Int
  stop : Int
  text : Text
  shape : Shape
  deriving DecidableEq, Repr

/-- The name that reports show for a declaration. -/
def displayName (name : Option Text) : Text :=
  match name with
  | none | some [] => "anonymous".toList
  | some n => n

namespace CodeUnit

def display (u : CodeUnit) : Text :=
  displayName u.name

def isFunction (u : CodeUnit) : Bool :=
  match u.shape with
  | .function _ => true
  | .classOf _ => false

/-- The first unit whose range holds the offset, both ends included. -/
def at? (units : List CodeUnit) (offset : Int) : Option CodeUnit :=
  units.find? fun u => decide (u.start ≤ offset) && decide (offset ≤ u.stop)

end CodeUnit

end CodeHealth
