import CodeHealth.Text.LowerCase

/-!
# Paths

A path is a list of components below a root, which is empty for relative paths. Doubled slashes,
slashes at the end and dots between slashes do not matter.
-/

namespace CodeHealth

structure Path where
  root : Text
  parts : List Text
  deriving DecidableEq, Repr

namespace Path

/-- Two slashes at the start differ from one, and more than two do not. -/
def rootOf (t : Text) : Text :=
  match (t.takeWhile (· == '/')).length with
  | 0 => []
  | 2 => ['/', '/']
  | _ => ['/']

def ofText (t : Text) : Path where
  root := rootOf t
  parts := (t.cutAt '/').filter fun s => !s.isEmpty && s != ['.']

/-- Components with slashes between them. -/
def joinParts (parts : List Text) : Text :=
  ['/'].intercalate parts

def toText (p : Path) : Text :=
  if p.root.isEmpty && p.parts.isEmpty then ['.'] else p.root ++ joinParts p.parts

def append (p : Path) (parts : List Text) : Path :=
  { p with parts := p.parts ++ parts }

def name (p : Path) : Text :=
  p.parts.getLastD []

end Path

/-- The suffix of a file name: from the last dot on, unless that is its first or last character. -/
def suffixOf (name : Text) : Text :=
  let tail := (name.reverse.takeWhile (· != '.')).reverse
  if tail.isEmpty || name.length ≤ tail.length + 1 then []
  else '.' :: tail

/-- The order of texts by code points. -/
def Text.le : Text → Text → Bool
  | [], _ => true
  | _ :: _, [] => false
  | a :: s, b :: t => decide (a < b) || (a == b && Text.le s t)

/-- The order of paths component by component. -/
def partsLe : List Text → List Text → Bool
  | [], _ => true
  | _ :: _, [] => false
  | a :: s, b :: t => if a == b then partsLe s t else Text.le a b

end CodeHealth
