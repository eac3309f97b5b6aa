import CodeHealth.Project.Path
import CodeHealth.Text.Quoted
import CodeHealth.Text.Utf8

/-!
# File trees

A tree of directories and files in memory, read and changed at the end of components.
-/

namespace CodeHealth

inductive FileTree
  | file (content : Text.Bytes)
  | directory (entries : List (Text × FileTree))

/-- Why a file cannot be read. -/
inductive ReadFault
  | isDirectory (path : Text)
  | undecodable (fault : Text.DecodeFault)
  | refused (message : Text)
  deriving DecidableEq, Repr

def ReadFault.message : ReadFault → String
  | .isDirectory path => s!"[Errno 21] Is a directory: {String.ofList path.quoted}"
  | .undecodable e => e.message
  | .refused message => String.ofList message

namespace FileTree

def empty : FileTree := .directory []

def isDirectory : FileTree → Bool
  | .file _ => false
  | .directory _ => true

def entries : FileTree → List (Text × FileTree)
  | .file _ => []
  | .directory es => es

mutual

/-- The number of directories in a tree, the tree itself included. -/
def directoryCount : FileTree → Nat
  | .file _ => 0
  | .directory es => 1 + directoryCountAll es

def directoryCountAll : List (Text × FileTree) → Nat
  | [] => 0
  | (_, t) :: rest => directoryCount t + directoryCountAll rest

end

def childNamed? (name : Text) : List (Text × FileTree) → Option FileTree
  | [] => none
  | (n, t) :: rest => if n == name then some t else childNamed? name rest

/-- Follows components from a place; `above` holds the directories on the way to it, the nearest
first. Two dots lead back, and nothing lies behind a file. -/
def follow (above : List FileTree) (t : FileTree) : List Text → Option FileTree
  | [] => some t
  | part :: rest =>
    match t with
    | .file _ => none
    | .directory es =>
      if part == ['.', '.'] then
        match above with
        | [] => follow [] t rest
        | parent :: more => follow more parent rest
      else
        match childNamed? part es with
        | none => none
        | some child => follow (t :: above) child rest

/-- The text of a file under the name by which it was asked for. -/
def textOf (path : Text) : FileTree → Except ReadFault Text
  | .directory _ => .error (.isDirectory path)
  | .file bs =>
    match Text.ofFile bs with
    | .ok t => .ok t
    | .error e => .error (.undecodable e)

/-- Replaces or adds an entry. -/
def setEntry (name : Text) (t : FileTree) : List (Text × FileTree) → List (Text × FileTree)
  | [] => [(name, t)]
  | (n, u) :: rest => if n == name then (n, t) :: rest else (n, u) :: setEntry name t rest

/-- Puts a tree at the end of components, making the directories on the way. Nothing can be put
behind a file, and no file in the place of a directory. -/
def put? (new : FileTree) : List Text → FileTree → Option FileTree
  | [], .file _ => if new.isDirectory then none else some new
  | [], .directory es => if new.isDirectory then some (.directory es) else none
  | _ :: _, .file _ => none
  | part :: rest, .directory es =>
    let missing := if rest.isEmpty && !new.isDirectory then .file [] else empty
    (put? new rest ((childNamed? part es).getD missing)).map fun t => .directory (setEntry part t es)

/-- Makes the directories along a path, two dots leading back; gives the tree left and, if nothing
stands in the way, the components of the place reached. -/
def makeDirectories (t : FileTree) (done : List Text) :
    List Text → FileTree × Option (List Text)
  | [] => (t, some done)
  | part :: rest =>
    if part == ['.', '.'] then makeDirectories t done.dropLast rest
    else
      match put? empty (done ++ [part]) t with
      | none => (t, none)
      | some t => makeDirectories t (done ++ [part]) rest

def hasNull (name : Text) : Bool :=
  name.any (· == '\x00')

/-- What comes of writing a file. -/
inductive Attempt
  | written
  /-- A file or a directory stands in the way. -/
  | blocked
  /-- A name with a null character, which nothing can have. -/
  | invalid
  deriving DecidableEq, Repr

/-- Writes a file, making the directories above it; gives the tree left as well. Directories made
before it fails stay. -/
def write (t : FileTree) (parts : List Text) (content : Text.Bytes) : FileTree × Attempt :=
  match parts.getLast? with
  | none => (t, .blocked)
  | some name =>
    if parts.dropLast.any hasNull then (t, .invalid)
    else
      match makeDirectories t [] parts.dropLast with
      | (t, none) => (t, .blocked)
      | (t, some above) =>
        if hasNull name then (t, .invalid)
        else if name == ['.', '.'] then (t, .blocked)
        else
          match put? (.file content) (above ++ [name]) t with
          | none => (t, .blocked)
          | some t => (t, .written)

end FileTree

end CodeHealth
