import CodeHealth.Project.FileTree

/-!
# File systems

A file tree with the directory in which commands work. This is all that they see and change.
-/

namespace CodeHealth

structure FileSystem where
  root : FileTree
  /-- The components that lead to the directory from which relative paths start. -/
  workingDirectory : List Text
  /-- What the system says if it fails to look up a path that leads to nothing, as where a name is
  too long. -/
  refusal? : Path → Option Text

namespace FileSystem

/-- Commands work in the root, and every path is looked up. -/
def ofTree (root : FileTree) : FileSystem :=
  ⟨root, [], fun _ => none⟩

/-- The components that lead from the root to a path. -/
def place (fs : FileSystem) (p : Path) : List Text :=
  if p.root.isEmpty then fs.workingDirectory ++ p.parts else p.parts

/-- What a path leads to. -/
def find? (fs : FileSystem) (p : Path) : Option FileTree :=
  fs.root.follow [] (fs.place p)

def write (fs : FileSystem) (p : Path) (content : Text.Bytes) : FileSystem × FileTree.Attempt :=
  let (root, attempt) := fs.root.write (fs.place p) content
  ({ fs with root }, attempt)

end FileSystem

end CodeHealth
