import CodeHealth.Ignore.Pattern

/-!
# Ignore rules of a project

The lines of nested ignore files are moved to the root of the project and make one list of
patterns. Directories of version control and of installed packages are always ignored.
-/

namespace CodeHealth.Ignore

/-- Names of directories that are never looked into. -/
def vendoredNames : List Text :=
  [".git", "node_modules"].map String.toList

/-- The line of an ignore file in the directory `base` as a line for the root of the project. -/
def rebase (base line : Text) : Text :=
  if base.isEmpty || line.isEmpty || line.trimLeft.head? == some '#' ||
      ['\\', '!'].isPrefixOf line || ['\\', '#'].isPrefixOf line then line
  else
    let negated := line.head? == some '!'
    let pattern := if negated then line.drop 1 else line
    let anchored := pattern.head? == some '/'
    let pattern := if anchored then pattern.drop 1 else pattern
    (if negated then ['!'] else []) ++ (if anchored then ['/'] else []) ++ base ++
      if pattern.isEmpty then [] else '/' :: pattern

/-- The patterns of lines, in order. -/
def patterns : List Text → Except PatternFault (List Pattern)
  | [] => .ok []
  | line :: rest => do
    let p ← Pattern.parse line
    let ps ← patterns rest
    return p.toList ++ ps

def stripSlashes (t : Text) : Text :=
  ((t.dropWhile (· == '/')).reverse.dropWhile (· == '/')).reverse

/-- The last component of a path. -/
def lastComponent (t : Text) : Text :=
  (t.reverse.takeWhile (· != '/')).reverse

/-- Whether a path of the project is ignored. A directory is ignored if it is so with or without a
slash behind its name. -/
def ignores (ps : List Pattern) (path : Text) (isDirectory : Bool) : Bool :=
  let p := stripSlashes path
  if p.isEmpty then false
  else if isDirectory && vendoredNames.contains (lastComponent p) then true
  else verdict ps p == some true || (isDirectory && verdict ps (p ++ ['/']) == some true)

end CodeHealth.Ignore
