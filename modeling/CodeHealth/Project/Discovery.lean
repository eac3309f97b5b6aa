import CodeHealth.Ignore.Rules
import CodeHealth.Project.FileSystem
import CodeHealth.Source.Units

/-!
# Sources of a project

The sources below a directory are the files with a known suffix that no ignore rule rules out,
neither themselves nor by a directory above them.
-/

namespace CodeHealth

/-- The languages by the suffix of a file name. -/
def languageSuffixes : List (Text × Language) :=
  [(".ts", .typescript), (".mts", .typescript), (".cts", .typescript), (".tsx", .typescriptreact),
   (".js", .javascript), (".mjs", .javascript), (".cjs", .javascript),
   (".jsx", .javascriptreact)].map fun (s, l) => (String.toList s, l)

def Language.ofFileName? (name : Text) : Option Language :=
  (languageSuffixes.find? fun (s, _) => s == (suffixOf name).lower).map Prod.snd

namespace Project

/-- Why the sources of a project cannot be told. -/
inductive DiscoveryFault
  | missing (path : Text)
  | unsupported (path : Text)
  | unreadable (fault : ReadFault)
  | pattern (fault : Ignore.PatternFault)
  deriving DecidableEq, Repr

def DiscoveryFault.message : DiscoveryFault → String
  | .missing p => s!"Path does not exist: {String.ofList p}"
  | .unsupported p => s!"Unsupported source file type: {String.ofList p}"
  | .unreadable e => e.message
  | .pattern e => e.message

def languageOf (p : Path) : Except DiscoveryFault Language :=
  match Language.ofFileName? p.name with
  | some l => .ok l
  | none => .error (.unsupported p.toText)

def ignoreFileName : Text := ".gitignore".toList

mutual

/-- All places below a tree, with the components that lead to them. -/
def places (above : List Text) : FileTree → List (List Text × FileTree)
  | .file _ => []
  | .directory es => placesAll above es

def placesAll (above : List Text) : List (Text × FileTree) → List (List Text × FileTree)
  | [] => []
  | (name, t) :: rest =>
    (above ++ [name], t) :: (places (above ++ [name]) t ++ placesAll above rest)

end

/-- The ignore files of a project outside vendored directories, in the order of their paths. -/
def ignoreFiles (t : FileTree) : List (List Text × FileTree) :=
  let found := (places [] t).filter fun (parts, _) =>
    parts.getLast? == some ignoreFileName &&
      !parts.dropLast.any fun p => Ignore.vendoredNames.contains p
  found.mergeSort fun a b => partsLe a.1 b.1

/-- The lines of one ignore file as lines for the root of the project. -/
def ignoreLines (root : Path) (parts : List Text) (t : FileTree) :
    Except ReadFault (List Text) := do
  let content ← t.textOf (root.append parts).toText
  return content.boundaryLines.map (Ignore.rebase (Path.joinParts parts.dropLast))

def ignorePatterns (root : Path) (t : FileTree) : Except DiscoveryFault (List Ignore.Pattern) := do
  let lines ← ((ignoreFiles t).mapM fun (parts, f) => ignoreLines root parts f).mapError
    DiscoveryFault.unreadable
  (Ignore.patterns lines.flatten).mapError .pattern

/-- A directory found and not yet looked into, with the components that lead to it. -/
structure Pending where
  above : List Text
  entries : List (Text × FileTree)

namespace Pending

/-- The entries that no rule rules out. -/
def kept (ps : List Ignore.Pattern) (d : Pending) : List (Text × FileTree) :=
  d.entries.filter fun (name, t) =>
    !Ignore.ignores ps (Path.joinParts (d.above ++ [name])) t.isDirectory

/-- The files among the entries that have a known suffix, as components below the root. -/
def sources (ps : List Ignore.Pattern) (d : Pending) : List (List Text) :=
  (d.kept ps).filterMap fun (name, t) =>
    if !t.isDirectory && (Language.ofFileName? name).isSome then some (d.above ++ [name]) else none

/-- The directories among the entries. -/
def directories (ps : List Ignore.Pattern) (d : Pending) : List Pending :=
  (d.kept ps).filterMap fun (name, t) =>
    match t with
    | .file _ => none
    | .directory es => some ⟨d.above ++ [name], es⟩

end Pending

/-- Looks into directories in the order in which they are found, at most `n` of them. -/
def walk (ps : List Ignore.Pattern) : Nat → List Pending → List (List Text)
  | 0, _ => []
  | _ + 1, [] => []
  | n + 1, d :: queue => d.sources ps ++ walk ps n (queue ++ d.directories ps)

/-- The sources in a directory, as components below it. -/
def sourcesIn (ps : List Ignore.Pattern) (dir : FileTree) : List (List Text) :=
  walk ps dir.directoryCount [⟨[], dir.entries⟩]

/-- The sources that a path stands for, as components below it: those of a directory, or the file
itself. -/
def sources (fs : FileSystem) (p : Path) : Except DiscoveryFault (List (List Text)) :=
  match fs.find? p with
  | none =>
    match fs.refusal? p with
    | some message => .error (.unreadable (.refused message))
    | none => .error (.missing p.toText)
  | some (.file _) => (languageOf p).map fun _ => [[]]
  | some dir => do
    let ps ← ignorePatterns p dir
    return (sourcesIn ps dir).mergeSort partsLe

/-- The paths of the sources. -/
def sourcePaths (fs : FileSystem) (p : Path) : Except DiscoveryFault (List Path) :=
  (sources fs p).map fun found => found.map p.append

end Project

end CodeHealth
