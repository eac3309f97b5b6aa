import CodeHealth.Command.Run
import CodeHealth.Report.Terminal

/-!
# The program

Reads the files that a command line names, runs it on them, and writes what the command leaves. All
decisions are made by `Command.run`.
-/

namespace CodeHealth.Command

/-- The paths that a command line names. -/
def namedPaths (words : List Text) : List Path :=
  match Arguments.parse? words with
  | some (.analyze a) => (a.path :: a.output.toList).map Path.ofText
  | some (.unit a) => [Path.ofText a.path]
  | none => []

def systemPath (parts : List Text) : String :=
  String.ofList ('/' :: Path.joinParts parts)

def putOver (root new : FileTree) (parts : List Text) : FileTree :=
  (FileTree.put? new parts root).getD root

/-- Adds what stands at the end of components, with all that lies below it. -/
partial def loadBelow (root : FileTree) (parts : List Text) : IO FileTree := do
  let place := (← IO.currentDir) / systemPath parts
  if ← place.isDir then
    let entries ← place.readDir
    entries.foldlM (fun t entry => loadBelow t (parts ++ [entry.fileName.toList]))
      (putOver root .empty parts)
  else
    let content ← IO.FS.readBinFile place
    return putOver root (.file content.toList) parts

/-- Adds what lies along components and what they lead to. -/
def loadAlong (root : FileTree) (done : List Text) : List Text → IO FileTree
  | [] => loadBelow root done
  | part :: rest => do
    let next := if part == ['.', '.'] then done.dropLast else done ++ [part]
    let place := (← IO.currentDir) / systemPath next
    if ← place.isDir then loadAlong (putOver root .empty next) next rest
    else if ← place.pathExists then loadBelow root next
    else return root

/-- Reads the paths that a command line names. -/
def loadFiles (words : List Text) : IO FileSystem := do
  let workingDirectory := (Path.ofText (← IO.currentDir).toString.toList).parts
  let files : FileSystem := ⟨.empty, workingDirectory, fun _ => none⟩
  let root ← (namedPaths words).foldlM (fun t p => loadAlong t [] (files.place p)) files.root
  return { files with root }

/-- Writes the report file that a command has left. -/
def saveReport (words : List Text) (files : FileSystem) : IO Unit := do
  if let some (.analyze a) := Arguments.parse? words then
    if let some path := a.reportFile?.map Path.ofText then
      if let some (.file content) := files.find? path then
        IO.FS.createDirAll (String.ofList { path with parts := path.parts.dropLast }.toText)
        IO.FS.writeBinFile (String.ofList path.toText) (ByteArray.mk content.toArray)

end CodeHealth.Command

open CodeHealth in
def main (args : List String) : IO UInt32 := do
  let words := args.map String.toList
  match Command.run Report.terminal (← Command.loadFiles words) words with
  | .error e =>
    IO.eprintln e.message
    return 1
  | .ok outcome =>
    Command.saveReport words outcome.files
    IO.print (String.ofList outcome.stdout)
    IO.eprint (String.ofList outcome.stderr)
    return outcome.exitCode.toUInt32
