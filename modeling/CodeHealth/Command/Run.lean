import CodeHealth.Command.Help
import CodeHealth.Project.Discovery
import CodeHealth.Report.Console
import CodeHealth.Report.Json
import CodeHealth.Reviewer

/-!
# Commands

`analyze` reviews a file or all sources of a directory; `unit` reviews the unit on a line. A command
sees a file system and a console, and gives an exit code, what it writes, and the files it leaves.
-/

namespace CodeHealth.Command

/-- What a command leaves behind. -/
structure Outcome where
  exitCode : Nat
  stdout : Text
  stderr : Text
  files : FileSystem

/-- What a run does not answer with an outcome. -/
inductive Fault
  | pattern (e : Ignore.PatternFault)
  | console (e : Report.ConsoleFault)
  | lookup (message : Text)
  | nullCharacter
  deriving DecidableEq, Repr

def Fault.message : Fault → String
  | .pattern e => e.message
  | .console e => String.ofList e.message
  | .lookup message => String.ofList message
  | .nullCharacter => "embedded null byte"

/-- A command that fails writes a message and changes nothing. -/
def failure (files : FileSystem) (message : String) : Outcome :=
  ⟨2, [], message.toList ++ ['\n'], files⟩

/-- A command line that is not run shows the help that it asks for. What it says of a wrong usage is
left out. -/
def Stop.outcome (files : FileSystem) : Stop → Outcome
  | .help page => ⟨2, page.text, [], files⟩
  | .fault => ⟨2, [], [], files⟩

/-- The error of a file as one line. -/
def errorLine (e : FileError) : Text :=
  "analyzer_error: AnalyzerError(file_path=".toList ++ e.file.quoted ++ ", message=".toList ++
    e.message.quoted ++ [')', '\n']

/-- The findings and errors of one source. -/
def reviewSource (r : Reviewer Float) (label : Text) (language : Language) (tree : FileTree) :
    List Located × List FileError :=
  match tree.textOf label with
  | .error e => ([], [⟨label, e.message.toList⟩])
  | .ok t =>
    let (findings, errors) := r.reviewFile t (some language.name.toList) label
    (findings.map (Finding.locate label t), errors)

/-- The name under which reports show a source, given by its components below the path asked for:
the path itself if that is the source. -/
def labelOf (path : Path) (parts : List Text) : Text :=
  if parts.isEmpty then path.toText else Path.joinParts parts

/-- The findings and errors of the sources below a path. -/
def reviewSources (r : Reviewer Float) (files : FileSystem) (path : Path)
    (sources : List (List Text)) : List Located × List FileError :=
  let results := sources.map fun parts =>
    let source := path.append parts
    match files.find? source, Language.ofFileName? source.name with
    | some tree, some language => reviewSource r (labelOf path parts) language tree
    | _, _ => ([], [])
  (results.flatMap Prod.fst, results.flatMap Prod.snd)

def report (console : Report.Console) (format : Format) (findings : List Located)
    (errors : List FileError) : Except Report.ConsoleFault Text :=
  match format with
  | .json => .ok (Report.json findings errors ++ ['\n'])
  | .table => Report.table console findings

/-- Shows a report and ends with an exit code. -/
def display (console : Report.Console) (files : FileSystem) (format : Format) (code : Nat)
    (findings : List Located) (errors : List FileError) : Except Fault Outcome :=
  match report console format findings errors with
  | .ok shown => .ok ⟨code, shown, errors.flatMap errorLine, files⟩
  | .error e => .error (.console e)

/-- The file that a report goes to, if it is not shown. -/
def AnalyzeArguments.reportFile? (a : AnalyzeArguments) : Option Text :=
  match a.format, a.output with
  | .json, some (c :: cs) => some (c :: cs)
  | _, _ => none

/-- Shows a report, or writes it to its file. -/
def deliver (console : Report.Console) (files : FileSystem) (a : AnalyzeArguments)
    (findings : List Located) (errors : List FileError) : Except Fault Outcome :=
  let code := if a.strict && !findings.isEmpty then 1 else 0
  let stderr := errors.flatMap errorLine
  match a.reportFile? with
  | none => display console files a.format code findings errors
  | some output =>
    match files.write (Path.ofText output) (Text.encode (Report.json findings errors)) with
    | (files, .written) => .ok ⟨code, [], stderr, files⟩
    | (files, .blocked) =>
      let message := "Failed to write JSON output file: ".toList ++ output ++ ['\n']
      .ok ⟨2, [], stderr ++ message, files⟩
    | (_, .invalid) => .error .nullCharacter

def analyze (console : Report.Console) (r : Reviewer Float) (files : FileSystem)
    (a : AnalyzeArguments) : Except Fault Outcome :=
  let path := Path.ofText a.path
  match Project.sources files path with
  | .error (.pattern e) => .error (.pattern e)
  | .error (.unreadable e) =>
    .ok (failure files s!"Failed to read .gitignore files: {e.message}")
  | .error e => .ok (failure files e.message)
  | .ok sources =>
    let (findings, errors) := reviewSources r files path sources
    deliver console files a findings errors

/-- Why a unit cannot be reviewed. -/
inductive UnitFault
  | notAFile (path : Text)
  | refused (message : Text)
  | unsupported (path : Text)
  | unreadable (path : Text)
  | line (fault : Text.LineFault)
  | lineOrder (line endLine : Int)
  deriving DecidableEq, Repr

def UnitFault.message : UnitFault → String
  | .notAFile p => s!"Path is not a file: {String.ofList p}"
  | .refused message => String.ofList message
  | .unsupported p => s!"Unsupported source file type: {String.ofList p}"
  | .unreadable p => s!"Failed to read source file: {String.ofList p}"
  | .line e => e.message
  | .lineOrder n m => s!"End line {m} is before line {n}"

/-- A place in a source: the text, its language, an offset, and the end of a range. -/
structure Place where
  text : Text
  language : Language
  offset : Nat
  stop : Option Nat

/-- Finds the lines asked for. -/
def findPlace (files : FileSystem) (a : UnitArguments) : Except UnitFault Place := do
  let path := Path.ofText a.path
  let shown := path.toText
  let tree ← match files.find? path with
    | some (.file bs) => pure (FileTree.file bs)
    | some (.directory _) => .error (.notAFile shown)
    | none => .error (((files.refusal? path).map UnitFault.refused).getD (.notAFile shown))
  let language ← match Language.ofFileName? path.name with
    | some l => pure l
    | none => .error (.unsupported shown)
  let text ← (tree.textOf shown).mapError fun _ => UnitFault.unreadable shown
  let offset ← (text.lineOffset a.line).mapError UnitFault.line
  match a.endLine with
  | none => return ⟨text, language, offset, none⟩
  | some m =>
    if m < a.line then .error (.lineOrder a.line m)
    else
      let stop ← (text.lineEndOffset m).mapError UnitFault.line
      return ⟨text, language, offset, some stop⟩

def reviewPlace (r : Reviewer Float) (label : Text) (p : Place) : List Finding × List FileError :=
  let language := some p.language.name.toList
  match p.stop with
  | none => (r.reviewAt p.text language p.offset, [])
  | some stop => r.reviewRange p.text language p.offset stop label

/-- Reviews the unit on a line. Unlike the other faults, that of a path which is not looked up is
passed on. -/
def unit (console : Report.Console) (r : Reviewer Float) (files : FileSystem) (a : UnitArguments) :
    Except Fault Outcome :=
  match findPlace files a with
  | .error (.refused message) => .error (.lookup message)
  | .error e => .ok (failure files e.message)
  | .ok p =>
    let label := (Path.ofText a.path).toText
    let (findings, errors) := reviewPlace r label p
    display console files a.format 0 (findings.map (Finding.locate label p.text)) errors

/-- The reviewer that arguments ask for. -/
def reviewer (a : ReviewArguments) : Except String (Reviewer Float) := do
  let thresholds ← a.thresholds.validate.mapError ThresholdFault.message
  let severity ← (Severity.parse a.severity).mapError SeverityFault.message
  return { thresholds, severity, taxonomy := Taxonomy.standard }

def Arguments.review : Arguments → ReviewArguments
  | .analyze a => a.review
  | .unit a => a.review

/-- Runs a command line. -/
def run (console : Report.Console) (files : FileSystem) (words : List Text) :
    Except Fault Outcome :=
  match Arguments.parse words with
  | .error stop => .ok (stop.outcome files)
  | .ok args =>
    match reviewer args.review with
    | .error message => .ok (failure files s!"Invalid configuration: {message}")
    | .ok r =>
      match args with
      | .analyze a => analyze console r files a
      | .unit a => unit console r files a

end CodeHealth.Command
