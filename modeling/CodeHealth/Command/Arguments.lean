import CodeHealth.Text.LowerCase
import CodeHealth.Text.Number
import CodeHealth.Thresholds
import CodeHealth.Severity

/-!
# Arguments

The words of a command line: a command and options, which may be shortened as long as they stay
unique. Of an option that is given twice the last one counts. A command line is not run if it asks
for help or its usage is wrong, whichever comes first.
-/

namespace CodeHealth.Command

inductive Format
  | table | json
  deriving DecidableEq, Repr

/-- The options of all commands. -/
inductive Opt
  | help | path | format | output | strict | line | endLine | severity
  | maxLines | maxComplexity | maxMethods | minReadability | minUniqueRatio | minSimilarity
  deriving DecidableEq, Repr

def Opt.spelling : Opt → Text
  | .help => "--help".toList
  | .path => "--path".toList
  | .format => "--format".toList
  | .output => "--output".toList
  | .strict => "--strict".toList
  | .line => "--line".toList
  | .endLine => "--end-line".toList
  | .severity => "--severity".toList
  | .maxLines => "--max-lines".toList
  | .maxComplexity => "--max-complexity".toList
  | .maxMethods => "--max-methods".toList
  | .minReadability => "--min-readability".toList
  | .minUniqueRatio => "--min-unique-ratio".toList
  | .minSimilarity => "--min-similarity".toList

def Opt.takesValue : Opt → Bool
  | .help | .strict => false
  | _ => true

/-- What both commands know. -/
def reviewOptions : List Opt :=
  [.severity, .maxLines, .maxComplexity, .maxMethods, .minReadability, .minUniqueRatio,
   .minSimilarity]

def analyzeOptions : List Opt :=
  [.help, .path, .format, .output, .strict] ++ reviewOptions

def unitOptions : List Opt :=
  [.help, .path, .line, .endLine, .format] ++ reviewOptions

/-- The pages of the help: one for the program and one for each command. -/
inductive Page
  | program | analyze | unit
  deriving DecidableEq, Repr

/-- The options known where a page is the help. -/
def Page.options : Page → List Opt
  | .program => [.help]
  | .analyze => analyzeOptions
  | .unit => unitOptions

/-- Why a command line is not run. -/
inductive Stop
  | help (page : Page)
  | fault
  deriving DecidableEq, Repr

/-- What a word of the command line is. -/
inductive Word
  | plain
  | option (o : Opt) (value : Option Text)
  | ambiguous
  | unknown
  deriving DecidableEq, Repr

/-- A number below zero, which is no option. -/
def isNegativeNumber : Text → Bool
  | '-' :: rest =>
    let rest := if rest.getLast? == some '\n' then rest.dropLast else rest
    let isDigit := fun c => (Text.digit? c).isSome
    match rest.dropWhile isDigit with
    | [] => !rest.isEmpty
    | '.' :: more => !more.isEmpty && more.all isDigit
    | _ => false
  | _ => false

/-- The part before the first equals sign, and the part behind it if there is one. -/
def splitValue (w : Text) : Text × Option Text :=
  (w.takeWhile (· != '='), if w.any (· == '=') then some ((w.dropWhile (· != '=')).drop 1) else none)

/-- Whether letters behind the short form of help leave it without a value: more short forms may
follow it, and what they end in is not looked at unless it begins like a value. -/
def endsShort : Text → Bool
  | [] => true
  | c :: rest => if c == 'h' then endsShort rest else c != '-' && c != '='

/-- The options that a word can stand for. -/
def candidates (known : List Opt) (w : Text) : List Word :=
  let (stem, value) := splitValue w
  if ['-', '-'].isPrefixOf w then
    (known.filter fun o => stem.isPrefixOf o.spelling).map (.option · value)
  else if ['-', 'h'].isPrefixOf w then
    [.option .help (if endsShort (w.drop 2) then none else some (w.drop 2))]
  else []

/-- Reads a word. An exact option comes first, then one that takes its value behind an equals sign,
then a shortened one; negative numbers and words with spaces are no options. -/
def classify (known : List Opt) (w : Text) : Word :=
  let (stem, value) := splitValue w
  if w.head? != some '-' || w.length == 1 then .plain
  else
    match known.find? (·.spelling == w), value.bind fun _ => known.find? (·.spelling == stem) with
    | some o, _ => .option o none
    | none, some o => .option o value
    | none, none =>
      match candidates known w with
      | [c] => c
      | _ :: _ :: _ => .ambiguous
      | [] => if isNegativeNumber w || w.any (· == ' ') then .plain else .unknown

/-- An option with the value it was given. -/
abbrev Setting := Opt × Text

/-- The last value of an option. -/
def lastValue? (ss : List Setting) (o : Opt) : Option Text :=
  (ss.reverse.find? fun s => s.1 == o).map Prod.snd

/-- The value nearest to a decimal number. -/
def toFloat : Text.Decimal → Float
  | .notANumber => Float.ofBits 0x7FF8000000000000
  | .infinite negative => Float.ofBits (if negative then 0xFFF0000000000000 else 0x7FF0000000000000)
  | .finite negative mantissa exponent =>
    let digits : Int := (Nat.toDigits 10 mantissa).length
    let size : Float :=
      if mantissa == 0 || digits + exponent < -400 then 0
      else if 400 < digits + exponent then Float.ofBits 0x7FF0000000000000
      else Float.ofScientific mantissa (exponent < 0) exponent.natAbs
    if negative then -size else size

def Format.ofName? (t : Text) : Option Format :=
  if t == "table".toList then some .table
  else if t == "json".toList then some .json
  else none

/-- Whether a value has the form that its option asks for. -/
def Opt.accepts (o : Opt) (v : Text) : Bool :=
  match o with
  | .help | .path | .output | .strict => true
  | .format => (Format.ofName? v).isSome
  | .severity => ["info".toList, "warning".toList].contains v
  | .line | .endLine | .maxLines | .maxComplexity | .maxMethods | .minReadability =>
    (Text.int? v).isSome
  | .minUniqueRatio | .minSimilarity => (Text.decimal? v).isSome

/-- The usage is wrong, but what follows can still ask for help. -/
def Stop.later {α : Type} : Except Stop α → Except Stop α
  | .error (.help page) => .error (.help page)
  | _ => .error .fault

/-- Reads the options behind a command, word by word. Behind two dashes nothing is an option. -/
def settingsFrom (page : Page) : List Text → Except Stop (List Setting)
  | [] => .ok []
  | w :: rest =>
    if w == ['-', '-'] then .error .fault
    else
      match classify page.options w with
      | .plain | .unknown => Stop.later (settingsFrom page rest)
      | .ambiguous => .error .fault
      | .option .help none => .error (.help page)
      | .option o (some v) =>
        if o.takesValue && o.accepts v then (settingsFrom page rest).map ((o, v) :: ·)
        else .error .fault
      | .option o none =>
        if o.takesValue then
          match rest with
          | v :: more =>
            if v != ['-', '-'] && classify page.options v == .plain && o.accepts v then
              (settingsFrom page more).map ((o, v) :: ·)
            else .error .fault
          | [] => .error .fault
        else (settingsFrom page rest).map ((o, []) :: ·)

/-- Reads the options behind a command. An ambiguous word is refused before any other is read. -/
def settings (page : Page) (words : List Text) : Except Stop (List Setting) :=
  if (words.takeWhile (· != ['-', '-'])).any fun w => classify page.options w == .ambiguous then
    .error .fault
  else settingsFrom page words

/-- What a review is asked to measure against. -/
structure ReviewArguments where
  severity : Text
  thresholds : Thresholds Float

structure AnalyzeArguments where
  path : Text
  format : Format
  output : Option Text
  strict : Bool
  review : ReviewArguments

structure UnitArguments where
  path : Text
  line : Int
  endLine : Option Int
  format : Format
  review : ReviewArguments

inductive Arguments
  | analyze (a : AnalyzeArguments)
  | unit (a : UnitArguments)

def intOr (ss : List Setting) (o : Opt) (default : Int) : Int :=
  ((lastValue? ss o).bind Text.int?).getD default

def floatOr (ss : List Setting) (o : Opt) (default : Float) : Float :=
  (((lastValue? ss o).bind Text.decimal?).map toFloat).getD default

def formatOf (ss : List Setting) : Format :=
  ((lastValue? ss .format).bind Format.ofName?).getD .table

def reviewArguments (ss : List Setting) : ReviewArguments :=
  let std : Thresholds Float := Thresholds.standard
  { severity := (lastValue? ss .severity).getD "warning".toList
    thresholds :=
      { maxLines := intOr ss .maxLines std.maxLines
        maxComplexity := intOr ss .maxComplexity std.maxComplexity
        maxMethods := intOr ss .maxMethods std.maxMethods
        minReadability := intOr ss .minReadability std.minReadability
        minUniqueRatio := floatOr ss .minUniqueRatio std.minUniqueRatio
        minSimilarity := floatOr ss .minSimilarity std.minSimilarity
        similarityCap := std.similarityCap } }

/-- The value of an option that must be given. -/
def required {α : Type} : Option α → Except Stop α
  | some v => .ok v
  | none => .error .fault

def analyzeArguments (words : List Text) : Except Stop AnalyzeArguments := do
  let ss ← settings .analyze words
  let path ← required (lastValue? ss .path)
  return ⟨path, formatOf ss, lastValue? ss .output, (lastValue? ss .strict).isSome,
    reviewArguments ss⟩

def unitArguments (words : List Text) : Except Stop UnitArguments := do
  let ss ← settings .unit words
  let path ← required (lastValue? ss .path)
  let line ← required ((lastValue? ss .line).bind Text.int?)
  return ⟨path, line, (lastValue? ss .endLine).bind Text.int?, formatOf ss, reviewArguments ss⟩

/-- Reads a command line. Before the command, options other than help are put off. -/
def Arguments.parse : List Text → Except Stop Arguments
  | [] => .error .fault
  | w :: words =>
    if w == ['-', '-'] then .error .fault
    else
      match classify Page.program.options w with
      | .option _ none => .error (.help .program)
      | .option _ (some _) | .ambiguous => .error .fault
      | .unknown => Stop.later (Arguments.parse words)
      | .plain =>
        if w == "analyze".toList then (analyzeArguments words).map .analyze
        else if w == "unit".toList then (unitArguments words).map .unit
        else .error .fault

/-- The arguments of a command line that is run. -/
def Arguments.parse? (words : List Text) : Option Arguments :=
  (parse words).toOption

end CodeHealth.Command
