import CodeHealth.Duplication
import CodeHealth.Finding
import CodeHealth.Measure
import CodeHealth.Policy
import CodeHealth.Reference
import CodeHealth.Source.Units
import CodeHealth.Text.CodePoint
import CodeHealth.Thresholds

/-!
# Reviews

A reviewer reads documents and judges their units: each unit by itself, then the loops of their
references, then their similarity. Where reading fails, it falls back on coarse signs.
-/

namespace CodeHealth

/-- What reading a document gives. -/
structure Reading where
  units : List CodeUnit
  errors : List FileError
  deriving DecidableEq, Repr

/-- The error for a language that cannot be read. -/
def unknownLanguage (language : Option Text) : Text :=
  let shown := language.getD "None".toList
  "Grammar unavailable for ".toList ++ shown ++ ": ".toList ++ Text.quotedOpt language ++
    " is not a valid LanguageHint".toList

/-- Reads a document in the language named. -/
def readDocument (t : Text) (language : Option Text) (file : Text) : Reading :=
  match language.bind Language.ofName? with
  | some l => ⟨Source.units l.dialect t, []⟩
  | none => ⟨[], [⟨file, unknownLanguage language⟩]⟩

/-- Reads a document given by its code points. What cannot be encoded is not read, in any
language. -/
def readCodePoints (s : List CodePoint) (language : Option Text) (file : Text) : Reading :=
  match CodePoint.text s with
  | .ok t => readDocument t language file
  | .error e => ⟨[], [⟨file, e.message.toList⟩]⟩

structure Reviewer (α : Type) (π : Type := Taxonomy) where
  thresholds : Thresholds α
  severity : Severity
  /-- The policy that units are judged by. -/
  taxonomy : π
  /-- How a document is read, given its text, its language and the name it goes by. -/
  read : Text → Option Text → Text → Reading := readDocument

/-- Documents with more characters than this are large. -/
def largeFileLength : Nat := 1000

/-- The name of a document that has no other. -/
def documentLabel : Text := "<document>".toList

namespace Reviewer

variable {α π : Type} [Scalar α] [Policy π]

def finding (r : Reviewer α π) (start stop : Int) (v : Violation) : Finding :=
  ⟨v, r.severity, start, stop⟩

/-- A violation under a condition. -/
def check (condition : Bool) (v : Violation) : List Violation :=
  if condition then [v] else []

/-- The violations of a single unit, in the order of the rules. -/
def violations (r : Reviewer α π) (u : CodeUnit) : List Violation :=
  let t := r.thresholds
  let m := u.measure
  let score := u.readability
  let concerns := Policy.concerns r.taxonomy u
  check (score < t.minReadability) (.poorReadability score) ++
  check (t.maxLines < m.lines) (.largeUnit u.kind m.lines) ++
  check (t.maxComplexity < m.complexity) (.highComplexity u.kind m.complexity) ++
  check (!u.isFunction && decide (t.maxMethods < m.methods)) (.manyMethods m.methods) ++
  check (1 < concerns.length) (.mixedConcerns u.kind concerns) ++
  check (isRepetitive t.minUniqueRatio u.text) .repetition ++
  check (!Policy.isTestable r.taxonomy u) .untestable ++
  check (Policy.hasSideEffects r.taxonomy u) .sideEffects

def reviewUnit (r : Reviewer α π) (u : CodeUnit) : List Finding :=
  (r.violations u).map (r.finding u.start u.stop)

def comparison (r : Reviewer α π) : Comparison α :=
  ⟨r.thresholds.minSimilarity, r.thresholds.similarityCap⟩

/-- The loops among the references of units, over the whole document. -/
def reviewLoops (r : Reviewer α π) (units : List CodeUnit) (length : Int) : List Finding :=
  (CodeUnit.referenceGraph units).loops.map fun names => r.finding 0 length (.referenceLoop names)

/-- Both sides of a similar pair. -/
def reviewPair (r : Reviewer α π) (p : SimilarPair α) : List Finding :=
  [r.finding p.left.start p.left.stop (.similarTo p.right.display),
   r.finding p.right.start p.right.stop (.similarTo p.left.display)]

def reviewPairs (r : Reviewer α π) (units : List CodeUnit) : List Finding :=
  (r.comparison.pairs (units.filter CodeUnit.isFunction)).flatMap r.reviewPair

/-- All findings about the units of a document of the given length. -/
def reviewUnits (r : Reviewer α π) (units : List CodeUnit) (length : Int) : List Finding :=
  units.flatMap r.reviewUnit ++ r.reviewLoops units length ++ r.reviewPairs units

/-- The findings about a document that could not be read. -/
def coarseFindings (r : Reviewer α π) (t : Text) (errors : List FileError) : List Finding :=
  (check (largeFileLength < t.length) .largeFile).map (r.finding 0 t.length) ++
  errors.map fun e => ⟨.unreadable e.message, .error, 0, 0⟩

/-- The findings about a range of a document that could not be read. -/
def coarseRangeFindings (r : Reviewer α π) (t : Text) (start stop : Int) : List Finding :=
  let part := t.slice start stop
  (check (r.thresholds.maxLines < part.lineCount) .largeRange ++
    check (part.contains "console.".toList) .consoleUse).map (r.finding start stop)

/-- The findings about a document, as far as it can be read. -/
def review (r : Reviewer α π) (t : Text) (language : Option Text) : List Finding :=
  r.reviewUnits (r.read t language documentLabel).units t.length

/-- The findings about a document, coarse ones if it cannot be read. -/
def reviewFile (r : Reviewer α π) (t : Text) (language : Option Text) (file : Text) :
    List Finding × List FileError :=
  let reading := r.read t language file
  if reading.errors.isEmpty then (r.reviewUnits reading.units t.length, [])
  else (r.coarseFindings t reading.errors, reading.errors)

/-- The findings about the unit at an offset. -/
def reviewAt (r : Reviewer α π) (t : Text) (language : Option Text) (offset : Int) : List Finding :=
  match CodeUnit.at? (r.read t language documentLabel).units offset with
  | some u => r.reviewUnit u
  | none => []

/-- The findings about the unit at the start of a range, coarse ones about the range if the
document cannot be read. -/
def reviewRange (r : Reviewer α π) (t : Text) (language : Option Text) (start stop : Int)
    (file : Text) : List Finding × List FileError :=
  let reading := r.read t language file
  if reading.errors.isEmpty then
    match CodeUnit.at? reading.units start with
    | some u => (r.reviewUnit u, [])
    | none => ([], [])
  else (r.coarseRangeFindings t start stop, reading.errors)

end Reviewer

end CodeHealth
