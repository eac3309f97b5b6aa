import CodeHealth.Finding
import CodeHealth.Text.Lines

/-!
# Findings in their files
-/

namespace CodeHealth

/-- A finding with the file it is about and its lines there. -/
structure Located where
  file : Text
  finding : Finding
  startLine : Nat
  endLine : Nat
  deriving DecidableEq, Repr

def Finding.locate (file text : Text) (f : Finding) : Located where
  file := file
  finding := f
  startLine := text.lineAt f.start
  endLine := text.lineAt f.stop

namespace Report

/-- What a report says about a finding, as plain texts and numbers. -/
structure Entry where
  file : Text
  rule : Text
  message : Text
  severity : Text
  startOffset : Int
  endOffset : Int
  startLine : Int
  endLine : Int
  deriving DecidableEq, Repr

def Entry.ofLocated (f : Located) : Entry where
  file := f.file
  rule := f.finding.violation.rule.code.toList
  message := f.finding.violation.message.toList
  severity := f.finding.severity.name.toList
  startOffset := f.finding.start
  endOffset := f.finding.stop
  startLine := f.startLine
  endLine := f.endLine

end Report

end CodeHealth
