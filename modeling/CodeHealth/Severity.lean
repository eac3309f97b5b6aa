import CodeHealth.Text.LowerCase
import CodeHealth.Text.Quoted

/-!
# Severities
-/

namespace CodeHealth

inductive Severity
  | info | warning | error
  deriving DecidableEq, Repr

/-- A text that names no severity, or none that callers may ask for. -/
inductive SeverityFault
  | unknown (given : Text)
  | unsupported (given : Text)
  deriving DecidableEq, Repr

def SeverityFault.message : SeverityFault → String
  | .unknown t => s!"{String.ofList t.quoted} is not a valid Severity"
  | .unsupported t => s!"Unsupported severity: {String.ofList t} (expected one of info, warning)"

namespace Severity

def name : Severity → String
  | .info => "info"
  | .warning => "warning"
  | .error => "error"

def ofName (t : Text) : Except SeverityFault Severity :=
  match [info, warning, error].find? fun s => s.name.toList == t with
  | some s => .ok s
  | none => .error (.unknown t)

/-- The severity that a caller asks for: white space around it and case do not matter, and errors
are not for callers to choose. -/
def parse (t : Text) : Except SeverityFault Severity :=
  match [info, warning].find? fun s => s.name.toList == t.trim.lower with
  | some s => .ok s
  | none => .error (.unsupported t)

end Severity

end CodeHealth
