import CodeHealth.Project.Path
import CodeHealth.Report.Located

/-!
# Reports as tables

A report has a heading for each file, under it a table of the findings in the file, and last the
number of all findings. How these look is up to the console that shows them, which can refuse to.
-/

namespace CodeHealth.Report

/-- A part of a report. -/
inductive Part
  | heading (file : Text)
  | rows (findings : List Located)
  | count (n : Nat)

/-- Why a console does not show a part. -/
structure ConsoleFault where
  message : Text
  deriving DecidableEq, Repr

/-- What shows reports. -/
structure Console where
  print : Part → Except ConsoleFault Text

/-- The files that findings are about, in the order of their names. -/
def filesOf (findings : List Located) : List Text :=
  ((findings.map Located.file).eraseDups).mergeSort Text.le

def parts (findings : List Located) : List Part :=
  (filesOf findings).flatMap (fun file =>
    [.heading file, .rows (findings.filter fun f => f.file == file)]) ++ [.count findings.length]

/-- The report as tables. -/
def table (console : Console) (findings : List Located) : Except ConsoleFault Text :=
  ((parts findings).mapM console.print).map List.flatten

end CodeHealth.Report
