import CodeHealth.CodeUnit
import CodeHealth.Digraph

/-!
# References between units

A unit refers to another one if it mentions its name anywhere in its text.
-/

namespace CodeHealth.CodeUnit

/-- The name under which a unit can be referred to. -/
def properName? (u : CodeUnit) : Option Text :=
  match u.name with
  | none | some [] => none
  | some n => some n

/-- Whether `u` mentions the name `n` of another unit. -/
def mentions (u : CodeUnit) (n : Text) : Bool :=
  n != u.display && u.text.contains n

def references (u target : CodeUnit) : Bool :=
  target.properName?.any u.mentions

/-- The names that each unit mentions, under its display name. Of units with the same display name
the last one counts. -/
def referenceGraph (units : List CodeUnit) : Digraph Text :=
  Assoc.ofList (units.map fun u =>
    (u.display, (units.filterMap properName?).filter u.mentions))

end CodeHealth.CodeUnit
