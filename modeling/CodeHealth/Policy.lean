import CodeHealth.CodeUnit
import CodeHealth.Concern
import CodeHealth.Coupling

/-!
# Policies

A policy judges what cannot be measured: the concerns of a unit, whether it can be tested by itself,
and whether it has effects. A taxonomy judges by the text of a unit alone.
-/

namespace CodeHealth

/-- What policies of a type say about a unit. -/
class Policy (π : Type) where
  concerns : π → CodeUnit → List Text
  isTestable : π → CodeUnit → Bool
  hasSideEffects : π → CodeUnit → Bool

instance : Policy Taxonomy where
  concerns x u := x.concerns u.text
  isTestable _ u := Coupling.isTestable u.text
  hasSideEffects _ u := Coupling.hasSideEffects u.text

end CodeHealth
