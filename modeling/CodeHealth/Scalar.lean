/-!
# Scalars

The arithmetic that ratios and similarities are computed and compared in. Reviews run on `Float`;
on `Rat` the same definitions are exact.
-/

namespace CodeHealth

class Scalar (α : Type) where
  ofNat : Nat → α
  sub : α → α → α
  mul : α → α → α
  div : α → α → α
  lt : α → α → Bool
  le : α → α → Bool

instance : Scalar Float where
  ofNat := Float.ofNat
  sub := Float.sub
  mul := Float.mul
  div := Float.div
  lt a b := decide (a < b)
  le a b := decide (a ≤ b)

instance : Scalar Rat where
  ofNat n := n
  sub a b := a - b
  mul a b := a * b
  div a b := a / b
  lt a b := decide (a < b)
  le a b := decide (a ≤ b)

/-- Outside the interval from zero to one. What compares with nothing is not outside. -/
def Scalar.outsideUnit {α : Type} [Scalar α] (x : α) : Bool :=
  lt x (ofNat 0) || lt (ofNat 1) x

end CodeHealth
