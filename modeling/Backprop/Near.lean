import Backprop.Scalar

namespace Backprop

inductive NearFailure
  | lengths (actual expected : Nat)
  | value (index : Nat)
  deriving DecidableEq

variable {α : Type} [OrderedScalar α]

/-- The first index, counted from the given one, at which two values lie further apart than the
tolerance. -/
def firstApart? (tolerance : α) : Nat → List α → List α → Option Nat
  | i, x :: xs, y :: ys =>
    if OrderedScalar.exceeds (OrderedScalar.abs (x - y)) tolerance then some i
    else firstApart? tolerance (i + 1) xs ys
  | _, _, _ => none

def checkNear (actual expected : List α) (tolerance : α) : Except NearFailure Unit :=
  if actual.length ≠ expected.length then .error (.lengths actual.length expected.length)
  else match firstApart? tolerance 0 actual expected with
    | some i => .error (.value i)
    | none => .ok ()

end Backprop
