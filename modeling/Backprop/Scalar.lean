namespace Backprop

inductive Activation
  | linear
  | sigmoid
  | relu
  | tanh
  deriving DecidableEq

def Activation.name : Activation → String
  | .linear => "linear"
  | .sigmoid => "sigmoid"
  | .relu => "relu"
  | .tanh => "tanh"

/-- Case is ignored, and no name at all means `linear`. All names are ASCII and no other letter
has one of theirs as its lower case, so folding ASCII is enough. -/
def Activation.ofName? (name : String) : Option Activation :=
  match name.toLower with
  | "" | "linear" => some .linear
  | "sigmoid" => some .sigmoid
  | "relu" => some .relu
  | "tanh" => some .tanh
  | _ => none

/-- The arithmetic that networks are computed in. No laws are assumed of it. -/
class Scalar (α : Type) extends Zero α, One α, NatCast α, Add α, Sub α, Mul α, Div α where
  sumStart : α
  isFinite : α → Bool
  isNegative : α → Bool
  activate : Activation → α → α
  /-- The derivative of an activation at an input, given the output there. -/
  slope : Activation → α → α → α

class OrderedScalar (α : Type) extends Scalar α where
  abs : α → α
  larger : α → α → α
  exceeds : α → α → Bool
  thousandth : α

variable {α : Type} [Scalar α]

def Scalar.sum (xs : List α) : α :=
  xs.foldl (· + ·) sumStart

def Scalar.mean (xs : List α) : α :=
  if xs.isEmpty then 0 else sum xs / (xs.length : α)

/-- Negative zero is the sum of nothing: added to any double it gives back that double. -/
instance : Scalar Float where
  zero := 0.0
  one := 1.0
  natCast := Float.ofNat
  sumStart := -0.0
  isFinite x := x.isFinite
  isNegative x := x < 0.0
  activate
    | .linear, x => x
    | .sigmoid, x => 1.0 / (1.0 + (-x).exp)
    | .relu, x => if x > 0.0 then x else 0.0
    | .tanh, x => x.tanh
  slope
    | .linear, _, _ => 1.0
    | .sigmoid, _, y => y * (1.0 - y)
    | .relu, x, _ => if x > 0.0 then 1.0 else 0.0
    | .tanh, _, y => 1.0 - y * y

/-- `larger` passes over a NaN where it can. -/
instance : OrderedScalar Float where
  abs x := x.abs
  larger x y := if x.isNaN then y else if y.isNaN then x else if x < y then y else x
  exceeds x y := x > y
  thousandth := 1e-3

end Backprop
