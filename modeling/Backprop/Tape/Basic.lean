import Backprop.Failure
import Backprop.Scalar

namespace Backprop

abbrev Handle := Nat

inductive Op (α : Type)
  | constant
  | parameter (id : Nat)
  | sum (args : List Handle)
  | mul (left right : Handle)
  | activate (activation : Activation) (arg : Handle)
  | squaredError (prediction : Handle) (expected : α)
  | mean (args : List Handle)
  deriving DecidableEq

/-- The entries that an operation reads, once for each time it does. -/
def Op.operands {α : Type} : Op α → List Handle
  | .constant | .parameter _ => []
  | .sum args | .mean args => args
  | .mul left right => [left, right]
  | .activate _ arg => [arg]
  | .squaredError prediction _ => [prediction]

structure Entry (α : Type) where
  op : Op α
  value : α
  deriving DecidableEq

/-- Scalar operations with their results. Each refers to earlier ones only, so that walking the tape
backwards meets every use of a value before the value. -/
structure Tape (α : Type) where
  entries : Array (Entry α)
  deriving DecidableEq

namespace Tape

variable {α : Type}

def empty : Tape α :=
  ⟨#[]⟩

def size (t : Tape α) : Nat :=
  t.entries.size

def value? (t : Tape α) (h : Handle) : Option α :=
  t.entries[h]?.map (·.value)

def value (t : Tape α) (h : Handle) : Except (Failure α) α :=
  match t.value? h with
  | some x => .ok x
  | none => .error (.breach .handle)

def push (t : Tape α) (op : Op α) (value : α) : Handle × Tape α :=
  (t.size, ⟨t.entries.push ⟨op, value⟩⟩)

def constant (t : Tape α) (x : α) : Handle × Tape α :=
  t.push .constant x

def parameter (t : Tape α) (id : Nat) (x : α) : Handle × Tape α :=
  t.push (.parameter id) x

variable [Scalar α]

def sum (t : Tape α) (args : List Handle) : Except (Failure α) (Handle × Tape α) := do
  let xs ← args.mapM t.value
  return t.push (.sum args) (Scalar.sum xs)

def mul (t : Tape α) (left right : Handle) : Except (Failure α) (Handle × Tape α) := do
  let x ← t.value left
  let y ← t.value right
  return t.push (.mul left right) (x * y)

def activate (t : Tape α) (activation : Activation) (arg : Handle) :
    Except (Failure α) (Handle × Tape α) := do
  let x ← t.value arg
  return t.push (.activate activation arg) (Scalar.activate activation x)

def squaredError (t : Tape α) (prediction : Handle) (expected : α) :
    Except (Failure α) (Handle × Tape α) := do
  let x ← t.value prediction
  let diff := x - expected
  return t.push (.squaredError prediction expected) (diff * diff)

def mean (t : Tape α) (args : List Handle) : Except (Failure α) (Handle × Tape α) := do
  let xs ← args.mapM t.value
  return t.push (.mean args) (Scalar.mean xs)

end Tape

end Backprop
