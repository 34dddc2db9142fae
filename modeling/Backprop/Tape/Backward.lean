import Backprop.Parameter
import Backprop.Tape.Basic

namespace Backprop

namespace Tape

variable {α : Type} [Scalar α]

/-- What an entry with the given adjoint adds to those of its operands, one item for each time it
reads one. -/
def contributions (t : Tape α) (entry : Entry α) (adjoint : α) :
    Except (Failure α) (List (Handle × α)) :=
  match entry.op with
  | .constant | .parameter _ => .ok []
  | .sum args => .ok (args.map (·, adjoint))
  | .mul left right => do
    let x ← t.value left
    let y ← t.value right
    return [(left, adjoint * y), (right, adjoint * x)]
  | .activate activation arg => do
    let x ← t.value arg
    return [(arg, adjoint * Scalar.slope activation x entry.value)]
  | .squaredError prediction expected => do
    let x ← t.value prediction
    return [(prediction, adjoint * ((1 + 1) * (x - expected)))]
  | .mean args => .ok (args.map (·, adjoint / (args.length : α)))

def addAdjoint (adjoints : Array α) (item : Handle × α) : Except (Failure α) (Array α) :=
  if item.1 < adjoints.size then .ok (adjoints.modify item.1 (· + item.2))
  else .error (.breach .handle)

def propagate (t : Tape α) (adjoints : Array α) (h : Handle) : Except (Failure α) (Array α) :=
  match t.entries[h]?, adjoints[h]? with
  | some entry, some adjoint => do (← t.contributions entry adjoint).foldlM addAdjoint adjoints
  | _, _ => .error (.breach .handle)

def sweep (t : Tape α) : Handle → Array α → Except (Failure α) (Array α)
  | 0, adjoints => .ok adjoints
  | h + 1, adjoints => do t.sweep h (← t.propagate adjoints h)

def backward (t : Tape α) (root : Handle) : Except (Failure α) (Array α) :=
  if root < t.size then t.sweep (root + 1) ((Array.replicate root 0).push 1)
  else .error (.outOfBounds root t.size)

def adjointOf (adjoints : Array α) (h : Handle) : α :=
  adjoints[h]?.getD 0

/-- The parameters that were read up to the root, with their adjoints, in the order of the tape. -/
def parameterAdjoints (t : Tape α) (adjoints : Array α) : List (Nat × α) :=
  (t.entries.toList.zip adjoints.toList).filterMap fun (entry, adjoint) =>
    match entry.op with
    | .parameter id => some (id, adjoint)
    | _ => none

end Tape

/-- Adds to gradients in turn; a parameter that is not in the store ends it, and what was added
before stays. -/
def ParameterStore.addGrads {α : Type} [Scalar α] (s : ParameterStore α) :
    List (Nat × α) → Except (Failure α) Unit × ParameterStore α
  | [] => (.ok (), s)
  | (id, x) :: rest =>
    match s.addGrad id x with
    | .ok s => s.addGrads rest
    | .error failure => (.error failure, s)

end Backprop
