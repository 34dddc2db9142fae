import Backprop.Evaluator
import Backprop.Tape.Backward

namespace Backprop

variable {α : Type} [Scalar α]

def findNonFinite? (xs : List α) : Option α :=
  xs.find? fun x => !Scalar.isFinite x

def Tape.valuesFrom (t : Tape α) (start : Nat) : List α :=
  (t.entries.extract start t.size).toList.map (·.value)

namespace Evaluator

/-- Records one row and its squared error. Every value on the way must be finite, those included
that an activation brings back into range. -/
def recordLoss (ev : Evaluator α) (store : ParameterStore α) (epoch number : Nat) (row : Row α)
    (tape : Tape α) : Except (Failure α) (Handle × Tape α) := do
  let start := tape.size
  let recorded ← ev.record store tape row
  let (loss, tape) ← recorded.tape.squaredError recorded.prediction row.expected
  match findNonFinite? (tape.valuesFrom start) with
  | some x => throw (.nonFinite epoch (some number) .forward x)
  | none => return (loss, tape)

def recordLosses (ev : Evaluator α) (store : ParameterStore α) (epoch : Nat) :
    Nat → List (Row α) → Tape α → Except (Failure α) (List Handle × Tape α)
  | _, [], tape => .ok ([], tape)
  | number, row :: rows, tape => do
    let (loss, tape) ← ev.recordLoss store epoch number row tape
    let (losses, tape) ← ev.recordLosses store epoch (number + 1) rows tape
    return (loss :: losses, tape)

def recordEpoch (ev : Evaluator α) (store : ParameterStore α) (rows : List (Row α)) (epoch : Nat) :
    Except (Failure α) (α × Handle × Tape α) := do
  let (losses, tape) ← ev.recordLosses store epoch 0 rows .empty
  let (root, tape) ← tape.mean losses
  let loss ← tape.value root
  if Scalar.isFinite loss then return (loss, root, tape)
  else throw (.nonFinite epoch none .forward loss)

end Evaluator

def ParameterStore.backpropagate (store : ParameterStore α) (tape : Tape α) (root : Handle)
    (epoch : Nat) : Except (Failure α) Unit × ParameterStore α :=
  let cleared := store.zeroGrad
  match tape.backward root with
  | .error failure => (.error failure, cleared)
  | .ok adjoints =>
    match cleared.addGrads (tape.parameterAdjoints adjoints) with
    | (.error failure, store) => (.error failure, store)
    | (.ok (), store) =>
      match findNonFinite? store.grads with
      | some x => (.error (.nonFinite epoch none .backward x), store)
      | none => (.ok (), store)

/-- The mean squared error over the rows and, in the store, its gradient. -/
def Evaluator.accumulateGradients (ev : Evaluator α) (store : ParameterStore α)
    (rows : List (Row α)) (epoch : Nat) : Except (Failure α) α × ParameterStore α :=
  match ev.recordEpoch store rows epoch with
  | .error failure => (.error failure, store)
  | .ok (loss, root, tape) =>
    match store.backpropagate tape root epoch with
    | (.error failure, store) => (.error failure, store)
    | (.ok (), store) => (.ok loss, store)

end Backprop
