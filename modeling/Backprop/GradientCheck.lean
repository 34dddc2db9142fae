import Backprop.Training.Epoch

namespace Backprop

inductive GradientCheckFailure (α : Type)
  | mismatch (parameter : String) (analytical numerical difference : α)
  | notFinite (parameter : String) (lossPlus lossMinus : α)
  | core (failure : Failure α)

def GradientCheckFailure.message : GradientCheckFailure Float → String
  | .mismatch parameter analytical numerical difference =>
    s!"Gradient check failed for parameter '{parameter}': analytical grad " ++
      s!"{Decimal.plain analytical} != numerical grad {Decimal.plain numerical}. " ++
      s!"Difference: {Decimal.plain difference}"
  | .notFinite parameter lossPlus lossMinus =>
    s!"Numerical gradient is NaN or infinite for parameter '{parameter}'. " ++
      s!"Loss+: {Decimal.plain lossPlus}, Loss-: {Decimal.plain lossMinus}"
  | .core failure => "Training core error during gradient check: " ++ failure.message

namespace Evaluator

variable {α : Type}

section

variable [Scalar α]

def addErrors (ev : Evaluator α) (store : ParameterStore α) :
    α → List (Row α) → Except (Failure α) α
  | total, [] => .ok total
  | total, row :: rows => do
    let e ← ev.evaluate store row
    let diff := e.prediction - row.expected
    ev.addErrors store (total + diff * diff) rows

/-- The mean squared error over the rows, each evaluated on a tape of its own. -/
def epochLoss (ev : Evaluator α) (store : ParameterStore α) (rows : List (Row α)) :
    Except (Failure α) α :=
  if rows.isEmpty then .ok 0
  else do
    let total ← ev.addErrors store 0 rows
    return total / (rows.length : α)

def lossAt (ev : Evaluator α) (store : ParameterStore α) (rows : List (Row α)) (id : Nat) (x : α) :
    Except (Failure α) (α × ParameterStore α) := do
  let store ← store.setValue id x
  return (← ev.epochLoss store rows, store)

end

variable [OrderedScalar α]

def stepSize (epsilon value : α) : α :=
  OrderedScalar.larger epsilon (OrderedScalar.abs value * OrderedScalar.thousandth)

/-- Compares one gradient with the central difference of the loss. The parameter is moved up, then
down, and put back where it was. -/
def checkParameter (ev : Evaluator α) (store : ParameterStore α) (rows : List (Row α))
    (epsilon tolerance : α) (id : Nat) (analytical : α) :
    Except (GradientCheckFailure α) (ParameterStore α) := do
  let core {β : Type} (r : Except (Failure α) β) := r.mapError GradientCheckFailure.core
  let p ← core (store.get id)
  let some node := ev.graph.node? p.node | throw (.core (.breach .node))
  let step := stepSize epsilon p.value
  let (lossPlus, store) ← core (ev.lossAt store rows id (p.value + step))
  let (lossMinus, store) ← core (ev.lossAt store rows id (p.value - step))
  let store ← core (store.setValue id p.value)
  let numerical := (lossPlus - lossMinus) / ((1 + 1) * step)
  if !Scalar.isFinite numerical then throw (.notFinite node.id lossPlus lossMinus)
  let difference := OrderedScalar.abs (analytical - numerical)
  let allowed := tolerance * OrderedScalar.larger (OrderedScalar.abs numerical) 1
  if OrderedScalar.exceeds difference allowed then
    throw (.mismatch node.id analytical numerical difference)
  return store

def checkParameters (ev : Evaluator α) (store : ParameterStore α) (rows : List (Row α))
    (epsilon tolerance : α) : Nat → List α → Except (GradientCheckFailure α) Unit
  | _, [] => .ok ()
  | id, analytical :: rest => do
    let store ← ev.checkParameter store rows epsilon tolerance id analytical
    ev.checkParameters store rows epsilon tolerance (id + 1) rest

/-- A parameter passes if its gradient differs from the central difference by no more than
`tolerance`, times the size of the difference if that is above 1. -/
def checkGradients (ev : Evaluator α) (store : ParameterStore α) (rows : List (Row α))
    (epsilon tolerance : α) : Except (GradientCheckFailure α) Unit :=
  match ev.accumulateGradients store rows 0 with
  | (.error failure, _) => .error (.core failure)
  | (.ok _, differentiated) =>
    ev.checkParameters store rows epsilon tolerance 0 differentiated.grads

end Evaluator

end Backprop
