import Backprop.Training.Epoch

namespace Backprop

structure TrainingConfig (α : Type) where
  learningRate : α
  epochs : Nat

namespace TrainingConfig

def defaults : TrainingConfig Float :=
  { learningRate := 0.5, epochs := 500 }

/-- The loss is sampled once in so many epochs. -/
def interval {α : Type} (c : TrainingConfig α) : Nat :=
  max 1 (c.epochs / 200)

def samples {α : Type} (c : TrainingConfig α) (epoch : Nat) : Bool :=
  epoch % c.interval = 0 || epoch + 1 = c.epochs

variable {α : Type} [Scalar α]

def validate (c : TrainingConfig α) : Except (Failure α) Unit :=
  if Scalar.isFinite c.learningRate && !Scalar.isNegative c.learningRate then .ok ()
  else .error (.invalidConfig (.learningRate c.learningRate))

end TrainingConfig

/-- Where a trainer stands. A run validates, goes through its epochs and is done, or it fails. -/
inductive Phase (α : Type)
  | validating
  | running (epoch : Nat)
  | done
  | failed (failure : Failure α)

structure Outcome (α : Type) where
  store : ParameterStore α
  history : List α
  epochs : Nat

structure Trainer (α : Type) where
  graph : Graph α
  rows : List (Row α)
  labels : List String
  config : TrainingConfig α
  phase : Phase α := .validating

namespace Trainer

variable {α : Type} [Scalar α]

def validate (t : Trainer α) : Except (Failure α) (ParameterStore α) := do
  t.config.validate
  if t.rows.isEmpty then throw .emptyDataset
  ParameterStore.ofGraph t.graph

/-- One epoch: the loss before the update, and the updated store with its gradients cleared. -/
def runEpoch (t : Trainer α) (ev : Evaluator α) (store : ParameterStore α) (epoch : Nat) :
    Except (Failure α) (α × ParameterStore α) := do
  let (loss, store) := ev.accumulateGradients store t.rows epoch
  let loss ← loss
  let store := store.descend t.config.learningRate
  match findNonFinite? store.values with
  | some x => throw (.nonFinite epoch none .update x)
  | none => return (loss, store.zeroGrad)

/-- Goes through `count` epochs from the given one on. An epoch that fails is the one that the trainer
is left in. The history is kept newest first. -/
def goThrough (t : Trainer α) (ev : Evaluator α) (count epoch : Nat) (store : ParameterStore α)
    (history : List α) : Except (Failure α) (ParameterStore α × List α) × Trainer α :=
  match count with
  | 0 => (.ok (store, history), t)
  | count + 1 =>
    let t := { t with phase := .running epoch }
    match t.runEpoch ev store epoch with
    | .error failure => (.error failure, t)
    | .ok (loss, store) =>
      t.goThrough ev count (epoch + 1) store
        (if t.config.samples epoch then loss :: history else history)

def run (t : Trainer α) : Except (Failure α) (Outcome α) × Trainer α :=
  let t := { t with phase := .validating }
  match t.validate with
  | .error failure => (.error failure, { t with phase := .failed failure })
  | .ok store =>
    match t.goThrough (.new t.graph t.labels) t.config.epochs 0 store [] with
    | (.error failure, t) => (.error failure, { t with phase := .failed failure })
    | (.ok (store, history), t) =>
      (.ok { store, history := history.reverse, epochs := t.config.epochs }, { t with phase := .done })

end Trainer

end Backprop
