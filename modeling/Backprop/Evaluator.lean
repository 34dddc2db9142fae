import Backprop.Dataset.Basic
import Backprop.Parameter
import Backprop.Tape.Basic

namespace Backprop

structure Evaluator (α : Type) where
  graph : Graph α
  columns : Vector (Option Nat) graph.size

structure RecordedRow (α : Type) (n : Nat) where
  handles : Vector (Option Handle) n
  prediction : Handle
  tape : Tape α

structure Evaluation (α : Type) (n : Nat) where
  values : Vector (Option α) n
  prediction : α

namespace Evaluator

def column? (labels : List String) (label : Option String) : Option Nat :=
  label.bind fun l => labels.findIdx? (· == l)

variable {α : Type}

def new (graph : Graph α) (labels : List String) : Evaluator α :=
  { graph, columns := graph.nodes.map fun node => column? labels node.label }

def readParameter (ev : Evaluator α) (store : ParameterStore α) (tape : Tape α)
    (i : Fin ev.graph.size) : Except (Failure α) (Handle × Tape α) :=
  match store.paramFor? i with
  | none => .error (.mismatch (.noParameter (ev.graph.node i).id))
  | some id => do
    let p ← store.get id
    return tape.parameter id p.value

variable [Scalar α]

/-- A column that is missing, from the labels or from the row, reads as 0. -/
def readInput (ev : Evaluator α) (row : Row α) (i : Fin ev.graph.size) : α :=
  (ev.columns[i].bind fun c => row.inputs[c]?).getD 0

def sumIncoming (ev : Evaluator α) (handles : Vector (Option Handle) ev.graph.size)
    (tape : Tape α) (i : Fin ev.graph.size) : Except (Failure α) (Handle × Tape α) :=
  match ev.graph.incoming[i].filterMap fun source => handles[source] with
  | [] => .ok (tape.constant 0)
  | args => tape.sum args

def recordNode (ev : Evaluator α) (store : ParameterStore α) (row : Row α)
    (handles : Vector (Option Handle) ev.graph.size) (tape : Tape α) (i : Fin ev.graph.size) :
    Except (Failure α) (Handle × Tape α) :=
  let node := ev.graph.node i
  match node.kind with
  | .input => .ok (tape.constant (ev.readInput row i))
  | .bias => ev.readParameter store tape i
  | .weight => do
    let (p, tape) ← ev.readParameter store tape i
    if ev.graph.hasDeclaredInputs[i] then
      let (s, tape) ← ev.sumIncoming handles tape i
      tape.mul s p
    else return (p, tape)
  | .neuron | .activation => do
    let (s, tape) ← ev.sumIncoming handles tape i
    tape.activate node.activation s
  | .output => ev.sumIncoming handles tape i

def recordNodes (ev : Evaluator α) (store : ParameterStore α) (row : Row α) :
    List (Fin ev.graph.size) → Vector (Option Handle) ev.graph.size → Tape α →
      Except (Failure α) (Vector (Option Handle) ev.graph.size × Tape α)
  | [], handles, tape => .ok (handles, tape)
  | i :: is, handles, tape => do
    let (h, tape) ← ev.recordNode store row handles tape i
    ev.recordNodes store row is (handles.set i (some h)) tape

/-- Records all evaluated nodes for one row. Without a value for the output node the prediction
is 0. -/
def record (ev : Evaluator α) (store : ParameterStore α) (tape : Tape α) (row : Row α) :
    Except (Failure α) (RecordedRow α ev.graph.size) := do
  let unset := Vector.replicate ev.graph.size none
  let (handles, tape) ← ev.recordNodes store row ev.graph.order unset tape
  match ev.graph.output.bind fun o => handles[o] with
  | some prediction => return { handles, prediction, tape }
  | none =>
    let (prediction, tape) := tape.constant 0
    return { handles, prediction, tape }

/-- What is merely computed is recorded as well, so that it is the same as what is trained. -/
def evaluate (ev : Evaluator α) (store : ParameterStore α) (row : Row α) :
    Except (Failure α) (Evaluation α ev.graph.size) := do
  let recorded ← ev.record store .empty row
  let prediction ← recorded.tape.value recorded.prediction
  return { values := recorded.handles.map (·.bind recorded.tape.value?), prediction }

end Evaluator

end Backprop
