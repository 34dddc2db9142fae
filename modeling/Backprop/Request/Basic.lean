import Backprop.Dataset.Basic
import Backprop.Graph.Build
import Backprop.Training.Run

namespace Backprop

structure NodeRequest where
  kind : String
  label : Option String
  activation : Option String
  value : Option Float

structure TrainRequest where
  /-- Nodes under their ids, in the order of the document. -/
  nodes : List (String × NodeRequest)
  connections : List Connection
  trainingData : List (Row Float)
  learningRate : Float
  epochs : Nat
  inputLabels : List String
  topologicalOrder : List String
  outputNode : String
  lenient : Bool

namespace TrainRequest

def options (r : TrainRequest) : Graph.Options :=
  { mode := if r.lenient then .lenient else .strict, output := r.outputNode }

def config (r : TrainRequest) : TrainingConfig Float :=
  { learningRate := r.learningRate, epochs := r.epochs }

def graphNodes (r : TrainRequest) : Except GraphDefect (List (Node Float)) :=
  r.nodes.mapM fun (id, node) =>
    Node.ofNames r.lenient id node.kind node.label node.activation (node.value.getD 0.0)

def graph (r : TrainRequest) : Except GraphDefect (Graph Float) := do
  Graph.build (← r.graphNodes) r.connections r.topologicalOrder r.options

end TrainRequest

end Backprop
