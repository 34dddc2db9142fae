import Backprop.Json.Record
import Backprop.Json.Value
import Backprop.Request.Basic

namespace Backprop

open Json (Document Value)
open Json.Document

/-- Ids are strings, or whole numbers of 64 signed bits, which stand for their digits. -/
def readId? : Document → Option String
  | .text s => s
  | d => do
    let n ← d.whole?
    if n < (Nat.pow 2 63 : Int) then return toString n else none

def NodeRequest.ofDocument? (d : Document) : Option NodeRequest := do
  let fields ← d.fields? ["type", "label", "activation", "value"]
  let kind ← fields.lookup "type" >>= text?
  let label ← fieldOr? none (nullable? text?) (fields.lookup "label")
  let activation ← fieldOr? none (nullable? text?) (fields.lookup "activation")
  let value ← fieldOr? none (nullable? float?) (fields.lookup "value")
  return { kind, label, activation, value }

def Connection.ofDocument? (d : Document) : Option Connection := do
  let fields ← d.fields? ["from", "to"]
  let source ← fields.lookup "from" >>= readId?
  let target ← fields.lookup "to" >>= readId?
  return { source, target }

def Row.ofDocument? (d : Document) : Option (Row Float) := do
  let fields ← d.fields? ["inputs", "expected"]
  let inputs ← fields.lookup "inputs" >>= list? float?
  let expected ← fields.lookup "expected" >>= float?
  return { inputs, expected }

def Row.toValue (row : Row Float) : Value :=
  .object [("inputs", .array (row.inputs.map fun x => .number (.real x))),
    ("expected", .number (.real row.expected))]

namespace TrainRequest

def fieldNames : List String :=
  ["nodes", "connections", "trainingData", "learningRate", "epochs", "inputLabels",
    "topologicalOrder", "outputNode", "lenient"]

def ofDocument? (d : Document) : Option TrainRequest := do
  let fields ← d.fields? fieldNames
  let defaults := TrainingConfig.defaults
  let nodes ← fields.lookup "nodes" >>= members? NodeRequest.ofDocument?
  let connections ← fieldOr? [] (list? Connection.ofDocument?) (fields.lookup "connections")
  let trainingData ← fieldOr? [] (list? Row.ofDocument?) (fields.lookup "trainingData")
  let learningRate ← fieldOr? defaults.learningRate float? (fields.lookup "learningRate")
  let epochs ← fieldOr? defaults.epochs nat? (fields.lookup "epochs")
  let inputLabels ← fieldOr? [] (list? text?) (fields.lookup "inputLabels")
  let topologicalOrder ← fields.lookup "topologicalOrder" >>= list? readId?
  let outputNode ← fieldOr? Graph.defaultOutput text? (fields.lookup "outputNode")
  let lenient ← fieldOr? false bool? (fields.lookup "lenient")
  return { nodes, connections, trainingData, learningRate, epochs, inputLabels, topologicalOrder,
           outputNode, lenient }

def ofJson (payload : String) : Except (Failure Float) TrainRequest :=
  match (Document.ofString? payload).bind ofDocument? with
  | some request => .ok request
  | none => .error (.malformed "not a training request")

end TrainRequest

end Backprop
