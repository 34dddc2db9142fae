import Backprop.Decimal.Rounding
import Backprop.Json.Value
import Backprop.Parameter

namespace Backprop

structure TrainedWeight where
  id : String
  value : Float

structure Report where
  trainedWeights : List TrainedWeight
  lossHistory : List Float
  finalLoss : Float
  epochs : Nat
  elapsed : Float
  device : String

namespace Report

def parameterPlaces : Int := 6

def lossPlaces : Int := 8

def elapsedPlaces : Int := 3

def seconds (nanos : Nat) : Float :=
  Float.ofNat (nanos / 1000000000) + Float.ofNat (nanos % 1000000000) / 1e9

def trainedWeight (g : Graph Float) (p : Parameter Float) : Except (Failure Float) TrainedWeight :=
  match g.node? p.node with
  | some node => .ok { id := node.id, value := Decimal.roundTo p.value parameterPlaces }
  | none => .error (.breach .node)

def new (g : Graph Float) (store : ParameterStore Float) (history : List Float) (epochs : Nat)
    (elapsed : Float) (device : String) : Except (Failure Float) Report := do
  let trainedWeights ← store.params.toList.mapM (trainedWeight g)
  let lossHistory := history.map (Decimal.roundTo · lossPlaces)
  return {
    trainedWeights
    lossHistory
    finalLoss := lossHistory.getLast?.getD 0.0
    epochs
    elapsed := Decimal.roundTo elapsed elapsedPlaces
    device }

end Report

open Json (Value)

def TrainedWeight.toValue (w : TrainedWeight) : Value :=
  .object [("id", .text w.id), ("value", .number (.real w.value))]

def Report.toValue (r : Report) : Value :=
  .object [
    ("trainedWeights", .array (r.trainedWeights.map TrainedWeight.toValue)),
    ("lossHistory", .array (r.lossHistory.map fun x => .number (.real x))),
    ("finalLoss", .number (.real r.finalLoss)),
    ("epochs", .number (.whole r.epochs)),
    ("elapsed", .number (.real r.elapsed)),
    ("device", .text r.device)]

end Backprop
