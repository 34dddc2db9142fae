import Backprop.Report
import Backprop.Request.Payload
import Backprop.Training.Run

namespace Backprop

open Json (Value)

namespace TrainRequest

/-- Builds, trains and reports. The device and the time that passed come from outside. -/
def train (r : TrainRequest) (device : String) (elapsed : Float) :
    Except (Failure Float) Report := do
  let graph ← r.graph.mapError Failure.invalidGraph
  let trainer : Trainer Float :=
    { graph, rows := r.trainingData, labels := r.inputLabels, config := r.config }
  let outcome ← trainer.run.1
  Report.new graph outcome.store outcome.history outcome.epochs elapsed device

end TrainRequest

def Failure.toValue (failure : Failure Float) : Value :=
  .object [("error", .text failure.message)]

def trainJson (payload : String) (device : String) (elapsed : Float) : String :=
  let result := do (← TrainRequest.ofJson payload).train device elapsed
  match result with
  | .ok report => report.toValue.render
  | .error failure => failure.toValue.render

end Backprop
