import Backprop.Json.Value

namespace Backprop

inductive Device
  | cpu
  | gpu
  deriving DecidableEq

def Device.name : Device → String
  | .cpu => "cpu"
  | .gpu => "cuda"

def Device.status (d : Device) : String :=
  Json.Value.render (.object [("status", .text "ok"), ("device", .text d.name)])

end Backprop
