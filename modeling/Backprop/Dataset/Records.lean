import Backprop.Dataset.Delimited
import Backprop.Json.Value

namespace Backprop.Dataset

open Json (Value)

def readValue : Value → Float
  | .number n => n.toFloat
  | .text s => readCell s.toList
  | .bool b => if b then 1.0 else 0.0
  | _ => 0.0

def targetKeys : List String := ["expected", "y", "output"]

/-- The first target that is there and not null. -/
def target? (members : List (String × Value)) : Option Value :=
  targetKeys.findSome? fun key =>
    match Value.member? members key with
    | some .null => none
    | found => found

def readMembers (labels : List String) (members : List (String × Value)) : Row Float :=
  { inputs := labels.map fun label => ((Value.member? members label).map readValue).getD 0.0
    expected := ((target? members).map readValue).getD 0.0 }

def readRecord (labels : List String) (line : Nat) : Value → Except (Failure Float) (Row Float)
  | .array cells => .ok (rowOfCells labels.length (cells.map readValue))
  | .object members => .ok (readMembers labels members)
  | v => .error (.unreadableDataset line (.notARow v.render))

def readRecordsFrom (labels : List String) :
    Nat → List Value → Except (Failure Float) (List (Row Float))
  | _, [] => .ok []
  | line, v :: vs => do
    let row ← readRecord labels line v
    return row :: (← readRecordsFrom labels (line + 1) vs)

def readRecords (text : String) (labels : List String) :
    Except (Failure Float) (List (Row Float)) :=
  match Value.ofString? text with
  | none => .error (.malformed "not a JSON value")
  | some (.array items) => readRecordsFrom labels 1 items
  | some _ => .error (.unreadableDataset 0 .notAnArray)

end Backprop.Dataset
