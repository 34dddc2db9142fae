import Backprop.Decimal.Notation

namespace Backprop

inductive GraphDefect
  | danglingConnection (source target missing : String)
  | duplicateId (id : String)
  | unknownInOrder (id : String)
  | duplicateInOrder (id : String)
  | missingFromOrder (id : String)
  | orderViolation (source target : String)
  | unknownActivation (name : String)
  | unknownKind (name : String)
  deriving DecidableEq

def GraphDefect.message : GraphDefect → String
  | .danglingConnection source target missing =>
    s!"Connection {source} -> {target} references unknown node '{missing}'"
  | .duplicateId id => s!"Node id '{id}' is declared more than once"
  | .unknownInOrder id => s!"Topological order contains unknown node '{id}'"
  | .duplicateInOrder id => s!"Topological order lists node '{id}' more than once"
  | .missingFromOrder id => s!"Node '{id}' is missing from the topological order"
  | .orderViolation source target =>
    s!"Topological order places '{target}' before its producer '{source}'"
  | .unknownActivation name => s!"Unknown activation function '{name}'"
  | .unknownKind name => s!"Unknown node type '{name}'"

inductive Stage
  | forward
  | backward
  | update
  deriving DecidableEq

def Stage.name : Stage → String
  | .forward => "forward"
  | .backward => "backward"
  | .update => "update"

inductive ConfigDefect (α : Type)
  | learningRate (rate : α)
  | other (reason : String)

def ConfigDefect.message : ConfigDefect Float → String
  | .learningRate rate =>
    s!"learning rate must be a finite, non-negative number, got {Decimal.plain rate}"
  | .other reason => reason

inductive ImportDefect
  | noDataRow
  | notAnArray
  | notARow (found : String)
  | other (reason : String)
  deriving DecidableEq

def ImportDefect.message : ImportDefect → String
  | .noDataRow => "need a header and at least one data row"
  | .notAnArray => "JSON must be an array of rows"
  | .notARow found => s!"row must be an array or an object, got {found}"
  | .other reason => reason

inductive Mismatch
  | noParameter (node : String)
  | other (reason : String)
  deriving DecidableEq

def Mismatch.message : Mismatch → String
  | .noParameter node => s!"node '{node}' has no parameter in this store"
  | .other reason => reason

/-- A promise that a caller did not keep. -/
inductive Breach
  | handle
  /-- A parameter whose node is not in the graph. -/
  | node
  deriving DecidableEq

inductive Failure (α : Type)
  | invalidGraph (defect : GraphDefect)
  | emptyDataset
  | nothingToTrain
  | nonFinite (epoch : Nat) (row : Option Nat) (stage : Stage) (value : α)
  | invalidConfig (defect : ConfigDefect α)
  | outOfBounds (index length : Nat)
  | unreadableDataset (line : Nat) (defect : ImportDefect)
  | malformed (reason : String)
  | mismatch (what : Mismatch)
  | breach (what : Breach)

namespace Failure

def message : Failure Float → String
  | .invalidGraph defect => "Invalid graph: " ++ defect.message
  | .emptyDataset => "No training data provided"
  | .nothingToTrain => "No trainable parameters (weights/biases) found"
  | .nonFinite epoch row stage value =>
    s!"Non-finite value {Decimal.plain value} during {stage.name} pass at epoch {epoch}" ++
      (row.elim "" fun r => s!", row {r}")
  | .invalidConfig defect => "Invalid training configuration: " ++ defect.message
  | .outOfBounds index length => s!"Index out of bounds: index {index} for length {length}"
  | .unreadableDataset line defect => s!"Dataset import failed at line {line}: {defect.message}"
  | .malformed reason => "Malformed payload: " ++ reason
  | .mismatch what => "Internal error: " ++ what.message
  | .breach .handle => "Internal error: a handle is not on the tape"
  | .breach .node => "Internal error: a parameter belongs to no node of the graph"

/-- Whether a failure comes from what the caller sent and not from the run. -/
def isRecoverable {α : Type} : Failure α → Bool
  | .invalidGraph _ | .emptyDataset | .nothingToTrain | .invalidConfig _ | .malformed _
  | .unreadableDataset _ _ => true
  | _ => false

end Failure

end Backprop
