import Backprop.Scalar

namespace Backprop

inductive NodeKind
  | input
  | weight
  | bias
  | neuron
  | activation
  | output
  deriving DecidableEq

def NodeKind.name : NodeKind → String
  | .input => "input"
  | .weight => "weight"
  | .bias => "bias"
  | .neuron => "neuron"
  | .activation => "activation"
  | .output => "output"

def NodeKind.ofName? : String → Option NodeKind
  | "input" => some .input
  | "weight" => some .weight
  | "bias" => some .bias
  | "neuron" => some .neuron
  | "activation" => some .activation
  | "output" => some .output
  | _ => none

def NodeKind.isTrainable : NodeKind → Bool
  | .weight | .bias => true
  | _ => false

structure Node (α : Type) where
  id : String
  kind : NodeKind
  label : Option String
  activation : Activation
  /-- Where the parameter of a weight or bias starts. -/
  initial : α

structure Connection where
  source : String
  target : String
  deriving DecidableEq

inductive Mode
  | strict
  | lenient
  deriving DecidableEq

def Mode.name : Mode → String
  | .strict => "strict"
  | .lenient => "lenient"

/-- Nodes are numbered in the order of their declaration; connections and the evaluation order refer to
those numbers. -/
structure Graph (α : Type) where
  size : Nat
  nodes : Vector (Node α) size
  order : List (Fin size)
  incoming : Vector (List (Fin size)) size
  /-- Whether any connection into the node was declared, dropped ones included. -/
  hasDeclaredInputs : Vector Bool size
  output : Option (Fin size)
  mode : Mode

namespace Graph

variable {α : Type}

def indexOf? (g : Graph α) (id : String) : Option (Fin g.size) :=
  g.nodes.findFinIdx? (·.id == id)

def node (g : Graph α) (i : Fin g.size) : Node α :=
  g.nodes[i]

def node? (g : Graph α) (i : Nat) : Option (Node α) :=
  g.nodes[i]?

def trainable (g : Graph α) : List (Fin g.size) :=
  (List.finRange g.size).filter fun i => (g.node i).kind.isTrainable

end Graph

end Backprop
