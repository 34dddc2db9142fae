import Backprop.Failure
import Backprop.Graph.Basic
import Backprop.Scalar

namespace Backprop

/-- What is trained: the number that stands behind one weight or bias, and the gradient that has
been added up for it. -/
structure Parameter (α : Type) where
  node : Nat
  value : α
  grad : α

def Parameter.line (p : Parameter Float) : String :=
  s!"Parameter(node={p.node}, value={Decimal.plain p.value}, grad={Decimal.plain p.grad})"

structure ParameterStore (α : Type) where
  params : Array (Parameter α)

namespace ParameterStore

variable {α : Type}

def size (s : ParameterStore α) : Nat :=
  s.params.size

def paramFor? (s : ParameterStore α) (node : Nat) : Option Nat :=
  s.params.findIdx? (·.node == node)

def get (s : ParameterStore α) (id : Nat) : Except (Failure α) (Parameter α) :=
  match s.params[id]? with
  | some p => .ok p
  | none => .error (.outOfBounds id s.size)

def modify (s : ParameterStore α) (id : Nat) (f : Parameter α → Parameter α) :
    Except (Failure α) (ParameterStore α) :=
  if id < s.size then .ok ⟨s.params.modify id f⟩ else .error (.outOfBounds id s.size)

def setValue (s : ParameterStore α) (id : Nat) (x : α) : Except (Failure α) (ParameterStore α) :=
  s.modify id ({ · with value := x })

def values (s : ParameterStore α) : List α :=
  s.params.toList.map (·.value)

def grads (s : ParameterStore α) : List α :=
  s.params.toList.map (·.grad)

variable [Scalar α]

def addGrad (s : ParameterStore α) (id : Nat) (x : α) : Except (Failure α) (ParameterStore α) :=
  s.modify id fun p => { p with grad := p.grad + x }

def clearGrad (s : ParameterStore α) (id : Nat) : Except (Failure α) (ParameterStore α) :=
  s.modify id ({ · with grad := 0 })

def zeroGrad (s : ParameterStore α) : ParameterStore α :=
  ⟨s.params.map ({ · with grad := 0 })⟩

def descend (s : ParameterStore α) (rate : α) : ParameterStore α :=
  ⟨s.params.map fun p => { p with value := p.value - rate * p.grad }⟩

def ofGraph (g : Graph α) : Except (Failure α) (ParameterStore α) :=
  match g.trainable with
  | [] => .error .nothingToTrain
  | ids => .ok ⟨(ids.map fun i => ⟨i, (g.node i).initial, 0⟩).toArray⟩

end ParameterStore

namespace Graph

variable {α : Type}

def noteNumbers : Nat → List Nat → Array (Option Nat) → Array (Option Nat)
  | _, [], table => table
  | id, node :: nodes, table => noteNumbers (id + 1) nodes (table.setIfInBounds node (some id))

/-- The number of the parameter for each node that owns one, noted when the parameters are made. A store
need not carry it, because `ParameterStore.paramFor?` finds the same numbers by a search. -/
def numberTable (g : Graph α) : Array (Option Nat) :=
  noteNumbers 0 (g.trainable.map (·.val)) (Array.replicate g.size none)

end Graph

end Backprop
