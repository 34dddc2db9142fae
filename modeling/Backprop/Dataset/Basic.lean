import Backprop.Failure

namespace Backprop

structure Row (α : Type) where
  inputs : List α
  expected : α
  deriving DecidableEq

structure Dataset (β : Type) where
  items : Array β

/-- The numbers to visit in a dataset of a given size, in order. -/
structure Sampler where
  indices : Nat → List Nat

def Sampler.sequential : Sampler :=
  ⟨List.range⟩

def Sampler.fixed (indices : List Nat) : Sampler :=
  ⟨fun _ => indices⟩

namespace Dataset

variable {α β : Type}

def ofList (items : List β) : Dataset β :=
  ⟨items.toArray⟩

def size (d : Dataset β) : Nat :=
  d.items.size

def get (d : Dataset β) (index : Nat) : Except (Failure α) β :=
  match d.items[index]? with
  | some item => .ok item
  | none => .error (.outOfBounds index d.size)

def collect (d : Dataset β) (sampler : Sampler) : Except (Failure α) (List β) :=
  (sampler.indices d.size).mapM d.get

end Dataset

end Backprop
