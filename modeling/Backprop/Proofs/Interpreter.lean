import Mathlib
import Backprop.Evaluator

namespace Backprop

variable {α β : Type}

def AllKnown (P : α → Prop) {n : Nat} (values : Vector (Option α) n) : Prop :=
  ∀ (j : Fin n) (x : α), values.get j = some x → P x

def place {n : Nat} (values : Vector (Option α) n) (i : Fin n) (x : α) : Vector (Option α) n :=
  values.set i (some x) i.isLt

section

variable {P Q : α → Prop} {n : Nat} {values : Vector (Option α) n}

theorem map_place (f : α → β) (values : Vector (Option α) n) (i : Fin n) (x : α) :
    (place values i x).map (·.map f) = place (values.map (·.map f)) i (f x) :=
  Vector.map_set ..

theorem allKnown_replicate (P : α → Prop) (n : Nat) : AllKnown P (Vector.replicate n none) := by
  intro j x hj
  rw [Vector.get_replicate] at hj
  cases hj

theorem AllKnown.mono (h : AllKnown P values) (hPQ : ∀ x, P x → Q x) : AllKnown Q values :=
  fun j x hj => hPQ x (h j x hj)

theorem AllKnown.place (h : AllKnown P values) (i : Fin n) {x : α} (hx : P x) :
    AllKnown P (place values i x) := by
  intro j y hj
  rw [Backprop.place, Vector.get_eq_getElem, Vector.getElem_set] at hj
  split at hj
  · cases hj
    exact hx
  · exact h j y hj

theorem AllKnown.of_mem (h : AllKnown P values) {is : List (Fin n)} {x : α}
    (hx : x ∈ is.filterMap values.get) : P x := by
  obtain ⟨j, _, hj⟩ := List.mem_filterMap.1 hx
  exact h j x hj

theorem filterMap_get_map (f : α → β) (values : Vector (Option α) n) (is : List (Fin n)) :
    is.filterMap (values.map (·.map f)).get = (is.filterMap values.get).map f := by
  rw [List.map_filterMap]
  exact List.filterMap_congr fun j _ => Vector.get_map ..

end

/-- What a graph works on: a number for each input node and one for each weight or bias. -/
structure Env (α : Type) (n : Nat) where
  input : Fin n → α
  parameter : Fin n → α

/-- The environment in another arithmetic, with `x` for the parameter of one node. -/
def Env.vary {n : Nat} (env : Env α n) (ι : α → β) (node : Nat) (x : β) : Env β n where
  input i := ι (env.input i)
  parameter i := if i = node then x else ι (env.parameter i)

/-- What a row holds in the first column with the label; 0 if there is no such column. -/
def Row.look [Zero α] (row : Row α) (labels : List String) (label : Option String) : α :=
  ((label.bind fun l => labels.idxOf? l).bind fun column => row.inputs[column]?).getD 0

namespace ParameterStore

/-- The number and the value of the parameter that stands behind a node. -/
def lookUp? (s : ParameterStore α) (node : Nat) : Option (Nat × α) :=
  (s.paramFor? node).bind fun id => s.params[id]?.map fun p => (id, p.value)

def valueOf [Zero α] (s : ParameterStore α) (node : Nat) : α :=
  ((s.lookUp? node).map (·.2)).getD 0

end ParameterStore

namespace Graph

def env [Zero α] (g : Graph α) (labels : List String) (store : ParameterStore α) (row : Row α) :
    Env α g.size where
  input i := row.look labels (g.node i).label
  parameter i := store.valueOf i

variable [Scalar α] (g : Graph β)

def incomingSum (values : Vector (Option α) g.size) (i : Fin g.size) : α :=
  match (g.incoming.get i).filterMap values.get with
  | [] => 0
  | xs => Scalar.sum xs

def nodeValue (env : Env α g.size) (values : Vector (Option α) g.size) (i : Fin g.size) : α :=
  match (g.node i).kind with
  | .input => env.input i
  | .bias => env.parameter i
  | .weight =>
    if g.hasDeclaredInputs.get i then g.incomingSum values i * env.parameter i else env.parameter i
  | .neuron | .activation => Scalar.activate (g.node i).activation (g.incomingSum values i)
  | .output => g.incomingSum values i

def valuesAfter (env : Env α g.size) :
    List (Fin g.size) → Vector (Option α) g.size → Vector (Option α) g.size
  | [], values => values
  | i :: is, values => valuesAfter env is (place values i (g.nodeValue env values i))

def values (env : Env α g.size) : Vector (Option α) g.size :=
  g.valuesAfter env g.order (Vector.replicate g.size none)

def prediction (env : Env α g.size) : α :=
  (g.output.bind (g.values env).get).getD 0

def squaredError (env : Env α g.size) (expected : α) : α :=
  (g.prediction env - expected) * (g.prediction env - expected)

def loss (cases : List (Env α g.size × α)) : α :=
  Scalar.mean (cases.map fun c => g.squaredError c.1 c.2)

end Graph

end Backprop
