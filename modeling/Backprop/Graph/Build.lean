import Backprop.Failure
import Backprop.Graph.Basic

namespace Backprop

def Node.ofNames {α : Type} (lenient : Bool) (id kind : String) (label activation : Option String)
    (initial : α) : Except GraphDefect (Node α) :=
  match NodeKind.ofName? kind, activation with
  | none, _ => .error (.unknownKind kind)
  | some kind, none => .ok { id, kind, label, activation := .linear, initial }
  | some kind, some name =>
    match Activation.ofName? name with
    | some activation => .ok { id, kind, label, activation, initial }
    | none =>
      if lenient then .ok { id, kind, label, activation := .linear, initial }
      else .error (.unknownActivation name)

namespace Graph

/-- The first element that stands in `seen` or before itself. -/
def firstRepeated? (seen : List String) : List String → Option String
  | [] => none
  | id :: ids => if id ∈ seen then some id else firstRepeated? (id :: seen) ids

variable {n : Nat}

def resolveConnections (mode : Mode) (index : String → Option (Fin n)) :
    List Connection → Except GraphDefect (List (Fin n × Fin n))
  | [] => .ok []
  | c :: cs =>
    match index c.source, index c.target with
    | some source, some target => do
      let edges ← resolveConnections mode index cs
      return (source, target) :: edges
    | source, _ =>
      match mode with
      | .lenient => resolveConnections mode index cs
      | .strict =>
        let missing := if source.isNone then c.source else c.target
        .error (.danglingConnection c.source c.target missing)

/-- The first mention of each known node that is not in `seen`. -/
def resolveOrder (mode : Mode) (index : String → Option (Fin n)) (seen : List (Fin n)) :
    List String → Except GraphDefect (List (Fin n))
  | [] => .ok []
  | id :: ids =>
    match index id, mode with
    | none, .lenient => resolveOrder mode index seen ids
    | none, .strict => .error (.unknownInOrder id)
    | some i, _ =>
      if i ∈ seen then
        match mode with
        | .lenient => resolveOrder mode index seen ids
        | .strict => .error (.duplicateInOrder id)
      else do
        let order ← resolveOrder mode index (i :: seen) ids
        return i :: order

def standsBefore (order : List (Fin n)) (a b : Fin n) : Bool :=
  match order.idxOf? a, order.idxOf? b with
  | some i, some j => i < j
  | _, _ => false

variable {α : Type}

def checkOrder (nodes : Vector (Node α) n) (edges : List (Fin n × Fin n)) (order : List (Fin n)) :
    Except GraphDefect Unit :=
  match (List.finRange n).find? fun i => i ∉ order with
  | some i => .error (.missingFromOrder nodes[i].id)
  | none =>
    match edges.find? fun e => !standsBefore order e.1 e.2 with
    | some (source, target) => .error (.orderViolation nodes[source].id nodes[target].id)
    | none => .ok ()

def defaultOutput : String := "output"

structure Options where
  mode : Mode := .strict
  output : String := defaultOutput

/-- A strict build refuses every connection with an unknown end and every order that is not a linear
extension of the connections. A lenient build leaves out what does not fit, and refuses nothing but
repeated ids. -/
def build (nodes : List (Node α)) (connections : List Connection) (order : List String)
    (options : Options) : Except GraphDefect (Graph α) := do
  if let some id := firstRepeated? [] (nodes.map (·.id)) then
    throw (.duplicateId id)
  let vector : Vector (Node α) nodes.length := ⟨nodes.toArray, by simp⟩
  let index (id : String) := vector.findFinIdx? (·.id == id)
  let edges ← resolveConnections options.mode index connections
  let resolved ← resolveOrder options.mode index [] order
  if options.mode = .strict then
    checkOrder vector edges resolved
  return {
    size := nodes.length
    nodes := vector
    order := resolved
    incoming := Vector.ofFn fun i => edges.filterMap fun e => if e.2 = i then some e.1 else none
    hasDeclaredInputs := vector.map fun node => connections.any (·.target == node.id)
    output := index options.output
    mode := options.mode }

def strict? (nodes : List (Node α)) (connections : List Connection) (order : List String) :
    Option (Graph α) :=
  (build nodes connections order {}).toOption

end Graph

end Backprop
