import Backprop.Proofs.Graph.Renaming
import Backprop.Proofs.Recording
import Backprop.Proofs.Tape.Embedding

namespace Backprop

variable {α β : Type}

namespace Graph.Renaming

variable {g g' : Graph α}

def vector (σ : g.Renaming g') (v : Vector β g.size) : Vector β g'.size :=
  Vector.ofFn fun j => v.get (σ.index.symm j)

variable (σ : g.Renaming g')

theorem get_vector (v : Vector β g.size) (i : Fin g.size) :
    (σ.vector v).get (σ.index i) = v.get i := by
  have hget : (σ.vector v).get (σ.index i) = v.get (σ.index.symm (σ.index i)) :=
    Vector.getElem_ofFn (σ.index i).isLt
  rw [hget, Equiv.symm_apply_apply]

theorem ext_vector {v : Vector β g.size} {w : Vector β g'.size}
    (h : ∀ i, w.get (σ.index i) = v.get i) : σ.vector v = w := by
  apply ext_get
  intro j
  obtain ⟨i, rfl⟩ := σ.index.surjective j
  rw [get_vector, h]

theorem vector_place (v : Vector (Option β) g.size) (i : Fin g.size) (x : β) :
    σ.vector (place v i x) = place (σ.vector v) (σ.index i) x := by
  apply ext_vector
  intro j
  simp only [get_place, get_vector, σ.index.injective.eq_iff]

theorem vector_replicate (x : β) : σ.vector (.replicate g.size x) = .replicate g'.size x := by
  apply ext_vector
  intro i
  rw [Vector.get_replicate, Vector.get_replicate]

def refl (g : Graph α) : g.Renaming g where
  index := .refl _
  node _ := rfl
  order := (List.map_id _).symm
  incoming _ := (List.map_id _).symm
  hasDeclaredInputs _ := rfl
  output := Option.map_id_apply.symm

theorem vector_refl (v : Vector β g.size) : (refl g).vector v = v :=
  ext_vector _ fun _ => rfl

/-- A recorded row under the other numbers, on a tape where the first is found again. -/
def recordedRow [Zero α] (e : Tape.Embedding α) (r : RecordedRow α g.size) :
    RecordedRow α g'.size where
  handles := σ.vector (r.handles.map (·.map e.handle))
  prediction := e.handle r.prediction
  tape := e.tape r.tape

/-- The second store finds what the first finds, under other numbers of nodes and parameters. -/
def Finds (ρ : Nat → Nat) (s s' : ParameterStore α) : Prop :=
  ∀ i : Fin g.size, s'.lookUp? (σ.index i) = (s.lookUp? i).map (Prod.map ρ id)

end Graph.Renaming

/-- The graphs of the evaluators are the same but for the numbers of nodes, and read the same
columns. -/
structure Evaluator.Renaming (ev ev' : Evaluator α) extends ev.graph.Renaming ev'.graph where
  column : ∀ i, ev'.columns.get (index i) = ev.columns.get i

def Graph.Renaming.evaluator {g g' : Graph α} (σ : g.Renaming g') (labels : List String) :
    (Evaluator.new g labels).Renaming (.new g' labels) where
  toRenaming := σ
  column i := by
    have hget {h : Graph α} (j : Fin h.size) : (Evaluator.new h labels).columns.get j =
        Evaluator.column? labels (h.node j).label :=
      Vector.get_map ..
    apply (hget (σ.index i)).trans
    apply Eq.trans _ (hget i).symm
    exact congrArg (fun node => Evaluator.column? labels node.label) (σ.node i)

namespace Evaluator

/-- What of a recorded row an epoch goes on with: its prediction and its tape. -/
def trace [Scalar α] (ev : Evaluator α) (store : ParameterStore α) (tape : Tape α) (row : Row α) :
    Except (Failure α) (Handle × Tape α) :=
  (ev.record store tape row).map fun r => (r.prediction, r.tape)

def Renaming.refl (ev : Evaluator α) : ev.Renaming ev where
  toRenaming := .refl ev.graph
  column _ := rfl

variable [Scalar α] {ev ev' : Evaluator α} {σ : ev.Renaming ev'} {e : Tape.Embedding α}
  {store store' : ParameterStore α}

theorem readParameter_embed (h : σ.Finds e.parameter store store') (tape : Tape α)
    (i : Fin ev.graph.size) :
    ev'.readParameter store' (e.tape tape) (σ.index i) =
      (ev.readParameter store tape i).map (Prod.map e.handle e.tape) := by
  rw [readParameter_eq, readParameter_eq, h i, σ.node]
  cases store.lookUp? i with
  | none => rfl
  | some p => exact e.call tape (.parameter p.1 p.2)

theorem sumIncoming_embed (σ : ev.Renaming ev') (e : Tape.Embedding α)
    (handles : Vector (Option Handle) ev.graph.size) (tape : Tape α) (i : Fin ev.graph.size) :
    ev'.sumIncoming (σ.vector (handles.map (·.map e.handle))) (e.tape tape) (σ.index i) =
      (ev.sumIncoming handles tape i).map (Prod.map e.handle e.tape) := by
  have hcall : ev'.incomingCall (σ.vector (handles.map (·.map e.handle))) (σ.index i) =
      (ev.incomingCall handles i).relabel e.handle e.parameter := by
    have hget : (σ.vector (handles.map (·.map e.handle))).get ∘ σ.index =
        (handles.map (·.map e.handle)).get := funext (σ.get_vector _)
    rw [incomingCall, incomingCall, σ.incoming, List.filterMap_map, hget, filterMap_get_map]
    cases (ev.graph.incoming.get i).filterMap handles.get <;> rfl
  rw [sumIncoming_eq, sumIncoming_eq, hcall, e.call]

theorem readInput_rename (σ : ev.Renaming ev') (row : Row α) (i : Fin ev.graph.size) :
    ev'.readInput row (σ.index i) = ev.readInput row i :=
  congrArg (fun column : Option Nat => (column.bind fun c => row.inputs[c]?).getD 0) (σ.column i)

theorem recordNode_embed (h : σ.Finds e.parameter store store') (row : Row α)
    (handles : Vector (Option Handle) ev.graph.size) (tape : Tape α) (i : Fin ev.graph.size) :
    ev'.recordNode store' row (σ.vector (handles.map (·.map e.handle))) (e.tape tape) (σ.index i) =
      (ev.recordNode store row handles tape i).map (Prod.map e.handle e.tape) := by
  rw [recordNode, recordNode, σ.node]
  cases (ev.graph.node i).kind with
  | input =>
    dsimp only
    rw [readInput_rename]
    exact e.call tape (.constant (ev.readInput row i))
  | bias => exact readParameter_embed h tape i
  | weight =>
    have hdeclared : ev'.graph.hasDeclaredInputs[σ.index i] = ev.graph.hasDeclaredInputs[i] :=
      σ.hasDeclaredInputs i
    dsimp only
    rw [hdeclared, readParameter_embed h]
    cases ev.readParameter store tape i with
    | error failure => rfl
    | ok p =>
      simp only [Except.map, Prod.map, bind, Except.bind, sumIncoming_embed]
      split
      · cases ev.sumIncoming handles p.2 i with
        | error failure => rfl
        | ok q => exact e.call q.2 (.mul q.1 p.1)
      · rfl
  | neuron | activation =>
    dsimp only
    rw [sumIncoming_embed]
    cases ev.sumIncoming handles tape i with
    | error failure => rfl
    | ok q => exact e.call q.2 (.activate (ev.graph.node i).activation q.1)
  | output => exact sumIncoming_embed σ e handles tape i

theorem recordNodes_embed (h : σ.Finds e.parameter store store') (row : Row α)
    (is : List (Fin ev.graph.size)) (handles : Vector (Option Handle) ev.graph.size)
    (tape : Tape α) :
    ev'.recordNodes store' row (is.map σ.index) (σ.vector (handles.map (·.map e.handle)))
        (e.tape tape) =
      (ev.recordNodes store row is handles tape).map
        (Prod.map (fun handles => σ.vector (handles.map (·.map e.handle))) e.tape) := by
  induction is generalizing handles tape with
  | nil => rfl
  | cons i is ih =>
    rw [List.map_cons, recordNodes, recordNodes, recordNode_embed h]
    cases ev.recordNode store row handles tape i with
    | error failure => rfl
    | ok p =>
      have hrest := ih (place handles i p.1) p.2
      rw [map_place, σ.vector_place] at hrest
      exact hrest

theorem record_embed (h : σ.Finds e.parameter store store') (tape : Tape α) (row : Row α) :
    ev'.record store' (e.tape tape) row = (ev.record store tape row).map (σ.recordedRow e) := by
  have hnodes := recordNodes_embed h row ev.graph.order (.replicate _ none) tape
  rw [Vector.map_replicate, Option.map_none, ← σ.order, σ.vector_replicate] at hnodes
  rw [record, record, hnodes]
  cases ev.recordNodes store row ev.graph.order (.replicate _ none) tape with
  | error failure => rfl
  | ok p =>
    have houtput : (ev'.graph.output.bind fun o => (σ.vector (p.1.map (·.map e.handle)))[o]) =
        (ev.graph.output.bind fun o => p.1[o]).map e.handle := by
      rw [σ.output, Option.bind_map]
      cases ev.graph.output with
      | none => rfl
      | some o => exact (σ.get_vector _ o).trans (Vector.get_map ..)
    simp only [Except.map, Prod.map, bind, Except.bind, houtput]
    cases ev.graph.output.bind fun o => p.1[o] with
    | some prediction => rfl
    | none =>
      have hconstant : (e.tape p.2).constant 0 = (p.2.constant 0).map e.handle e.tape :=
        e.push p.2 .constant 0
      simp only [Option.map_none, hconstant]
      rfl

theorem trace_embed (h : σ.Finds e.parameter store store') (tape : Tape α) (row : Row α) :
    ev'.trace store' (e.tape tape) row =
      (ev.trace store tape row).map (Prod.map e.handle e.tape) := by
  rw [trace, trace, record_embed h]
  cases ev.record store tape row <;> rfl

end Evaluator

end Backprop
