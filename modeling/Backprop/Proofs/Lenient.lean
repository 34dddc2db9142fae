import Backprop.Proofs.Graph.Build
import Backprop.Proofs.Request
import Backprop.Proofs.Training.Congruence

namespace Backprop

variable {α : Type} {connections : List Connection} {order : List String} {output : String}

theorem Node.ofNames_lenient {id kind : String} {label activation : Option String} {initial : α}
    {n : Node α} (h : ofNames false id kind label activation initial = .ok n) :
    ofNames true id kind label activation initial = .ok n := by
  cases hk : NodeKind.ofName? kind with
  | none =>
    simp only [ofNames, hk] at h
    cases h
  | some k =>
    cases activation with
    | none =>
      simp only [ofNames, hk] at h ⊢
      exact h
    | some name =>
      cases ha : Activation.ofName? name with
      | none =>
        simp only [ofNames, hk, ha] at h
        cases h
      | some a =>
        simp only [ofNames, hk, ha] at h ⊢
        exact h

namespace Graph

variable {n : Nat} {index : String → Option (Fin n)}

theorem resolveConnections_lenient {edges : List (Fin n × Fin n)}
    (h : resolveConnections .strict index connections = .ok edges) :
    resolveConnections .lenient index connections = .ok edges := by
  induction connections generalizing edges with
  | nil => exact h
  | cons c cs ih =>
    rw [resolveConnections] at h ⊢
    split at h
    · next i j hi hj =>
      obtain ⟨es, hes, h⟩ := Except.bind_eq_ok_iff.1 h
      rw [ih hes]
      exact h
    · cases h

theorem resolveOrder_lenient {seen is : List (Fin n)}
    (h : resolveOrder .strict index seen order = .ok is) :
    resolveOrder .lenient index seen order = .ok is := by
  induction order generalizing seen is with
  | nil => exact h
  | cons id ids ih =>
    cases hi : index id with
    | none =>
      simp only [resolveOrder, hi] at h
      cases h
    | some i =>
      simp only [resolveOrder, hi] at h ⊢
      split at h
      · cases h
      · next hs =>
        obtain ⟨js, hjs, h⟩ := Except.bind_eq_ok_iff.1 h
        rw [if_neg hs, ih hjs]
        exact h

abbrev lenient (g : Graph α) : Graph α :=
  { g with mode := .lenient }

theorem build_lenient {nodes : List (Node α)} {g : Graph α}
    (h : build nodes connections order { mode := .strict, output } = .ok g) :
    build nodes connections order { mode := .lenient, output } = .ok g.lenient := by
  obtain ⟨hn, edges, is, hes, his, _, rfl⟩ := build_iff.1 h
  exact build_iff.2 ⟨hn, edges, is, resolveConnections_lenient hes, resolveOrder_lenient his,
    nofun, rfl⟩

end Graph

variable [Scalar α]

namespace Evaluator

abbrev lenient (ev : Evaluator α) : Evaluator α :=
  ev.exchange ev.graph.nodes .lenient

theorem record_lenient (ev : Evaluator α) (store : ParameterStore α) (tape : Tape α)
    (row : Row α) : ev.lenient.record store tape row = ev.record store tape row := by
  apply record_exchange
  intro i _ handles tape
  rfl

theorem evaluate_lenient (ev : Evaluator α) (store : ParameterStore α) (row : Row α) :
    ev.lenient.evaluate store row = ev.evaluate store row := by
  rw [evaluate, evaluate, record_lenient]

end Evaluator

/-- A trainer does not look at the mode of its graph. -/
theorem Trainer.run_lenient (t : Trainer α) :
    ({ t with graph := t.graph.lenient } : Trainer α).run.1 = t.run.1 := by
  rw [run_fst, run_fst]
  have hstart : ParameterStore.ofGraph t.graph.lenient = ParameterStore.ofGraph t.graph :=
    ParameterStore.ofGraph_congr rfl
  refine outcome_congr rfl rfl hstart fun store _ epoch => ?_
  apply Evaluator.accumulateGradients_congr
  intro tape row _
  exact congrArg (Except.map _) ((Evaluator.new t.graph t.labels).record_lenient store tape row)

/-- What of a report depends on how long training took. -/
theorem Report.new_elapsed (g : Graph Float) (store : ParameterStore Float) (history : List Float)
    (epochs : Nat) (elapsed elapsed' : Float) (device : String) :
    Report.new g store history epochs elapsed' device =
      (Report.new g store history epochs elapsed device).map
        ({ · with elapsed := Decimal.roundTo elapsed' elapsedPlaces }) := by
  rw [Report.new, Report.new]
  cases store.params.toList.mapM (trainedWeight g) <;> rfl

namespace TrainRequest

variable {r : TrainRequest} {g : Graph Float}

def withLenient (r : TrainRequest) (lenient : Bool) : TrainRequest :=
  { r with lenient }

theorem graphNodes_lenient {nodes : List (Node Float)}
    (h : (r.withLenient false).graphNodes = .ok nodes) :
    (r.withLenient true).graphNodes = .ok nodes :=
  Except.mapM_imp h fun _ _ _ => Node.ofNames_lenient

theorem graph_lenient (h : (r.withLenient false).graph = .ok g) :
    (r.withLenient true).graph = .ok g.lenient := by
  obtain ⟨nodes, hnodes, hb⟩ := Except.bind_eq_ok_iff.1 h
  exact Except.bind_eq_ok_iff.2 ⟨nodes, graphNodes_lenient hnodes, Graph.build_lenient hb⟩

/-- What strict mode accepts, lenient mode treats in the same way: the graph is the same but for its
mode, and so is every evaluation, every run and, but for the time that it took, the report. -/
theorem lenient_of_strict (h : (r.withLenient false).graph = .ok g) :
    (r.withLenient true).graph = .ok { g with mode := .lenient } ∧
      (∀ labels store row,
        (Evaluator.new { g with mode := .lenient } labels).evaluate store row =
          (Evaluator.new g labels).evaluate store row) ∧
      (∀ t : Trainer Float, ({ t with graph := { g with mode := .lenient } } : Trainer Float).run.1 =
        ({ t with graph := g } : Trainer Float).run.1) ∧
      ∀ device elapsed elapsed', (r.withLenient true).train device elapsed' =
        ((r.withLenient false).train device elapsed).map
          ({ · with elapsed := Decimal.roundTo elapsed' Report.elapsedPlaces }) := by
  have hg := graph_lenient h
  have hrun (t : Trainer Float) := Trainer.run_lenient { t with graph := g }
  refine ⟨hg, ?_, hrun, ?_⟩
  · intro labels store row
    exact (Evaluator.new g labels).evaluate_lenient store row
  · intro device elapsed elapsed'
    have ho : ((r.withLenient true).trainer g.lenient).outcome =
        ((r.withLenient false).trainer g).outcome := by
      have ho := hrun ((r.withLenient true).trainer g)
      rw [Trainer.run_fst, Trainer.run_fst] at ho
      exact ho
    rw [train_of_graph device elapsed' hg, train_of_graph device elapsed h, ho]
    cases ((r.withLenient false).trainer g).outcome with
    | error failure => rfl
    | ok outcome =>
      exact Report.new_elapsed g outcome.store outcome.history outcome.epochs elapsed elapsed' device

theorem lenient_of_strict_one_weight :
    let r : TrainRequest := {
      nodes := [("x", ⟨"input", some "x", none, none⟩), ("w", ⟨"weight", none, none, some 0.5⟩),
        ("output", ⟨"output", none, none, none⟩)]
      connections := [⟨"x", "w"⟩, ⟨"w", "output"⟩]
      trainingData := [⟨[1.0], 2.0⟩]
      learningRate := 0.1
      epochs := 2
      inputLabels := ["x"]
      topologicalOrder := ["x", "w", "output"]
      outputNode := Graph.defaultOutput
      lenient := false }
    ∃ g, (r.withLenient false).graph = .ok g ∧
      (r.withLenient true).graph = .ok { g with mode := .lenient } ∧
        ∀ device elapsed elapsed', (r.withLenient true).train device elapsed' =
          ((r.withLenient false).train device elapsed).map
            ({ · with elapsed := Decimal.roundTo elapsed' Report.elapsedPlaces }) := by
  intro r
  have hok : (r.withLenient false).graph.toOption.isSome := by decide +kernel
  cases hg : (r.withLenient false).graph with
  | error defect =>
    rw [hg] at hok
    cases hok
  | ok g =>
    obtain ⟨hlenient, _, _, htrain⟩ := lenient_of_strict hg
    exact ⟨g, rfl, hlenient, htrain⟩

end TrainRequest

end Backprop
