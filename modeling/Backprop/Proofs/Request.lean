import Backprop.Proofs.Report
import Backprop.Proofs.Training.Run
import Backprop.Request.Train

namespace Backprop

inductive Failure.IsRefusal {α : Type} : Failure α → Prop
  | graph (defect : GraphDefect) : IsRefusal (.invalidGraph defect)
  | config (defect : ConfigDefect α) : IsRefusal (.invalidConfig defect)
  | rows : IsRefusal .emptyDataset
  | parameters : IsRefusal .nothingToTrain

theorem Failure.IsRefusal.isRecoverable {α : Type} {failure : Failure α} (h : failure.IsRefusal) :
    failure.isRecoverable := by
  cases h <;> rfl

namespace TrainRequest

variable {r : TrainRequest} {failure : Failure Float} {graph : Graph Float}
  {store : ParameterStore Float}

def trainer (r : TrainRequest) (graph : Graph Float) : Trainer Float :=
  { graph, rows := r.trainingData, labels := r.inputLabels, config := r.config }

def prepare (r : TrainRequest) : Except (Failure Float) (Graph Float × ParameterStore Float) := do
  let graph ← r.graph.mapError Failure.invalidGraph
  let store ← (r.trainer graph).validate
  return (graph, store)

theorem train_of_graph (device : String) (elapsed : Float) (hg : r.graph = .ok graph) :
    r.train device elapsed = (r.trainer graph).outcome >>= fun outcome =>
      Report.new graph outcome.store outcome.history outcome.epochs elapsed device := by
  rw [train, hg]
  simp only [Trainer.run_fst]
  rfl

theorem train_of_outcome (device : String) (elapsed : Float) (hg : r.graph = .ok graph)
    {outcome : Outcome Float} (ho : (r.trainer graph).outcome = .ok outcome) :
    r.train device elapsed =
      .ok (.of graph outcome.store outcome.history outcome.epochs elapsed device) := by
  rw [train_of_graph device elapsed hg, ho]
  exact Report.new_eq (Trainer.storeAfter_fits (Trainer.storeAfter_of_outcome ho)) _ _ _ _

theorem train_of_failure (device : String) (elapsed : Float) (hg : r.graph = .ok graph)
    (ho : (r.trainer graph).outcome = .error failure) : r.train device elapsed = .error failure := by
  rw [train_of_graph device elapsed hg, ho]
  rfl

/-- A report is on a run that succeeded. -/
theorem exists_outcome_of_train {device : String} {elapsed : Float} {report : Report}
    (h : r.train device elapsed = .ok report) :
    ∃ graph outcome, r.graph = .ok graph ∧ (r.trainer graph).outcome = .ok outcome ∧
      report = .of graph outcome.store outcome.history outcome.epochs elapsed device := by
  cases hg : r.graph with
  | error defect =>
    rw [train, hg] at h
    cases h
  | ok graph =>
    cases ho : (r.trainer graph).outcome with
    | error failure =>
      rw [train_of_failure device elapsed hg ho] at h
      cases h
    | ok outcome =>
      rw [train_of_outcome device elapsed hg ho] at h
      exact ⟨graph, outcome, rfl, ho, (Except.ok.inj h).symm⟩

theorem prepare_of_graph (hg : r.graph = .ok graph) :
    r.prepare = (r.trainer graph).validate.map (graph, ·) := by
  rw [prepare, hg]
  rfl

/-- Training ends in one of three ways. It refuses the request before the first epoch; it reports; or
a number that is not finite comes up in one of the epochs, and if in a row, in one that there is. The
interval between two samples is never 0. -/
theorem train_refuses_or_reports_or_nonFinite (r : TrainRequest) (device : String)
    (elapsed : Float) :
    0 < r.config.interval ∧
      ((∃ failure, r.prepare = .error failure ∧ r.train device elapsed = .error failure ∧
          failure.IsRefusal ∧ failure.isRecoverable) ∨
        (∃ p report, r.prepare = .ok p ∧ r.train device elapsed = .ok report) ∨
        ∃ p epoch row stage x, r.prepare = .ok p ∧
          r.train device elapsed = .error (.nonFinite epoch row stage x) ∧ epoch < r.epochs ∧
            ∀ n ∈ row, n < r.trainingData.length) := by
  refine ⟨Nat.le_max_left _ _, ?_⟩
  cases hg : r.graph with
  | error defect =>
    have hp : r.prepare = .error (.invalidGraph defect) := by
      rw [prepare, hg]
      rfl
    have ht : r.train device elapsed = .error (.invalidGraph defect) := by
      rw [train, hg]
      rfl
    exact .inl ⟨_, hp, ht, .graph defect, rfl⟩
  | ok graph =>
    have hp := prepare_of_graph hg
    cases hv : (r.trainer graph).validate with
    | error failure =>
      rw [hv] at hp
      have ho : (r.trainer graph).outcome = .error failure := by
        rw [Trainer.outcome, hv]
        rfl
      have hf : failure.IsRefusal := by
        rcases Trainer.validate_error hv with rfl | rfl | rfl
        · exact .config _
        · exact .rows
        · exact .parameters
      exact .inl ⟨failure, hp, train_of_failure device elapsed hg ho, hf, hf.isRecoverable⟩
    | ok store =>
      rw [hv] at hp
      refine .inr ?_
      cases ho : (r.trainer graph).outcome with
      | ok outcome => exact .inl ⟨_, _, hp, train_of_outcome device elapsed hg ho⟩
      | error failure =>
        rcases Trainer.outcome_error ho with h | ⟨_, epoch, row, stage, x, rfl, he, hn⟩
        · rw [hv] at h
          cases h
        · exact .inr ⟨_, epoch, row, stage, x, hp, train_of_failure device elapsed hg ho, he, hn⟩

end TrainRequest

end Backprop
