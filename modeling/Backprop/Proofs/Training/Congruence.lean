import Backprop.Proofs.Tape.Renaming
import Backprop.Proofs.Training.Run

namespace Backprop

variable {α : Type} [Scalar α]

namespace Evaluator

abbrev exchange (ev : Evaluator α) (nodes : Vector (Node α) ev.graph.size) (mode : Mode) :
    Evaluator α :=
  { graph := { ev.graph with nodes, mode }, columns := ev.columns }

section Exchange

variable {ev : Evaluator α} {nodes : Vector (Node α) ev.graph.size} {mode : Mode}
  {columns : Vector (Option Nat) ev.graph.size} {store : ParameterStore α} {row row' : Row α}

theorem recordNodes_exchange {is : List (Fin ev.graph.size)}
    (h : ∀ i ∈ is, ∀ handles tape,
      ({ ev.exchange nodes mode with columns } : Evaluator α).recordNode store row' handles tape i =
        ev.recordNode store row handles tape i)
    (handles : Vector (Option Handle) ev.graph.size) (tape : Tape α) :
    ({ ev.exchange nodes mode with columns } : Evaluator α).recordNodes store row' is handles tape =
      ev.recordNodes store row is handles tape := by
  induction is generalizing handles tape with
  | nil => rfl
  | cons i is ih =>
    obtain ⟨hi, his⟩ := List.forall_mem_cons.1 h
    rw [recordNodes, recordNodes, hi]
    simp only [ih his]

/-- It is enough that every node is recorded as before, be it from another row. -/
theorem record_exchange
    (h : ∀ i ∈ ev.graph.order, ∀ handles tape,
      ({ ev.exchange nodes mode with columns } : Evaluator α).recordNode store row' handles tape i =
        ev.recordNode store row handles tape i) (tape : Tape α) :
    ({ ev.exchange nodes mode with columns } : Evaluator α).record store tape row' =
      ev.record store tape row := by
  rw [record, record, recordNodes_exchange h]

end Exchange

section Rename

variable {ev ev' : Evaluator α} {store store' : ParameterStore α} {rows : List (Row α)}
  {ρ : Nat → Nat}

/-- The second evaluator leaves the tapes that the first leaves, with other numbers for the
parameters. -/
def TracesAs (ρ : Nat → Nat) (ev ev' : Evaluator α) (store store' : ParameterStore α)
    (row : Row α) : Prop :=
  ∀ tape : Tape α, ev'.trace store' (tape.rename ρ) row =
    (ev.trace store tape row).map (Prod.map id (Tape.rename ρ))

theorem Renaming.tracesAs (σ : ev.Renaming ev') (h : σ.Finds ρ store store') (row : Row α) :
    TracesAs ρ ev ev' store store' row :=
  fun tape => trace_embed (e := Tape.renumbering ρ) h tape row

theorem recordLoss_rename {row : Row α} (h : TracesAs ρ ev ev' store store' row)
    (epoch number : Nat) (tape : Tape α) :
    ev'.recordLoss store' epoch number row (tape.rename ρ) =
      (ev.recordLoss store epoch number row tape).map (Prod.map id (Tape.rename ρ)) := by
  rw [recordLoss_eq_trace, recordLoss_eq_trace, h tape]
  cases ev.trace store tape row with
  | error failure => rfl
  | ok p =>
    have hcall : (p.2.rename ρ).squaredError p.1 row.expected =
        (p.2.squaredError p.1 row.expected).map (Prod.map id (Tape.rename ρ)) :=
      Tape.call_rename ρ p.2 (.squaredError p.1 row.expected)
    simp only [Except.map, Prod.map, bind, Except.bind, id, hcall, Tape.size_rename]
    cases p.2.squaredError p.1 row.expected with
    | error failure => rfl
    | ok q =>
      simp only [Tape.valuesFrom_rename]
      split <;> rfl

theorem recordLosses_rename (h : ∀ row ∈ rows, TracesAs ρ ev ev' store store' row)
    (epoch number : Nat) (tape : Tape α) :
    ev'.recordLosses store' epoch number rows (tape.rename ρ) =
      (ev.recordLosses store epoch number rows tape).map (Prod.map id (Tape.rename ρ)) := by
  induction rows generalizing number tape with
  | nil => rfl
  | cons row rows ih =>
    obtain ⟨hrow, hrows⟩ := List.forall_mem_cons.1 h
    rw [recordLosses, recordLosses, recordLoss_rename hrow]
    cases ev.recordLoss store epoch number row tape with
    | error failure => rfl
    | ok p =>
      have hrest := ih hrows (number + 1) p.2
      simp only [Except.map, Prod.map, bind, Except.bind, hrest]
      cases ev.recordLosses store epoch (number + 1) rows p.2 <;> rfl

theorem recordEpoch_rename (h : ∀ row ∈ rows, TracesAs ρ ev ev' store store' row) (epoch : Nat) :
    ev'.recordEpoch store' rows epoch =
      (ev.recordEpoch store rows epoch).map (Prod.map id (Prod.map id (Tape.rename ρ))) := by
  have hlosses := recordLosses_rename h epoch 0 .empty
  rw [Tape.empty_rename] at hlosses
  rw [recordEpoch, recordEpoch, hlosses]
  cases ev.recordLosses store epoch 0 rows .empty with
  | error failure => rfl
  | ok p =>
    have hmean : (p.2.rename ρ).mean p.1 = (p.2.mean p.1).map (Prod.map id (Tape.rename ρ)) :=
      Tape.call_rename ρ p.2 (.mean p.1)
    simp only [Except.map, Prod.map, bind, Except.bind, id, hmean]
    cases p.2.mean p.1 with
    | error failure => rfl
    | ok q =>
      simp only [Tape.value_rename]
      cases q.2.value q.1 with
      | error failure => rfl
      | ok x => by_cases hx : Scalar.isFinite x <;> simp only [hx] <;> rfl

end Rename

section Retrace

variable {ev ev' : Evaluator α} {store : ParameterStore α} {rows rows' : List (Row α)}

/-- The second evaluator leaves for its row the tapes that the first leaves for another, and both rows
expect the same. -/
structure Retraces (ev ev' : Evaluator α) (store : ParameterStore α) (row row' : Row α) : Prop where
  expected : row'.expected = row.expected
  trace : ∀ tape, ev'.trace store tape row' = ev.trace store tape row

theorem Retraces.recordLoss {row row' : Row α} (h : Retraces ev ev' store row row')
    (epoch number : Nat) (tape : Tape α) :
    ev'.recordLoss store epoch number row' tape = ev.recordLoss store epoch number row tape := by
  rw [recordLoss_eq_trace, recordLoss_eq_trace, h.trace, h.expected]

theorem recordLosses_of_retraces (h : List.Forall₂ (Retraces ev ev' store) rows rows')
    (epoch number : Nat) (tape : Tape α) :
    ev'.recordLosses store epoch number rows' tape =
      ev.recordLosses store epoch number rows tape := by
  induction h generalizing number tape with
  | nil => rfl
  | cons hrow hrows ih =>
    rw [recordLosses, recordLosses, hrow.recordLoss]
    simp only [ih]

theorem recordEpoch_of_retraces (h : List.Forall₂ (Retraces ev ev' store) rows rows')
    (epoch : Nat) : ev'.recordEpoch store rows' epoch = ev.recordEpoch store rows epoch := by
  rw [recordEpoch, recordEpoch, recordLosses_of_retraces h]

theorem accumulateGradients_of_retraces (h : List.Forall₂ (Retraces ev ev' store) rows rows')
    (epoch : Nat) :
    ev'.accumulateGradients store rows' epoch = ev.accumulateGradients store rows epoch := by
  rw [accumulateGradients, accumulateGradients, recordEpoch_of_retraces h]

theorem accumulateGradients_congr
    (h : ∀ tape, ∀ row ∈ rows, ev'.trace store tape row = ev.trace store tape row) (epoch : Nat) :
    ev'.accumulateGradients store rows epoch = ev.accumulateGradients store rows epoch :=
  accumulateGradients_of_retraces
    (List.forall₂_same.2 fun row hrow => ⟨rfl, fun tape => h tape row hrow⟩) epoch

end Retrace

end Evaluator

namespace Trainer

variable {t t' : Trainer α} {g : Graph α} {ev ev' : Evaluator α}

theorem runEpochs_congr (hconfig : t'.config = t.config)
    (h : ∀ store, store.Fits g → ∀ epoch,
      ev'.accumulateGradients store t'.rows epoch = ev.accumulateGradients store t.rows epoch)
    {store : ParameterStore α} (hs : store.Fits g) (count epoch : Nat) (history : List α) :
    t'.runEpochs ev' count epoch store history = t.runEpochs ev count epoch store history := by
  induction count generalizing epoch store history with
  | zero => rfl
  | succ count ih =>
    have hr : t'.runEpoch ev' store epoch = t.runEpoch ev store epoch := by
      rw [runEpoch, runEpoch, hconfig, h store hs]
    rw [runEpochs, runEpochs, hr, hconfig]
    split
    · rfl
    · next hr => exact ih (runEpoch_fits hs hr) _ _

/-- Of its graph and its rows a trainer uses the values that the parameters start from, whether there
is a row at all and what each epoch comes to. -/
theorem outcome_congr (hconfig : t'.config = t.config) (hrows : t'.rows.isEmpty = t.rows.isEmpty)
    (hstart : ParameterStore.ofGraph t'.graph = ParameterStore.ofGraph t.graph)
    (h : ∀ store, store.Fits t.graph → ∀ epoch,
      (Evaluator.new t'.graph t'.labels).accumulateGradients store t'.rows epoch =
        (Evaluator.new t.graph t.labels).accumulateGradients store t.rows epoch) :
    t'.outcome = t.outcome := by
  have hv : t'.validate = t.validate := by
    rw [validate, validate, hconfig, hrows, hstart]
  rw [outcome, outcome, hv, hconfig]
  cases hs : t.validate with
  | error failure => rfl
  | ok store =>
    have hr := runEpochs_congr hconfig h (validate_fits hs) t.config.epochs 0 []
    simp only [bind, Except.bind, hr]

end Trainer

end Backprop
