import Backprop.Proofs.Double.Product
import Backprop.Proofs.Epoch
import Backprop.Proofs.Training.Ends
import Backprop.Proofs.Training.Finite

namespace Backprop

section

variable {α : Type} [Scalar α] {ev : Evaluator α} {store store' : ParameterStore α}

namespace Evaluator

theorem addErrors_congr (h : ∀ node, store'.lookUp? node = store.lookUp? node) (total : α)
    (rows : List (Row α)) : ev.addErrors store' total rows = ev.addErrors store total rows := by
  induction rows generalizing total with
  | nil => rfl
  | cons row rows ih =>
    rw [addErrors, addErrors, evaluate, evaluate, record_congr h]
    simp only [ih]

theorem epochLoss_congr (h : ∀ node, store'.lookUp? node = store.lookUp? node)
    (rows : List (Row α)) : ev.epochLoss store' rows = ev.epochLoss store rows := by
  rw [epochLoss, epochLoss, addErrors_congr h]

end Evaluator

end

/-- A mean is added up from zero as well if its first item makes no difference between the two. -/
theorem Scalar.mean_map_cons {β : Type} {f : β → Float} {b : β}
    (hstart : (Scalar.sumStart : Float) + f b = 0 + f b) (bs : List β) :
    Scalar.mean ((b :: bs).map f) =
      (b :: bs).foldl (fun total b => total + f b) 0 / ((b :: bs).length : Float) := by
  rw [mean, sum, List.length_map, List.foldl_map, List.foldl_cons, List.foldl_cons, hstart]
  rfl

namespace Evaluator

variable {ev : Evaluator Float} {store store' : ParameterStore Float} {rows : List (Row Float)}
  {epoch : Nat}

theorem epochLoss_of_recordEpoch {loss : Float} {root : Handle} {tape : Tape Float}
    (hr : ev.recordEpoch store rows epoch = .ok (loss, root, tape)) :
    ev.epochLoss store rows = .ok loss := by
  let error (row : Row Float) : Float :=
    ev.graph.squaredError (ev.envIn (.refl Float) store row) row.expected
  have hloss : loss = Scalar.mean (rows.map error) := by
    rw [recordEpoch_loss hr, Graph.loss, casesIn, List.map_map]
    rfl
  cases rows with
  | nil =>
    rw [hloss]
    rfl
  | cons row rows =>
    have hp := readable_of_recordEpoch hr (List.cons_ne_nil row rows)
    obtain ⟨_, _, hfinite⟩ := recordEpoch_finite hr
    have hsquare := (hfinite row List.mem_cons_self).squaredError
    -- The two sums start from different zeros, but a square is never a negative zero.
    have hstart : (Scalar.sumStart : Float) + error row = 0 + error row :=
      Float.negZero_add_mul_self hsquare
    rw [epochLoss, addErrors_of_readable hp, hloss, Scalar.mean_map_cons hstart]
    rfl

/-- Where an epoch succeeds, the loss that it returns is the one that is added up row by row, on the
same store or on one that differs in its gradients only. -/
theorem epochLoss_of_accumulateGradients {loss : Float}
    (h : (ev.accumulateGradients store rows epoch).1 = .ok loss)
    (hvalues : store'.values = store.values)
    (hparams : ∀ node, store'.paramFor? node = store.paramFor? node) :
    ev.epochLoss store' rows = .ok loss := by
  have hends := accumulateGradients_ends ev store rows epoch
  rw [h] at hends
  generalize (ev.accumulateGradients store rows epoch).2 = after at hends
  cases hends with
  | ok _ _ _ hr =>
    rw [epochLoss_congr fun node => ParameterStore.lookUp?_congr hvalues (hparams node)]
    exact epochLoss_of_recordEpoch hr

theorem epochLoss_of_accumulateGradients_two_rows :
    let g : Graph Float := {
      size := 3
      nodes := #v[⟨"x", .input, some "x", .linear, 0.0⟩, ⟨"w", .weight, none, .linear, 3.0⟩,
        ⟨"output", .neuron, none, .relu, 0.0⟩]
      order := [0, 1, 2]
      incoming := #v[[], [0], [1]]
      hasDeclaredInputs := #v[false, true, true]
      output := some 2
      mode := .lenient }
    let store : ParameterStore Float := ⟨#[⟨1, 3.0, 0.0⟩]⟩
    let store' : ParameterStore Float := ⟨#[⟨1, 3.0, 7.0⟩]⟩
    let rows : List (Row Float) := [⟨[2.0], 6.0⟩, ⟨[0.1], 1.0⟩]
    ∃ loss, ((Evaluator.new g ["x"]).accumulateGradients store rows 0).1 = .ok loss ∧
      store'.values = store.values ∧ (∀ node, store'.paramFor? node = store.paramFor? node) ∧
      (Evaluator.new g ["x"]).epochLoss store' rows = .ok loss := by
  intro g store store' rows
  have hok : ((Evaluator.new g ["x"]).accumulateGradients store rows 0).1.toOption.isSome = true := by
    decide +kernel
  have hparams (node : Nat) : store'.paramFor? node = store.paramFor? node := by
    rw [ParameterStore.paramFor?_eq, ParameterStore.paramFor?_eq]
    rfl
  cases hr : ((Evaluator.new g ["x"]).accumulateGradients store rows 0).1 with
  | error failure =>
    rw [hr] at hok
    cases hok
  | ok loss =>
    exact ⟨loss, rfl, rfl, hparams, epochLoss_of_accumulateGradients hr rfl hparams⟩

end Evaluator

end Backprop
