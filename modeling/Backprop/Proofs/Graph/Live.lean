import Backprop.Proofs.Equations
import Backprop.Proofs.Exact

namespace Backprop.Graph

variable {α β : Type}

/-- The output node if it is evaluated, and whatever feeds into a live node and stands before it. -/
inductive Live (g : Graph β) : Fin g.size → Prop
  | output {i : Fin g.size} : g.output = some i → i ∈ g.order → Live g i
  | source {i j : Fin g.size} : Live g i → j ∈ g.incoming.get i → standsBefore g.order j i →
      Live g j

variable {g : Graph β}

theorem Live.mem_order {i : Fin g.size} (h : g.Live i) : i ∈ g.order := by
  cases h with
  | output _ hi => exact hi
  | source _ _ hb =>
    obtain ⟨hj, _, _⟩ := standsBefore_inv hb
    exact hj

theorem not_live (h : ∀ i, g.output = some i → i ∉ g.order) (i : Fin g.size) : ¬g.Live i := by
  intro hi
  induction hi with
  | output ho hi => exact h _ ho hi
  | source _ _ _ ih => exact ih

structure SameLive (g : Graph β) (env env' : Env α g.size) : Prop where
  input : ∀ i, g.Live i → env'.input i = env.input i
  parameter : ∀ i, g.Live i → env'.parameter i = env.parameter i

section

variable [Scalar α] {env env' : Env α g.size}

theorem nodeValue_env {i : Fin g.size} (hinput : env'.input i = env.input i)
    (hparameter : env'.parameter i = env.parameter i) (v : Vector (Option α) g.size) :
    g.nodeValue env' v i = g.nodeValue env v i := by
  rw [nodeValue, nodeValue, hinput, hparameter]

theorem SameLive.get_values (h : g.SameLive env env') (hn : g.order.Nodup) {i : Fin g.size}
    (hi : g.Live i) : (g.values env').get i = (g.values env).get i := by
  induction hk : g.order.idxOf i using Nat.strong_induction_on generalizing i with
  | _ k ih =>
    have hknown : ∀ j ∈ g.incoming.get i, (known g.order i (g.values env')).get j =
        (known g.order i (g.values env)).get j := by
      intro j hj
      rw [get_known, get_known]
      split
      · next hb =>
        obtain ⟨_, _, hlt⟩ := standsBefore_inv hb
        exact ih _ (hk ▸ hlt) (hi.source hj hb) rfl
      · rfl
    rw [solves_values hn env' i, solves_values hn env i, if_pos hi.mem_order, if_pos hi.mem_order,
      nodeValue_congr hknown, nodeValue_env (h.input i hi) (h.parameter i hi)]

theorem get_values_of_notMem (hn : g.order.Nodup) (env : Env α g.size) {i : Fin g.size}
    (hi : i ∉ g.order) : (g.values env).get i = none :=
  (solves_values hn env i).trans (if_neg hi)

theorem SameLive.prediction_eq (h : g.SameLive env env') (hn : g.order.Nodup) :
    g.prediction env' = g.prediction env := by
  have hvalue : g.output.bind (g.values env').get = g.output.bind (g.values env).get := by
    cases ho : g.output with
    | none => rfl
    | some i =>
      by_cases hi : i ∈ g.order
      · exact h.get_values hn (.output ho hi)
      · exact (get_values_of_notMem hn env' hi).trans (get_values_of_notMem hn env hi).symm
  rw [prediction, prediction, hvalue]

theorem prediction_of_not_evaluated (hn : g.order.Nodup)
    (h : ∀ i, g.output = some i → i ∉ g.order) : g.prediction env = 0 := by
  rw [prediction]
  cases ho : g.output with
  | none => rfl
  | some i =>
    have hi := get_values_of_notMem hn env (h i ho)
    rw [Option.bind_some, hi, Option.getD_none]

/-- Environments, one for each of some rows, that are the same at live nodes give the same loss. -/
theorem loss_of_sameLive {γ : Type} {rows : List γ} {e e' : γ → Env α g.size} {expected : γ → α}
    (hn : g.order.Nodup) (h : ∀ row ∈ rows, g.SameLive (e row) (e' row)) :
    g.loss (rows.map fun row => (e' row, expected row)) =
      g.loss (rows.map fun row => (e row, expected row)) := by
  have herrors : rows.map (fun row => g.squaredError (e' row) (expected row)) =
      rows.map fun row => g.squaredError (e row) (expected row) := by
    apply List.map_congr_left
    intro row hrow
    rw [squaredError, squaredError, (h row hrow).prediction_eq hn]
  rw [loss, loss, List.map_map, List.map_map]
  exact congrArg Scalar.mean herrors

end

section

open TrivSqZeroExt

variable {K : Type} [ExactScalar K] {env : Env (DualNumber K) g.size}

structure Still (env : Env (DualNumber K) g.size) : Prop where
  input : ∀ i, (env.input i).snd = 0
  parameter : ∀ i, (env.parameter i).snd = 0

theorem snd_incomingSum {v : Vector (Option (DualNumber K)) g.size}
    (hv : AllKnown (fun x => x.snd = 0) v) (i : Fin g.size) : (g.incomingSum v i).snd = 0 := by
  have hsum : ∀ x ∈ ((g.incoming.get i).filterMap v.get).map snd, x = 0 := by
    intro x hx
    obtain ⟨y, hy, rfl⟩ := List.mem_map.1 hx
    exact hv.of_mem hy
  rw [incomingSum]
  split
  · rfl
  · rw [Dual.snd_sum]
    exact List.sum_eq_zero hsum

theorem Still.snd_nodeValue (h : Still env) {v : Vector (Option (DualNumber K)) g.size}
    (hv : AllKnown (fun x => x.snd = 0) v) (i : Fin g.size) : (g.nodeValue env v i).snd = 0 := by
  have hsum := snd_incomingSum hv i
  rw [nodeValue]
  cases (g.node i).kind with
  | input => exact h.input i
  | bias => exact h.parameter i
  | weight =>
    dsimp only
    split
    · rw [snd_mul, hsum, h.parameter i, smul_zero, smul_zero, add_zero]
    · exact h.parameter i
  | neuron =>
    dsimp only
    rw [Dual.snd_activate, hsum, mul_zero]
  | activation =>
    dsimp only
    rw [Dual.snd_activate, hsum, mul_zero]
  | output => exact hsum

theorem Still.snd_valuesAfter (h : Still env) (is : List (Fin g.size))
    {v : Vector (Option (DualNumber K)) g.size} (hv : AllKnown (fun x => x.snd = 0) v) :
    AllKnown (fun x => x.snd = 0) (g.valuesAfter env is v) := by
  induction is generalizing v with
  | nil => exact hv
  | cons i is ih => exact ih (hv.place i (h.snd_nodeValue hv i))

theorem Still.snd_prediction (h : Still env) : (g.prediction env).snd = 0 := by
  have hvalues : AllKnown (fun x => x.snd = 0) (g.values env) :=
    h.snd_valuesAfter g.order (allKnown_replicate _ _)
  rw [prediction]
  cases hp : g.output.bind (g.values env).get with
  | none => rfl
  | some x =>
    obtain ⟨i, _, hi⟩ := Option.bind_eq_some_iff.1 hp
    exact hvalues i x hi

theorem Still.snd_squaredError (h : Still env) (expected : K) :
    (g.squaredError env (inl expected)).snd = 0 := by
  have hdiff : (g.prediction env - inl expected).snd = 0 := by
    rw [snd_sub, h.snd_prediction, snd_inl, sub_zero]
  rw [squaredError, snd_mul, hdiff, smul_zero, smul_zero, add_zero]

/-- A loss does not move if nothing else does. -/
theorem snd_loss_of_still {γ : Type} {rows : List γ} {e : γ → Env (DualNumber K) g.size}
    {expected : γ → K} (h : ∀ row ∈ rows, Still (e row)) :
    (g.loss (rows.map fun row => (e row, inl (expected row)))).snd = 0 := by
  rw [loss, Dual.snd_mean, Scalar.mean_eq, List.sum_eq_zero, zero_div]
  intro x hx
  simp only [List.map_map, List.mem_map, Function.comp_apply] at hx
  obtain ⟨row, hrow, rfl⟩ := hx
  exact (h row hrow).snd_squaredError _

end

end Backprop.Graph
