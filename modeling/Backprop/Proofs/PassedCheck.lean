import Backprop.Proofs.CentralDifference
import Backprop.Proofs.Double.Comparison
import Backprop.Proofs.Double.Scientific

namespace Backprop

namespace CentralDifference

def allowed {α : Type} [OrderedScalar α] (d : CentralDifference α) (tolerance : α) : α :=
  tolerance * OrderedScalar.larger (OrderedScalar.abs d.slope) 1

variable {d : CentralDifference Float} {tolerance analytical : Float}

/-- The tolerance is scaled by a number that is finite and not a zero. -/
theorem exists_unpack_larger {x : Float} (hx : x.isFinite) : ∃ s m e hm,
    (OrderedScalar.larger (OrderedScalar.abs x) 1).toModel.unpack = .finite s m e hm := by
  have hpositive : (1.0 : Float).toModel.unpack.IsPositive := by decide +kernel
  have hnat : (1.0 : Float).IsNat 1 := by decide +kernel
  obtain ⟨m, e, hm, hone, _⟩ := hpositive.exists_finite hnat.magnitude?
  change ∃ s m e hm, (if x.abs.isNaN then 1.0 else if (1.0 : Float).isNaN then x.abs
    else if x.abs < 1.0 then 1.0 else x.abs).toModel.unpack = .finite s m e hm
  have hx' : ¬x.abs.isNaN := Float.isNaN_abs x ▸ Float.not_isNaN_of_isFinite hx
  rw [if_neg hx', if_neg (Float.not_isNaN_of_isFinite (by decide +kernel))]
  split
  · exact ⟨_, _, _, hm, hone⟩
  · next hlt =>
    change x.toModel.unpack.isFinite = true at hx
    rw [Float.lt_iff, hone, Float.unpack_abs] at hlt
    rw [Float.unpack_abs]
    cases hu : x.toModel.unpack with
    | finite s m e hm => exact ⟨_, _, _, hm, rfl⟩
    | zero =>
      rw [hu] at hlt
      exact absurd rfl hlt
    | notANumber | infinity =>
      rw [hu] at hx
      cases hx

theorem not_isNaN_difference (hs : d.slope.isFinite) (ha : analytical.isFinite) :
    ¬(d.difference analytical).isNaN := by
  have habs := Float.isNaN_abs (analytical - d.slope)
  intro h
  exact Float.not_isNaN_sub ha hs (habs ▸ h)

theorem not_isNaN_allowed (hs : d.slope.isFinite) (ht : ¬tolerance.isNaN) :
    ¬(d.allowed tolerance).isNaN := by
  obtain ⟨_, _, _, _, hunpack⟩ := exists_unpack_larger hs
  exact Float.not_isNaN_mul ht hunpack

theorem isNaN_allowed (d : CentralDifference Float) (ht : tolerance.isNaN) :
    (d.allowed tolerance).isNaN :=
  Float.isNaN_mul ht _

theorem agrees_iff (ha : analytical.isFinite) : d.agrees tolerance analytical ↔
    d.slope.isFinite ∧ (tolerance.isNaN ∨ d.difference analytical ≤ d.allowed tolerance) := by
  have hagrees : d.agrees tolerance analytical ↔
      d.slope.isFinite ∧ ¬d.allowed tolerance < d.difference analytical := by
    rw [agrees, Bool.and_eq_true, Bool.not_eq_true']
    exact and_congr_right fun _ => decide_eq_false_iff_not
  rw [hagrees]
  apply and_congr_right
  intro hs
  by_cases ht : tolerance.isNaN
  · exact iff_of_true (Float.not_lt_of_isNaN (.inl (d.isNaN_allowed ht))) (.inl ht)
  · rw [Float.le_iff_not_lt (not_isNaN_difference hs ha) (not_isNaN_allowed hs ht)]
    exact (or_iff_right ht).symm

end CentralDifference

namespace Evaluator

theorem finite_of_accumulateGradients {α : Type} [Scalar α] {ev : Evaluator α}
    {store after : ParameterStore α} {rows : List (Row α)} {epoch : Nat} {loss : α}
    (ha : ev.accumulateGradients store rows epoch = (.ok loss, after)) :
    ∀ x ∈ after.grads, Scalar.isFinite x := by
  have hends := accumulateGradients_ends ev store rows epoch
  rw [ha] at hends
  cases hends with
  | ok _ _ _ _ hgrads => exact findNonFinite?_eq_none_iff.1 hgrads

variable {g : Graph Float} {store : ParameterStore Float}

/-- A check succeeds if all gradients can be formed, each central difference is finite and each
gradient is no further from it than is allowed. With a tolerance that is not a number the last part
is passed over, although it does not hold of any gradient. -/
theorem checkGradients_passed (hs : store.Fits g) (labels : List String) (rows : List (Row Float))
    (epsilon tolerance : Float) :
    let ev := Evaluator.new g labels
    let d := g.centralDifference labels store rows epsilon
    (∀ id p, store.params[id]? = some p → ev.Measures store rows epsilon id p (d id p)) ∧
      (ev.checkGradients store rows epsilon tolerance = .ok () ↔ ∃ loss gradient,
        ev.accumulateGradients store rows 0 = (.ok loss, store.withGrads gradient) ∧
          ∀ id p, store.params[id]? = some p → (d id p).slope.isFinite ∧
            (tolerance.isNaN ∨ (d id p).difference (gradient id) ≤ (d id p).allowed tolerance)) ∧
      (tolerance.isNaN → ∀ id p analytical,
        ¬(d id p).difference analytical ≤ (d id p).allowed tolerance) := by
  intro ev d
  have hd (id : Nat) (p : Parameter Float) (_ : store.params[id]? = some p) :
      ev.Measures store rows epsilon id p (d id p) :=
    measures_centralDifference labels hs rows epsilon id p
  have hnode (p : Parameter Float) (hp : p ∈ store.params) :
      ∃ node, ev.graph.node? p.node = some node := hs.exists_node? hp
  have hcheck {loss : Float} {gradient : Nat → Float}
      (ha : ev.accumulateGradients store rows 0 = (.ok loss, store.withGrads gradient)) :
      ev.checkGradients store rows epsilon tolerance = .ok () ↔
        ∀ id p, store.params[id]? = some p → (d id p).slope.isFinite ∧
          (tolerance.isNaN ∨ (d id p).difference (gradient id) ≤ (d id p).allowed tolerance) := by
    have hfinite := finite_of_accumulateGradients ha
    rw [ParameterStore.grads_withGrads, List.forall_mem_map] at hfinite
    rw [checkGradients_eq ha, checkParameters_eq_ok_iff hnode hd]
    apply forall₃_congr
    intro id p hp
    obtain ⟨hid, _⟩ := Array.getElem?_eq_some_iff.1 hp
    exact CentralDifference.agrees_iff (hfinite id (List.mem_range.2 hid))
  refine ⟨hd, ⟨?passes, ?passed⟩, ?unchecked⟩
  case passes =>
    intro hok
    rcases ha : ev.accumulateGradients store rows 0 with ⟨result, after⟩
    cases result with
    | error failure =>
      rw [checkGradients, ha] at hok
      cases hok
    | ok loss =>
      obtain ⟨gradient, rfl⟩ := exists_withGrads ha
      exact ⟨loss, gradient, rfl, (hcheck ha).1 hok⟩
  case passed =>
    rintro ⟨_, _, ha, hpass⟩
    exact (hcheck ha).2 hpass
  case unchecked =>
    intro ht id p analytical
    exact Float.not_le_of_isNaN (.inr ((d id p).isNaN_allowed ht))

theorem checkGradients_passed_bias :
    let g : Graph Float := {
      size := 2
      nodes := #v[⟨"b", .bias, none, .linear, 0.5⟩, ⟨"output", .output, none, .linear, 0.0⟩]
      order := [0, 1]
      incoming := #v[[], [0]]
      hasDeclaredInputs := #v[false, true]
      output := some 1
      mode := .strict }
    let store : ParameterStore Float := ⟨#[⟨0, 0.5, 0.0⟩]⟩
    let rows : List (Row Float) := [⟨[], 1.0⟩]
    let ev := Evaluator.new g []
    let d := g.centralDifference [] store rows 1e-3 0 ⟨0, 0.5, 0.0⟩
    store.Fits g ∧ ev.checkGradients store rows 1e-3 1e-4 = .ok () ∧ ∃ loss gradient,
      ev.accumulateGradients store rows 0 = (.ok loss, store.withGrads gradient) ∧
        d.difference (gradient 0) ≤ d.allowed 1e-4 := by
  intro g store rows ev d
  have hs : store.Fits g := rfl
  have hok : ev.checkGradients store rows 1e-3 1e-4 = .ok () := by
    have hsome : (ev.checkGradients store rows 1e-3 1e-4).toOption = some () := by decide +kernel
    exact Except.toOption_eq_some_iff.1 hsome
  obtain ⟨_, hiff, _⟩ := checkGradients_passed hs [] rows 1e-3 1e-4
  obtain ⟨loss, gradient, ha, hpass⟩ := hiff.1 hok
  obtain ⟨_, hnear⟩ := hpass 0 _ rfl
  exact ⟨hs, hok, loss, gradient, ha, hnear.resolve_left (by decide +kernel)⟩

/-- At the kink of `relu` the gradient is 0 and the central difference is not near it, but the check
with a tolerance that is not a number succeeds. -/
theorem checkGradients_passed_kink :
    let g : Graph Float := {
      size := 3
      nodes := #v[⟨"b", .bias, none, .linear, 0.0⟩, ⟨"r", .neuron, none, .relu, 0.0⟩,
        ⟨"output", .output, none, .linear, 0.0⟩]
      order := [0, 1, 2]
      incoming := #v[[], [0], [1]]
      hasDeclaredInputs := #v[false, true, true]
      output := some 2
      mode := .strict }
    let store : ParameterStore Float := ⟨#[⟨0, 0.0, 0.0⟩]⟩
    let rows : List (Row Float) := [⟨[], 1.0⟩]
    let ev := Evaluator.new g []
    let d := g.centralDifference [] store rows 1e-3 0 ⟨0, 0.0, 0.0⟩
    ParameterStore.ofGraph g = .ok store ∧
      ev.checkGradients store rows 1e-3 (0.0 / 0.0) = .ok () ∧
      (ev.accumulateGradients store rows 0).2.grads = [0.0] ∧
      d.slope < -0.9 ∧ ¬d.difference 0.0 ≤ d.allowed (0.0 / 0.0) := by
  intro g store rows ev d
  have hsome : (ev.checkGradients store rows 1e-3 (0.0 / 0.0)).toOption = some () := by
    decide +kernel
  refine ⟨rfl, Except.toOption_eq_some_iff.1 hsome, ?_, ?_, ?_⟩
  · decide +kernel
  · decide +kernel
  · decide +kernel

end Evaluator

end Backprop
