import Mathlib
import Backprop.Proofs.CentralDifference
import Backprop.Proofs.Gradient
import Backprop.Proofs.Graph.Build
import Backprop.Proofs.Linear

namespace Backprop

open TrivSqZeroExt

variable {K : Type} [ExactOrderedScalar K]

-- Both are local: elsewhere there is no second way from a field to its arithmetic.
local instance : LinearScalar K where
  __ := (inferInstance : Scalar K)
  __ := (inferInstance : CommRing K)
  sumStart_eq := ExactScalar.sumStart_eq
  activate_linear := ExactOrderedScalar.activate_linear

local instance : LinearScalar (DualNumber K) where
  __ := (inferInstance : Scalar (DualNumber K))
  __ := (inferInstance : CommRing (DualNumber K))
  sumStart_eq := rfl
  activate_linear x := by
    apply TrivSqZeroExt.ext
    · rw [Dual.fst_activate, ExactOrderedScalar.activate_linear]
    · rw [Dual.snd_activate, ExactOrderedScalar.slope_linear, one_mul]

namespace Graph

variable {g : Graph K}

def lossAt (g : Graph K) (labels : List String) (store : ParameterStore K) (rows : List (Row K))
    (p : Parameter K) (x : K) : K :=
  g.loss <| rows.map fun row => ((g.env labels store row).vary id p.node x, row.expected)

/-- The squared error is quadratic in each parameter of a linear network: over an interval it grows by
its derivative in the middle. -/
theorem squaredError_central (hg : g.Linear) (hn : g.order.Nodup) (env : Env K g.size)
    (p : Fin g.size) (expected x h : K) :
    g.squaredError (env.vary id p (x + h)) expected =
      g.squaredError (env.vary id p (x - h)) expected + (1 + 1) * h *
        (g.squaredError (env.vary inl p (inl x + DualNumber.eps)) (inl expected)).snd := by
  obtain ⟨l, hl⟩ := exists_prediction_eq hg hn env p
  have hp (y : K) : g.prediction (env.vary id p y) = l.base + l.slope * y := hl (RingHom.id K) y
  have hd : g.prediction (env.vary inl p (inl x + DualNumber.eps)) =
      inl l.base + inl l.slope * (inl x + DualNumber.eps) := hl (inlHom K K) _
  have hsnd : (g.squaredError (env.vary inl p (inl x + DualNumber.eps)) (inl expected)).snd =
      (1 + 1) * (l.base + l.slope * x - expected) * l.slope := by
    rw [squaredError, hd]
    apply (snd_mul _ _).trans
    simp
    ring
  rw [hsnd, squaredError, squaredError, hp, hp]
  ring

/-- So does the loss, and its central difference is what stands with `ε` at `θ + ε`. -/
theorem loss_central (hg : g.Linear) (hn : g.order.Nodup) (labels : List String)
    (store : ParameterStore K) (rows : List (Row K)) {p : Parameter K} {i : Fin g.size}
    (hi : p.node = i) {h : K} (hh : h ≠ 0) :
    (g.lossAt labels store rows p (p.value + h) - g.lossAt labels store rows p (p.value - h)) /
        ((1 + 1) * h) =
      (g.dualLoss labels store rows p).snd := by
  have hrows : (rows.map fun row => g.squaredError
        ((g.env labels store row).vary id p.node (p.value + h)) row.expected).sum =
      (rows.map fun row => g.squaredError
        ((g.env labels store row).vary id p.node (p.value - h)) row.expected).sum +
      (1 + 1) * h * (rows.map fun row => (g.squaredError ((g.env labels store row).vary inl p.node
        (inl p.value + DualNumber.eps)) (inl row.expected)).snd).sum := by
    rw [← List.sum_map_mul_left, ← List.sum_map_add, hi]
    exact congrArg List.sum (List.map_congr_left fun row _ => squaredError_central hg hn ..)
  have htwo : (1 + 1 : K) ≠ 0 := by
    rw [one_add_one_eq_two]
    exact two_ne_zero
  rw [lossAt, lossAt, dualLoss, loss, loss, loss, Dual.snd_mean]
  simp only [Scalar.mean_eq, List.map_map, List.length_map, Function.comp_def, hrows]
  field_simp
  ring

theorem addedLoss_eq (g : Graph K) (labels : List String)
    (store : ParameterStore K) (rows : List (Row K)) :
    g.addedLoss labels store rows =
      g.loss (rows.map fun row => (g.env labels store row, row.expected)) := by
  rw [addedLoss, loss, Scalar.mean_eq, List.map_map, List.length_map, List.sum_eq_foldl,
    List.foldl_map]
  cases rows with
  | nil => exact (zero_div _).symm
  | cons row rows => rfl

end Graph

namespace Evaluator

variable {g : Graph K} {store : ParameterStore K} {k : Nat} {p : Parameter K}

theorem env_put (labels : List String) (hs : store.Fits g) (hp : store.params[k]? = some p)
    (row : Row K) (x : K) :
    g.env labels (store.put k x) row = (g.env labels store row).vary id p.node x :=
  congrArg (Env.mk _) (funext fun i => hs.valueOf_put hp x i)

theorem stepSize_pos {epsilon : K} (he : 0 < epsilon) (x : K) : 0 < stepSize epsilon x := by
  rw [stepSize, ExactOrderedScalar.larger_eq]
  exact lt_max_of_lt_left he

theorem agrees_slope {tolerance : K} (ht : 0 ≤ tolerance) (d : CentralDifference K) :
    d.agrees tolerance d.slope := by
  have hallowed : 0 ≤ tolerance * max (OrderedScalar.abs d.slope) 1 :=
    mul_nonneg ht (le_max_of_le_right zero_le_one)
  have hexceeds : OrderedScalar.exceeds (d.difference d.slope)
      (tolerance * OrderedScalar.larger (OrderedScalar.abs d.slope) 1) = false := by
    rw [CentralDifference.difference, sub_self, ExactOrderedScalar.exceeds_eq,
      ExactOrderedScalar.larger_eq, ExactOrderedScalar.abs_eq 0, neg_zero, max_self,
      decide_eq_false_iff_not, not_lt]
    exact hallowed
  rw [CentralDifference.agrees, ExactScalar.isFinite_eq, hexceeds]
  rfl

theorem slope_centralDifference (hg : g.Linear) (hn : g.order.Nodup) (labels : List String)
    (hs : store.Fits g) (hp : store.params[k]? = some p) (rows : List (Row K)) {epsilon : K}
    (he : 0 < epsilon) :
    (g.centralDifference labels store rows epsilon k p).slope =
      (g.dualLoss labels store rows p).snd := by
  obtain ⟨i, _, hi⟩ := hs.exists_node hp
  have hloss (x : K) : g.addedLoss labels (store.put k x) rows = g.lossAt labels store rows p x := by
    simp only [Graph.addedLoss_eq, env_put labels hs hp, Graph.lossAt]
  rw [CentralDifference.slope, Graph.centralDifference, hloss, hloss]
  exact Graph.loss_central hg hn labels store rows hi (stepSize_pos he p.value).ne'

/-- The gradients of a linear network are the slopes of their central differences, and so they pass
their check, however small the tolerance. -/
theorem checkGradients_linear {nodes : List (Node K)} {connections : List Connection}
    {order : List String} {options : Graph.Options}
    (hb : Graph.build nodes connections order options = .ok g) (hg : g.Linear)
    (hs : store.Fits g) (labels : List String) (rows : List (Row K)) {epsilon tolerance : K}
    (he : 0 < epsilon) (ht : 0 ≤ tolerance) :
    let ev := Evaluator.new g labels
    let d := g.centralDifference labels store rows epsilon
    ∃ loss after, ev.accumulateGradients store rows 0 = (.ok loss, after) ∧
      after.size = store.size ∧
      (∀ id p, store.params[id]? = some p → ev.Measures store rows epsilon id p (d id p) ∧
        after.params[id]? = some { p with grad := (d id p).slope }) ∧
      ev.checkGradients store rows epsilon tolerance = .ok () := by
  intro ev d
  obtain ⟨loss, _, _, hr⟩ : ∃ loss root tape,
      ev.recordEpoch store rows 0 = .ok (loss, root, tape) :=
    recordEpoch_ok 0 rows fun _ => readable_of_fits hs
  let gradient (id : Nat) : K := (g.loss (ev.casesIn (.dual id) store rows)).snd
  have ha : ev.accumulateGradients store rows 0 = (.ok loss, store.withGrads gradient) :=
    accumulateGradients_eq hr
  have hslope (id : Nat) (p : Parameter K) (hp : store.params[id]? = some p) :
      gradient id = (d id p).slope := by
    rw [slope_centralDifference hg (Graph.build_order_nodup hb) labels hs hp rows he,
      ← hs.casesIn_dual hp labels rows]
  have hd (id : Nat) (p : Parameter K) (_ : store.params[id]? = some p) :
      ev.Measures store rows epsilon id p (d id p) :=
    measures_centralDifference labels hs rows epsilon id p
  refine ⟨loss, _, ha, store.size_withGrads gradient, fun id p hp => ⟨hd id p hp, ?gradient⟩, ?check⟩
  case gradient =>
    rw [ParameterStore.getElem?_withGrads, hp, Option.map_some, hslope id p hp]
  case check =>
    rw [checkGradients_eq ha, checkParameters_eq_ok_iff (fun p => hs.exists_node?) hd]
    intro id p hp
    rw [hslope id p hp]
    exact agrees_slope ht (d id p)

/-- A neuron with a weight and a bias on two rows, on which it is off by 2 and by 4. -/
theorem checkGradients_linear_neuron :
    let nodes : List (Node ℚ) := [⟨"x", .input, some "x", .linear, 0⟩,
      ⟨"w", .weight, none, .linear, 3⟩, ⟨"b", .bias, none, .linear, 1⟩,
      ⟨"output", .neuron, none, .linear, 0⟩]
    let connections : List Connection := [⟨"x", "w"⟩, ⟨"w", "output"⟩, ⟨"b", "output"⟩]
    let g : Graph ℚ := {
      size := 4
      nodes := ⟨nodes.toArray, rfl⟩
      order := [0, 1, 2, 3]
      incoming := #v[[], [0], [], [1, 2]]
      hasDeclaredInputs := #v[false, true, false, true]
      output := some 3
      mode := .strict }
    let store : ParameterStore ℚ := ⟨#[⟨1, 3, 0⟩, ⟨2, 1, 0⟩]⟩
    let rows : List (Row ℚ) := [⟨[2], 5⟩, ⟨[1], 0⟩]
    let ev := Evaluator.new g ["x"]
    Graph.build nodes connections ["x", "w", "b", "output"] {} = .ok g ∧ g.Linear ∧
      ParameterStore.ofGraph g = .ok store ∧ store.Fits g ∧
      ∃ loss after, ev.accumulateGradients store rows 0 = (.ok loss, after) ∧
        after.params[0]? = some ⟨1, 3, 8⟩ ∧ after.params[1]? = some ⟨2, 1, 6⟩ ∧
        ev.checkGradients store rows (1 / 100) 0 = .ok () := by
  intro nodes connections g store rows ev
  have hb : Graph.build nodes connections ["x", "w", "b", "output"] {} = .ok g := by cbv
  have hg : g.Linear := by decide
  have hs : store.Fits g := rfl
  let d := g.centralDifference ["x"] store rows (1 / 100)
  have hw : (d 0 ⟨1, 3, 0⟩).slope = 8 := by decide +kernel
  have hbias : (d 1 ⟨2, 1, 0⟩).slope = 6 := by decide +kernel
  have he : (0 : ℚ) < 1 / 100 := by norm_num
  obtain ⟨loss, after, ha, _, hps, hcheck⟩ := checkGradients_linear hb hg hs ["x"] rows he le_rfl
  obtain ⟨-, hgradw⟩ := hps 0 ⟨1, 3, 0⟩ rfl
  obtain ⟨-, hgradb⟩ := hps 1 ⟨2, 1, 0⟩ rfl
  rw [hw] at hgradw
  rw [hbias] at hgradb
  exact ⟨hb, hg, rfl, hs, loss, after, ha, hgradw, hgradb, hcheck⟩

end Evaluator

end Backprop
