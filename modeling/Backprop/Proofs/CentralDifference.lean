import Backprop.Proofs.Epoch
import Backprop.Proofs.Training.Ends

namespace Backprop

variable {α : Type}

structure CentralDifference (α : Type) where
  step : α
  lossPlus : α
  lossMinus : α

namespace CentralDifference

def slope [Scalar α] (d : CentralDifference α) : α :=
  (d.lossPlus - d.lossMinus) / ((1 + 1) * d.step)

variable [OrderedScalar α] (d : CentralDifference α) (tolerance analytical : α)

def difference : α :=
  OrderedScalar.abs (analytical - d.slope)

/-- The slope is finite, and no further from the gradient than the tolerance allows. -/
def agrees : Bool :=
  Scalar.isFinite d.slope && !OrderedScalar.exceeds (d.difference analytical)
    (tolerance * OrderedScalar.larger (OrderedScalar.abs d.slope) 1)

def objection (node : String) : GradientCheckFailure α :=
  if Scalar.isFinite d.slope then .mismatch node analytical d.slope (d.difference analytical)
  else .notFinite node d.lossPlus d.lossMinus

end CentralDifference

section Loss

variable [Scalar α] {ev : Evaluator α} {store : ParameterStore α} {rows : List (Row α)} {id : Nat}
  {p : Parameter α}

namespace Evaluator

theorem lossAt_of_epochLoss {x loss : α} (hp : store.params[id]? = some p)
    (hl : ev.epochLoss (store.put id x) rows = .ok loss) :
    ev.lossAt store rows id x = .ok (loss, store.put id x) := by
  rw [lossAt, ParameterStore.setValue_eq hp]
  simp only [bind, Except.bind, hl]
  rfl

theorem lossAt_put (ev : Evaluator α) (hp : store.params[id]? = some p) (rows : List (Row α))
    (x y : α) : ev.lossAt (store.put id x) rows id y = ev.lossAt store rows id y := by
  rw [lossAt, lossAt, ParameterStore.setValue_eq (ParameterStore.getElem?_put_self hp x),
    ParameterStore.setValue_eq hp, ParameterStore.put_put]

end Evaluator

end Loss

variable [OrderedScalar α] {g : Graph α} {ev : Evaluator α} {store : ParameterStore α}
  {rows : List (Row α)} {id : Nat} {p : Parameter α} {epsilon tolerance : α}

/-- The losses with one parameter moved by a step, and nothing else changed in the store. -/
structure Evaluator.Measures (ev : Evaluator α) (store : ParameterStore α) (rows : List (Row α))
    (epsilon : α) (id : Nat) (p : Parameter α) (d : CentralDifference α) : Prop where
  step : d.step = stepSize epsilon p.value
  lossPlus : ev.epochLoss (store.put id (p.value + d.step)) rows = .ok d.lossPlus
  lossMinus : ev.epochLoss (store.put id (p.value - d.step)) rows = .ok d.lossMinus

def Graph.centralDifference (g : Graph α) (labels : List String) (store : ParameterStore α)
    (rows : List (Row α)) (epsilon : α) (id : Nat) (p : Parameter α) : CentralDifference α :=
  let step := Evaluator.stepSize epsilon p.value
  { step
    lossPlus := g.addedLoss labels (store.put id (p.value + step)) rows
    lossMinus := g.addedLoss labels (store.put id (p.value - step)) rows }

namespace Evaluator

theorem measures_centralDifference (labels : List String) (hs : store.Fits g)
    (rows : List (Row α)) (epsilon : α) (id : Nat) (p : Parameter α) :
    (Evaluator.new g labels).Measures store rows epsilon id p
      (g.centralDifference labels store rows epsilon id p) where
  step := rfl
  lossPlus := epochLoss_new labels (hs.put id _) rows
  lossMinus := epochLoss_new labels (hs.put id _) rows

theorem checkParameter_eq {d : CentralDifference α} {node : Node α}
    (hp : store.params[id]? = some p) (hnode : ev.graph.node? p.node = some node)
    (hd : ev.Measures store rows epsilon id p d) (tolerance analytical : α) :
    ev.checkParameter store rows epsilon tolerance id analytical =
      if d.agrees tolerance analytical then .ok store
      else .error (d.objection analytical node.id) := by
  have hget : store.get id = .ok p := by
    rw [ParameterStore.get, hp]
  have hplus := lossAt_of_epochLoss hp hd.lossPlus
  have hminus := lossAt_of_epochLoss hp hd.lossMinus
  rw [hd.step] at hplus hminus
  have hslope : (d.lossPlus - d.lossMinus) / ((1 + 1) * stepSize epsilon p.value) = d.slope := by
    rw [CentralDifference.slope, hd.step]
  rw [checkParameter]
  simp only [hget, Except.mapError, bind, Except.bind, hnode, hplus, lossAt_put _ hp, hminus,
    ParameterStore.setValue_put hp]
  rw [hslope, CentralDifference.agrees, CentralDifference.objection, CentralDifference.difference]
  cases Scalar.isFinite d.slope with
  | false => rfl
  | true =>
    cases OrderedScalar.exceeds (OrderedScalar.abs (analytical - d.slope))
        (tolerance * OrderedScalar.larger (OrderedScalar.abs d.slope) 1) <;> rfl

theorem checkParameters_cons {d : CentralDifference α} {node : Node α}
    (hp : store.params[id]? = some p) (hnode : ev.graph.node? p.node = some node)
    (hd : ev.Measures store rows epsilon id p d) (tolerance analytical : α) (rest : List α) :
    ev.checkParameters store rows epsilon tolerance id (analytical :: rest) =
      if d.agrees tolerance analytical then
        ev.checkParameters store rows epsilon tolerance (id + 1) rest
      else .error (d.objection analytical node.id) := by
  rw [checkParameters, checkParameter_eq hp hnode hd]
  split <;> rfl

section Run

variable {d : Nat → Parameter α → CentralDifference α} {gradient : Nat → α}
  (hnode : ∀ p ∈ store.params, ∃ node, ev.graph.node? p.node = some node)
  (hd : ∀ id p, store.params[id]? = some p → ev.Measures store rows epsilon id p (d id p))

include hnode hd

/-- Parameters that agree are passed over, and what comes after them is checked in the store that the
check began with. -/
theorem checkParameters_of_agree {m : Nat} (hm : m ≤ store.size)
    (hagree : ∀ id p, id < m → store.params[id]? = some p →
      (d id p).agrees tolerance (gradient id)) (n : Nat) :
    ev.checkParameters store rows epsilon tolerance 0 ((List.range (m + n)).map gradient) =
      ev.checkParameters store rows epsilon tolerance m ((List.range' m n).map gradient) := by
  induction m generalizing n with
  | zero => rw [Nat.zero_add, List.range_eq_range']
  | succ m ih =>
    have hp : store.params[m]? = some store.params[m] := Array.getElem?_eq_getElem hm
    obtain ⟨node, hn⟩ := hnode _ (Array.getElem_mem hm)
    have hlt (id : Nat) (p : Parameter α) (hid : id < m) := hagree id p (Nat.lt_succ_of_lt hid)
    rw [Nat.succ_add_eq_add_succ, ih (Nat.le_of_succ_le hm) hlt, List.range'_succ, List.map_cons,
      checkParameters_cons hp hn (hd m _ hp), if_pos (hagree m _ m.lt_succ_self hp)]

/-- A parameter that does not agree is reported if none before it did not. -/
theorem checkParameters_of_first (hp : store.params[id]? = some p)
    (hnot : ¬(d id p).agrees tolerance (gradient id))
    (hagree : ∀ id' p', id' < id → store.params[id']? = some p' →
      (d id' p').agrees tolerance (gradient id')) :
    ∃ node, ev.graph.node? p.node = some node ∧
      ev.checkParameters store rows epsilon tolerance 0 ((List.range store.size).map gradient) =
        .error ((d id p).objection (gradient id) node.id) := by
  obtain ⟨node, hn⟩ := hnode p (Array.mem_of_getElem? hp)
  obtain ⟨hid, _⟩ := Array.getElem?_eq_some_iff.1 hp
  obtain ⟨n, hsize⟩ := Nat.exists_eq_add_of_lt hid
  change store.size = id + (n + 1) at hsize
  refine ⟨node, hn, ?_⟩
  rw [hsize, checkParameters_of_agree hnode hd (Nat.le_of_lt hid) hagree, List.range'_succ,
    List.map_cons, checkParameters_cons hp hn (hd id p hp), if_neg hnot]

theorem checkParameters_eq_ok_iff :
    ev.checkParameters store rows epsilon tolerance 0 ((List.range store.size).map gradient) =
        .ok () ↔
      ∀ id p, store.params[id]? = some p → (d id p).agrees tolerance (gradient id) := by
  constructor
  · intro hok id
    -- the least parameter that does not agree would have been reported
    induction id using Nat.strong_induction_on with
    | _ id ih =>
      intro p hp
      by_contra hnot
      obtain ⟨_, _, herror⟩ := checkParameters_of_first hnode hd hp hnot fun id' p' hlt hp' =>
        ih id' hlt p' hp'
      rw [hok] at herror
      cases herror
  · intro hagree
    exact checkParameters_of_agree hnode hd le_rfl (fun id p _ hp => hagree id p hp) 0

end Run

theorem checkGradients_eq {loss : α} {gradient : Nat → α}
    (ha : ev.accumulateGradients store rows 0 = (.ok loss, store.withGrads gradient))
    (epsilon tolerance : α) : ev.checkGradients store rows epsilon tolerance =
      ev.checkParameters store rows epsilon tolerance 0 ((List.range store.size).map gradient) := by
  rw [checkGradients, ha, ← ParameterStore.grads_withGrads]

/-- A check of gradients is a check of each parameter by itself, against the central difference of the
loss at the values that the store was given with. It succeeds if all of them agree. If not, the first
that does not is reported under the id of its node; and if there are no gradients to be compared, then
why there are none. -/
theorem checkGradients_centralDifference (hs : store.Fits g) (labels : List String)
    (rows : List (Row α)) (epsilon tolerance : α) :
    let ev := Evaluator.new g labels
    let d := g.centralDifference labels store rows epsilon
    (∀ failure after, ev.accumulateGradients store rows 0 = (.error failure, after) →
      ev.checkGradients store rows epsilon tolerance = .error (.core failure)) ∧
    ∀ loss after, ev.accumulateGradients store rows 0 = (.ok loss, after) →
      ∃ gradient : Nat → α, after = store.withGrads gradient ∧
        (∀ id p, store.params[id]? = some p → ev.Measures store rows epsilon id p (d id p)) ∧
        (ev.checkGradients store rows epsilon tolerance = .ok () ↔
          ∀ id p, store.params[id]? = some p → (d id p).agrees tolerance (gradient id)) ∧
        ∀ id p, store.params[id]? = some p → ¬(d id p).agrees tolerance (gradient id) →
          (∀ id' p', id' < id → store.params[id']? = some p' →
            (d id' p').agrees tolerance (gradient id')) →
          ∃ node, g.node? p.node = some node ∧
            ev.checkGradients store rows epsilon tolerance =
              .error ((d id p).objection (gradient id) node.id) := by
  intro ev d
  refine ⟨?failed, ?compared⟩
  case failed =>
    intro failure after ha
    rw [checkGradients, ha]
  case compared =>
    intro loss after ha
    obtain ⟨gradient, rfl⟩ := exists_withGrads ha
    have hd (id : Nat) (p : Parameter α) (_ : store.params[id]? = some p) :
        ev.Measures store rows epsilon id p (d id p) :=
      measures_centralDifference labels hs rows epsilon id p
    have hnode (p : Parameter α) (hp : p ∈ store.params) :
        ∃ node, ev.graph.node? p.node = some node := hs.exists_node? hp
    refine ⟨gradient, rfl, hd, ?_, fun id p hp hnot hagree => ?_⟩
    · rw [checkGradients_eq ha, checkParameters_eq_ok_iff hnode hd]
    · rw [checkGradients_eq ha]
      exact checkParameters_of_first hnode hd hp hnot hagree

/-- A bias on which the output depends without a kink, and one that is where `relu` has its own. -/
theorem checkGradients_centralDifference_kink :
    let g : Graph Float := {
      size := 4
      nodes := #v[⟨"a", .bias, none, .linear, 0.5⟩, ⟨"b", .bias, none, .linear, 0.0⟩,
        ⟨"r", .neuron, none, .relu, 0.0⟩, ⟨"output", .output, none, .linear, 0.0⟩]
      order := [0, 1, 2, 3]
      incoming := #v[[], [], [1], [0, 2]]
      hasDeclaredInputs := #v[false, false, true, true]
      output := some 3
      mode := .strict }
    let store : ParameterStore Float := ⟨#[⟨0, 0.5, 0.0⟩, ⟨1, 0.0, 0.0⟩]⟩
    store.Fits g ∧ ∃ analytical numerical difference,
      (Evaluator.new g []).checkGradients store [⟨[], 1.0⟩] 1e-3 1e-4 =
        .error (.mismatch "b" analytical numerical difference) := by
  intro g store
  have hs : store.Fits g := rfl
  let ev := Evaluator.new g []
  let rows : List (Row Float) := [⟨[], 1.0⟩]
  let d := g.centralDifference [] store rows 1e-3
  let computed := (ev.accumulateGradients store rows 0).2.grads
  have hok : (ev.accumulateGradients store rows 0).1.toOption.isSome := by decide +kernel
  have hagrees : (d 0 ⟨0, 0.5, 0.0⟩).agrees 1e-4 (computed.getD 0 0.0) := by decide +kernel
  have hkink : ¬(d 1 ⟨1, 0.0, 0.0⟩).agrees 1e-4 (computed.getD 1 0.0) := by decide +kernel
  have hfinite : Scalar.isFinite (d 1 ⟨1, 0.0, 0.0⟩).slope := by decide +kernel
  obtain ⟨_, hcompared⟩ := checkGradients_centralDifference hs [] rows 1e-3 1e-4
  refine ⟨hs, ?_⟩
  match ha : ev.accumulateGradients store rows 0 with
  | (.error failure, after) =>
    rw [ha] at hok
    cases hok
  | (.ok loss, after) =>
    obtain ⟨gradient, hafter, _, _, hfirst⟩ := hcompared loss after ha
    have hgrads : computed = after.grads := congrArg (·.2.grads) ha
    rw [hgrads, hafter] at hagrees hkink
    obtain ⟨node, hnode, hcheck⟩ := hfirst 1 ⟨1, 0.0, 0.0⟩ rfl hkink fun id' p' hlt hp => by
      obtain rfl := Nat.lt_one_iff.1 hlt
      cases hp
      exact hagrees
    cases hnode
    rw [CentralDifference.objection, if_pos hfinite] at hcheck
    exact ⟨_, _, _, hcheck⟩

end Evaluator

end Backprop
