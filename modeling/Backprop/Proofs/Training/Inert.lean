import Backprop.Proofs.Graph.Live
import Backprop.Proofs.Interpretation
import Backprop.Proofs.Training.Reordering
import Backprop.Proofs.Training.Resume
import Backprop.Proofs.Training.Simulation

namespace Backprop

open TrivSqZeroExt

variable {K : Type} [ExactScalar K]

namespace ParameterStore

variable {g : Graph K} {s s' : ParameterStore K} {i : Fin g.size}

structure SameLive (g : Graph K) (s s' : ParameterStore K) : Prop where
  fits : s.Fits g
  fits' : s'.Fits g
  valueOf : ∀ i : Fin g.size, g.Live i → s'.valueOf i = s.valueOf i

theorem SameLive.of_params (hs : s.Fits g) (hs' : s'.Fits g)
    (h : ∀ p ∈ s.params, ∀ p' ∈ s'.params, p'.node = p.node →
      ∀ i : Fin g.size, p.node = i → g.Live i → p'.value = p.value) : SameLive g s s' where
  fits := hs
  fits' := hs'
  valueOf i hi := by
    by_cases ht : (g.node i).kind.isTrainable
    · obtain ⟨p, hp, hn, hv⟩ := hs.exists_valueOf ht
      obtain ⟨p', hp', hn', hv'⟩ := hs'.exists_valueOf ht
      rw [hv, hv']
      exact h p hp p' hp' (hn'.trans hn.symm) i hn hi
    · rw [ParameterStore.valueOf, ParameterStore.valueOf, hs.lookUp?_eq_none ht,
        hs'.lookUp?_eq_none ht]

theorem SameLive.value_eq (h : SameLive g s s') {p p' : Parameter K} (hp : p ∈ s.params)
    (hp' : p' ∈ s'.params) (hn : p'.node = p.node) (hi : p.node = i) (hl : g.Live i) :
    p'.value = p.value := by
  rw [← h.fits.valueOf_eq hp, ← h.fits'.valueOf_eq hp', hn, hi]
  exact h.valueOf i hl

end ParameterStore

namespace Graph

variable {g : Graph K} {s s' : ParameterStore K} {p p' : Parameter K} {i : Fin g.size}

theorem loss_of_sameLive_stores (hn : g.order.Nodup) (h : ParameterStore.SameLive g s s')
    (labels : List String) (rows : List (Row K)) :
    g.loss (rows.map fun row => (g.env labels s' row, row.expected)) =
      g.loss (rows.map fun row => (g.env labels s row, row.expected)) := by
  apply loss_of_sameLive hn
  intro row _
  exact ⟨fun _ _ => rfl, h.valueOf⟩

theorem dualLoss_of_sameLive (hn : g.order.Nodup) (h : ParameterStore.SameLive g s s')
    (hnode : p'.node = p.node) (hvalue : p'.value = p.value) (labels : List String)
    (rows : List (Row K)) : g.dualLoss labels s' rows p' = g.dualLoss labels s rows p := by
  rw [dualLoss, dualLoss, hnode, hvalue]
  apply loss_of_sameLive hn
  intro row _
  constructor
  · intro j _
    rfl
  · intro j hj
    have hv := h.valueOf j hj
    simp only [Env.vary, env, hv]

/-- The loss has no derivative at a node that is not live: to move the parameter is to move nothing
that is live. -/
theorem snd_dualLoss_of_not_live (hn : g.order.Nodup) (hp : p.node = i) (hi : ¬g.Live i)
    (labels : List String) (s : ParameterStore K) (rows : List (Row K)) :
    (g.dualLoss labels s rows p).snd = 0 := by
  -- With the parameter held still the environment is the same at live nodes.
  let still (row : Row K) : Env (DualNumber K) g.size :=
    (g.env labels s row).vary inl p.node (inl p.value)
  have hloss : g.dualLoss labels s rows p =
      g.loss (rows.map fun row => (still row, inl row.expected)) := by
    rw [dualLoss]
    apply loss_of_sameLive hn
    intro row _
    constructor
    · intro j _
      rfl
    · intro j hj
      have hne : (j : Nat) ≠ p.node := by
        intro he
        exact hi (Fin.ext (he.trans hp) ▸ hj)
      simp only [still, Env.vary, if_neg hne]
  rw [hloss]
  apply snd_loss_of_still
  intro row _
  constructor
  · intro j
    exact snd_inl K _
  · intro j
    simp only [still, Env.vary]
    split
    · exact snd_inl K _
    · exact snd_inl K _

end Graph

namespace Trainer

variable {t : Trainer K} {store store' next : ParameterStore K} {epoch : Nat} {loss : K}

/-- The loss of an epoch is that of the interpreter, and the epoch takes every parameter down along
the derivative. -/
theorem runEpoch_exact (hs : store.Fits t.graph)
    (h : t.runEpoch (.new t.graph t.labels) store epoch = .ok (loss, next)) :
    loss = t.graph.loss (t.rows.map fun row => (t.graph.env t.labels store row, row.expected)) ∧
      ∀ id : Nat, next.params[id]? = store.params[id]?.map fun p =>
        { p with
          value := p.value - t.config.learningRate * (t.graph.dualLoss t.labels store t.rows p).snd
          grad := 0 } := by
  obtain ⟨root, tape, graded, hr, ha, hgraded, _, _, rfl⟩ := runEpoch_inv h
  constructor
  · rw [Evaluator.recordEpoch_loss hr, Evaluator.casesIn]
    simp only [Evaluator.envIn_new]
    rfl
  · intro id
    obtain ⟨_, _, _, after, _, ha', _, hps⟩ :=
      Evaluator.accumulateGradients_ok t.labels hs t.rows epoch
    obtain rfl : graded = after := congrArg Prod.snd (ha.symm.trans ha')
    have hparams : ((graded.descend t.config.learningRate).zeroGrad).params[id]? =
        graded.params[id]?.map fun p =>
          { p with value := p.value - t.config.learningRate * p.grad, grad := 0 } := by
      simp only [ParameterStore.zeroGrad, ParameterStore.descend, Array.getElem?_map, Option.map_map]
      rfl
    rw [hparams]
    cases hp : store.params[id]? with
    | some p => rw [hps id p hp, Option.map_some, Option.map_some]
    | none =>
      rw [hgraded, ParameterStore.getElem?_withGrads, hp, Option.map_none, Option.map_none,
        Option.map_none]

theorem mem_runEpoch (hs : store.Fits t.graph)
    (h : t.runEpoch (.new t.graph t.labels) store epoch = .ok (loss, next)) {p : Parameter K}
    (hp : p ∈ next.params) : ∃ q ∈ store.params, p.node = q.node ∧ p.value =
      q.value - t.config.learningRate * (t.graph.dualLoss t.labels store t.rows q).snd := by
  obtain ⟨_, hparams⟩ := runEpoch_exact hs h
  obtain ⟨id, hid⟩ := Array.getElem?_of_mem hp
  rw [hparams] at hid
  obtain ⟨q, hq, rfl⟩ := Option.map_eq_some_iff.1 hid
  exact ⟨q, Array.mem_of_getElem? hq, rfl, rfl⟩

structure Inert (g : Graph K) (store : ParameterStore K) : Prop where
  fits : store.Fits g
  value : ∀ p ∈ store.params, ∀ i : Fin g.size, p.node = i → ¬g.Live i →
    p.value = (g.node i).initial

theorem Inert.ofGraph {g : Graph K} (h : ParameterStore.ofGraph g = .ok store) :
    Inert g store where
  fits := ParameterStore.ofGraph_fits h
  value p hp i hi _ := by
    obtain ⟨j, rfl⟩ := ParameterStore.mem_ofGraph h hp
    rw [Fin.ext hi]

theorem Inert.runEpoch (hi : Inert t.graph store) (hn : t.graph.order.Nodup)
    (h : t.runEpoch (.new t.graph t.labels) store epoch = .ok (loss, next)) :
    Inert t.graph next where
  fits := runEpoch_fits hi.fits h
  value p hp i hnode hlive := by
    obtain ⟨q, hq, hnq, hvalue⟩ := mem_runEpoch hi.fits h hp
    have hqi := hnq.symm.trans hnode
    rw [hvalue, Graph.snd_dualLoss_of_not_live hn hqi hlive, mul_zero, sub_zero]
    exact hi.value q hq i hqi hlive

theorem runEpoch_sameLive (hn : t.graph.order.Nodup)
    (hs : ParameterStore.SameLive t.graph store store')
    (h : t.runEpoch (.new t.graph t.labels) store epoch = .ok (loss, next)) :
    ∃ next', t.runEpoch (.new t.graph t.labels) store' epoch = .ok (loss, next') ∧
      ParameterStore.SameLive t.graph next next' := by
  obtain ⟨⟨loss', next'⟩, h'⟩ := runEpoch_ok hs.fits' epoch
  obtain ⟨hloss, _⟩ := runEpoch_exact hs.fits h
  obtain ⟨hloss', _⟩ := runEpoch_exact hs.fits' h'
  have he : loss' = loss := by
    rw [hloss, hloss', Graph.loss_of_sameLive_stores hn hs]
  refine ⟨next', he ▸ h', .of_params (runEpoch_fits hs.fits h) (runEpoch_fits hs.fits' h') ?_⟩
  intro p hp p' hp' hpp i hi hlive
  obtain ⟨q, hq, hnq, hvalue⟩ := mem_runEpoch hs.fits h hp
  obtain ⟨q', hq', hnq', hvalue'⟩ := mem_runEpoch hs.fits' h' hp'
  have hqq : q'.node = q.node := by
    rw [← hnq, ← hnq', hpp]
  have hqv := hs.value_eq hq hq' hqq (hnq.symm.trans hi) hlive
  rw [hvalue, hvalue', hqv, Graph.dualLoss_of_sameLive hn hs hqq hqv]

/-- Where no node is live, every epoch has the loss of predicting 0. -/
theorem runEpoch_loss_of_not_evaluated (hn : t.graph.order.Nodup)
    (ho : ∀ i, t.graph.output = some i → i ∉ t.graph.order) (hs : store.Fits t.graph)
    (h : t.runEpoch (.new t.graph t.labels) store epoch = .ok (loss, next)) :
    loss = Scalar.mean (t.rows.map fun row => row.expected * row.expected) := by
  obtain ⟨hloss, _⟩ := runEpoch_exact hs h
  rw [hloss, Graph.loss, List.map_map]
  congr 1
  apply List.map_congr_left
  intro row _
  simp only [Function.comp_apply, Graph.squaredError, Graph.prediction_of_not_evaluated hn ho]
  ring

theorem validate_startingAt (initial : Fin t.graph.size → K)
    (hinitial : ∀ i, t.graph.Live i → initial i = (t.graph.node i).initial)
    (hv : t.validate = .ok store) :
    ∃ store', ({ t with graph := t.graph.startingAt initial } : Trainer K).validate = .ok store' ∧
      ParameterStore.SameLive t.graph store store' := by
  have hg := validate_ok hv
  have htrainable := t.graph.trainable_startingAt initial
  obtain ⟨store', hg'⟩ := ParameterStore.exists_ofGraph (g := t.graph.startingAt initial)
    (htrainable ▸ ParameterStore.trainable_ne_nil hg)
  have hfits : store'.Fits t.graph :=
    (ParameterStore.ofGraph_fits hg').trans (congrArg (List.map Fin.val) htrainable)
  have hstart : ({ t with graph := t.graph.startingAt initial } : Trainer K).validate =
      ParameterStore.ofGraph (t.graph.startingAt initial) := validate_of_ok hv rfl rfl
  refine ⟨store', hstart.trans hg', .of_params (ParameterStore.ofGraph_fits hg) hfits ?_⟩
  intro p hp p' hp' hpp i hi hlive
  obtain ⟨j, rfl⟩ := ParameterStore.mem_ofGraph hg hp
  obtain ⟨j', rfl⟩ := ParameterStore.mem_ofGraph hg' hp'
  obtain rfl : j = i := Fin.ext hi
  obtain rfl : j' = j := Fin.ext hpp
  rw [Graph.node_startingAt]
  exact hinitial j' hlive

theorem run_startingAt (hn : t.graph.order.Nodup) {initial : Fin t.graph.size → K}
    (hinitial : ∀ i, t.graph.Live i → initial i = (t.graph.node i).initial) {outcome : Outcome K}
    (h : t.run.1 = .ok outcome) :
    ∃ outcome', ({ t with graph := t.graph.startingAt initial } : Trainer K).run.1 = .ok outcome' ∧
      outcome'.history = outcome.history ∧
      ParameterStore.SameLive t.graph outcome.store outcome'.store := by
  have hf : Follows (ParameterStore.SameLive t.graph) t
      { t with graph := t.graph.startingAt initial } := by
    intro store store' next epoch loss hs hr
    rw [runEpoch_startingAt]
    exact runEpoch_sameLive hn hs hr
  exact hf.run rfl (validate_startingAt initial hinitial) h

/-- A parameter that is not live keeps its initial value. Whatever that is, the history and the final
values of live parameters are the same. Without a value for the output node nothing is trained at
all. -/
theorem run_inert {nodes : List (Node K)} {connections : List Connection} {order : List String}
    {options : Graph.Options} {g : Graph K}
    (hb : Graph.build nodes connections order options = .ok g) (t : Trainer K) {outcome : Outcome K}
    (h : ({ t with graph := g } : Trainer K).run.1 = .ok outcome) :
    (∀ p ∈ outcome.store.params, ∀ i : Fin g.size, p.node = i → ¬g.Live i →
        p.value = (g.node i).initial) ∧
      (∀ initial : Fin g.size → K, (∀ i, g.Live i → initial i = (g.node i).initial) →
        ∃ outcome', ({ t with graph := g.startingAt initial } : Trainer K).run.1 = .ok outcome' ∧
          outcome'.history = outcome.history ∧ outcome'.store.nodes = outcome.store.nodes ∧
          ∀ p ∈ outcome.store.params, ∀ p' ∈ outcome'.store.params, p'.node = p.node →
            ∀ i : Fin g.size, p.node = i → g.Live i → p'.value = p.value) ∧
      ((∀ i, g.output = some i → i ∉ g.order) →
        (∀ p ∈ outcome.store.params, ∀ i : Fin g.size, p.node = i →
            p.value = (g.node i).initial) ∧
          ∀ x ∈ outcome.history,
            x = Scalar.mean (t.rows.map fun row => row.expected * row.expected)) := by
  have hn := Graph.build_order_nodup hb
  obtain ⟨hinert, _⟩ := run_keeps (P := Inert g) (Q := fun _ => True)
    (fun hv => .ofGraph (validate_ok hv)) (fun hi hr => ⟨hi.runEpoch hn hr, trivial⟩) h
  refine ⟨hinert.value, ?_, ?_⟩
  · intro initial hinitial
    obtain ⟨outcome', h', hhistory, hs⟩ := run_startingAt hn hinitial h
    refine ⟨outcome', h', hhistory, hs.fits'.trans hs.fits.symm, ?_⟩
    intro p hp p' hp' hpp i hi hlive
    exact hs.value_eq hp hp' hpp hi hlive
  · intro ho
    obtain ⟨_, hlosses⟩ := run_keeps (P := (·.Fits g))
      (Q := (· = Scalar.mean (t.rows.map fun row => row.expected * row.expected))) validate_fits
      (fun hs hr => ⟨runEpoch_fits hs hr,
        runEpoch_loss_of_not_evaluated (t := { t with graph := g }) hn ho hs hr⟩) h
    exact ⟨fun p hp i hi => hinert.value p hp i hi (Graph.not_live ho i), hlosses⟩

/-- The weight `d` shares its sources with `output` but reaches it too late. In the other graph
`output` is not evaluated. -/
theorem run_inert_late :
    let nodes : List (Node ℚ) := [⟨"x", .input, some "x", .linear, 0⟩,
      ⟨"w", .weight, none, .linear, 1⟩, ⟨"d", .weight, none, .linear, 7⟩,
      ⟨"output", .output, none, .linear, 0⟩]
    let connections : List Connection :=
      [⟨"x", "w"⟩, ⟨"w", "output"⟩, ⟨"w", "d"⟩, ⟨"x", "d"⟩, ⟨"d", "output"⟩]
    let options : Graph.Options := { mode := .lenient }
    let g : Graph ℚ := {
      size := 4
      nodes := ⟨nodes.toArray, rfl⟩
      order := [0, 1, 3, 2]
      incoming := #v[[], [0], [1, 0], [1, 2]]
      hasDeclaredInputs := #v[false, true, true, true]
      output := some 3
      mode := .lenient }
    let g' : Graph ℚ := { g with order := [0, 1, 2] }
    let t : Trainer ℚ :=
      { graph := g, rows := [⟨[1], 3⟩], labels := ["x"], config := ⟨1 / 10, 2⟩ }
    Graph.build nodes connections ["x", "w", "output", "d"] options = .ok g ∧
      Graph.build nodes connections ["x", "w", "d"] options = .ok g' ∧
      (∃ outcome outcome', t.run.1 = .ok outcome ∧
        (∀ p ∈ outcome.store.params, p.node = 2 → p.value = 7) ∧
        ({ t with graph := g.startingAt ![0, 1, -5, 0] } : Trainer ℚ).run.1 = .ok outcome' ∧
        outcome'.history = outcome.history) ∧
      ∃ outcome, ({ t with graph := g' } : Trainer ℚ).run.1 = .ok outcome ∧
        (∀ p ∈ outcome.store.params, p.node = 1 → p.value = 1) ∧ ∀ x ∈ outcome.history, x = 9 := by
  intro nodes connections options g g' t
  have hb : Graph.build nodes connections ["x", "w", "output", "d"] options = .ok g := by cbv
  have hb' : Graph.build nodes connections ["x", "w", "d"] options = .ok g' := by cbv
  have hconfig : t.config.validate = .ok () := if_pos (by decide +kernel)
  have hv : t.validate = .ok ⟨#[⟨1, 1, 0⟩, ⟨2, 7, 0⟩]⟩ := by
    rw [validate_eq, hconfig]
    rfl
  obtain ⟨outcome, ho⟩ := run_ok hv
  obtain ⟨outcome₀, ho₀⟩ := run_ok (t := { t with graph := g' }) hv
  have hlate : ∀ i j, j ∈ g.incoming.get i → Graph.standsBefore g.order j i → i ≠ 2 → j ≠ 2 := by
    decide
  have hdead : ¬g.Live 2 := by
    have hlive : ∀ i, g.Live i → i ≠ 2 := by
      intro i hi
      induction hi with
      | output hout _ =>
        cases hout
        decide
      | source _ hj hbefore ih => exact hlate _ _ hj hbefore ih
    exact fun h => hlive 2 h rfl
  have hinitial : ∀ i, g.Live i → (![0, 1, -5, 0] : Fin 4 → ℚ) i = (g.node i).initial := by
    intro i hi
    have hcases : ∀ i : Fin 4, i = 2 ∨ (![0, 1, -5, 0] : Fin 4 → ℚ) i = (g.node i).initial := by
      decide +kernel
    rcases hcases i with rfl | he
    · exact absurd hi hdead
    · exact he
  obtain ⟨hvalue, hstart, _⟩ := run_inert hb t ho
  obtain ⟨outcome', ho', hhistory, _⟩ := hstart _ hinitial
  obtain ⟨_, _, hnone⟩ := run_inert hb' t ho₀
  have hout : ∀ i, g'.output = some i → i ∉ g'.order := by
    decide
  obtain ⟨hvalues, hlosses⟩ := hnone hout
  have hmean : Scalar.mean (t.rows.map fun row => row.expected * row.expected) = 9 := by
    decide +kernel
  refine ⟨hb, hb', ⟨outcome, outcome', ho, ?_, ho', hhistory⟩, outcome₀, ho₀, ?_, ?_⟩
  · intro p hp hi
    exact hvalue p hp 2 hi hdead
  · intro p hp hi
    exact hvalues p hp 1 hi
  · intro x hx
    rw [← hmean]
    exact hlosses x hx

end Trainer

end Backprop
