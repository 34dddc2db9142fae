import Backprop.Proofs.Report
import Backprop.Proofs.Training.Congruence
import Backprop.Proofs.Training.Simulation

namespace Backprop

variable {α : Type}

namespace Graph.Renaming

variable {g g' : Graph α} (σ : g.Renaming g')

theorem mem_trainable {i : Fin g.size} : σ.index i ∈ g'.trainable ↔ i ∈ g.trainable := by
  simp [trainable, σ.node]

theorem trainable_perm : (g.trainable.map σ.index).Perm g'.trainable := by
  apply (List.perm_ext_iff_of_nodup (g.nodup_trainable.map σ.index.injective) g'.nodup_trainable).2
  intro j
  obtain ⟨i, rfl⟩ := σ.index.surjective j
  exact (List.mem_map_of_injective σ.index.injective).trans σ.mem_trainable.symm

def parameter (id : Nat) : Nat :=
  match g.trainable[id]? with
  | some i => g'.trainable.idxOf (σ.index i)
  | none => id

theorem getElem?_parameter (id : Nat) :
    g'.trainable[σ.parameter id]? = g.trainable[id]?.map σ.index := by
  rw [parameter]
  cases hi : g.trainable[id]? with
  | some i => exact List.getElem?_idxOf (σ.mem_trainable.2 (List.mem_of_getElem? hi))
  | none =>
    have hlength := σ.trainable_perm.length_eq
    rw [List.length_map] at hlength
    rw [List.getElem?_eq_none_iff] at hi
    exact List.getElem?_eq_none (hlength ▸ hi)

theorem parameter_injective : σ.parameter.Injective := by
  intro a b hab
  have he : g.trainable[a]? = g.trainable[b]? := by
    apply Option.map_injective σ.index.injective
    rw [← getElem?_parameter, ← getElem?_parameter, hab]
  cases ha : g.trainable[a]? with
  | some i =>
    obtain ⟨hlt, rfl⟩ := List.getElem?_eq_some_iff.1 ha
    exact (List.getElem?_inj hlt g.nodup_trainable).1 he
  | none =>
    rw [parameter, parameter, ← he, ha] at hab
    exact hab

end Graph.Renaming

namespace ParameterStore

variable {g g' : Graph α} {s s' : ParameterStore α} {σ : g.Renaming g'}

/-- The second store has the parameters of the first, under the numbers of the second graph. -/
structure Renamed (σ : g.Renaming g') (s s' : ParameterStore α) : Prop where
  fits : s.Fits g
  fits' : s'.Fits g'
  param : ∀ (id : Nat) (p : Parameter α) (i : Fin g.size), s.params[id]? = some p → p.node = i →
    s'.params[σ.parameter id]? = some { p with node := σ.index i }

namespace Renamed

theorem exists_of_mem (h : Renamed σ s s') {p' : Parameter α} (hp : p' ∈ s'.params) :
    ∃ p ∈ s.params, p'.value = p.value ∧ p'.grad = p.grad := by
  obtain ⟨id', hid'⟩ := Array.getElem?_of_mem hp
  obtain ⟨j, hj, hjn⟩ := h.fits'.exists_node hid'
  obtain ⟨i, rfl⟩ := σ.index.surjective j
  rw [σ.node] at hj
  obtain ⟨id, p, hid, hi⟩ := h.fits.exists_param hj
  have hsame := h.param id p i hid hi
  obtain rfl : σ.parameter id = id' := h.fits'.injective hsame hid' hjn.symm
  rw [hid'] at hsame
  cases hsame
  exact ⟨p, Array.mem_of_getElem? hid, rfl, rfl⟩

theorem forall_values {P : α → Prop} (h : Renamed σ s s') (hP : ∀ x ∈ s.values, P x) :
    ∀ x ∈ s'.values, P x := by
  intro x hx
  obtain ⟨p', hp', rfl⟩ := List.mem_map.1 hx
  obtain ⟨p, hp, hvalue, _⟩ := h.exists_of_mem (Array.mem_toList_iff.1 hp')
  rw [hvalue]
  exact hP _ (List.mem_map_of_mem (Array.mem_toList_iff.2 hp))

theorem forall_grads {P : α → Prop} (h : Renamed σ s s') (hP : ∀ x ∈ s.grads, P x) :
    ∀ x ∈ s'.grads, P x := by
  intro x hx
  obtain ⟨p', hp', rfl⟩ := List.mem_map.1 hx
  obtain ⟨p, hp, _, hgrad⟩ := h.exists_of_mem (Array.mem_toList_iff.1 hp')
  rw [hgrad]
  exact hP _ (List.mem_map_of_mem (Array.mem_toList_iff.2 hp))

/-- What is done to each parameter alike, without a look at its node. -/
theorem map (h : Renamed σ s s') {f : Parameter α → Parameter α}
    (hf : ∀ p node, f { p with node } = { f p with node }) :
    Renamed σ ⟨s.params.map f⟩ ⟨s'.params.map f⟩ := by
  have hnode (p : Parameter α) : (f p).node = p.node := by
    have hp := congrArg Parameter.node (hf p p.node)
    exact hp
  have hnodes (r : ParameterStore α) : (⟨r.params.map f⟩ : ParameterStore α).nodes = r.nodes := by
    simp [nodes, hnode]
  refine ⟨h.fits.of_nodes (hnodes s), h.fits'.of_nodes (hnodes s'), ?_⟩
  intro id p i hp hi
  rw [Array.getElem?_map] at hp ⊢
  obtain ⟨q, hq, rfl⟩ := Option.map_eq_some_iff.1 hp
  rw [h.param id q i hq ((hnode q).symm.trans hi), Option.map_some, hf]

theorem withGrads (h : Renamed σ s s') {grad grad' : Nat → α}
    (hgrad : ∀ id, grad' (σ.parameter id) = grad id) :
    Renamed σ (s.withGrads grad) (s'.withGrads grad') where
  fits := h.fits.of_nodes (s.nodes_withGrads grad)
  fits' := h.fits'.of_nodes (s'.nodes_withGrads grad')
  param id p i hp hi := by
    rw [getElem?_withGrads] at hp
    obtain ⟨q, hq, rfl⟩ := Option.map_eq_some_iff.1 hp
    rw [getElem?_withGrads, h.param id q i hq hi, Option.map_some, hgrad]

theorem finds (h : Renamed σ s s') : σ.Finds σ.parameter s s' := by
  intro i
  by_cases hi : (g.node i).kind.isTrainable
  · obtain ⟨id, p, hp, hn⟩ := h.fits.exists_param hi
    have hl := h.fits.lookUp? hp
    have hl' := h.fits'.lookUp? (h.param id p i hp hn)
    rw [hn] at hl
    rw [hl, hl']
    rfl
  · have hi' : ¬(g'.node (σ.index i)).kind.isTrainable := by
      rwa [σ.node]
    rw [h.fits.lookUp?_eq_none hi, h.fits'.lookUp?_eq_none hi']
    rfl

variable [Scalar α]

theorem ofGraph (h : ofGraph g = .ok s) :
    ∃ s', ParameterStore.ofGraph g' = .ok s' ∧ Renamed σ s s' := by
  have hne : g'.trainable ≠ [] := by
    intro hnil
    have hperm := σ.trainable_perm
    rw [hnil, List.perm_nil, List.map_eq_nil_iff] at hperm
    exact trainable_ne_nil h hperm
  obtain ⟨s', h'⟩ := exists_ofGraph hne
  refine ⟨s', h', ofGraph_fits h, ofGraph_fits h', ?_⟩
  intro id p i hp hi
  rw [getElem?_ofGraph h] at hp
  obtain ⟨j, hj, rfl⟩ := Option.map_eq_some_iff.1 hp
  obtain rfl : j = i := Fin.ext hi
  rw [getElem?_ofGraph h', σ.getElem?_parameter, hj, Option.map_some, Option.map_some, σ.node]

theorem zeroGrad (h : Renamed σ s s') : Renamed σ s.zeroGrad s'.zeroGrad :=
  h.map fun _ _ => rfl

theorem descend (h : Renamed σ s s') (rate : α) : Renamed σ (s.descend rate) (s'.descend rate) :=
  h.map fun _ _ => rfl

theorem valueOf (h : Renamed σ s s') (i : Fin g.size) : s'.valueOf (σ.index i) = s.valueOf i := by
  rw [ParameterStore.valueOf, ParameterStore.valueOf, h.finds i, Option.map_map]
  rfl

end Renamed

end ParameterStore

namespace Trainer

variable [Scalar α] {t : Trainer α} {g : Graph α} {σ : t.graph.Renaming g}
  {store store' next : ParameterStore α} {epoch : Nat} {loss : α}

theorem runEpoch_rename (hs : ParameterStore.Renamed σ store store')
    (h : t.runEpoch (.new t.graph t.labels) store epoch = .ok (loss, next)) :
    ∃ next', ({ t with graph := g } : Trainer α).runEpoch (.new g t.labels) store' epoch =
      .ok (loss, next') ∧ ParameterStore.Renamed σ next next' := by
  obtain ⟨root, tape, _, hr, _, rfl, hgrads, hvalues, rfl⟩ := runEpoch_inv h
  have htraces : ∀ row ∈ t.rows, Evaluator.TracesAs σ.parameter (.new t.graph t.labels)
      (.new g t.labels) store store' row :=
    fun row _ => (σ.evaluator t.labels).tracesAs hs.finds row
  have hr' := Evaluator.recordEpoch_rename htraces epoch
  rw [hr] at hr'
  change _ = Except.ok (loss, root, tape.rename σ.parameter) at hr'
  have hgraded := hs.withGrads (Tape.gradient_rename σ.parameter_injective tape root)
  have hnext := hgraded.descend t.config.learningRate
  -- Of several gradients that are not finite the other store may meet another one first, so it is
  -- success that is carried over and not failure.
  have hgrads' := findNonFinite?_eq_none_iff.2 (hgraded.forall_grads hgrads)
  have hvalues' := findNonFinite?_eq_none_iff.2 (hnext.forall_values hvalues)
  refine ⟨_, ?_, hnext.zeroGrad⟩
  simp only [runEpoch, Evaluator.accumulateGradients_of_ok hr', hgrads', bind, Except.bind, hvalues']
  rfl

abbrev on (t : Trainer α) (g : Graph α) : Trainer α :=
  { t with graph := g }

theorem run_rename (σ : t.graph.Renaming g) {outcome : Outcome α} (h : t.run.1 = .ok outcome) :
    ∃ outcome', (t.on g).run.1 = .ok outcome' ∧ outcome'.history = outcome.history ∧
      ParameterStore.Renamed σ outcome.store outcome'.store := by
  have hf : Follows (ParameterStore.Renamed σ) t (t.on g) := runEpoch_rename
  apply hf.run rfl _ h
  intro store hv
  obtain ⟨store', h', hs⟩ := ParameterStore.Renamed.ofGraph (σ := σ) (validate_ok hv)
  have hstart : (t.on g).validate = ParameterStore.ofGraph g := validate_of_ok hv rfl rfl
  exact ⟨store', hstart.trans h', hs⟩

end Trainer

/-- The weights and biases among nodes in the order of their declaration, each with the number that
belongs to its id. -/
def declared {β : Type} (nodes : List (Node α)) (value : String → β) : List (Option String × β) :=
  (nodes.filter (·.kind.isTrainable)).map fun node => (some node.id, value node.id)

section

variable [Scalar α] {connections : List Connection} {order : List String} {options : Graph.Options}
  {nodes nodes' : List (Node α)} {g g' : Graph α} {s s' : ParameterStore α} {value : String → α}

theorem ParameterStore.Fits.named_eq_declared (hs : s.Fits g)
    (h : Graph.build nodes connections order options = .ok g)
    (hvalue : ∀ i : Fin g.size, value (g.node i).id = s.valueOf i) :
    s.named g = declared nodes value := by
  rw [hs.named_eq, declared, ← Graph.map_node_trainable h, List.map_map]
  apply List.map_congr_left
  intro i _
  rw [Function.comp_apply, hvalue]

/-- Stores with the same parameters hold the same value under each id. -/
theorem ParameterStore.Renamed.exists_declared {σ : g.Renaming g'} (hs : Renamed σ s s')
    (h : Graph.build nodes connections order options = .ok g)
    (h' : Graph.build nodes' connections order options = .ok g') :
    ∃ value, s.named g = declared nodes value ∧ s'.named g' = declared nodes' value := by
  let value (id : String) : α := ((g.indexOf? id).map fun i : Fin g.size => s.valueOf i).getD 0
  have hvalue (i : Fin g.size) : value (g.node i).id = s.valueOf i := by
    simp only [value, Graph.indexOf?_node h, Option.map_some, Option.getD_some]
  refine ⟨value, hs.fits.named_eq_declared h hvalue, hs.fits'.named_eq_declared h' ?_⟩
  intro j
  obtain ⟨i, rfl⟩ := σ.index.surjective j
  rw [σ.node, hvalue, hs.valueOf]

namespace Trainer

theorem run_ok_of_perm (hp : nodes'.Perm nodes)
    (h : Graph.build nodes connections order options = .ok g)
    (h' : Graph.build nodes' connections order options = .ok g') (t : Trainer α)
    {outcome : Outcome α} (ho : (t.on g).run.1 = .ok outcome) :
    ∃ outcome' : Outcome α, (t.on g').run.1 = .ok outcome' ∧
      outcome'.history = outcome.history ∧ outcome'.epochs = outcome.epochs ∧
      outcome.store.Fits g ∧ outcome'.store.Fits g' ∧ ∃ value,
        outcome.store.named g = declared nodes value ∧
        outcome'.store.named g' = declared nodes' value := by
  obtain ⟨σ⟩ := Graph.nonempty_renaming hp h h'
  obtain ⟨outcome', ho', hhistory, hs⟩ := run_rename (t := t.on g) σ ho
  have hepochs : outcome'.epochs = outcome.epochs :=
    (epochs_of_run ho').trans (epochs_of_run ho).symm
  exact ⟨outcome', ho', hhistory, hepochs, hs.fits, hs.fits', hs.exists_declared h h'⟩

end Trainer

end

/-- The order in which nodes are declared is that in which the report lists them, and has no other
effect: builds succeed together, and so do runs, with the same history and the same value under each
id. -/
theorem Trainer.run_redeclare {connections : List Connection} {order : List String}
    {options : Graph.Options} :
    (∀ {α : Type} [Scalar α] {nodes nodes' : List (Node α)}, nodes'.Perm nodes →
      ((∃ g, Graph.build nodes connections order options = .ok g) ↔
        ∃ g', Graph.build nodes' connections order options = .ok g') ∧
      ∀ {g g' : Graph α}, Graph.build nodes connections order options = .ok g →
        Graph.build nodes' connections order options = .ok g' → ∀ t : Trainer α,
          ((∃ outcome, (t.on g).run.1 = .ok outcome) ↔
            ∃ outcome', (t.on g').run.1 = .ok outcome') ∧
          ∀ {outcome outcome' : Outcome α}, (t.on g).run.1 = .ok outcome →
            (t.on g').run.1 = .ok outcome' →
              outcome'.history = outcome.history ∧ ∃ value,
                outcome.store.named g = declared nodes value ∧
                outcome'.store.named g' = declared nodes' value) ∧
    ∀ [Scalar Float] {nodes nodes' : List (Node Float)} {g g' : Graph Float},
      nodes'.Perm nodes → Graph.build nodes connections order options = .ok g →
        Graph.build nodes' connections order options = .ok g' →
          ∀ (t : Trainer Float) {outcome outcome' : Outcome Float},
            (t.on g).run.1 = .ok outcome → (t.on g').run.1 = .ok outcome' →
              ∃ weight : String → TrainedWeight, (∀ id, (weight id).id = id) ∧
                ∀ elapsed device, ∃ report : Report,
                  Report.new g outcome.store outcome.history outcome.epochs elapsed device =
                    .ok { report with
                      trainedWeights :=
                        (nodes.filter (·.kind.isTrainable)).map (weight ·.id) } ∧
                  Report.new g' outcome'.store outcome'.history outcome'.epochs elapsed device =
                    .ok { report with
                      trainedWeights :=
                        (nodes'.filter (·.kind.isTrainable)).map (weight ·.id) } := by
  constructor
  · intro α _ nodes nodes' hp
    constructor
    · constructor
      · rintro ⟨g, h⟩
        obtain ⟨g', h', _⟩ := Graph.exists_build_perm hp h
        exact ⟨g', h'⟩
      · rintro ⟨g', h'⟩
        obtain ⟨g, h, _⟩ := Graph.exists_build_perm hp.symm h'
        exact ⟨g, h⟩
    · intro g g' h h' t
      constructor
      · constructor
        · rintro ⟨outcome, ho⟩
          obtain ⟨outcome', ho', _⟩ := run_ok_of_perm hp h h' t ho
          exact ⟨outcome', ho'⟩
        · rintro ⟨outcome', ho'⟩
          obtain ⟨outcome, ho, _⟩ := run_ok_of_perm hp.symm h' h t ho'
          exact ⟨outcome, ho⟩
      · intro outcome outcome' ho ho'
        obtain ⟨_, hrun, hhistory, _, _, _, hvalues⟩ := run_ok_of_perm hp h h' t ho
        cases ho'.symm.trans hrun
        exact ⟨hhistory, hvalues⟩
  · intro _ nodes nodes' g g' hp h h' t outcome outcome' ho ho'
    obtain ⟨_, hrun, hhistory, hepochs, hs, hs', value, hvalues, hvalues'⟩ :=
      run_ok_of_perm hp h h' t ho
    cases ho'.symm.trans hrun
    let weight (id : String) : TrainedWeight :=
      { id, value := Decimal.roundTo (value id) Report.parameterPlaces }
    refine ⟨weight, fun _ => rfl, ?_⟩
    intro elapsed device
    refine ⟨.of g outcome.store outcome.history outcome.epochs elapsed device, ?_, ?_⟩
    · rw [Report.new_eq hs, Report.of, Report.map_weightOf, hvalues, declared, List.map_map]
      rfl
    · rw [Report.new_eq hs', Report.of, Report.map_weightOf, hvalues', declared, List.map_map,
        hhistory, hepochs]
      rfl

theorem Trainer.run_redeclare_reverse :
    let nodes : List (Node Float) := [⟨"x", .input, some "x", .linear, 0.0⟩,
      ⟨"w", .weight, none, .linear, 0.5⟩, ⟨"b", .bias, none, .linear, -1.0⟩,
      ⟨"output", .output, none, .linear, 0.0⟩]
    let connections : List Connection := [⟨"x", "w"⟩, ⟨"w", "output"⟩, ⟨"b", "output"⟩]
    let order : List String := ["x", "w", "b", "output"]
    let t (g : Graph Float) : Trainer Float :=
      { graph := g, rows := [⟨[2.0], 3.0⟩], labels := ["x"], config := ⟨0.125, 2⟩ }
    nodes.reverse.Perm nodes ∧ ∃ g g' outcome outcome',
      Graph.build nodes connections order {} = .ok g ∧
      Graph.build nodes.reverse connections order {} = .ok g' ∧
      (t g).run.1 = .ok outcome ∧ (t g').run.1 = .ok outcome' ∧
      outcome'.history = outcome.history ∧
      (∃ w b, outcome.store.named g = [(some "w", w), (some "b", b)] ∧
        outcome'.store.named g' = [(some "b", b), (some "w", w)]) ∧
      ∃ report report',
        Report.new g outcome.store outcome.history outcome.epochs 0.0 "cpu" = .ok report ∧
        Report.new g' outcome'.store outcome'.history outcome'.epochs 0.0 "cpu" = .ok report' ∧
        report'.trainedWeights = report.trainedWeights.reverse := by
  intro nodes connections order t
  have hp : nodes.reverse.Perm nodes := nodes.reverse_perm
  have hok : ((Graph.build nodes connections order {}).toOption.bind
      fun g => (t g).run.1.toOption).isSome := by decide +kernel
  obtain ⟨outcome, hok⟩ := Option.isSome_iff_exists.1 hok
  obtain ⟨g, hg, ho⟩ := Option.bind_eq_some_iff.1 hok
  have h := Except.toOption_eq_some_iff.1 hg
  have ho := Except.toOption_eq_some_iff.1 ho
  obtain ⟨hgeneral, hreport⟩ := @run_redeclare connections order {}
  obtain ⟨hbuilds, hruns⟩ := hgeneral hp
  obtain ⟨g', h'⟩ := hbuilds.1 ⟨g, h⟩
  obtain ⟨hsucceeds, hsame⟩ := hruns h h' (t g)
  obtain ⟨outcome', ho'⟩ := hsucceeds.1 ⟨outcome, ho⟩
  obtain ⟨hhistory, value, hvalues, hvalues'⟩ := hsame ho ho'
  obtain ⟨weight, _, hreports⟩ := hreport hp h h' (t g) ho ho'
  obtain ⟨report, hr, hr'⟩ := hreports 0.0 "cpu"
  exact ⟨hp, g, g', outcome, outcome', h, h', ho, ho', hhistory,
    ⟨value "w", value "b", hvalues, hvalues'⟩, _, _, hr, hr', rfl⟩

end Backprop
