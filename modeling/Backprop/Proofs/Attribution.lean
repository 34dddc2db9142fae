import Backprop.Proofs.Graph.Forward
import Backprop.Proofs.Payload
import Backprop.Proofs.Recording
import Backprop.Proofs.Request
import Backprop.Proofs.Training.Finite

namespace Backprop

theorem NodeKind.isTrainable_iff {name : String} {kind : NodeKind}
    (h : NodeKind.ofName? name = some kind) : kind.isTrainable ↔ name = "weight" ∨ name = "bias" := by
  unfold NodeKind.ofName? at h
  split at h <;> cases h <;> decide

def NodeRequest.isTrained (n : NodeRequest) : Bool :=
  n.kind = "weight" || n.kind = "bias"

section

variable {g : Graph Float} {store : ParameterStore Float} {i : Fin g.size} {number : Nat}

theorem ParameterStore.valueOf_ofGraph (h : ofGraph g = .ok store) (hi : i ∈ g.trainable) :
    store.valueOf i = (g.node i).initial := by
  obtain ⟨number, hnumber⟩ := List.getElem?_of_mem hi
  have hp := getElem?_ofGraph h number
  rw [hnumber, Option.map_some] at hp
  exact (ofGraph_fits h).valueOf_eq (Array.mem_of_getElem? hp)

theorem Evaluator.readParameter_of_fits (ev : Evaluator Float) {i : Fin ev.graph.size}
    (hs : store.Fits ev.graph) {p : Parameter Float} (hp : store.params[number]? = some p)
    (hn : p.node = i) (tape : Tape Float) :
    ev.readParameter store tape i = .ok (tape.parameter number p.value) := by
  rw [readParameter_eq, ← hn, hs.lookUp? hp]
  rfl

theorem Report.trainedWeights_of (hs : store.Fits g) (history : List Float) (epochs : Nat)
    (elapsed : Float) (device : String) :
    (Report.of g store history epochs elapsed device).trainedWeights =
      g.trainable.map fun i => ⟨(g.node i).id, Decimal.roundTo (store.valueOf i) parameterPlaces⟩ := by
  rw [Report.of, Report.map_weightOf, hs.named_eq, List.map_map]
  rfl

end

namespace TrainRequest

def trained (r : TrainRequest) : List (String × NodeRequest) :=
  r.nodes.filter fun n => n.2.isTrained

structure Describes (r : TrainRequest) (g : Graph Float) (n : String × NodeRequest)
    (i : Fin g.size) : Prop where
  declared : r.nodes[i.val]? = some n
  id : (g.node i).id = n.1
  trained : n.2.isTrained ↔ (g.node i).kind.isTrainable
  initial : (g.node i).initial = n.2.value.getD 0.0

variable {r : TrainRequest} {g : Graph Float}

theorem describes_nodes (h : r.graph = .ok g) :
    List.Forall₂ (r.Describes g) r.nodes (List.finRange g.size) := by
  obtain ⟨nodes, hnodes, hb⟩ := Except.bind_eq_ok_iff.1 h
  obtain ⟨_, _, _, _, _, _, rfl⟩ := Graph.build_iff.1 hb
  obtain ⟨hlength, hnames⟩ := List.forall₂_iff_get.1 (Except.forall₂_of_mapM hnodes)
  refine List.forall₂_iff_get.2 ⟨hlength.trans List.length_finRange.symm, fun k hk hk' => ?_⟩
  obtain ⟨hid, hkind, hinitial⟩ := Node.ofNames_inv (hnames k hk (hlength ▸ hk))
  rw [List.get_finRange]
  refine ⟨List.getElem?_eq_getElem hk, hid, ?_, hinitial⟩
  refine Iff.trans ?_ (NodeKind.isTrainable_iff hkind).symm
  simp [NodeRequest.isTrained]

theorem describes_trainable (h : r.graph = .ok g) :
    List.Forall₂ (r.Describes g) r.trained g.trainable :=
  List.rel_filter (fun _ _ hd => hd.trained) (describes_nodes h)

/-- Whatever a node of the graph has from the request can be read off the request. -/
theorem map_trained {β : Type} {f : String × NodeRequest → β} {f' : Fin g.size → β}
    (h : r.graph = .ok g) (hf : ∀ n i, r.Describes g n i → f n = f' i) :
    r.trained.map f = g.trainable.map f' :=
  List.map_eq_map_iff_forall₂.2 ((describes_trainable h).imp hf)

theorem exists_describes {number : Nat} {n : String × NodeRequest} (h : r.graph = .ok g)
    (hn : r.trained[number]? = some n) :
    ∃ i, g.trainable[number]? = some i ∧ r.Describes g n i := by
  obtain ⟨hlength, hget⟩ := List.forall₂_iff_get.1 (describes_trainable h)
  obtain ⟨hk, rfl⟩ := List.getElem?_eq_some_iff.1 hn
  exact ⟨_, List.getElem?_eq_getElem (hlength ▸ hk), hget number hk (hlength ▸ hk)⟩

theorem nodup_trained (h : r.graph = .ok g) : (r.trained.map (·.1)).Nodup := by
  obtain ⟨_, _, hb⟩ := Except.bind_eq_ok_iff.1 h
  have hinjective : Function.Injective fun i => (g.node i).id := by
    intro i j hij
    have hi := Graph.indexOf?_node hb i
    have hj := Graph.indexOf?_node hb j
    exact Option.some.inj (hi.symm.trans ((congrArg g.indexOf? hij).trans hj))
  rw [map_trained h fun n i hd => hd.id.symm]
  exact g.nodup_trainable.map hinjective

/-- The way of one number through a run: parameter `number` starts as the value of a node of the
request, the evaluator reads it for this node in every epoch, and the report has what becomes of it
beside the id of the node. -/
structure Attributed (r : TrainRequest) (g : Graph Float) (outcome : Outcome Float) (report : Report)
    (number : Nat) (n : String × NodeRequest) (i : Fin g.size) : Prop where
  declared : r.nodes[i.val]? = some n
  seeded : ∃ start, ParameterStore.ofGraph g = .ok start ∧
    start.params[number]? = some ⟨i, n.2.value.getD 0.0, 0⟩
  read : ∀ epoch < r.epochs, ∃ store p, (r.trainer g).storeAfter epoch = .ok store ∧
    store.params[number]? = some p ∧ ∀ tape,
      (Evaluator.new g r.inputLabels).readParameter store tape i = .ok (tape.parameter number p.value)
  reported : ∃ p, outcome.store.params[number]? = some p ∧
    report.trainedWeights[number]? = some ⟨n.1, Decimal.roundTo p.value 6⟩

variable {outcome : Outcome Float} {number : Nat} {n : String × NodeRequest}

theorem exists_attributed (hg : r.graph = .ok g) (ho : (r.trainer g).outcome = .ok outcome)
    (hn : r.trained[number]? = some n) (device : String) (elapsed : Float) :
    ∃ i, r.Attributed g outcome
      (.of g outcome.store outcome.history outcome.epochs elapsed device) number n i := by
  obtain ⟨i, hi, hd⟩ := exists_describes hg hn
  have hlast := Trainer.storeAfter_of_outcome ho
  refine ⟨i, hd.declared, ?_, fun epoch he => ?_, ?_⟩
  · obtain ⟨start, hs⟩ := ParameterStore.exists_ofGraph (List.ne_nil_of_mem (List.mem_of_getElem? hi))
    refine ⟨start, hs, ?_⟩
    rw [ParameterStore.getElem?_ofGraph hs, hi, Option.map_some, hd.initial]
    rfl
  · obtain ⟨store, hs⟩ := Trainer.storeAfter_of_le hlast he.le
    have hfits : store.Fits g := Trainer.storeAfter_fits hs
    obtain ⟨p, hp, hnode⟩ := hfits.exists_getElem? hi
    exact ⟨store, p, hs, hp, (Evaluator.new g r.inputLabels).readParameter_of_fits hfits hp hnode⟩
  · have hfits : outcome.store.Fits g := Trainer.storeAfter_fits hlast
    obtain ⟨p, hp, hnode⟩ := hfits.exists_getElem? hi
    refine ⟨p, hp, ?_⟩
    have hvalue := hfits.valueOf_eq (Array.mem_of_getElem? hp)
    rw [hnode] at hvalue
    rw [Report.trainedWeights_of hfits, List.getElem?_map, hi, Option.map_some, hd.id, hvalue]
    rfl

theorem trainedWeights_of_no_epochs (hg : r.graph = .ok g)
    (ho : (r.trainer g).outcome = .ok outcome) (he : r.epochs = 0) (device : String) (elapsed : Float) :
    (Report.of g outcome.store outcome.history outcome.epochs elapsed device).trainedWeights =
      r.trained.map fun n => ⟨n.1, Decimal.roundTo (n.2.value.getD 0.0) 6⟩ := by
  have hstart : ParameterStore.ofGraph g = .ok outcome.store := (Trainer.outcome_of_no_epochs ho he).1
  have hfits : outcome.store.Fits g := ParameterStore.ofGraph_fits hstart
  have hvalues (n : String × NodeRequest) (i : Fin g.size) (hd : r.Describes g n i) :
      (⟨n.1, Decimal.roundTo (n.2.value.getD 0.0) 6⟩ : TrainedWeight) =
        ⟨(g.node i).id, Decimal.roundTo (g.node i).initial Report.parameterPlaces⟩ := by
    rw [hd.id, hd.initial]
    rfl
  rw [Report.trainedWeights_of hfits, map_trained hg hvalues]
  exact List.map_congr_left fun i hi => by rw [ParameterStore.valueOf_ofGraph hstart hi]

/-- A report on a request lists its weights and biases in the order of the request, each once, and each
beside the number that was trained for it. The losses are those of the run. -/
theorem train_attributes {device : String} {elapsed : Float} {report : Report}
    (h : r.train device elapsed = .ok report) :
    ∃ g outcome, r.graph = .ok g ∧ (r.trainer g).run.1 = .ok outcome ∧
      (r.trainer g).storeAfter r.epochs = .ok outcome.store ∧
      report.trainedWeights.map (·.id) = r.trained.map (·.1) ∧ (r.trained.map (·.1)).Nodup ∧
      (∀ number n, r.trained[number]? = some n → ∃ i, r.Attributed g outcome report number n i) ∧
      report.lossHistory = outcome.history.map (Decimal.roundTo · 8) ∧
      report.finalLoss = report.lossHistory.getLast?.getD 0.0 ∧ report.epochs = r.epochs ∧
      (r.epochs = 0 → report.lossHistory = [] ∧ report.trainedWeights =
        r.trained.map fun n => ⟨n.1, Decimal.roundTo (n.2.value.getD 0.0) 6⟩) := by
  obtain ⟨g, outcome, hg, ho, rfl⟩ := exists_outcome_of_train h
  have hlast := Trainer.storeAfter_of_outcome ho
  have hfits : outcome.store.Fits g := Trainer.storeAfter_fits hlast
  have hrun := (Trainer.run_fst _).trans ho
  refine ⟨g, outcome, hg, hrun, hlast, ?_, nodup_trained hg, fun number n hn =>
    exists_attributed hg ho hn device elapsed, rfl, rfl, Trainer.epochs_of_run hrun, fun he => ?_⟩
  · rw [Report.trainedWeights_of hfits, List.map_map]
    exact (map_trained hg fun n i hd => hd.id.symm).symm
  · obtain ⟨_, hhistory⟩ := Trainer.outcome_of_no_epochs ho he
    exact ⟨congrArg (List.map _) hhistory, trainedWeights_of_no_epochs hg ho he device elapsed⟩

/-- Two epochs of a request whose nodes, parameters and evaluated nodes are counted differently; one of
its biases is never evaluated. -/
theorem train_attributes_two_epochs :
    let r : TrainRequest := {
      nodes := [("output", ⟨"output", none, none, none⟩), ("b", ⟨"bias", none, none, some 0.25⟩),
        ("x", ⟨"input", some "x", none, none⟩), ("w", ⟨"weight", none, none, some 0.5⟩),
        ("u", ⟨"bias", none, none, none⟩)]
      connections := [⟨"x", "w"⟩, ⟨"w", "output"⟩, ⟨"b", "output"⟩]
      trainingData := [⟨[2.0], 3.0⟩, ⟨[1.0], 1.0⟩]
      learningRate := 0.125, epochs := 2, inputLabels := ["x"]
      topologicalOrder := ["x", "w", "b", "output"], outputNode := "output", lenient := true }
    ∃ report g outcome, r.train "cpu" 0.5 = .ok report ∧ r.graph = .ok g ∧
      report.trainedWeights.map (·.id) = ["b", "w", "u"] ∧
      (∃ i, r.Attributed g outcome report 1 ("w", ⟨"weight", none, none, some 0.5⟩) i) ∧
      report.lossHistory = outcome.history.map (Decimal.roundTo · 8) ∧ report.epochs = 2 := by
  intro r
  have hok : (r.train "cpu" 0.5).toOption.isSome = true := by decide +kernel
  cases h : r.train "cpu" 0.5 with
  | error failure =>
    rw [h] at hok
    cases hok
  | ok report =>
    obtain ⟨g, outcome, hg, _, _, hids, _, hnumbers, hhistory, _, hepochs, _⟩ := train_attributes h
    exact ⟨report, g, outcome, rfl, hg, hids, hnumbers 1 _ rfl, hhistory, hepochs⟩

end TrainRequest

end Backprop
