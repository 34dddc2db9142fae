import Backprop.Proofs.Training.Finite
import Backprop.Proofs.Training.Reordering

namespace Backprop

variable {α : Type}

namespace TrainingConfig

def sampled (c : TrainingConfig α) : List Nat :=
  (List.range c.epochs).filter c.samples

variable {c : TrainingConfig α}

theorem mem_sampled_iff {epoch : Nat} :
    epoch ∈ c.sampled ↔ epoch < c.epochs ∧ (epoch % c.interval = 0 ∨ epoch + 1 = c.epochs) := by
  simp [sampled, samples]

theorem pairwise_sampled (c : TrainingConfig α) : c.sampled.Pairwise (· < ·) :=
  List.pairwise_lt_range.filter _

theorem sampled_eq_range (h : c.epochs < 400) : c.sampled = List.range c.epochs := by
  have hinterval : c.interval = 1 := by
    rw [interval]
    omega
  apply List.filter_eq_self.2
  intro epoch _
  simp [samples, hinterval, Nat.mod_one]

/-- The last epoch is sampled, and nothing after it. -/
theorem sampled_eq_append {last : Nat} (h : c.epochs = last + 1) :
    ∃ earlier, c.sampled = earlier ++ [last] := by
  have hlast : c.samples last = true := by simp [samples, h]
  refine ⟨(List.range last).filter c.samples, ?_⟩
  rw [sampled, h, List.range_succ, List.filter_append, List.filter_singleton, hlast]
  rfl

/-- With an interval of at least 2, the sampled epochs but the last are multiples of it that lie within
300 intervals. -/
theorem sampled_subset (h : 400 ≤ c.epochs) : c.sampled.toFinset ⊆
    insert (c.epochs - 1) ((Finset.range 300).image (· * c.interval)) := by
  have hinterval : c.interval = c.epochs / 200 := by
    rw [interval]
    omega
  intro epoch he
  obtain ⟨hlt, hmultiple | hlast⟩ := mem_sampled_iff.1 (List.mem_toFinset.1 he)
  · have hquotient : epoch / c.interval < 300 := by
      apply Nat.div_lt_of_lt_mul
      omega
    apply Finset.mem_insert_of_mem
    apply Finset.mem_image.2
    exact ⟨_, Finset.mem_range.2 hquotient, Nat.div_mul_cancel (Nat.dvd_of_mod_eq_zero hmultiple)⟩
  · have he : epoch = c.epochs - 1 := by omega
    rw [he]
    exact Finset.mem_insert_self _ _

theorem length_sampled_le (c : TrainingConfig α) : c.sampled.length ≤ 399 := by
  by_cases h : c.epochs < 400
  · rw [sampled_eq_range h, List.length_range]
    omega
  · have hnodup : c.sampled.Nodup := c.pairwise_sampled.imp Nat.ne_of_lt
    calc c.sampled.length = c.sampled.toFinset.card := (List.toFinset_card_of_nodup hnodup).symm
      _ ≤ (insert (c.epochs - 1) ((Finset.range 300).image (· * c.interval))).card :=
        Finset.card_le_card (sampled_subset (Nat.le_of_not_lt h))
      _ ≤ ((Finset.range 300).image (· * c.interval)).card + 1 := Finset.card_insert_le _ _
      _ ≤ (Finset.range 300).card + 1 := Nat.add_le_add_right Finset.card_image_le 1
      _ ≤ 399 := by
        rw [Finset.card_range]
        decide

end TrainingConfig

variable [Scalar α]

namespace Trainer

def lossOf (t : Trainer α) (store : ParameterStore α) : α :=
  t.graph.loss (t.rows.map fun row => (t.graph.env t.labels store row, row.expected))

def lossAfter (t : Trainer α) (count : Nat) : Except (Failure α) α :=
  (t.storeAfter count).map t.lossOf

/-- What one epoch of a run does: it starts from the store that the epochs before it leave, finds the
loss and the gradients there, and leaves the store that it updates by them. -/
structure Updates (t : Trainer α) (epoch : Nat) (loss : α) : Prop where
  step : ∃ before graded, t.storeAfter epoch = .ok before ∧
    (Evaluator.new t.graph t.labels).accumulateGradients before t.rows epoch = (.ok loss, graded) ∧
    t.storeAfter (epoch + 1) = .ok (graded.descend t.config.learningRate).zeroGrad
  sampled : t.lossAfter epoch = .ok loss

variable {t : Trainer α} {store next after : ParameterStore α} {count epoch : Nat} {loss : α}
  {history history' : List α}

theorem runEpoch_loss (h : t.runEpoch (.new t.graph t.labels) store epoch = .ok (loss, next)) :
    loss = t.lossOf store := by
  obtain ⟨_, _, _, hr, _⟩ := runEpoch_inv h
  rw [Evaluator.recordEpoch_loss hr, Evaluator.casesIn_new]
  rfl

theorem updates_of_storeAfter (h : t.storeAfter (epoch + 1) = .ok after) :
    ∃ loss, t.Updates epoch loss := by
  obtain ⟨before, loss, hb, hr⟩ := storeAfter_succ h
  obtain ⟨_, _, graded, _, ha, _, _, _, rfl⟩ := runEpoch_inv hr
  refine ⟨loss, ⟨before, graded, hb, ha, h⟩, ?_⟩
  rw [lossAfter, hb, runEpoch_loss hr]
  rfl

/-- Epochs from a store of the run on put in front of the history, newest first, the losses of those
among them that are sampled. -/
theorem history_runEpochs (hs : t.storeAfter epoch = .ok store)
    (h : t.runEpochs (.new t.graph t.labels) count epoch store history = .ok (after, history')) :
    ∃ losses, ((List.range' epoch count).filter t.config.samples).mapM t.lossAfter = .ok losses ∧
      history' = losses.reverse ++ history := by
  induction count generalizing epoch store history with
  | zero =>
    cases h
    exact ⟨[], rfl, rfl⟩
  | succ count ih =>
    rw [runEpochs] at h
    split at h
    · cases h
    · next loss next hr =>
      have hnext : t.storeAfter (epoch + 1) = .ok next := by
        rw [storeAfter_add, hs]
        exact Except.bind_eq_ok_iff.2 ⟨store, rfl, Except.bind_eq_ok_iff.2 ⟨_, hr, rfl⟩⟩
      have hloss : t.lossAfter epoch = .ok loss := by
        rw [lossAfter, hs, runEpoch_loss hr]
        rfl
      obtain ⟨losses, hm, hh⟩ := ih hnext h
      rw [List.range'_succ, List.filter_cons]
      split
      · next hsample =>
        rw [if_pos hsample] at hh
        refine ⟨loss :: losses, ?_, ?_⟩
        · rw [List.mapM_cons, hloss, hm]
          rfl
        · rw [hh, List.reverse_cons, List.append_assoc]
          rfl
      · next hsample =>
        rw [if_neg hsample] at hh
        exact ⟨losses, hm, hh⟩

theorem mapM_lossAfter {outcome : Outcome α} (h : t.run.1 = .ok outcome) :
    t.config.sampled.mapM t.lossAfter = .ok outcome.history := by
  rw [run_fst] at h
  obtain ⟨store, hv, h⟩ := Except.bind_eq_ok_iff.1 h
  obtain ⟨⟨after, history⟩, hr, h⟩ := Except.bind_eq_ok_iff.1 h
  cases h
  have hs : t.storeAfter 0 = .ok store := Except.bind_eq_ok_iff.2 ⟨store, hv, rfl⟩
  obtain ⟨losses, hm, hh⟩ := history_runEpochs hs hr
  rw [hh, List.append_nil, List.reverse_reverse, TrainingConfig.sampled, List.range_eq_range']
  exact hm

theorem getLast?_history {outcome : Outcome α} {last : Nat} (h : t.run.1 = .ok outcome)
    (he : t.config.epochs = last + 1) :
    ∃ loss, t.lossAfter last = .ok loss ∧ outcome.history.getLast? = some loss := by
  obtain ⟨earlier, hsampled⟩ := TrainingConfig.sampled_eq_append he
  have hm := mapM_lossAfter h
  rw [hsampled, List.mapM_append] at hm
  obtain ⟨losses, _, hm⟩ := Except.bind_eq_ok_iff.1 hm
  obtain ⟨final, hf, hm⟩ := Except.bind_eq_ok_iff.1 hm
  rw [List.mapM_cons] at hf
  obtain ⟨loss, hl, hf⟩ := Except.bind_eq_ok_iff.1 hf
  cases hf
  refine ⟨loss, hl, ?_⟩
  rw [← Except.ok.inj hm]
  exact List.getLast?_concat

/-- A run that succeeds has sampled the losses of one epoch in each interval and of the last one, in
order and each once; they are the losses before the update of the epoch. Up to 399 epochs are all
sampled, and of no run are there more samples. -/
theorem run_history {outcome : Outcome α} (h : t.run.1 = .ok outcome) :
    let epochs := t.config.epochs
    let interval := max 1 (epochs / 200)
    ∃ sampled : List Nat,
      sampled.Pairwise (· < ·) ∧
      (∀ epoch, epoch ∈ sampled ↔ epoch < epochs ∧ (epoch % interval = 0 ∨ epoch = epochs - 1)) ∧
      sampled.mapM t.lossAfter = .ok outcome.history ∧
      (∀ epoch < epochs, ∃ loss, t.Updates epoch loss) ∧
      (epochs = 0 → outcome.history = []) ∧
      (∀ last, epochs = last + 1 →
        ∃ loss, t.lossAfter last = .ok loss ∧ outcome.history.getLast? = some loss) ∧
      (epochs < 400 → sampled = List.range epochs) ∧
      outcome.history.length ≤ 399 := by
  intro epochs interval
  have hm := mapM_lossAfter h
  have hstore : t.storeAfter epochs = .ok outcome.store :=
    storeAfter_of_outcome ((run_fst t).symm.trans h)
  refine ⟨t.config.sampled, t.config.pairwise_sampled, ?members, hm, ?updates, ?empty, ?last,
    TrainingConfig.sampled_eq_range, ?bound⟩
  case members =>
    intro epoch
    rw [TrainingConfig.mem_sampled_iff]
    apply and_congr_right
    intro hlt
    have hlast : epoch + 1 = t.config.epochs ↔ epoch = epochs - 1 := by omega
    rw [hlast]
    rfl
  case updates =>
    intro epoch he
    obtain ⟨after, ha⟩ := storeAfter_of_le hstore he
    exact updates_of_storeAfter ha
  case empty =>
    intro he
    exact (outcome_of_no_epochs ((run_fst t).symm.trans h) he).2
  case last =>
    intro last he
    exact getLast?_history h he
  case bound =>
    rw [← (Except.forall₂_of_mapM hm).length_eq]
    exact t.config.length_sampled_le

theorem run_history_650 :
    let g : Graph ℚ := {
      size := 3
      nodes := #v[⟨"x", .input, some "x", .linear, 0⟩, ⟨"w", .weight, none, .linear, 1⟩,
        ⟨"output", .neuron, none, .sigmoid, 0⟩]
      order := [0, 1, 2]
      incoming := #v[[], [0], [1]]
      hasDeclaredInputs := #v[false, true, true]
      output := some 2
      mode := .strict }
    let t : Trainer ℚ := {
      graph := g, rows := [⟨[2], 3⟩, ⟨[1], 1⟩], labels := ["x"], config := ⟨1 / 4, 650⟩ }
    ∃ (outcome : Outcome ℚ) (sampled : List Nat), t.run.1 = .ok outcome ∧
      sampled.mapM t.lossAfter = .ok outcome.history ∧ 645 ∈ sampled ∧ 646 ∉ sampled ∧
      648 ∈ sampled ∧ 649 ∈ sampled ∧
      (∃ loss, t.lossAfter 649 = .ok loss ∧ outcome.history.getLast? = some loss) ∧
      outcome.history.length ≤ 399 := by
  intro g t
  have hconfig : t.config.validate = .ok () := if_pos (by decide +kernel)
  have hv : t.validate = .ok ⟨#[⟨1, 1, 0⟩]⟩ := by
    rw [validate_eq, hconfig]
    rfl
  obtain ⟨outcome, ho⟩ := run_ok hv
  obtain ⟨sampled, _, hmem, hm, _, _, hlast, _, hlength⟩ := run_history ho
  exact ⟨outcome, sampled, ho, hm, (hmem 645).2 (by decide),
    fun he => absurd ((hmem 646).1 he) (by decide), (hmem 648).2 (by decide),
    (hmem 649).2 (by decide), hlast 649 rfl, hlength⟩

end Trainer

end Backprop
