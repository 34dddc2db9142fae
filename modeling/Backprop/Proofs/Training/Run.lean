import Backprop.Proofs.Training.Epoch

namespace Backprop

variable {α : Type}

/-- The same failure with so many epochs before. -/
def Failure.delay (count : Nat) : Failure α → Failure α
  | .nonFinite epoch row stage x => .nonFinite (count + epoch) row stage x
  | failure => failure

def Phase.ending {β : Type} : Except (Failure α) β → Phase α
  | .ok _ => .done
  | .error failure => .failed failure

variable [Scalar α]

namespace TrainingConfig

def Usable (c : TrainingConfig α) : Prop :=
  Scalar.isFinite c.learningRate ∧ ¬Scalar.isNegative c.learningRate

variable {c : TrainingConfig α} {failure : Failure α}

theorem validate_eq_ok_iff : c.validate = .ok () ↔ c.Usable := by
  have hcheck : (Scalar.isFinite c.learningRate && !Scalar.isNegative c.learningRate) = true ↔
      c.Usable := by
    simp [Usable]
  rw [validate, ← hcheck]
  split
  · next h => exact iff_of_true rfl h
  · next h => exact iff_of_false nofun h

theorem validate_eq_error_iff : c.validate = .error failure ↔
    ¬c.Usable ∧ failure = .invalidConfig (.learningRate c.learningRate) := by
  rw [← validate_eq_ok_iff, validate]
  split
  · exact iff_of_false nofun fun h => h.1 rfl
  · exact ⟨fun h => ⟨nofun, (Except.error.inj h).symm⟩, fun h => congrArg Except.error h.2.symm⟩

end TrainingConfig

namespace Trainer

def runEpochs (t : Trainer α) (ev : Evaluator α) :
    (count epoch : Nat) → ParameterStore α → List α → Except (Failure α) (ParameterStore α × List α)
  | 0, _, store, history => .ok (store, history)
  | count + 1, epoch, store, history =>
    match t.runEpoch ev store epoch with
    | .error failure => .error failure
    | .ok (loss, store) =>
      t.runEpochs ev count (epoch + 1) store
        (if t.config.samples epoch then loss :: history else history)

def outcome (t : Trainer α) : Except (Failure α) (Outcome α) := do
  let store ← t.validate
  let (store, history) ← t.runEpochs (.new t.graph t.labels) t.config.epochs 0 store []
  return { store, history := history.reverse, epochs := t.config.epochs }

/-- What so many epochs make of a store, the first of which has the given number. -/
def advance (t : Trainer α) (ev : Evaluator α) :
    (count epoch : Nat) → ParameterStore α → Except (Failure α) (ParameterStore α)
  | 0, _, store => .ok store
  | count + 1, epoch, store => do
    let (_, store) ← t.runEpoch ev store epoch
    t.advance ev count (epoch + 1) store

/-- The store of a run as it stands after so many epochs. -/
def storeAfter (t : Trainer α) (count : Nat) : Except (Failure α) (ParameterStore α) := do
  let store ← t.validate
  t.advance (.new t.graph t.labels) count 0 store

variable {t : Trainer α} {ev : Evaluator α} {g : Graph α} {store after : ParameterStore α}
  {count epoch : Nat} {failure : Failure α}

/-- An epoch reads everything of its trainer but the phase. -/
theorem goThrough_eq (t : Trainer α) (ev : Evaluator α) (count epoch : Nat)
    (store : ParameterStore α) (history : List α) (phase : Phase α) : ∃ left : Phase α,
    ({ t with phase } : Trainer α).goThrough ev count epoch store history =
      (t.runEpochs ev count epoch store history, { t with phase := left }) := by
  induction count generalizing epoch store history phase with
  | zero => exact ⟨phase, rfl⟩
  | succ count ih =>
    have hepoch : ({ t with phase := .running epoch } : Trainer α).runEpoch ev store epoch =
        t.runEpoch ev store epoch := rfl
    simp only [goThrough, runEpochs, hepoch]
    cases t.runEpoch ev store epoch with
    | error failure => exact ⟨.running epoch, rfl⟩
    | ok p => exact ih (epoch + 1) p.2 _ (.running epoch)

/-- The result of a run decides the phase after it; the phase before it decides nothing. -/
theorem run_eq (t : Trainer α) : t.run = (t.outcome, { t with phase := .ending t.outcome }) := by
  have hvalidate : ({ t with phase := .validating } : Trainer α).validate = t.validate := rfl
  simp only [run, outcome, hvalidate]
  cases t.validate with
  | error failure => rfl
  | ok store =>
    obtain ⟨left, hepochs⟩ := t.goThrough_eq (.new t.graph t.labels) t.config.epochs 0 store []
      .validating
    simp only [hepochs, bind, Except.bind]
    cases t.runEpochs (.new t.graph t.labels) t.config.epochs 0 store [] with
    | error failure => rfl
    | ok p => rfl

theorem run_fst (t : Trainer α) : t.run.1 = t.outcome := by
  rw [run_eq]

theorem map_runEpochs (t : Trainer α) (ev : Evaluator α) (count epoch : Nat)
    (store : ParameterStore α) (history : List α) :
    (t.runEpochs ev count epoch store history).map (·.1) = t.advance ev count epoch store := by
  induction count generalizing epoch store history with
  | zero => rfl
  | succ count ih =>
    rw [runEpochs, advance]
    cases h : t.runEpoch ev store epoch with
    | error failure => rfl
    | ok p => exact ih _ _ _

theorem epochs_of_run {outcome : Outcome α} (h : t.run.1 = .ok outcome) :
    outcome.epochs = t.config.epochs := by
  rw [run_fst] at h
  obtain ⟨_, _, h⟩ := Except.bind_eq_ok_iff.1 h
  obtain ⟨_, _, h⟩ := Except.bind_eq_ok_iff.1 h
  cases h
  rfl

theorem map_outcome (t : Trainer α) : t.outcome.map (·.store) = t.storeAfter t.config.epochs := by
  rw [outcome, storeAfter]
  cases hv : t.validate with
  | error failure => rfl
  | ok store =>
    have h := map_runEpochs t (.new t.graph t.labels) t.config.epochs 0 store []
    simp only [bind, Except.bind, ← h]
    cases t.runEpochs (.new t.graph t.labels) t.config.epochs 0 store [] <;> rfl

theorem storeAfter_of_outcome {outcome : Outcome α} (h : t.outcome = .ok outcome) :
    t.storeAfter t.config.epochs = .ok outcome.store := by
  rw [← map_outcome, h]
  rfl

theorem advance_add (t : Trainer α) (ev : Evaluator α) (m n epoch : Nat)
    (store : ParameterStore α) :
    t.advance ev (m + n) epoch store =
      t.advance ev m epoch store >>= t.advance ev n (epoch + m) := by
  induction m generalizing epoch store with
  | zero => rw [Nat.zero_add]; rfl
  | succ m ih =>
    rw [Nat.succ_add, advance, advance]
    cases h : t.runEpoch ev store epoch with
    | error failure => rfl
    | ok p =>
      change t.advance ev (m + n) (epoch + 1) p.2 = _
      rw [ih, Nat.add_assoc, Nat.add_comm 1 m]
      rfl

theorem storeAfter_add (t : Trainer α) (m n : Nat) :
    t.storeAfter (m + n) = t.storeAfter m >>= t.advance (.new t.graph t.labels) n m := by
  rw [storeAfter, storeAfter]
  cases t.validate with
  | error failure => rfl
  | ok store =>
    have h := advance_add t (.new t.graph t.labels) m n 0 store
    rwa [Nat.zero_add] at h

theorem advance_fits (hs : store.Fits g) (h : t.advance ev count epoch store = .ok after) :
    after.Fits g := by
  induction count generalizing epoch store with
  | zero =>
    cases h
    exact hs
  | succ count ih =>
    obtain ⟨⟨_, next⟩, he, h⟩ := Except.bind_eq_ok_iff.1 h
    exact ih (runEpoch_fits hs he) h

theorem validate_eq (t : Trainer α) :
    t.validate = t.config.validate >>= fun _ =>
      if t.rows.isEmpty then .error .emptyDataset else ParameterStore.ofGraph t.graph :=
  rfl

theorem validate_ok (h : t.validate = .ok store) : ParameterStore.ofGraph t.graph = .ok store := by
  rw [validate_eq] at h
  obtain ⟨_, _, h⟩ := Except.bind_eq_ok_iff.1 h
  split at h
  · cases h
  · exact h

theorem outcome_of_no_epochs {outcome : Outcome α} (h : t.outcome = .ok outcome)
    (he : t.config.epochs = 0) :
    ParameterStore.ofGraph t.graph = .ok outcome.store ∧ outcome.history = [] := by
  rw [Trainer.outcome, he] at h
  obtain ⟨_, hv, h⟩ := Except.bind_eq_ok_iff.1 h
  cases h
  exact ⟨validate_ok hv, rfl⟩

theorem validate_of_ok (h : t.validate = .ok store) {t' : Trainer α} (hconfig : t'.config = t.config)
    (hrows : t'.rows = t.rows) : t'.validate = ParameterStore.ofGraph t'.graph := by
  rw [validate_eq] at h ⊢
  obtain ⟨_, hc, h⟩ := Except.bind_eq_ok_iff.1 h
  rw [hconfig, hrows, hc]
  split at h
  · cases h
  · next hr => exact if_neg hr

theorem validate_fits (h : t.validate = .ok store) : store.Fits t.graph :=
  ParameterStore.ofGraph_fits (validate_ok h)

theorem storeAfter_fits (h : t.storeAfter count = .ok store) : store.Fits t.graph := by
  obtain ⟨_, hv, ha⟩ := Except.bind_eq_ok_iff.1 h
  exact advance_fits (validate_fits hv) ha

/-- What a trainer is refused for before its first epoch. -/
inductive Refused (t : Trainer α) : Failure α → Prop
  | rate : ¬t.config.Usable → Refused t (.invalidConfig (.learningRate t.config.learningRate))
  | rows : t.config.Usable → t.rows = [] → Refused t .emptyDataset
  | parameters : t.config.Usable → t.rows ≠ [] → t.graph.trainable = [] → Refused t .nothingToTrain

theorem validate_eq_error_iff : t.validate = .error failure ↔ t.Refused failure := by
  rw [validate_eq, Except.bind_eq_error_iff]
  constructor
  · rintro (h | ⟨_, h, hrest⟩)
    · obtain ⟨hrate, rfl⟩ := TrainingConfig.validate_eq_error_iff.1 h
      exact .rate hrate
    · have husable := TrainingConfig.validate_eq_ok_iff.1 h
      split at hrest
      · next hrows =>
        cases hrest
        exact .rows husable (List.isEmpty_iff.1 hrows)
      · next hrows =>
        rw [ParameterStore.ofGraph] at hrest
        split at hrest
        · next hg =>
          cases hrest
          exact .parameters husable (by simpa using hrows) hg
        · cases hrest
  · intro h
    cases h with
    | rate hrate => exact .inl (TrainingConfig.validate_eq_error_iff.2 ⟨hrate, rfl⟩)
    | rows husable hrows =>
      refine .inr ⟨(), TrainingConfig.validate_eq_ok_iff.2 husable, ?_⟩
      rw [hrows]
      rfl
    | parameters husable hrows hg =>
      refine .inr ⟨(), TrainingConfig.validate_eq_ok_iff.2 husable, ?_⟩
      rw [if_neg (by simpa using hrows), ParameterStore.ofGraph, hg]

theorem validate_error (h : t.validate = .error failure) :
    failure = .invalidConfig (.learningRate t.config.learningRate) ∨ failure = .emptyDataset ∨
      failure = .nothingToTrain := by
  cases validate_eq_error_iff.1 h with
  | rate => exact .inl rfl
  | rows => exact .inr (.inl rfl)
  | parameters => exact .inr (.inr rfl)

theorem advance_error (hs : store.Fits ev.graph)
    (h : t.advance ev count epoch store = .error failure) :
    ∃ e row stage x, failure = .nonFinite e row stage x ∧ epoch ≤ e ∧ e < epoch + count ∧
      ∀ n ∈ row, n < t.rows.length := by
  induction count generalizing epoch store with
  | zero => cases h
  | succ count ih =>
    rcases (runEpoch_epochFree t hs).ok_or_nonFinite epoch with ⟨⟨loss, next⟩, hr⟩ | ⟨row, stage, x, hr, hn⟩
    · rw [advance, hr] at h
      obtain ⟨e, row, stage, x, hf, hle, hlt, hn⟩ := ih (runEpoch_fits hs hr) h
      exact ⟨e, row, stage, x, hf, by omega, by omega, hn⟩
    · rw [advance, hr] at h
      cases h
      exact ⟨epoch, row, stage, x, rfl, Nat.le_refl _, by omega, hn⟩

/-- A run fails where it is refused, or in one of its epochs at a number that is not finite. -/
theorem outcome_error (h : t.outcome = .error failure) :
    t.validate = .error failure ∨ (∃ store, t.validate = .ok store) ∧
      ∃ epoch row stage x, failure = .nonFinite epoch row stage x ∧ epoch < t.config.epochs ∧
        ∀ n ∈ row, n < t.rows.length := by
  have hs := map_outcome t
  rw [h] at hs
  rcases Except.bind_eq_error_iff.1 hs.symm with hv | ⟨store, hv, ha⟩
  · exact .inl hv
  · obtain ⟨epoch, row, stage, x, hf, _, hlt, hn⟩ := advance_error (validate_fits hv) ha
    rw [Nat.zero_add] at hlt
    exact .inr ⟨⟨store, hv⟩, epoch, row, stage, x, hf, hlt, hn⟩

/-- Shifting the epochs shifts a failure and nothing else. -/
theorem advance_delay (hs : store.Fits ev.graph) (m : Nat) :
    t.advance ev count (m + epoch) store =
      (t.advance ev count epoch store).mapError (.delay m) := by
  induction count generalizing epoch store with
  | zero => rfl
  | succ count ih =>
    obtain ⟨r, _, hf⟩ := runEpoch_epochFree t hs
    rw [advance, advance, hf, hf]
    cases r with
    | error x => rfl
    | ok p => exact @ih _ (epoch + 1) (runEpoch_fits hs (hf epoch))

end Trainer

end Backprop
