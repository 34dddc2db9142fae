import Backprop.Proofs.Double.Magnitude
import Backprop.Proofs.Training.Run

namespace Backprop

variable {α : Type}

theorem Graph.trainable_eq_nil_iff {g : Graph α} :
    g.trainable = [] ↔ ∀ i, (g.node i).kind ≠ .weight ∧ (g.node i).kind ≠ .bias := by
  rw [trainable, List.filter_eq_nil_iff]
  simp only [List.mem_finRange, forall_const]
  apply forall_congr'
  intro i
  cases (g.node i).kind <;> decide

variable {failure : Failure α}

namespace Phase

variable {β : Type} {result : Except (Failure α) β}

theorem ending_eq_done_iff : ending result = .done ↔ ∃ b, result = .ok b := by
  cases result <;> simp [ending]

theorem ending_eq_failed_iff : ending result = .failed failure ↔ result = .error failure := by
  cases result <;> simp [ending]

theorem ending_ne_validating : ending result ≠ .validating := by
  cases result <;> nofun

theorem ending_ne_running {epoch : Nat} : ending result ≠ .running epoch := by
  cases result <;> nofun

end Phase

variable [Scalar α]

theorem TrainingConfig.usable_iff {c : TrainingConfig Float} : c.Usable ↔
    ¬(c.learningRate.isNaN ∨ c.learningRate.isInf ∨ c.learningRate < 0.0) := by
  have hfinite : Scalar.isFinite c.learningRate ↔ ¬(c.learningRate.isNaN ∨ c.learningRate.isInf) :=
    (not_iff_comm.1 Float.not_isFinite_iff).symm
  have hnegative : Scalar.isNegative c.learningRate ↔ c.learningRate < 0.0 := decide_eq_true_iff
  rw [Usable, hfinite, hnegative, ← not_or, or_assoc]

namespace Trainer

variable {t : Trainer α}

theorem refused_rate_iff {defect : ConfigDefect α} : t.Refused (.invalidConfig defect) ↔
    ¬t.config.Usable ∧ defect = .learningRate t.config.learningRate := by
  constructor
  · intro h
    cases h with
    | rate hrate => exact ⟨hrate, rfl⟩
  · rintro ⟨hrate, rfl⟩
    exact .rate hrate

theorem refused_rows_iff : t.Refused .emptyDataset ↔ t.config.Usable ∧ t.rows = [] := by
  constructor
  · intro h
    cases h with
    | rows husable hrows => exact ⟨husable, hrows⟩
  · rintro ⟨husable, hrows⟩
    exact .rows husable hrows

theorem refused_parameters_iff : t.Refused .nothingToTrain ↔
    t.config.Usable ∧ t.rows ≠ [] ∧
      ∀ i, (t.graph.node i).kind ≠ .weight ∧ (t.graph.node i).kind ≠ .bias := by
  rw [← Graph.trainable_eq_nil_iff]
  constructor
  · intro h
    cases h with
    | parameters husable hrows hg => exact ⟨husable, hrows, hg⟩
  · rintro ⟨husable, hrows, hg⟩
    exact .parameters husable hrows hg

/-- Every failure but a number that is not finite comes before the first epoch. -/
theorem outcome_eq_error_iff (hf : ∀ epoch row stage x, failure ≠ .nonFinite epoch row stage x) :
    t.outcome = .error failure ↔ t.Refused failure := by
  rw [← validate_eq_error_iff]
  constructor
  · intro h
    rcases outcome_error h with hv | ⟨_, epoch, row, stage, x, hx, _⟩
    · exact hv
    · exact absurd hx (hf epoch row stage x)
  · intro h
    rw [outcome, h]
    rfl

def afterRuns (t : Trainer α) : Nat → Trainer α
  | 0 => t
  | n + 1 => (t.afterRuns n).run.2

theorem afterRuns_eq (t : Trainer α) (n : Nat) :
    ∃ phase : Phase α, t.afterRuns n = { t with phase } := by
  induction n with
  | zero => exact ⟨t.phase, rfl⟩
  | succ n ih =>
    obtain ⟨phase, hn⟩ := ih
    rw [afterRuns, run_eq, hn]
    exact ⟨_, rfl⟩

theorem run_afterRuns_eq (t : Trainer α) (n : Nat) : (t.afterRuns n).run = t.run := by
  obtain ⟨phase, hn⟩ := t.afterRuns_eq n
  rw [hn]
  rfl

theorem validate_afterRuns (t : Trainer α) (n : Nat) : (t.afterRuns n).validate = t.validate := by
  obtain ⟨phase, hn⟩ := t.afterRuns_eq n
  rw [hn]
  rfl

/-- The next run of a trainer, however often it has been run. It comes to what the first run of a new
trainer comes to, and its ending is the phase that it leaves. It is refused before its first epoch for
the rate, else for want of rows, else for want of parameters; no other failure is possible but a number
that is not finite. -/
theorem run_afterRuns (t : Trainer Float) (n : Nat) :
    let rate := t.config.learningRate
    let before := t.afterRuns n
    let result := before.run.1
    let phase := (t.afterRuns (n + 1)).phase
    result = ({ t with phase := .validating } : Trainer Float).run.1 ∧
      (phase = .done ↔ ∃ outcome, result = .ok outcome) ∧
      (∀ failure, phase = .failed failure ↔ result = .error failure) ∧
      phase ≠ .validating ∧ (∀ epoch, phase ≠ .running epoch) ∧
      (∀ defect, result = .error (.invalidConfig defect) ↔
        (rate.isNaN ∨ rate.isInf ∨ rate < 0.0) ∧ defect = .learningRate rate) ∧
      (result = .error .emptyDataset ↔ ¬(rate.isNaN ∨ rate.isInf ∨ rate < 0.0) ∧ t.rows = []) ∧
      (result = .error .nothingToTrain ↔ ¬(rate.isNaN ∨ rate.isInf ∨ rate < 0.0) ∧ t.rows ≠ [] ∧
        ∀ i, (t.graph.node i).kind ≠ .weight ∧ (t.graph.node i).kind ≠ .bias) ∧
      ∀ failure, result = .error failure →
        before.validate = .error failure ∧
            ((∃ defect, failure = .invalidConfig defect) ∨ failure = .emptyDataset ∨
              failure = .nothingToTrain) ∨
          (∃ store, before.validate = .ok store) ∧ ∃ epoch row stage x,
            failure = .nonFinite epoch row stage x ∧ epoch < t.config.epochs ∧
              ∀ r ∈ row, r < t.rows.length := by
  intro rate before result phase
  have hrun : before.run = t.run := t.run_afterRuns_eq n
  have hresult : result = t.outcome := (congrArg Prod.fst hrun).trans t.run_fst
  have hphase : phase = .ending result := by
    change before.run.2.phase = _
    rw [hrun, run_eq, hresult]
  have hrate : t.config.Usable ↔ ¬(rate.isNaN ∨ rate.isInf ∨ rate < 0.0) :=
    TrainingConfig.usable_iff
  have hnoRate : ¬t.config.Usable ↔ rate.isNaN ∨ rate.isInf ∨ rate < 0.0 :=
    not_iff_comm.1 hrate.symm
  refine ⟨congrArg Prod.fst hrun, hphase ▸ Phase.ending_eq_done_iff,
    fun failure => hphase ▸ Phase.ending_eq_failed_iff, hphase ▸ Phase.ending_ne_validating,
    fun epoch => hphase ▸ Phase.ending_ne_running, ?rate, ?rows, ?parameters, ?others⟩
  case rate =>
    intro defect
    rw [hresult, ← hnoRate]
    exact (outcome_eq_error_iff (by nofun)).trans refused_rate_iff
  case rows =>
    rw [hresult, ← hrate]
    exact (outcome_eq_error_iff (by nofun)).trans refused_rows_iff
  case parameters =>
    rw [hresult, ← hrate]
    exact (outcome_eq_error_iff (by nofun)).trans refused_parameters_iff
  case others =>
    intro failure h
    have hvalidate : before.validate = t.validate := t.validate_afterRuns n
    rw [hresult] at h
    rw [hvalidate]
    rcases outcome_error h with hv | hnonFinite
    · refine .inl ⟨hv, ?_⟩
      rcases validate_error hv with hf | hf
      · exact .inl ⟨_, hf⟩
      · exact .inr hf
    · exact .inr hnonFinite

end Trainer

end Backprop
