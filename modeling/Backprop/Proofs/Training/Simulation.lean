import Backprop.Proofs.Training.Run

namespace Backprop.Trainer

variable {α : Type} [Scalar α] {t t' : Trainer α} {ev ev' : Evaluator α}

theorem runEpochs_keeps {P : ParameterStore α → Prop} {Q : α → Prop}
    (hstep : ∀ {store next : ParameterStore α} {epoch : Nat} {loss : α}, P store →
      t.runEpoch ev store epoch = .ok (loss, next) → P next ∧ Q loss)
    {count epoch : Nat} {store after : ParameterStore α} {history history' : List α}
    (h : t.runEpochs ev count epoch store history = .ok (after, history')) (hP : P store)
    (hQ : ∀ x ∈ history, Q x) : P after ∧ ∀ x ∈ history', Q x := by
  induction count generalizing epoch store history with
  | zero =>
    cases h
    exact ⟨hP, hQ⟩
  | succ count ih =>
    rw [runEpochs] at h
    split at h
    · cases h
    · next hr =>
      obtain ⟨hnext, hloss⟩ := hstep hP hr
      apply ih h hnext
      split
      · exact List.forall_mem_cons.2 ⟨hloss, hQ⟩
      · exact hQ

/-- What every epoch keeps, and what every loss satisfies, from the initial store on. -/
theorem run_keeps {P : ParameterStore α → Prop} {Q : α → Prop} {outcome : Outcome α}
    (hstart : ∀ {store : ParameterStore α}, t.validate = .ok store → P store)
    (hstep : ∀ {store next : ParameterStore α} {epoch : Nat} {loss : α}, P store →
      t.runEpoch (.new t.graph t.labels) store epoch = .ok (loss, next) → P next ∧ Q loss)
    (h : t.run.1 = .ok outcome) : P outcome.store ∧ ∀ x ∈ outcome.history, Q x := by
  rw [run_fst] at h
  obtain ⟨store, hv, h⟩ := Except.bind_eq_ok_iff.1 h
  obtain ⟨⟨after, history⟩, hr, h⟩ := Except.bind_eq_ok_iff.1 h
  cases h
  obtain ⟨hP, hQ⟩ := runEpochs_keeps hstep hr (hstart hv) nofun
  exact ⟨hP, fun x hx => hQ x (List.mem_reverse.1 hx)⟩

/-- The second trainer follows each epoch of the first, from related stores to related stores. -/
def Follows (R : ParameterStore α → ParameterStore α → Prop) (t t' : Trainer α) : Prop :=
  ∀ {store store' next : ParameterStore α} {epoch : Nat} {loss : α}, R store store' →
    t.runEpoch (.new t.graph t.labels) store epoch = .ok (loss, next) →
      ∃ next', t'.runEpoch (.new t'.graph t'.labels) store' epoch = .ok (loss, next') ∧ R next next'

variable {R : ParameterStore α → ParameterStore α → Prop}

theorem Follows.runEpochs (hf : Follows R t t') (hconfig : t'.config = t.config)
    {count epoch : Nat} {store store' after : ParameterStore α} {history history' : List α}
    (hR : R store store')
    (h : t.runEpochs (.new t.graph t.labels) count epoch store history = .ok (after, history')) :
    ∃ after', t'.runEpochs (.new t'.graph t'.labels) count epoch store' history =
      .ok (after', history') ∧ R after after' := by
  induction count generalizing epoch store store' history with
  | zero =>
    cases h
    exact ⟨store', rfl, hR⟩
  | succ count ih =>
    rw [Trainer.runEpochs] at h
    split at h
    · cases h
    · next loss next hr =>
      obtain ⟨next', hr', hnext⟩ := hf hR hr
      rw [Trainer.runEpochs, hr', hconfig]
      exact ih hnext h

theorem Follows.run (hf : Follows R t t') (hconfig : t'.config = t.config)
    (hstart : ∀ {store : ParameterStore α}, t.validate = .ok store →
      ∃ store', t'.validate = .ok store' ∧ R store store')
    {outcome : Outcome α} (h : t.run.1 = .ok outcome) :
    ∃ outcome', t'.run.1 = .ok outcome' ∧ outcome'.history = outcome.history ∧
      R outcome.store outcome'.store := by
  rw [run_fst] at h
  obtain ⟨store, hv, h⟩ := Except.bind_eq_ok_iff.1 h
  obtain ⟨⟨after, history⟩, hr, h⟩ := Except.bind_eq_ok_iff.1 h
  cases h
  obtain ⟨store', hv', hR⟩ := hstart hv
  obtain ⟨after', hr', hafter⟩ := hf.runEpochs hconfig hR hr
  have ho : t'.outcome = .ok ⟨after', history.reverse, t'.config.epochs⟩ := by
    rw [Trainer.outcome, hv']
    simp only [bind, Except.bind, hconfig, hr']
    rfl
  exact ⟨_, (run_fst t').trans ho, rfl, hafter⟩

end Backprop.Trainer
