import Backprop.Proofs.Rows
import Backprop.Training.Run

namespace Backprop

variable {α β γ : Type}

structure NonFinite (α : Type) where
  row : Option Nat
  stage : Stage
  value : α

def NonFinite.failure (x : NonFinite α) (epoch : Nat) : Failure α :=
  .nonFinite epoch x.row x.stage x.value

/-- The same result in every epoch, or the same number that is not finite, in one of so many rows if
it is in a row at all. -/
def EpochFree (rows : Nat) (f : Nat → Except (Failure α) β) : Prop :=
  ∃ r : Except (NonFinite α) β, (∀ x, r = .error x → ∀ n ∈ x.row, n < rows) ∧
    ∀ epoch, f epoch = r.mapError (·.failure epoch)

namespace EpochFree

variable {rows : Nat} {f : Nat → Except (Failure α) β} {b : β}

theorem of_ok (h : ∀ epoch, f epoch = .ok b) : EpochFree rows f :=
  ⟨.ok b, nofun, h⟩

theorem of_nonFinite (x : NonFinite α) (hx : ∀ n ∈ x.row, n < rows)
    (h : ∀ epoch, f epoch = .error (x.failure epoch)) : EpochFree rows f :=
  ⟨.error x, fun _ he => Except.error.inj he ▸ hx, h⟩

theorem ok_or_nonFinite (h : EpochFree rows f) (epoch : Nat) :
    (∃ b, f epoch = .ok b) ∨
      ∃ row stage x, f epoch = .error (.nonFinite epoch row stage x) ∧ ∀ n ∈ row, n < rows := by
  obtain ⟨r, hr, hf⟩ := h
  cases r with
  | ok b => exact .inl ⟨b, hf epoch⟩
  | error x => exact .inr ⟨x.row, x.stage, x.value, hf epoch, hr x rfl⟩

end EpochFree

variable [Scalar α]

namespace Evaluator

variable {ev : Evaluator α} {store : ParameterStore α} {rows : List (Row α)} {tape : Tape α}
  {number limit : Nat} {row : Row α}

theorem recordEpoch_epochFree (hs : store.Fits ev.graph) (rows : List (Row α)) :
    EpochFree rows.length (ev.recordEpoch store rows) := by
  have hp : ev.Readable store := readable_of_fits hs
  cases hx : ev.firstNonFinite? store rows with
  | some p =>
    obtain ⟨_, hrow, _⟩ := firstNonFinite?_eq_some_iff.1 hx
    obtain ⟨hlt, _⟩ := List.getElem?_eq_some_iff.1 hrow
    exact .of_nonFinite ⟨some p.1, .forward, p.2⟩ (fun n hn => Option.some.inj hn ▸ hlt)
      (recordEpoch_of_some hp hx)
  | none =>
    obtain ⟨root, tape, hr⟩ := recordEpoch_of_none (fun _ => hp) hx
    by_cases hf : Scalar.isFinite (ev.graph.loss (ev.casesIn (.refl α) store rows))
    · exact .of_ok fun epoch => (hr epoch).trans (if_pos hf)
    · exact .of_nonFinite ⟨none, .forward, _⟩ nofun fun epoch => (hr epoch).trans (if_neg hf)

end Evaluator

theorem findNonFinite?_eq_none_iff {xs : List α} :
    findNonFinite? xs = none ↔ ∀ x ∈ xs, Scalar.isFinite x := by
  simp [findNonFinite?]

namespace Trainer

variable {t : Trainer α} {ev : Evaluator α} {store next : ParameterStore α} {epoch : Nat} {loss : α}

theorem runEpoch_epochFree (t : Trainer α) (hs : store.Fits ev.graph) :
    EpochFree t.rows.length (t.runEpoch ev store) := by
  obtain ⟨r, hr, hf⟩ := Evaluator.recordEpoch_epochFree hs t.rows
  cases r with
  | error x =>
    refine .of_nonFinite x (hr x rfl) fun epoch => ?_
    rw [runEpoch, Evaluator.accumulateGradients_of_error (hf epoch)]
    rfl
  | ok p =>
    obtain ⟨loss, root, tape⟩ := p
    have ha := fun epoch => Evaluator.accumulateGradients_of_ok (hf epoch)
    cases hx : findNonFinite? (store.withGrads (tape.gradient root)).grads with
    | some x =>
      refine .of_nonFinite ⟨none, .backward, x⟩ nofun fun epoch => ?_
      rw [runEpoch, ha, hx]
      rfl
    | none =>
      let next := (store.withGrads (tape.gradient root)).descend t.config.learningRate
      cases hy : findNonFinite? next.values with
      | some x =>
        refine .of_nonFinite ⟨none, .update, x⟩ nofun fun epoch => ?_
        simp only [runEpoch, ha, hx, bind, Except.bind, next, hy]
        rfl
      | none =>
        refine .of_ok (b := (loss, next.zeroGrad)) fun epoch => ?_
        simp only [runEpoch, ha, hx, bind, Except.bind, next, hy]
        rfl

theorem runEpoch_inv (h : t.runEpoch ev store epoch = .ok (loss, next)) :
    ∃ (root : Handle) (tape : Tape α) (graded : ParameterStore α),
      ev.recordEpoch store t.rows epoch = .ok (loss, root, tape) ∧
        ev.accumulateGradients store t.rows epoch = (.ok loss, graded) ∧
        graded = store.withGrads (tape.gradient root) ∧ (∀ x ∈ graded.grads, Scalar.isFinite x) ∧
        (∀ x ∈ (graded.descend t.config.learningRate).values, Scalar.isFinite x) ∧
        next = (graded.descend t.config.learningRate).zeroGrad := by
  cases hr : ev.recordEpoch store t.rows epoch with
  | error failure =>
    rw [runEpoch, Evaluator.accumulateGradients_of_error hr] at h
    cases h
  | ok p =>
    obtain ⟨loss', root, tape⟩ := p
    have ha := Evaluator.accumulateGradients_of_ok hr
    cases hx : findNonFinite? (store.withGrads (tape.gradient root)).grads with
    | some x =>
      rw [hx] at ha
      rw [runEpoch, ha] at h
      cases h
    | none =>
      rw [hx] at ha
      simp only [runEpoch, ha, bind, Except.bind] at h
      split at h
      · cases h
      · next hy =>
        cases h
        exact ⟨root, tape, _, rfl, ha, rfl, findNonFinite?_eq_none_iff.1 hx,
          findNonFinite?_eq_none_iff.1 hy, rfl⟩

theorem runEpoch_fits {g : Graph α} (hs : store.Fits g)
    (h : t.runEpoch ev store epoch = .ok (loss, next)) : next.Fits g := by
  obtain ⟨_, _, _, _, _, rfl, _, _, rfl⟩ := runEpoch_inv h
  apply hs.of_nodes
  rw [ParameterStore.nodes_zeroGrad, ParameterStore.nodes_descend, ParameterStore.nodes_withGrads]

end Trainer

end Backprop
