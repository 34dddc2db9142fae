import Mathlib
import Backprop.GradientCheck
import Backprop.Proofs.Recording
import Backprop.Proofs.Tape.Backward

namespace Backprop

variable {α : Type} [Scalar α]

/-- The reverse pass over a tape that was recorded from the store. The gradients that it leaves do not
depend on those that it found. -/
theorem ParameterStore.backpropagate_eq {store : ParameterStore α} {tape : Tape α} {root : Handle}
    (hg : Tape.empty.Grows store.Backs tape) (hr : root < tape.size) (epoch : Nat) :
    store.backpropagate tape root epoch =
      (match findNonFinite? (store.withGrads (tape.gradient root)).grads with
        | some x => .error (.nonFinite epoch none .backward x)
        | none => .ok (),
        store.withGrads (tape.gradient root)) := by
  obtain ⟨adjoints, hb, _⟩ := Tape.backward_ok hg.recorded.wellFormed hr
  have hids : ∀ item ∈ tape.parameterAdjoints adjoints, item.1 < store.zeroGrad.size := by
    intro item hi
    obtain ⟨h, e, he, ho⟩ := Tape.exists_read_of_mem hi
    have hback : store.Backs e.call := hg.of_entry (Nat.zero_le h) he
    simp only [Entry.call, ho] at hback
    obtain ⟨p, hp, _⟩ := hback
    simpa [zeroGrad, size] using (Array.getElem?_eq_some_iff.1 hp).1
  obtain ⟨after, ha, hsize, hps⟩ := addGrads_ok hids
  have hafter : after = store.withGrads (tape.gradient root) := by
    apply eq_withGrads
    · exact hsize.trans (size_eq_of_nodes store.nodes_zeroGrad)
    · intro id p hp
      rw [hps id _ (getElem?_zeroGrad hp), Tape.gradient, hb]
  simp only [backpropagate, hb, ha, hafter]
  cases findNonFinite? (store.withGrads (tape.gradient root)).grads <;> rfl

end Backprop

namespace Backprop.Evaluator

variable {α : Type} [Scalar α] {ev : Evaluator α} {store : ParameterStore α} {epoch number : Nat}
  {row : Row α} {rows : List (Row α)} {tape tape' : Tape α} {h : Handle}

def casesIn {β : Type} [Zero β] (ev : Evaluator α) (ℓ : Translation α β)
    (store : ParameterStore α) (rows : List (Row α)) : List (Env β ev.graph.size × β) :=
  rows.map fun row => (ev.envIn ℓ store row, ℓ.constant row.expected)

theorem casesIn_new (g : Graph α) (labels : List String) (store : ParameterStore α)
    (rows : List (Row α)) : (Evaluator.new g labels).casesIn (.refl α) store rows =
      rows.map fun row => (g.env labels store row, row.expected) :=
  List.map_congr_left fun row _ => congrArg (·, row.expected) (envIn_new g labels store row)

theorem recordLoss_inv (hr : ev.recordLoss store epoch number row tape = .ok (h, tape')) :
    tape.Grows store.Backs tape' ∧ h < tape'.size ∧
      ∀ {β : Type} [Scalar β] {ℓ : Translation α β} {final : Tape α} {view : Handle → β},
        tape'.IsPrefix final → final.Reads ℓ view →
        view h = ev.graph.squaredError (ev.envIn ℓ store row) (ℓ.constant row.expected) := by
  obtain ⟨r, hrec, hr⟩ := Except.bind_eq_ok_iff.1 hr
  obtain ⟨⟨u, tape₁⟩, he, hr⟩ := Except.bind_eq_ok_iff.1 hr
  have hc : r.tape.call (.squaredError r.prediction row.expected) = .ok (u, tape₁) := he
  obtain ⟨hg, _, _, hread⟩ := record_inv hrec
  dsimp only at hr
  split at hr
  · cases hr
  · cases hr
    refine ⟨hg.call hc trivial, Tape.call_lt hc, fun hpre hview => ?_⟩
    obtain ⟨_, hp⟩ := hread ((Tape.call_isPrefix hc).trans hpre) hview
    rw [Graph.squaredError, ← hp]
    exact hview.call hc hpre

theorem recordLosses_inv {losses : List Handle}
    (hr : ev.recordLosses store epoch number rows tape = .ok (losses, tape')) :
    tape.Grows store.Backs tape' ∧ (∀ u ∈ losses, u < tape'.size) ∧
      ∀ {β : Type} [Scalar β] {ℓ : Translation α β} {final : Tape α} {view : Handle → β},
        tape'.IsPrefix final → final.Reads ℓ view →
        losses.map view = (ev.casesIn ℓ store rows).map fun c =>
          ev.graph.squaredError c.1 c.2 := by
  induction rows generalizing number tape losses with
  | nil =>
    cases hr
    exact ⟨.refl, nofun, fun _ _ => rfl⟩
  | cons row rows ih =>
    obtain ⟨⟨u, tape₁⟩, hl, hr⟩ := Except.bind_eq_ok_iff.1 hr
    obtain ⟨⟨us, tape₂⟩, hls, hr⟩ := Except.bind_eq_ok_iff.1 hr
    cases hr
    obtain ⟨hg, hu, hview₁⟩ := recordLoss_inv hl
    obtain ⟨hg', hus, hview₂⟩ := ih hls
    refine ⟨hg.trans hg', List.forall_mem_cons.2 ⟨Nat.lt_of_lt_of_le hu hg'.size_le, hus⟩,
      fun hpre hview => ?_⟩
    rw [List.map_cons, hview₁ (hg'.isPrefix.trans hpre) hview, hview₂ hpre hview]
    rfl

theorem recordEpoch_inv {loss : α} {root : Handle}
    (hr : ev.recordEpoch store rows epoch = .ok (loss, root, tape)) :
    Tape.empty.Grows store.Backs tape ∧ tape.size = root + 1 ∧ loss = tape.valueAt root ∧
      ∀ {β : Type} [Scalar β] {ℓ : Translation α β} {view : Handle → β}, tape.Reads ℓ view →
        view root = ev.graph.loss (ev.casesIn ℓ store rows) := by
  obtain ⟨⟨losses, tape₁⟩, hl, hr⟩ := Except.bind_eq_ok_iff.1 hr
  obtain ⟨⟨u, tape₂⟩, hm, hr⟩ := Except.bind_eq_ok_iff.1 hr
  obtain ⟨x, hx, hr⟩ := Except.bind_eq_ok_iff.1 hr
  have hc : tape₁.call (.mean losses) = .ok (u, tape₂) := hm
  obtain ⟨hg, _, hlosses⟩ := recordLosses_inv hl
  split at hr
  · cases hr
    have hlt := Tape.call_lt hc
    rw [Tape.value_eq hlt] at hx
    cases hx
    refine ⟨hg.call hc trivial, ?_, rfl, fun hview => ?_⟩
    · obtain ⟨_, rfl, rfl⟩ := Tape.call_inv hc
      exact Tape.size_push _ _ _
    · rw [Graph.loss, ← hlosses (Tape.call_isPrefix hc) hview]
      exact hview.call hc fun _ _ he => he
  · cases hr

theorem recordEpoch_loss {loss : α} {root : Handle}
    (hr : ev.recordEpoch store rows epoch = .ok (loss, root, tape)) :
    loss = ev.graph.loss (ev.casesIn (.refl α) store rows) := by
  obtain ⟨hg, _, hloss, hview⟩ := recordEpoch_inv hr
  rw [hloss]
  exact hview hg.recorded.reads_valueAt

theorem accumulateGradients_of_error {failure : Failure α}
    (hr : ev.recordEpoch store rows epoch = .error failure) :
    ev.accumulateGradients store rows epoch = (.error failure, store) := by
  rw [accumulateGradients, hr]

/-- Once everything is recorded, the gradients are those of the tape, whichever there were before. -/
theorem accumulateGradients_of_ok {loss : α} {root : Handle} {tape : Tape α}
    (hr : ev.recordEpoch store rows epoch = .ok (loss, root, tape)) :
    ev.accumulateGradients store rows epoch =
      (match findNonFinite? (store.withGrads (tape.gradient root)).grads with
        | some x => .error (.nonFinite epoch none .backward x)
        | none => .ok loss,
        store.withGrads (tape.gradient root)) := by
  obtain ⟨hg, hsize, _⟩ := recordEpoch_inv hr
  have hlt : root < tape.size := Nat.lt_of_lt_of_eq root.lt_succ_self hsize.symm
  rw [accumulateGradients, hr]
  dsimp only
  rw [ParameterStore.backpropagate_eq hg hlt]
  cases findNonFinite? (store.withGrads (tape.gradient root)).grads <;> rfl

theorem readable_of_recordEpoch {r : α × Handle × Tape α}
    (hr : ev.recordEpoch store rows epoch = .ok r) (hn : rows ≠ []) : ev.Readable store := by
  obtain ⟨row, rows, rfl⟩ := List.exists_cons_of_ne_nil hn
  obtain ⟨_, hls, _⟩ := Except.bind_eq_ok_iff.1 hr
  obtain ⟨_, hl, _⟩ := Except.bind_eq_ok_iff.1 hls
  obtain ⟨_, hrec, _⟩ := Except.bind_eq_ok_iff.1 hl
  exact readable_of_record hrec

end Backprop.Evaluator

namespace Backprop

variable {α : Type} [Scalar α] {g : Graph α} {store : ParameterStore α}

/-- The mean of the squared errors as they are added up, from 0 on. -/
def Graph.addedLoss (g : Graph α) (labels : List String) (store : ParameterStore α)
    (rows : List (Row α)) : α :=
  if rows.isEmpty then 0
  else rows.foldl (fun total row =>
    total + g.squaredError (g.env labels store row) row.expected) 0 / (rows.length : α)

namespace Evaluator

theorem addErrors_of_readable {ev : Evaluator α} (hp : ev.Readable store) (total : α)
    (rows : List (Row α)) : ev.addErrors store total rows = .ok (rows.foldl (fun total row =>
      total + ev.graph.squaredError (ev.envIn (.refl α) store row) row.expected) total) := by
  induction rows generalizing total with
  | nil => rfl
  | cons row rows ih =>
    rw [addErrors, evaluate_eq row hp]
    exact ih _

theorem addErrors_eq_foldl (labels : List String) (hs : store.Fits g) (total : α)
    (rows : List (Row α)) :
    (Evaluator.new g labels).addErrors store total rows = .ok (rows.foldl (fun total row =>
      total + g.squaredError (g.env labels store row) row.expected) total) := by
  rw [addErrors_of_readable (readable_of_fits hs)]
  simp only [envIn_new]
  rfl

theorem epochLoss_new (labels : List String) (hs : store.Fits g) (rows : List (Row α)) :
    (Evaluator.new g labels).epochLoss store rows = .ok (g.addedLoss labels store rows) := by
  rw [epochLoss, Graph.addedLoss]
  split
  · rfl
  · rw [addErrors_eq_foldl labels hs]
    rfl

end Evaluator

end Backprop
