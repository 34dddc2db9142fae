import Backprop.Proofs.Json.Render
import Backprop.Proofs.Payload
import Backprop.Proofs.Request
import Backprop.Proofs.Training.Finite

namespace Backprop

open Json (Number Value)

namespace Report

variable {r : Report}

theorem writable_toValue (h : r.Finite) (he : r.epochs < 2 ^ 64) :
    r.toValue.Writable Value.maxDepth := by
  change ∀ m ∈ (_ : List (String × Value)), Value.Writable 126 m.2
  simp only [List.forall_mem_cons]
  refine ⟨?_, ?_, h.finalLoss, ⟨Int.natCast_nonneg _, ?_⟩, h.elapsed, trivial, nofun⟩
  · change ∀ v ∈ r.trainedWeights.map TrainedWeight.toValue, Value.Writable 125 v
    rw [List.forall_mem_map]
    intro w hw
    change ∀ m ∈ (_ : List (String × Value)), Value.Writable 124 m.2
    simp only [List.forall_mem_cons]
    exact ⟨trivial, h.weights w hw, nofun⟩
  · change ∀ v ∈ r.lossHistory.map _, Value.Writable 125 v
    rw [List.forall_mem_map]
    exact h.history
  · exact_mod_cast he

def weightReread (w : TrainedWeight) : TrainedWeight :=
  { w with value := Number.rereadReal w.value }

def reread (r : Report) : Report where
  trainedWeights := r.trainedWeights.map weightReread
  lossHistory := r.lossHistory.map Number.rereadReal
  finalLoss := Number.rereadReal r.finalLoss
  epochs := r.epochs
  elapsed := Number.rereadReal r.elapsed
  device := r.device

theorem Finite.reread (h : r.Finite) : r.reread.Finite where
  weights := List.forall_mem_map.2 fun w hw => (Number.reread_real (h.weights w hw)).2
  history := List.forall_mem_map.2 fun x hx => (Number.reread_real (h.history x hx)).2
  finalLoss := (Number.reread_real h.finalLoss).2
  elapsed := (Number.reread_real h.elapsed).2

theorem reread_toValue (h : r.Finite) (he : r.epochs < 2 ^ 64) :
    r.toValue.reread Value.maxDepth = r.reread.toValue := by
  have hweights : (r.trainedWeights.map TrainedWeight.toValue).map (Value.reread 125) =
      (r.trainedWeights.map weightReread).map TrainedWeight.toValue := by
    rw [List.map_map, List.map_map]
    refine List.map_congr_left fun w hw => ?_
    change Value.object [("id", .text w.id), ("value", .number (Number.real w.value).reread)] = _
    rw [(Number.reread_real (h.weights w hw)).1]
    rfl
  have hhistory : (r.lossHistory.map fun x => Value.number (.real x)).map (Value.reread 125) =
      (r.lossHistory.map Number.rereadReal).map fun x => .number (.real x) := by
    rw [List.map_map, List.map_map]
    refine List.map_congr_left fun x hx => ?_
    change Value.number (Number.real x).reread = _
    rw [(Number.reread_real (h.history x hx)).1]
    rfl
  change Value.object [
    ("trainedWeights", .array ((r.trainedWeights.map TrainedWeight.toValue).map (.reread 125))),
    ("lossHistory", .array ((r.lossHistory.map fun x => .number (.real x)).map (.reread 125))),
    ("finalLoss", .number (Number.real r.finalLoss).reread),
    ("epochs", .number (Number.whole r.epochs).reread),
    ("elapsed", .number (Number.real r.elapsed).reread),
    ("device", .text r.device)] = _
  rw [hweights, hhistory, (Number.reread_real h.finalLoss).1, Number.reread_whole he,
    (Number.reread_real h.elapsed).1]
  rfl

theorem ofString?_toValue (h : r.Finite) (he : r.epochs < 2 ^ 64) :
    Value.ofString? r.toValue.render = some r.reread.toValue := by
  rw [Value.ofString?_render (writable_toValue h he), reread_toValue h he]

end Report

theorem Failure.ofString?_toValue (failure : Failure Float) :
    Value.ofString? failure.toValue.render = some (.object [("error", .text failure.message)]) := by
  refine Value.ofString?_render ?_
  change ∀ m ∈ (_ : List (String × Value)), Value.Writable 126 m.2
  simp only [List.forall_mem_cons]
  exact ⟨trivial, nofun⟩

namespace TrainRequest

variable {r : TrainRequest} {device : String} {elapsed : Float} {report : Report}

theorem Bounded.finite_train (hr : r.Bounded) (he : elapsed.isFinite)
    (h : r.train device elapsed = .ok report) :
    report.Finite ∧ report.epochs < 2 ^ 64 ∧ report.device = device := by
  cases hg : r.graph with
  | error defect =>
    rw [train, hg] at h
    cases h
  | ok graph =>
    cases ho : (r.trainer graph).outcome with
    | error failure =>
      rw [train_of_failure device elapsed hg ho] at h
      cases h
    | ok outcome =>
      rw [train_of_outcome device elapsed hg ho] at h
      cases h
      obtain ⟨hv, hh⟩ := Trainer.outcome_finite (hr.isFinite_initial hg) ho
      refine ⟨Report.finite_of hv hh he, ?_, rfl⟩
      obtain ⟨_, _, ho⟩ := Except.bind_eq_ok_iff.1 ho
      obtain ⟨_, _, ho⟩ := Except.bind_eq_ok_iff.1 ho
      cases ho
      exact hr.epochs

end TrainRequest

/-- Whatever the payload and the device, and however long training took, the answer is JSON. It is
an object of nothing but the text of the failure, or the report, of which every number is one. -/
theorem trainJson_wellFormed (payload device : String) (nanos : Fin (2 ^ 64 * 10 ^ 9)) :
    match TrainRequest.ofJson payload >>= (·.train device (Report.seconds nanos)) with
    | .error failure =>
      Value.ofString? (trainJson payload device (Report.seconds nanos)) =
        some (.object [("error", .text failure.message)])
    | .ok report =>
      report.Finite ∧ report.reread.Finite ∧
        Value.ofString? (trainJson payload device (Report.seconds nanos)) = some (.object [
          ("trainedWeights", .array (report.reread.trainedWeights.map fun w =>
            .object [("id", .text w.id), ("value", .number (.real w.value))])),
          ("lossHistory", .array (report.reread.lossHistory.map fun x => .number (.real x))),
          ("finalLoss", .number (.real report.reread.finalLoss)),
          ("epochs", .number (.whole report.epochs)),
          ("elapsed", .number (.real report.reread.elapsed)),
          ("device", .text device)]) := by
  have helapsed := Report.isFinite_seconds nanos.isLt
  generalize Report.seconds nanos = elapsed at helapsed ⊢
  cases hr : TrainRequest.ofJson payload >>= (·.train device elapsed) with
  | error failure =>
    have ha : trainJson payload device elapsed = failure.toValue.render := by
      rw [trainJson, hr]
    rw [ha]
    exact failure.ofString?_toValue
  | ok report =>
    obtain ⟨r, hj, ht⟩ := Except.bind_eq_ok_iff.1 hr
    obtain ⟨hfinite, hepochs, rfl⟩ := (TrainRequest.bounded_ofJson hj).finite_train helapsed ht
    have ha : trainJson payload report.device elapsed = report.toValue.render := by
      rw [trainJson, hr]
    refine ⟨hfinite, hfinite.reread, ?_⟩
    rw [ha]
    exact Report.ofString?_toValue hfinite hepochs

end Backprop
