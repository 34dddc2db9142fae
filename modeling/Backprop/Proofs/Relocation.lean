import Backprop.Proofs.Rows

namespace Backprop

variable {α : Type}

/-- The second row is the first one recorded behind a tape, which is left as it was. -/
structure RecordedRow.LiesBehind {n : Nat} (own : RecordedRow α n) (tape : Tape α)
    (r : RecordedRow α n) : Prop where
  size : r.tape.size = tape.size + own.tape.size
  older : ∀ h < tape.size, r.tape.entries[h]? = tape.entries[h]?
  appended : ∀ h, r.tape.entries[tape.size + h]? = own.tape.entries[h]?.map (Entry.shift tape.size)
  handles : ∀ i, r.handles.get i = (own.handles.get i).map (tape.size + ·)
  prediction : r.prediction = tape.size + own.prediction
  fresh : ∀ i h, r.handles.get i = some h → tape.size ≤ h ∧ h < r.tape.size
  fresh_prediction : tape.size ≤ r.prediction ∧ r.prediction < r.tape.size

namespace Evaluator

variable [Scalar α] {ev : Evaluator α} {store : ParameterStore α} {row : Row α}

theorem liesBehind_behind {own : RecordedRow α ev.graph.size}
    (hown : ev.record store .empty row = .ok own) (tape : Tape α) :
    own.LiesBehind tape (own.behind tape) := by
  obtain ⟨_, hvalid, hprediction, _⟩ := record_inv hown
  have hsize : (own.behind tape).tape.size = tape.size + own.tape.size :=
    (tape.size_append own.tape).trans (Nat.add_comm ..)
  have hhandles (i : Fin ev.graph.size) :
      (own.behind tape).handles.get i = (own.handles.get i).map (tape.size + ·) := by
    simp only [Nat.add_comm tape.size]
    exact Vector.get_map ..
  refine ⟨hsize, fun h hh => ?_, fun h => ?_, hhandles, Nat.add_comm .., fun i h hi => ?_, ?_⟩
  · exact Array.getElem?_append_left hh
  · rw [Nat.add_comm]
    exact tape.getElem?_append own.tape h
  · rw [hhandles, Option.map_eq_some_iff] at hi
    obtain ⟨u, hu, rfl⟩ := hi
    rw [hsize]
    exact ⟨Nat.le_add_right .., Nat.add_lt_add_left (hvalid i u hu) _⟩
  · rw [hsize, Nat.add_comm tape.size]
    exact ⟨Nat.le_add_left .., Nat.add_lt_add_right hprediction _⟩

theorem exists_record_iff {tape : Tape α} :
    (∃ r, ev.record store tape row = .ok r) ↔ ∀ i ∈ ev.graph.order, ¬ev.lacks store i := by
  have hreadable : ev.Readable store ↔ ∀ i ∈ ev.graph.order, ¬ev.lacks store i := by
    rw [← missing?_eq_none_iff, missing?, List.find?_eq_none]
  rw [← hreadable]
  constructor
  · rintro ⟨_, hr⟩
    exact readable_of_record hr
  · exact record_ok row tape

/-- Recording a row on any tape succeeds exactly if no node that is evaluated lacks its parameter,
and else it names the first that does. If it succeeds, the row lies behind the tape as it is
recorded alone. -/
theorem record_liesBehind (ev : Evaluator α) (store : ParameterStore α) (row : Row α)
    (tape : Tape α) :
    ((∃ r, ev.record store tape row = .ok r) ↔ ∃ own, ev.record store .empty row = .ok own) ∧
      ((∃ r, ev.record store tape row = .ok r) ↔
        ∀ i ∈ ev.graph.order, (ev.graph.node i).kind.isTrainable → (store.paramFor? i).isSome) ∧
      ((¬∃ r, ev.record store tape row = .ok r) → ∃ before i after,
        ev.graph.order = before ++ i :: after ∧ (∀ j ∈ before, ¬ev.lacks store j) ∧
          ev.lacks store i ∧
          ev.record store tape row = .error (.mismatch (.noParameter (ev.graph.node i).id))) ∧
      ∀ own, ev.record store .empty row = .ok own →
        ∃ r, ev.record store tape row = .ok r ∧ own.LiesBehind tape r := by
  refine ⟨?alone, ?parameters, ?missing, ?behind⟩
  case alone => rw [exists_record_iff, exists_record_iff]
  case parameters =>
    rw [exists_record_iff]
    apply forall₂_congr
    intro i _
    rw [Bool.not_eq_true, lacks, Bool.and_eq_false_imp, Option.isNone_eq_false_iff]
  case missing =>
    intro hfails
    rw [exists_record_iff] at hfails
    push Not at hfails
    obtain ⟨i, hi⟩ := Option.isSome_iff_exists.1 (List.find?_isSome.2 hfails)
    obtain ⟨hlacks, before, after, horder, hbefore⟩ := List.find?_eq_some_iff_append.1 hi
    refine ⟨before, i, after, horder, fun j hj => ?_, hlacks, record_of_missing hi tape row⟩
    simpa using hbefore j hj
  case behind =>
    intro own hown
    refine ⟨own.behind tape, ?_, liesBehind_behind hown tape⟩
    rw [record_append, hown]
    rfl

/-- Behind two entries: a weight that scales an empty sum, and an output that is not evaluated. -/
theorem record_liesBehind_lenient :
    let g : Graph ℚ := {
      size := 3
      nodes := #v[⟨"w", .weight, none, .linear, 3⟩, ⟨"b", .bias, none, .linear, 1⟩,
        ⟨"output", .output, none, .linear, 0⟩]
      order := [0, 1]
      incoming := #v[[], [], [0, 1]]
      hasDeclaredInputs := #v[true, false, true]
      output := some 2
      mode := .lenient }
    let store : ParameterStore ℚ := ⟨#[⟨0, 3, 0⟩, ⟨1, 1, 0⟩]⟩
    let tape : Tape ℚ := ⟨#[⟨.constant, 7⟩, ⟨.sum [0, 0], 14⟩]⟩
    ∃ own r, (Evaluator.new g []).record store .empty ⟨[], 0⟩ = .ok own ∧
      (Evaluator.new g []).record store tape ⟨[], 0⟩ = .ok r ∧ own.LiesBehind tape r := by
  intro g store tape
  obtain ⟨halone, hparameters, _, hbehind⟩ := record_liesBehind (.new g []) store ⟨[], 0⟩ tape
  have hall : ∀ i ∈ g.order, (g.node i).kind.isTrainable → (store.paramFor? i).isSome := by
    decide +kernel
  obtain ⟨own, hown⟩ := halone.1 (hparameters.2 hall)
  obtain ⟨r, hr, hlies⟩ := hbehind own hown
  exact ⟨own, r, hown, hr, hlies⟩

end Evaluator

end Backprop
