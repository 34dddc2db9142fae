import Backprop.Proofs.Training.Epoch

namespace Backprop

variable {α : Type}

namespace ParameterStore

variable {s s' : ParameterStore α} {node : Nat}

theorem size_eq_of_values (h : s'.values = s.values) : s'.size = s.size := by
  simpa [values, size] using congrArg List.length h

theorem lookUp?_congr (hvalues : s'.values = s.values)
    (hnode : s'.paramFor? node = s.paramFor? node) : s'.lookUp? node = s.lookUp? node := by
  have hvalue (id : Nat) : s'.params[id]?.map (·.value) = s.params[id]?.map (·.value) := by
    have hlist := congrArg (fun values : List α => values[id]?) hvalues
    simpa only [values, List.getElem?_map, Array.getElem?_toList] using hlist
  have hpair (s : ParameterStore α) : s.lookUp? node =
      (s.paramFor? node).bind fun id => (s.params[id]?.map (·.value)).map (id, ·) := by
    simp only [lookUp?, Option.map_map]
    rfl
  rw [hpair, hpair, hnode]
  simp only [hvalue]

end ParameterStore

variable [Scalar α]

namespace Evaluator

variable {ev : Evaluator α} {store store' : ParameterStore α} {row : Row α} {rows : List (Row α)}
  {epoch : Nat} {result : Except (Failure α) α} {after : ParameterStore α}

section Congruence

variable (h : ∀ node, store'.lookUp? node = store.lookUp? node)

include h

theorem readParameter_congr : ev.readParameter store' = ev.readParameter store := by
  funext tape i
  rw [readParameter_eq, readParameter_eq, h]

theorem recordNodes_congr (is : List (Fin ev.graph.size))
    (handles : Vector (Option Handle) ev.graph.size) (tape : Tape α) :
    ev.recordNodes store' row is handles tape = ev.recordNodes store row is handles tape := by
  induction is generalizing handles tape with
  | nil => rfl
  | cons i is ih =>
    rw [recordNodes, recordNodes, recordNode, recordNode, readParameter_congr h]
    simp only [ih]

theorem record_congr (ev : Evaluator α) (tape : Tape α) (row : Row α) :
    ev.record store' tape row = ev.record store tape row := by
  rw [record, record, recordNodes_congr h]

theorem recordLosses_congr (epoch number : Nat) (rows : List (Row α)) (tape : Tape α) :
    ev.recordLosses store' epoch number rows tape =
      ev.recordLosses store epoch number rows tape := by
  induction rows generalizing number tape with
  | nil => rfl
  | cons row rows ih =>
    rw [recordLosses, recordLosses, recordLoss, recordLoss, record_congr h]
    simp only [ih]

theorem recordEpoch_congr (ev : Evaluator α) (rows : List (Row α)) (epoch : Nat) :
    ev.recordEpoch store' rows epoch = ev.recordEpoch store rows epoch := by
  rw [recordEpoch, recordEpoch, recordLosses_congr h]

end Congruence

/-- What an epoch can come to, with the store that it leaves. -/
inductive Ends (ev : Evaluator α) (store : ParameterStore α) (rows : List (Row α)) (epoch : Nat) :
    Except (Failure α) α → ParameterStore α → Prop
  | parameter {i : Fin ev.graph.size} (hrows : rows ≠ []) (hi : ev.missing? store = some i) :
    ev.Ends store rows epoch (.error (.mismatch (.noParameter (ev.graph.node i).id))) store
  | row {r : Nat} {x : α} (hp : ev.Readable store)
    (hx : ev.firstNonFinite? store rows = some (r, x)) :
    ev.Ends store rows epoch (.error (.nonFinite epoch (some r) .forward x)) store
  | mean (hp : rows ≠ [] → ev.Readable store) (hrows : ev.firstNonFinite? store rows = none)
    (hloss : ¬Scalar.isFinite (ev.graph.loss (ev.casesIn (.refl α) store rows))) :
    ev.Ends store rows epoch (.error (.nonFinite epoch none .forward
      (ev.graph.loss (ev.casesIn (.refl α) store rows)))) store
  | gradient {root : Handle} {tape : Tape α} {x : α} (hp : rows ≠ [] → ev.Readable store)
    (hrows : ev.firstNonFinite? store rows = none)
    (hloss : Scalar.isFinite (ev.graph.loss (ev.casesIn (.refl α) store rows)))
    (hr : ev.recordEpoch store rows epoch =
      .ok (ev.graph.loss (ev.casesIn (.refl α) store rows), root, tape))
    (hx : findNonFinite? (store.withGrads (tape.gradient root)).grads = some x) :
    ev.Ends store rows epoch (.error (.nonFinite epoch none .backward x))
      (store.withGrads (tape.gradient root))
  | ok {root : Handle} {tape : Tape α} (hp : rows ≠ [] → ev.Readable store)
    (hrows : ev.firstNonFinite? store rows = none)
    (hloss : Scalar.isFinite (ev.graph.loss (ev.casesIn (.refl α) store rows)))
    (hr : ev.recordEpoch store rows epoch =
      .ok (ev.graph.loss (ev.casesIn (.refl α) store rows), root, tape))
    (hgrads : findNonFinite? (store.withGrads (tape.gradient root)).grads = none) :
    ev.Ends store rows epoch (.ok (ev.graph.loss (ev.casesIn (.refl α) store rows)))
      (store.withGrads (tape.gradient root))

theorem ends_of_readable (hp : rows ≠ [] → ev.Readable store) (epoch : Nat) :
    ev.Ends store rows epoch (ev.accumulateGradients store rows epoch).1
      (ev.accumulateGradients store rows epoch).2 := by
  cases hx : ev.firstNonFinite? store rows with
  | some p =>
    have hrows : rows ≠ [] := by
      rintro rfl
      cases hx
    rw [accumulateGradients_of_error (recordEpoch_of_some (hp hrows) hx epoch)]
    exact .row (hp hrows) hx
  | none =>
    obtain ⟨root, tape, hr⟩ := recordEpoch_of_none hp hx
    replace hr := hr epoch
    by_cases hloss : Scalar.isFinite (ev.graph.loss (ev.casesIn (.refl α) store rows))
    · rw [if_pos hloss] at hr
      rw [accumulateGradients_of_ok hr]
      cases hgrads : findNonFinite? (store.withGrads (tape.gradient root)).grads with
      | some x => exact .gradient hp hx hloss hr hgrads
      | none => exact .ok hp hx hloss hr hgrads
    · rw [if_neg hloss] at hr
      rw [accumulateGradients_of_error hr]
      exact .mean hp hx hloss

theorem accumulateGradients_ends (ev : Evaluator α) (store : ParameterStore α)
    (rows : List (Row α)) (epoch : Nat) :
    ev.Ends store rows epoch (ev.accumulateGradients store rows epoch).1
      (ev.accumulateGradients store rows epoch).2 := by
  cases hi : ev.missing? store with
  | none => exact ends_of_readable (fun _ => missing?_eq_none_iff.1 hi) epoch
  | some i =>
    by_cases hrows : rows = []
    · exact ends_of_readable (fun h => absurd hrows h) epoch
    · rw [accumulateGradients_of_error (recordEpoch_of_missing hi hrows epoch)]
      exact .parameter hrows hi

theorem Ends.nodes (h : ev.Ends store rows epoch result after) : after.nodes = store.nodes := by
  cases h with
  | gradient | ok => exact store.nodes_withGrads _
  | _ => rfl

theorem Ends.values (h : ev.Ends store rows epoch result after) : after.values = store.values := by
  cases h with
  | gradient | ok => exact store.values_withGrads _
  | _ => rfl

theorem exists_withGrads {loss : α}
    (ha : ev.accumulateGradients store rows epoch = (.ok loss, after)) :
    ∃ grad, after = store.withGrads grad := by
  have hends := accumulateGradients_ends ev store rows epoch
  rw [ha] at hends
  cases hends with
  | ok => exact ⟨_, rfl⟩

theorem Ends.recorded (h : ev.Ends store rows epoch result after)
    (hresult : (∃ loss, result = .ok loss) ∨
      ∃ x, result = .error (.nonFinite epoch none .backward x)) :
    ∃ p, ev.recordEpoch store rows epoch = .ok p := by
  cases h with
  | gradient _ _ _ hr => exact ⟨_, hr⟩
  | ok _ _ _ hr => exact ⟨_, hr⟩
  | _ => simp at hresult

theorem Ends.eq_of_forward {epoch' : Nat} {r : Option Nat} {x : α}
    (h : ev.Ends store rows epoch (.error (.nonFinite epoch' r .forward x)) after) :
    after = store := by
  cases h <;> rfl

theorem Ends.of_missing (h : ev.Ends store rows epoch result after) {i : Fin ev.graph.size}
    (hrows : rows ≠ []) (hi : ev.missing? store = some i) :
    result = .error (.mismatch (.noParameter (ev.graph.node i).id)) ∧ after = store := by
  have hnot : ¬ev.Readable store := by
    intro hp
    rw [missing?_eq_none_iff.2 hp] at hi
    cases hi
  cases h with
  | parameter _ hi' =>
    rw [hi] at hi'
    cases hi'
    exact ⟨rfl, rfl⟩
  | row hp => exact absurd hp hnot
  | mean hp | gradient hp | ok hp => exact absurd (hp hrows) hnot

/-- Only when the gradients were what failed is the store another one. -/
theorem Ends.failure {failure : Failure α}
    (h : ev.Ends store rows epoch (.error failure) after) :
    (∃ x, failure = .nonFinite epoch none .backward x) ∨
      after = store ∧ ((∃ row x, failure = .nonFinite epoch row .forward x) ∨
        ∃ i, rows ≠ [] ∧ ev.missing? store = some i ∧
          failure = .mismatch (.noParameter (ev.graph.node i).id)) := by
  cases h with
  | parameter hrows hi => exact .inr ⟨rfl, .inr ⟨_, hrows, hi, rfl⟩⟩
  | row | mean => exact .inr ⟨rfl, .inl ⟨_, _, rfl⟩⟩
  | gradient => exact .inl ⟨_, rfl⟩

section Forgotten

variable (h : ∀ node, store'.lookUp? node = store.lookUp? node) (hsize : store'.size = store.size)

include h hsize

/-- The result does not depend on the gradients that the store held. -/
theorem accumulateGradients_fst_congr (rows : List (Row α)) (epoch : Nat) :
    (ev.accumulateGradients store' rows epoch).1 = (ev.accumulateGradients store rows epoch).1 := by
  have hr' := recordEpoch_congr h ev rows epoch
  cases hr : ev.recordEpoch store rows epoch with
  | error failure =>
    rw [accumulateGradients_of_error hr, accumulateGradients_of_error (hr'.trans hr)]
  | ok p =>
    rw [accumulateGradients_of_ok hr, accumulateGradients_of_ok (hr'.trans hr),
      ParameterStore.grads_withGrads, ParameterStore.grads_withGrads, hsize]

theorem grads_accumulateGradients_congr {p : α × Handle × Tape α}
    (hr : ev.recordEpoch store rows epoch = .ok p) :
    (ev.accumulateGradients store' rows epoch).2.grads =
      (ev.accumulateGradients store rows epoch).2.grads := by
  have hr' := (recordEpoch_congr h ev rows epoch).trans hr
  rw [accumulateGradients_of_ok hr, accumulateGradients_of_ok hr',
    ParameterStore.grads_withGrads, ParameterStore.grads_withGrads, hsize]

end Forgotten

/-- What an epoch leaves in the store, whichever way it ends. Values, and the parameters of nodes, are
never changed. Gradients that were there before have no part in the result; they are replaced if
everything was recorded, and stay as they are if a number on the way was not finite or a parameter was
missing. Without rows no parameter is read. -/
theorem accumulateGradients_store (ev : Evaluator α) (store : ParameterStore α)
    (rows : List (Row α)) (epoch : Nat) :
    let result := (ev.accumulateGradients store rows epoch).1
    let after := (ev.accumulateGradients store rows epoch).2
    (after.values = store.values ∧ after.nodes = store.nodes ∧
        ∀ node, after.paramFor? node = store.paramFor? node) ∧
      (∀ store' : ParameterStore α, store'.values = store.values →
        (∀ node, store'.paramFor? node = store.paramFor? node) →
        (ev.accumulateGradients store' rows epoch).1 = result ∧
          ((∃ loss, result = .ok loss) ∨
              (∃ x, result = .error (.nonFinite epoch none .backward x)) →
            (ev.accumulateGradients store' rows epoch).2.grads = after.grads)) ∧
      (∀ row x, result = .error (.nonFinite epoch row .forward x) → after = store) ∧
      (rows ≠ [] → (∃ i ∈ ev.graph.order, ev.lacks store i) →
        (∃ i, ev.missing? store = some i ∧
          result = .error (.mismatch (.noParameter (ev.graph.node i).id))) ∧ after = store) ∧
      ∀ failure, result = .error failure →
        (∃ x, failure = .nonFinite epoch none .backward x) ∨
          after = store ∧ ((∃ row x, failure = .nonFinite epoch row .forward x) ∨
            ∃ i, rows ≠ [] ∧ ev.missing? store = some i ∧
              failure = .mismatch (.noParameter (ev.graph.node i).id)) := by
  intro result after
  have hends : ev.Ends store rows epoch result after := accumulateGradients_ends ev store rows epoch
  refine ⟨?frame, ?forgotten, ?forward, ?missing, ?failures⟩
  case frame =>
    refine ⟨hends.values, hends.nodes, fun node => ?_⟩
    rw [ParameterStore.paramFor?_eq, ParameterStore.paramFor?_eq, hends.nodes]
  case forgotten =>
    intro store' hvalues hparams
    have hlookUp (node : Nat) : store'.lookUp? node = store.lookUp? node :=
      ParameterStore.lookUp?_congr hvalues (hparams node)
    have hsize := ParameterStore.size_eq_of_values hvalues
    refine ⟨accumulateGradients_fst_congr hlookUp hsize rows epoch, fun hresult => ?_⟩
    obtain ⟨p, hr⟩ := hends.recorded hresult
    exact grads_accumulateGradients_congr hlookUp hsize hr
  case forward =>
    intro row x hx
    rw [hx] at hends
    exact hends.eq_of_forward
  case missing =>
    intro hrows hlacks
    obtain ⟨i, hi⟩ := Option.isSome_iff_exists.1 (List.find?_isSome.2 hlacks)
    obtain ⟨hresult, hafter⟩ := hends.of_missing hrows hi
    exact ⟨⟨i, hi, hresult⟩, hafter⟩
  case failures =>
    intro failure hf
    rw [hf] at hends
    exact hends.failure

/-- A store that was made for another graph: the weight finds no parameter, and the gradients 5 and 7
stay. -/
theorem accumulateGradients_store_of_another :
    let g : Graph ℚ := {
      size := 3
      nodes := #v[⟨"x", .input, some "x", .linear, 0⟩, ⟨"w", .weight, none, .linear, 3⟩,
        ⟨"output", .output, none, .linear, 0⟩]
      order := [0, 1, 2]
      incoming := #v[[], [0], [1]]
      hasDeclaredInputs := #v[false, true, true]
      output := some 2
      mode := .strict }
    let store : ParameterStore ℚ := ⟨#[⟨0, 1, 5⟩, ⟨2, 4, 7⟩]⟩
    (Evaluator.new g ["x"]).accumulateGradients store [⟨[1], 4⟩, ⟨[2], 1⟩] 0 =
      (.error (.mismatch (.noParameter "w")), store) := by
  intro g store
  obtain ⟨_, _, _, hmissing, _⟩ :=
    accumulateGradients_store (.new g ["x"]) store [⟨[1], 4⟩, ⟨[2], 1⟩] 0
  have hlacks : (Evaluator.new g ["x"]).lacks store (1 : Fin 3) := by decide +kernel
  have hmem : (1 : Fin 3) ∈ g.order := by decide
  have hfirst : ((Evaluator.new g ["x"]).missing? store).map (fun i => (g.node i).id) = some "w" := by
    decide +kernel
  obtain ⟨⟨i, hi, hresult⟩, hafter⟩ := hmissing (List.cons_ne_nil _ _) ⟨(1 : Fin 3), hmem, hlacks⟩
  rw [hi] at hfirst
  have hid : ((Evaluator.new g ["x"]).graph.node i).id = "w" := Option.some.inj hfirst
  rw [hid] at hresult
  exact Prod.ext hresult hafter

end Evaluator

end Backprop
