import Backprop.Proofs.Training.Congruence

namespace Backprop

variable {α : Type}

abbrev Graph.startingAt (g : Graph α) (initial : Fin g.size → α) : Graph α :=
  { g with nodes := Vector.ofFn fun i => { g.node i with initial := initial i } }

abbrev Evaluator.startingAt (ev : Evaluator α) (initial : Fin ev.graph.size → α) : Evaluator α :=
  { graph := ev.graph.startingAt initial, columns := ev.columns }

namespace Graph

variable (g : Graph α) (initial : Fin g.size → α)

theorem node_startingAt (i : Fin g.size) :
    (g.startingAt initial).node i = { g.node i with initial := initial i } :=
  Vector.getElem_ofFn i.isLt

theorem trainable_startingAt : (g.startingAt initial).trainable = g.trainable := by
  apply List.filter_congr
  intro i _
  rw [node_startingAt]

abbrev startingFrom (g : Graph α) (store : ParameterStore α) : Graph α :=
  g.startingAt fun i => ((store.lookUp? i).map (·.2)).getD (g.node i).initial

end Graph

namespace Evaluator

theorem new_startingAt (g : Graph α) (initial : Fin g.size → α) (labels : List String) :
    Evaluator.new (g.startingAt initial) labels = (Evaluator.new g labels).startingAt initial := by
  have hc : (Evaluator.new (g.startingAt initial) labels).columns =
      (Evaluator.new g labels).columns := by
    apply Vector.ext
    intro i hi
    simp only [new, Vector.getElem_map, Vector.getElem_ofFn]
    rfl
  exact congrArg (Evaluator.mk (g.startingAt initial)) hc

variable [Scalar α] (ev : Evaluator α) (initial : Fin ev.graph.size → α)
  (store : ParameterStore α)

/-- A parameter is read from the store, wherever it may have started. -/
theorem recordNode_startingAt (row : Row α) (handles : Vector (Option Handle) ev.graph.size)
    (tape : Tape α) (i : Fin ev.graph.size) :
    (ev.startingAt initial).recordNode store row handles tape i =
      ev.recordNode store row handles tape i := by
  have hn := ev.graph.node_startingAt initial i
  have hp : (ev.startingAt initial).readParameter store tape i = ev.readParameter store tape i := by
    rw [readParameter, readParameter, hn]
  rw [recordNode, recordNode, hp, hn]
  rfl

theorem record_startingAt (tape : Tape α) (row : Row α) :
    (ev.startingAt initial).record store tape row = ev.record store tape row := by
  apply record_exchange
  intro i _ handles tape
  exact ev.recordNode_startingAt initial store row handles tape i

theorem accumulateGradients_startingAt (rows : List (Row α)) (epoch : Nat) :
    (ev.startingAt initial).accumulateGradients store rows epoch =
      ev.accumulateGradients store rows epoch := by
  apply accumulateGradients_congr
  intro tape row _
  exact congrArg (Except.map _) (ev.record_startingAt initial store tape row)

end Evaluator

namespace ParameterStore

variable {g : Graph α} {store : ParameterStore α}

theorem grads_ofGraph [Scalar α] (h : ofGraph g = .ok store) : ∀ x ∈ store.grads, x = 0 := by
  rw [ofGraph] at h
  split at h
  · cases h
  · cases h
    simp [grads]

theorem initialParams_startingFrom [Scalar α] (hs : store.Fits g)
    (hg : ∀ x ∈ store.grads, x = 0) :
    initialParams (g.startingFrom store) = store.params.toList := by
  rw [initialParams, Graph.trainable_startingAt]
  apply List.ext_getElem?
  intro id
  have hn := hs.getElem? id
  rw [← Array.getElem?_toList] at hn
  rw [List.getElem?_map]
  cases hp : store.params.toList[id]? with
  | none =>
    rw [hp, Option.map_none, eq_comm, Option.map_eq_none_iff] at hn
    rw [hn, Option.map_none]
  | some p =>
    rw [hp, Option.map_some, eq_comm, Option.map_eq_some_iff] at hn
    obtain ⟨i, hi, hn⟩ := hn
    have hgrad : p.grad = 0 := hg _ (List.mem_map_of_mem (List.mem_of_getElem? hp))
    have hl := hs.lookUp? (Array.getElem?_toList.symm.trans hp)
    have hnode := g.node_startingAt (fun i => ((store.lookUp? i).map (·.2)).getD (g.node i).initial) i
    rw [hi, Option.map_some, hnode, hn, hl, ← hgrad]
    rfl

/-- A store without gradients is the one that a graph which starts from it is given. -/
theorem ofGraph_startingFrom [Scalar α] (hs : store.Fits g) (hg : ∀ x ∈ store.grads, x = 0)
    (hne : g.trainable ≠ []) : ofGraph (g.startingFrom store) = .ok store := by
  have hparams : store.params.toList ≠ [] := by
    intro hnil
    rw [Fits, hnil, List.map_nil, eq_comm, List.map_eq_nil_iff] at hs
    exact hne hs
  rw [ofGraph_eq, initialParams_startingFrom hs hg]
  split
  · next h => exact absurd h hparams
  · rw [Array.toArray_toList]

end ParameterStore

variable [Scalar α]

namespace Trainer

def withEpochs (t : Trainer α) (epochs : Nat) : Trainer α :=
  { t with config := { t.config with epochs } }

def resume (t : Trainer α) (store : ParameterStore α) : Trainer α :=
  { t with graph := t.graph.startingFrom store }

variable {t : Trainer α} {ev : Evaluator α} {store after : ParameterStore α} {m n epoch : Nat}

theorem advance_withEpochs (t : Trainer α) (ev : Evaluator α) (epochs count epoch : Nat)
    (store : ParameterStore α) :
    (t.withEpochs epochs).advance ev count epoch store = t.advance ev count epoch store := by
  induction count generalizing epoch store with
  | zero => rfl
  | succ count ih =>
    rw [advance, advance]
    simp only [ih]
    rfl

theorem storeAfter_withEpochs (t : Trainer α) (epochs count : Nat) :
    (t.withEpochs epochs).storeAfter count = t.storeAfter count := by
  rw [storeAfter, storeAfter]
  simp only [advance_withEpochs]
  rfl

/-- A run of so many epochs leaves the store that any longer run has by then. -/
theorem map_run_withEpochs (t : Trainer α) (epochs : Nat) :
    (t.withEpochs epochs).run.1.map (·.store) = t.storeAfter epochs := by
  rw [run_fst, map_outcome]
  exact t.storeAfter_withEpochs epochs epochs

theorem grads_advance (hs : ∀ x ∈ store.grads, x = 0)
    (h : t.advance ev n epoch store = .ok after) : ∀ x ∈ after.grads, x = 0 := by
  induction n generalizing epoch store with
  | zero =>
    cases h
    exact hs
  | succ n ih =>
    obtain ⟨⟨loss, next⟩, hr, h⟩ := Except.bind_eq_ok_iff.1 h
    obtain ⟨_, _, _, _, _, _, _, _, rfl⟩ := runEpoch_inv hr
    exact ih (fun x hx => ParameterStore.eq_zero_of_mem_grads_zeroGrad hx) h

theorem grads_storeAfter (h : t.storeAfter n = .ok store) : ∀ x ∈ store.grads, x = 0 := by
  obtain ⟨start, hv, h⟩ := Except.bind_eq_ok_iff.1 h
  exact grads_advance (ParameterStore.grads_ofGraph (validate_ok hv)) h

theorem validate_resume (h : t.storeAfter m = .ok store) :
    (t.resume store).validate = .ok store := by
  obtain ⟨start, hv, _⟩ := Except.bind_eq_ok_iff.1 h
  have hg := ParameterStore.ofGraph_startingFrom (storeAfter_fits h) (grads_storeAfter h)
    (ParameterStore.trainable_ne_nil (validate_ok hv))
  have hstart : (t.resume store).validate = ParameterStore.ofGraph (t.graph.startingFrom store) :=
    validate_of_ok hv rfl rfl
  exact hstart.trans hg

theorem runEpoch_startingAt (t : Trainer α) (initial : Fin t.graph.size → α)
    (store : ParameterStore α) (epoch : Nat) :
    ({ t with graph := t.graph.startingAt initial } : Trainer α).runEpoch
        (.new (t.graph.startingAt initial) t.labels) store epoch =
      t.runEpoch (.new t.graph t.labels) store epoch := by
  have hr := (Evaluator.new t.graph t.labels).accumulateGradients_startingAt initial store t.rows epoch
  rw [← Evaluator.new_startingAt] at hr
  simp only [runEpoch]
  rw [hr]

theorem advance_resume (t : Trainer α) (start : ParameterStore α) (count epoch : Nat)
    (store : ParameterStore α) :
    (t.resume start).advance (.new (t.graph.startingFrom start) t.labels) count epoch store =
      t.advance (.new t.graph t.labels) count epoch store := by
  induction count generalizing epoch store with
  | zero => rfl
  | succ count ih =>
    have hr : (t.resume start).runEpoch (.new (t.graph.startingFrom start) t.labels) store epoch =
        t.runEpoch (.new t.graph t.labels) store epoch :=
      t.runEpoch_startingAt _ store epoch
    rw [advance, advance, hr]
    simp only [ih]

/-- To go on from a store is to go on with the run that left it. -/
theorem storeAfter_resume (h : t.storeAfter m = .ok store) (n : Nat) :
    t.storeAfter (m + n) = ((t.resume store).storeAfter n).mapError (.delay m) := by
  have hr : (t.resume store).storeAfter n = t.advance (.new t.graph t.labels) n 0 store := by
    rw [storeAfter, validate_resume h]
    exact advance_resume t store n 0 store
  rw [storeAfter_add, h, hr, ← advance_delay (storeAfter_fits h) m]
  rfl

variable {first second : Outcome α} {failure : Failure α}

theorem run_of_error (h : (t.withEpochs m).run.1 = .error failure) (n : Nat) :
    (t.withEpochs (m + n)).run.1 = .error failure := by
  have hfirst := map_run_withEpochs t m
  have hwhole := map_run_withEpochs t (m + n)
  rw [h] at hfirst
  rw [storeAfter_add, ← hfirst] at hwhole
  exact Except.map_eq_error_iff.1 hwhole

theorem run_resume_ok (hf : (t.withEpochs m).run.1 = .ok first)
    (hs : ((t.resume first.store).withEpochs n).run.1 = .ok second) :
    ∃ whole, (t.withEpochs (m + n)).run.1 = .ok whole ∧ whole.store = second.store := by
  have hfirst := map_run_withEpochs t m
  have hsecond := map_run_withEpochs (t.resume first.store) n
  have hwhole := map_run_withEpochs t (m + n)
  rw [hf] at hfirst
  rw [hs] at hsecond
  rw [storeAfter_resume hfirst.symm, ← hsecond] at hwhole
  exact Except.map_eq_ok_iff.1 hwhole

theorem run_resume_error (hf : (t.withEpochs m).run.1 = .ok first)
    (hs : ((t.resume first.store).withEpochs n).run.1 = .error failure) :
    ∃ epoch row stage x, failure = .nonFinite epoch row stage x ∧ epoch < n ∧
      (t.withEpochs (m + n)).run.1 = .error (.nonFinite (m + epoch) row stage x) := by
  have hfirst := map_run_withEpochs t m
  have hsecond := map_run_withEpochs (t.resume first.store) n
  have hwhole := map_run_withEpochs t (m + n)
  rw [hf] at hfirst
  rw [hs] at hsecond
  rw [storeAfter_resume hfirst.symm, ← hsecond] at hwhole
  have hv := validate_resume hfirst.symm
  have ha : (t.resume first.store).advance (.new (t.resume first.store).graph t.labels) n 0
      first.store = .error failure := by
    rw [storeAfter, hv] at hsecond
    exact hsecond.symm
  obtain ⟨epoch, row, stage, x, rfl, _, he, _⟩ := advance_error (validate_fits hv) ha
  rw [Nat.zero_add] at he
  exact ⟨epoch, row, stage, x, rfl, he, Except.map_eq_error_iff.1 hwhole⟩

/-- Training so many epochs and then so many more is training them all. The long run succeeds if and
only if both others do, and then leaves the store of the second; it fails as the first does; and
where the second fails it fails too, later by the epochs of the first. -/
theorem run_add (t : Trainer α) (m n : Nat) :
    ((∃ whole, (t.withEpochs (m + n)).run.1 = .ok whole) ↔
        ∃ first second, (t.withEpochs m).run.1 = .ok first ∧
          ((t.resume first.store).withEpochs n).run.1 = .ok second) ∧
      (∀ first second whole, (t.withEpochs m).run.1 = .ok first →
        ((t.resume first.store).withEpochs n).run.1 = .ok second →
          (t.withEpochs (m + n)).run.1 = .ok whole → whole.store = second.store) ∧
      (∀ failure, (t.withEpochs m).run.1 = .error failure →
        (t.withEpochs (m + n)).run.1 = .error failure) ∧
      ∀ first failure, (t.withEpochs m).run.1 = .ok first →
        ((t.resume first.store).withEpochs n).run.1 = .error failure →
          ∃ epoch row stage x, failure = .nonFinite epoch row stage x ∧ epoch < n ∧
            (t.withEpochs (m + n)).run.1 = .error (.nonFinite (m + epoch) row stage x) := by
  refine ⟨⟨?_, ?_⟩, ?_, fun _ h => run_of_error h n, fun _ _ => run_resume_error⟩
  · rintro ⟨whole, hw⟩
    cases hf : (t.withEpochs m).run.1 with
    | error failure =>
      rw [run_of_error hf n] at hw
      cases hw
    | ok first =>
      cases hs : ((t.resume first.store).withEpochs n).run.1 with
      | error failure =>
        obtain ⟨_, _, _, _, _, _, he⟩ := run_resume_error hf hs
        rw [he] at hw
        cases hw
      | ok second => exact ⟨first, second, rfl, hs⟩
  · rintro ⟨first, second, hf, hs⟩
    obtain ⟨whole, hw, _⟩ := run_resume_ok hf hs
    exact ⟨whole, hw⟩
  · intro first second whole hf hs hw
    obtain ⟨whole', hw', he⟩ := run_resume_ok hf hs
    rw [hw] at hw'
    cases hw'
    exact he

/-- One epoch and one more, with a rate that is small enough and with one that is not. -/
theorem run_add_one_one :
    let g : Graph Float := {
      size := 3
      nodes := #v[⟨"x", .input, some "x", .linear, 0.0⟩, ⟨"w", .weight, none, .linear, 0.5⟩,
        ⟨"output", .output, none, .linear, 0.0⟩]
      order := [0, 1, 2]
      incoming := #v[[], [0], [1]]
      hasDeclaredInputs := #v[false, true, true]
      output := some 2
      mode := .strict }
    let t (rate : Float) : Trainer Float :=
      { graph := g, rows := [⟨[2.0], 3.0⟩], labels := ["x"], config := ⟨rate, 2⟩ }
    (∃ first second whole, ((t 0.125).withEpochs 1).run.1 = .ok first ∧
        (((t 0.125).resume first.store).withEpochs 1).run.1 = .ok second ∧
        ((t 0.125).withEpochs 2).run.1 = .ok whole ∧ whole.store = second.store) ∧
      ∃ first row stage x, ((t 1e200).withEpochs 1).run.1 = .ok first ∧
        (((t 1e200).resume first.store).withEpochs 1).run.1 = .error (.nonFinite 0 row stage x) ∧
        ((t 1e200).withEpochs 2).run.1 = .error (.nonFinite 1 row stage x) := by
  intro g t
  have hsmall : ((t 0.125).withEpochs 2).run.1.toOption.isSome = true := by decide +kernel
  have hfirst : ((t 1e200).withEpochs 1).run.1.toOption.isSome = true := by decide +kernel
  have hlarge : ((t 1e200).withEpochs 2).run.1.toOption.isSome = false := by decide +kernel
  refine ⟨?_, ?_⟩
  · obtain ⟨hiff, hstore, _⟩ := run_add (t 0.125) 1 1
    cases hw : ((t 0.125).withEpochs 2).run.1 with
    | error failure =>
      rw [hw] at hsmall
      cases hsmall
    | ok whole =>
      obtain ⟨first, second, hf, hs⟩ := hiff.1 ⟨whole, hw⟩
      exact ⟨first, second, whole, hf, hs, rfl, hstore first second whole hf hs hw⟩
  · obtain ⟨hiff, _, _, herror⟩ := run_add (t 1e200) 1 1
    cases hf : ((t 1e200).withEpochs 1).run.1 with
    | error failure =>
      rw [hf] at hfirst
      cases hfirst
    | ok first =>
      cases hs : (((t 1e200).resume first.store).withEpochs 1).run.1 with
      | ok second =>
        obtain ⟨whole, hw⟩ := hiff.2 ⟨first, second, hf, hs⟩
        have hw : ((t 1e200).withEpochs 2).run.1 = .ok whole := hw
        rw [hw] at hlarge
        cases hlarge
      | error failure =>
        obtain ⟨epoch, row, stage, x, rfl, he, hw⟩ := herror first failure hf hs
        obtain rfl : epoch = 0 := Nat.lt_one_iff.1 he
        exact ⟨first, row, stage, x, rfl, hs, hw⟩

end Trainer

end Backprop
