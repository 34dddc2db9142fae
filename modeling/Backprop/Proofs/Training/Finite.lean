import Backprop.Proofs.Training.Simulation

namespace Backprop

variable {α β : Type}

namespace Graph

section

variable [Scalar α] (g : Graph β)

def adds (i : Fin g.size) : Bool :=
  match (g.node i).kind with
  | .weight => g.hasDeclaredInputs.get i
  | .neuron | .activation | .output => true
  | .input | .bias => false

def sumsAfter (env : Env α g.size) :
    List (Fin g.size) → Vector (Option α) g.size → List α
  | [], _ => []
  | i :: is, values =>
    let later := sumsAfter env is (place values i (g.nodeValue env values i))
    if g.adds i then g.incomingSum values i :: later else later

def sums (env : Env α g.size) : List α :=
  g.sumsAfter env g.order (Vector.replicate g.size none)

end

/-- All numbers that come up for one row are finite: the value of every evaluated node, every sum,
whatever an activation makes of it, the prediction and its squared error. -/
structure FiniteOn [Scalar α] (g : Graph β) (env : Env α g.size) (expected : α) : Prop where
  values : AllKnown (fun x => Scalar.isFinite x = true) (g.values env)
  sums : ∀ x ∈ g.sums env, Scalar.isFinite x
  prediction : Scalar.isFinite (g.prediction env)
  squaredError : Scalar.isFinite (g.squaredError env expected)

end Graph

variable [Scalar α]

namespace Tape

def AllFinite (t : Tape α) : Prop :=
  ∀ (h : Handle) (e : Entry α), t.entries[h]? = some e → Scalar.isFinite e.value

variable {t t' : Tape α} {h : Handle}

theorem AllFinite.valueAt (ht : t.AllFinite) (hh : h < t.size) : Scalar.isFinite (t.valueAt h) := by
  obtain ⟨e, he⟩ := exists_entry hh
  rw [valueAt_eq he]
  exact ht h e he

theorem AllFinite.push (ht : t.AllFinite) {op : Op α} {x : α}
    (hx : Scalar.isFinite ((t.push op x).2.valueAt t.size)) : (t.push op x).2.AllFinite := by
  intro h e he
  by_cases hh : h = t.size
  · rwa [valueAt_eq (hh ▸ he)] at hx
  · rw [getElem?_push, if_neg hh] at he
    exact ht h e he

theorem AllFinite.of_valuesFrom (ht : t.AllFinite) (hp : t.IsPrefix t')
    (hv : ∀ x ∈ t'.valuesFrom t.size, Scalar.isFinite x) : t'.AllFinite := by
  intro h e he
  by_cases hh : h < t.size
  · obtain ⟨e', he'⟩ := exists_entry hh
    have heq := hp h e' he'
    rw [he] at heq
    cases heq
    exact ht h e he'
  · apply hv
    have hle := Nat.le_of_not_lt hh
    obtain ⟨hlt, rfl⟩ := Array.getElem?_eq_some_iff.1 he
    have hm : t'.entries[h] ∈ t'.entries.extract t.size t'.entries.size := by
      rw [Array.mem_extract_iff_getElem]
      refine ⟨h - t.size, by omega, ?_⟩
      congr 1
      omega
    exact List.mem_map_of_mem (Array.mem_toList_iff.2 hm)

end Tape

namespace Evaluator

variable {ev : Evaluator α} {store : ParameterStore α} {row : Row α} {rows : List (Row α)}
  {handles : Vector (Option Handle) ev.graph.size} {tape tape' final : Tape α} {h : Handle}
  {i : Fin ev.graph.size} {epoch number : Nat}

/-- What a node adds up stands on the tape, whatever becomes of it. -/
theorem recordNode_sum (hr : ev.recordNode store row handles tape i = .ok (h, tape'))
    (hi : ev.graph.adds i) :
    ∃ s < tape'.size,
      ∀ {β : Type} [Scalar β] {ℓ : Translation α β} {final : Tape α} {view : Handle → β},
        tape'.IsPrefix final → final.Reads ℓ view →
        view s = ev.graph.incomingSum (handles.map (·.map view)) i := by
  rw [Graph.adds] at hi
  cases recordNode_calls hr with
  | input hk | bias hk =>
    rw [hk] at hi
    cases hi
  | weight hk hd =>
    rw [hk] at hi
    exact absurd hi hd
  | @weighted _ _ _ s _ _ _ _ _ _ hs hc | @activate s _ _ hs hc =>
    refine ⟨s, Nat.lt_of_lt_of_le (Tape.call_lt hs) (Tape.call_size_le hc), fun hpre hview => ?_⟩
    exact (hview.call hs ((Tape.call_isPrefix hc).trans hpre)).trans (incomingCall_result _ _ _ i)
  | output _ hc =>
    exact ⟨h, Tape.call_lt hc, fun hpre hview => (hview.call hc hpre).trans (incomingCall_result _ _ _ i)⟩

theorem recordNodes_sums {is : List (Fin ev.graph.size)}
    {handles' : Vector (Option Handle) ev.graph.size}
    (hr : ev.recordNodes store row is handles tape = .ok (handles', tape'))
    {β : Type} [Scalar β] {ℓ : Translation α β} {view : Handle → β} (hpre : tape'.IsPrefix final)
    (hview : final.Reads ℓ view) :
    ∀ x ∈ ev.graph.sumsAfter (ev.envIn ℓ store row) is (handles.map (·.map view)),
      ∃ s < tape'.size, view s = x := by
  induction is generalizing handles tape with
  | nil => exact fun x hx => absurd hx List.not_mem_nil
  | cons i is ih =>
    obtain ⟨⟨h, tape₁⟩, hn, hr⟩ := Except.bind_eq_ok_iff.1 hr
    obtain ⟨_, _, hv⟩ := recordNode_inv hn
    obtain ⟨hg, _⟩ := recordNodes_inv hr
    have hpre₁ := hg.isPrefix.trans hpre
    have hlater := ih hr
    have hplace : (handles.set i (some h)).map (·.map view) =
        place (handles.map (·.map view)) i (ev.graph.nodeValue (ev.envIn ℓ store row)
          (handles.map (·.map view)) i) := by
      rw [← hv hpre₁ hview]
      exact map_place ..
    rw [hplace] at hlater
    intro x hx
    rw [Graph.sumsAfter] at hx
    split at hx
    · next hi =>
      rcases List.mem_cons.1 hx with rfl | hx
      · obtain ⟨s, hs, hsum⟩ := recordNode_sum hn hi
        exact ⟨s, Nat.lt_of_lt_of_le hs hg.size_le, hsum hpre₁ hview⟩
      · exact hlater x hx
    · exact hlater x hx

theorem record_sums {r : RecordedRow α ev.graph.size} (hr : ev.record store tape row = .ok r)
    {β : Type} [Scalar β] {ℓ : Translation α β} {view : Handle → β} (hpre : r.tape.IsPrefix final)
    (hview : final.Reads ℓ view) :
    ∀ x ∈ ev.graph.sums (ev.envIn ℓ store row), ∃ s < r.tape.size, view s = x := by
  obtain ⟨⟨handles, tape₁⟩, hn, hr⟩ := Except.bind_eq_ok_iff.1 hr
  have hpre₁ : tape₁.IsPrefix r.tape := by
    dsimp only at hr
    split at hr <;> cases hr
    · exact fun _ _ he => he
    · exact .push _ _ _
  have hsums := recordNodes_sums hn (hpre₁.trans hpre) hview
  rw [Vector.map_replicate] at hsums
  intro x hx
  obtain ⟨s, hs, hv⟩ := hsums x hx
  obtain ⟨e, he⟩ := Tape.exists_entry hs
  exact ⟨s, Tape.lt_size (hpre₁ s e he), hv⟩

theorem recordLoss_eq_ok (hr : ev.recordLoss store epoch number row tape = .ok (h, tape')) :
    ∃ r, ev.record store tape row = .ok r ∧
      r.tape.call (.squaredError r.prediction row.expected) = .ok (h, tape') ∧
      ∀ x ∈ tape'.valuesFrom tape.size, Scalar.isFinite x := by
  obtain ⟨r, hrec, hr⟩ := Except.bind_eq_ok_iff.1 hr
  obtain ⟨⟨u, tape₁⟩, he, hr⟩ := Except.bind_eq_ok_iff.1 hr
  dsimp only at hr
  split at hr
  · cases hr
  · next hn =>
    cases hr
    exact ⟨r, hrec, he, findNonFinite?_eq_none_iff.1 hn⟩

theorem recordLoss_finite (hr : ev.recordLoss store epoch number row tape = .ok (h, tape'))
    (ht : tape.AllFinite) : tape'.AllFinite := by
  obtain ⟨hg, _⟩ := recordLoss_inv hr
  obtain ⟨_, _, _, hv⟩ := recordLoss_eq_ok hr
  exact ht.of_valuesFrom hg.isPrefix hv

/-- If the whole tape is finite in the end, so is everything that a row on it stands for. -/
theorem finiteOn_of_record {r : RecordedRow α ev.graph.size} (hrec : ev.record store tape row = .ok r)
    (hc : r.tape.call (.squaredError r.prediction row.expected) = .ok (h, tape'))
    (hpre : tape'.IsPrefix final) (hf : final.Recorded) (ht : final.AllFinite) :
    ev.graph.FiniteOn (ev.envIn (.refl α) store row) row.expected := by
  have hview := hf.reads_valueAt
  have hpre' := (Tape.call_isPrefix hc).trans hpre
  have hfinite {s : Handle} (hs : s < r.tape.size) : Scalar.isFinite (final.valueAt s) :=
    ht.valueAt (Nat.lt_of_lt_of_le hs hpre'.size_le)
  obtain ⟨_, hvalid, hp, hread⟩ := record_inv hrec
  obtain ⟨hvalues, hprediction⟩ := hread hpre' hview
  refine ⟨?_, ?_, ?_, ?_⟩
  · rw [← hvalues]
    intro j x hj
    rw [Vector.get_map, Option.map_eq_some_iff] at hj
    obtain ⟨s, hs, rfl⟩ := hj
    exact hfinite (hvalid j s hs)
  · intro x hx
    obtain ⟨s, hs, rfl⟩ := record_sums hrec hpre' hview x hx
    exact hfinite hs
  · rw [← hprediction]
    exact hfinite hp
  · have hv : final.valueAt h = ev.graph.squaredError (ev.envIn (.refl α) store row) row.expected := by
      rw [Graph.squaredError, ← hprediction]
      exact hview.call hc hpre
    rw [← hv]
    exact ht.valueAt (Nat.lt_of_lt_of_le (Tape.call_lt hc) hpre.size_le)

theorem recordLoss_finiteOn (hr : ev.recordLoss store epoch number row tape = .ok (h, tape'))
    (hpre : tape'.IsPrefix final) (hf : final.Recorded) (ht : final.AllFinite) :
    ev.graph.FiniteOn (ev.envIn (.refl α) store row) row.expected := by
  obtain ⟨r, hrec, hc, _⟩ := recordLoss_eq_ok hr
  exact finiteOn_of_record hrec hc hpre hf ht

theorem recordLosses_finite {losses : List Handle}
    (hr : ev.recordLosses store epoch number rows tape = .ok (losses, tape'))
    (ht : tape.AllFinite) : tape'.AllFinite := by
  induction rows generalizing number tape losses with
  | nil =>
    cases hr
    exact ht
  | cons row rows ih =>
    obtain ⟨⟨u, tape₁⟩, hl, hr⟩ := Except.bind_eq_ok_iff.1 hr
    obtain ⟨⟨us, tape₂⟩, hls, hr⟩ := Except.bind_eq_ok_iff.1 hr
    cases hr
    exact ih hls (recordLoss_finite hl ht)

theorem recordLosses_finiteOn {losses : List Handle}
    (hr : ev.recordLosses store epoch number rows tape = .ok (losses, tape'))
    (hpre : tape'.IsPrefix final) (hf : final.Recorded) (ht : final.AllFinite) (row : Row α)
    (hrow : row ∈ rows) : ev.graph.FiniteOn (ev.envIn (.refl α) store row) row.expected := by
  induction rows generalizing number tape losses with
  | nil => exact absurd hrow List.not_mem_nil
  | cons row' rows ih =>
    obtain ⟨⟨u, tape₁⟩, hl, hr⟩ := Except.bind_eq_ok_iff.1 hr
    obtain ⟨⟨us, tape₂⟩, hls, hr⟩ := Except.bind_eq_ok_iff.1 hr
    cases hr
    obtain ⟨hg, _⟩ := recordLosses_inv hls
    rcases List.mem_cons.1 hrow with rfl | hrow
    · exact recordLoss_finiteOn hl (hg.isPrefix.trans hpre) hf ht
    · exact ih hls hrow

theorem recordEpoch_finite {loss : α} {root : Handle}
    (hr : ev.recordEpoch store rows epoch = .ok (loss, root, tape)) :
    tape.AllFinite ∧ Scalar.isFinite loss ∧
      ∀ row ∈ rows, ev.graph.FiniteOn (ev.envIn (.refl α) store row) row.expected := by
  obtain ⟨hrecorded, _⟩ := recordEpoch_inv hr
  obtain ⟨⟨losses, tape₁⟩, hl, hr⟩ := Except.bind_eq_ok_iff.1 hr
  obtain ⟨⟨u, tape₂⟩, hm, hr⟩ := Except.bind_eq_ok_iff.1 hr
  obtain ⟨x, hx, hr⟩ := Except.bind_eq_ok_iff.1 hr
  have hc : tape₁.call (.mean losses) = .ok (u, tape₂) := hm
  have ht := recordLosses_finite hl fun h e he => absurd (Tape.lt_size he) (Nat.not_lt_zero h)
  split at hr
  · next hfinite =>
    cases hr
    rw [Tape.value_eq (Tape.call_lt hc)] at hx
    cases hx
    have hall : tape.AllFinite := by
      obtain ⟨_, rfl, rfl⟩ := Tape.call_inv hc
      exact ht.push hfinite
    exact ⟨hall, hfinite, recordLosses_finiteOn hl (Tape.call_isPrefix hc) hrecorded.recorded hall⟩
  · cases hr

end Evaluator

namespace ParameterStore

theorem values_zeroGrad (s : ParameterStore α) : s.zeroGrad.values = s.values := by
  simp [values, zeroGrad]

theorem exists_initial_of_ofGraph {s : ParameterStore α} {g : Graph α} {x : α}
    (h : ofGraph g = .ok s) (hx : x ∈ s.values) : ∃ i, (g.node i).initial = x := by
  rw [ofGraph] at h
  split at h
  · cases h
  · cases h
    rw [values, List.map_map, List.mem_map] at hx
    obtain ⟨i, _, hi⟩ := hx
    exact ⟨i, hi⟩

end ParameterStore

namespace Trainer

/-- An epoch that leads from one store to another and meets finite numbers only. -/
structure FiniteEpoch (t : Trainer α) (epoch : Nat) (before : ParameterStore α) (loss : α)
    (after : ParameterStore α) : Prop where
  tape : ∃ root tape,
    (Evaluator.new t.graph t.labels).recordEpoch before t.rows epoch = .ok (loss, root, tape) ∧
      ∀ e ∈ tape.entries, Scalar.isFinite e.value
  rows : ∀ row ∈ t.rows, t.graph.FiniteOn (t.graph.env t.labels before row) row.expected
  mean : Scalar.isFinite loss
  gradients : ∃ graded,
    (Evaluator.new t.graph t.labels).accumulateGradients before t.rows epoch = (.ok loss, graded) ∧
      ∀ x ∈ graded.grads, Scalar.isFinite x
  values : ∀ x ∈ after.values, Scalar.isFinite x
  cleared : ∀ x ∈ after.grads, x = 0

variable {t : Trainer α} {before after : ParameterStore α} {loss : α} {epoch : Nat}

theorem runEpoch_finite
    (h : t.runEpoch (.new t.graph t.labels) before epoch = .ok (loss, after)) :
    t.FiniteEpoch epoch before loss after := by
  obtain ⟨root, tape, graded, hr, ha, _, hgrads, hvalues, rfl⟩ := runEpoch_inv h
  obtain ⟨htape, hloss, hrows⟩ := Evaluator.recordEpoch_finite hr
  refine ⟨⟨root, tape, hr, ?_⟩, ?_, hloss, ⟨graded, ha, hgrads⟩, ?_, ?_⟩
  · intro e he
    obtain ⟨u, hu⟩ := Array.getElem?_of_mem he
    exact htape u e hu
  · intro row hrow
    rw [← Evaluator.envIn_new]
    exact hrows row hrow
  · rw [ParameterStore.values_zeroGrad]
    exact hvalues
  · exact fun x hx => ParameterStore.eq_zero_of_mem_grads_zeroGrad hx

theorem run_history_finite {outcome : Outcome α} (h : t.run.1 = .ok outcome) :
    ∀ x ∈ outcome.history, Scalar.isFinite x := by
  obtain ⟨_, hhistory⟩ := run_keeps (P := fun _ => True) (Q := fun x => Scalar.isFinite x)
    (fun _ => trivial) (fun _ hr => ⟨trivial, (runEpoch_finite hr).mean⟩) h
  exact hhistory

theorem storeAfter_succ (h : t.storeAfter (epoch + 1) = .ok after) :
    ∃ before loss, t.storeAfter epoch = .ok before ∧
      t.runEpoch (.new t.graph t.labels) before epoch = .ok (loss, after) := by
  rw [storeAfter_add] at h
  obtain ⟨before, hb, h⟩ := Except.bind_eq_ok_iff.1 h
  obtain ⟨⟨loss, after'⟩, hr, h⟩ := Except.bind_eq_ok_iff.1 h
  cases h
  exact ⟨before, loss, hb, hr⟩

theorem storeAfter_of_le {m n : Nat} (h : t.storeAfter n = .ok after) (hm : m ≤ n) :
    ∃ store, t.storeAfter m = .ok store := by
  obtain ⟨k, rfl⟩ := Nat.exists_eq_add_of_le hm
  rw [storeAfter_add] at h
  obtain ⟨store, hs, _⟩ := Except.bind_eq_ok_iff.1 h
  exact ⟨store, hs⟩

/-- Values that start finite stay finite; no epoch has to be run for that. -/
theorem storeAfter_finite (hg : ∀ i, Scalar.isFinite (t.graph.node i).initial) {count : Nat}
    (h : t.storeAfter count = .ok after) : ∀ x ∈ after.values, Scalar.isFinite x := by
  cases count with
  | zero =>
    obtain ⟨store, hv, h⟩ := Except.bind_eq_ok_iff.1 h
    cases h
    intro x hx
    obtain ⟨i, rfl⟩ := ParameterStore.exists_initial_of_ofGraph (validate_ok hv) hx
    exact hg i
  | succ epoch =>
    obtain ⟨before, loss, _, hr⟩ := storeAfter_succ h
    exact (runEpoch_finite hr).values

theorem outcome_finite (hg : ∀ i, Scalar.isFinite (t.graph.node i).initial) {outcome : Outcome α}
    (h : t.outcome = .ok outcome) :
    (∀ x ∈ outcome.store.values, Scalar.isFinite x) ∧ ∀ x ∈ outcome.history, Scalar.isFinite x := by
  exact ⟨storeAfter_finite hg (storeAfter_of_outcome h), run_history_finite ((run_fst t).trans h)⟩

/-- A run that succeeds has met finite numbers only, in each of its epochs. What it returns is finite,
and no gradient is left over. -/
theorem run_finite {t : Trainer α} {outcome : Outcome α} (h : t.run.1 = .ok outcome)
    (he : 1 ≤ t.config.epochs) :
    (∀ epoch < t.config.epochs, ∃ before loss after, t.storeAfter epoch = .ok before ∧
        t.storeAfter (epoch + 1) = .ok after ∧ t.FiniteEpoch epoch before loss after) ∧
      (∀ x ∈ outcome.history, Scalar.isFinite x) ∧ outcome.store.Fits t.graph ∧
      (∀ x ∈ outcome.store.values, Scalar.isFinite x) ∧ ∀ x ∈ outcome.store.grads, x = 0 := by
  have hs := map_outcome t
  rw [← run_fst, h] at hs
  have hlast : t.storeAfter t.config.epochs = .ok outcome.store := hs.symm
  have hepoch (epoch : Nat) (hlt : epoch < t.config.epochs) : ∃ before loss after,
      t.storeAfter epoch = .ok before ∧ t.storeAfter (epoch + 1) = .ok after ∧
        t.FiniteEpoch epoch before loss after := by
    obtain ⟨after, ha⟩ := storeAfter_of_le hlast hlt
    obtain ⟨before, loss, hb, hr⟩ := storeAfter_succ ha
    exact ⟨before, loss, after, hb, ha, runEpoch_finite hr⟩
  obtain ⟨n, hn⟩ := Nat.exists_eq_add_of_le' he
  rw [hn] at hlast
  obtain ⟨before, loss, _, hr'⟩ := storeAfter_succ hlast
  have hfinal := runEpoch_finite hr'
  exact ⟨hepoch, run_history_finite h, storeAfter_fits hlast, hfinal.values, hfinal.cleared⟩

theorem run_finite_two_epochs :
    let g : Graph Float := {
      size := 4
      nodes := #v[⟨"x", .input, some "x", .linear, 0.0⟩, ⟨"w", .weight, none, .linear, 0.5⟩,
        ⟨"output", .neuron, none, .relu, 0.0⟩, ⟨"b", .bias, none, .linear, 1.5⟩]
      order := [0, 1, 2]
      incoming := #v[[], [0], [1], []]
      hasDeclaredInputs := #v[false, true, true, false]
      output := some 2
      mode := .lenient }
    let t : Trainer Float := {
      graph := g, rows := [⟨[2.0], 3.0⟩, ⟨[1.0], 1.0⟩], labels := ["x"], config := ⟨0.125, 2⟩ }
    ∃ outcome, t.run.1 = .ok outcome ∧ 1 ≤ t.config.epochs ∧
      (∀ epoch < 2, ∃ before loss after, t.storeAfter epoch = .ok before ∧
        t.storeAfter (epoch + 1) = .ok after ∧ t.FiniteEpoch epoch before loss after) ∧
      (∀ x ∈ outcome.history, Scalar.isFinite x) ∧ outcome.store.Fits g ∧
      (∀ x ∈ outcome.store.values, Scalar.isFinite x) ∧ ∀ x ∈ outcome.store.grads, x = 0 := by
  intro g t
  have hok : t.run.1.toOption.isSome = true := by decide +kernel
  cases hr : t.run.1 with
  | error failure =>
    rw [hr] at hok
    cases hok
  | ok outcome => exact ⟨outcome, rfl, by decide, run_finite hr (by decide)⟩

end Trainer

end Backprop
