import Backprop.Proofs.Double.Product
import Backprop.Proofs.Equations
import Backprop.Proofs.Graph.Build
import Backprop.Proofs.Training.Ends
import Backprop.Proofs.Training.Finite

namespace Backprop

variable {α : Type} [Scalar α]

namespace Tape

variable {t t' : Tape α} {c : Call α} {h : Handle}

theorem forall_lt_of_call {P : Handle → Prop} (hc : t.call c = .ok (h, t'))
    (ht : ∀ u < t.size, P u) (hh : P h) : ∀ u < t'.size, P u := by
  obtain ⟨_, rfl, rfl⟩ := call_inv hc
  intro u hu
  rw [size_push] at hu
  rcases Nat.lt_succ_iff_lt_or_eq.1 hu with hlt | rfl
  · exact ht u hlt
  · exact hh

theorem findNonFinite?_values_eq_none_iff :
    findNonFinite? t.values = none ↔ ∀ u < t.size, Scalar.isFinite (t.valueAt u) := by
  rw [findNonFinite?_eq_none_iff, values, List.forall_mem_map]
  constructor
  · intro hall u hu
    obtain ⟨e, he⟩ := exists_entry hu
    rw [valueAt_eq he]
    exact hall e (Array.mem_toList_iff.2 (Array.mem_of_getElem? he))
  · intro hall e he
    obtain ⟨u, hu⟩ := Array.getElem?_of_mem (Array.mem_toList_iff.1 he)
    rw [← valueAt_eq hu]
    exact hall u (lt_size hu)

end Tape

namespace Evaluator

variable {ev : Evaluator α} {store : ParameterStore α} {row : Row α}
  {handles handles' : Vector (Option Handle) ev.graph.size} {tape tape' final : Tape α} {h : Handle}
  {i : Fin ev.graph.size} {view : Handle → α}

section

variable (hmul : ∀ x y : α, Scalar.isFinite (x * y) → Scalar.isFinite y)

include hmul

theorem recordNode_finite (hr : ev.recordNode store row handles tape i = .ok (h, tape'))
    (hpre : tape'.IsPrefix final) (hview : final.Reads (.refl α) view)
    (hvalue : Scalar.isFinite (view h))
    (hsum : ev.graph.adds i →
      Scalar.isFinite (ev.graph.incomingSum (handles.map (·.map view)) i))
    (ht : ∀ u < tape.size, Scalar.isFinite (view u)) :
    ∀ u < tape'.size, Scalar.isFinite (view u) := by
  rw [Graph.adds] at hsum
  cases recordNode_calls hr with
  | input _ hc | bias _ _ hc | weight _ _ _ hc | output _ hc =>
    exact Tape.forall_lt_of_call hc ht hvalue
  | @weighted _ _ p s _ _ hk hd hx hp hs hc =>
    rw [hk] at hsum
    have hvs : view s = ev.graph.incomingSum (handles.map (·.map view)) i :=
      (hview.call hs ((Tape.call_isPrefix hc).trans hpre)).trans (incomingCall_result _ _ _ i)
    have hproduct : view h = view s * view p := hview.call hc hpre
    have hparameter : Scalar.isFinite (view p) := hmul _ _ (hproduct ▸ hvalue)
    have ht₁ := Tape.forall_lt_of_call hp ht hparameter
    have ht₂ := Tape.forall_lt_of_call hs ht₁ (hvs ▸ hsum hd)
    exact Tape.forall_lt_of_call hc ht₂ hvalue
  | @activate s _ hk hs hc =>
    have hvs : view s = ev.graph.incomingSum (handles.map (·.map view)) i :=
      (hview.call hs ((Tape.call_isPrefix hc).trans hpre)).trans (incomingCall_result _ _ _ i)
    have hadds : Scalar.isFinite (view s) := by
      rw [hvs]
      rcases hk with hk | hk <;> rw [hk] at hsum <;> exact hsum rfl
    exact Tape.forall_lt_of_call hc (Tape.forall_lt_of_call hs ht hadds) hvalue

theorem recordNodes_finite {is : List (Fin ev.graph.size)} (hn : is.Nodup)
    (hr : ev.recordNodes store row is handles tape = .ok (handles', tape'))
    (hpre : tape'.IsPrefix final) (hview : final.Reads (.refl α) view)
    (hvalues : AllKnown (fun x => Scalar.isFinite x = true)
      (ev.graph.valuesAfter (ev.envIn (.refl α) store row) is (handles.map (·.map view))))
    (hsums : ∀ x ∈ ev.graph.sumsAfter (ev.envIn (.refl α) store row) is
      (handles.map (·.map view)), Scalar.isFinite x)
    (ht : ∀ u < tape.size, Scalar.isFinite (view u)) :
    ∀ u < tape'.size, Scalar.isFinite (view u) := by
  induction is generalizing handles tape with
  | nil =>
    cases hr
    exact ht
  | cons i is ih =>
    obtain ⟨hi, his⟩ := List.nodup_cons.1 hn
    obtain ⟨⟨h, tape₁⟩, hnode, hrest⟩ := Except.bind_eq_ok_iff.1 hr
    obtain ⟨_, _, hv⟩ := recordNode_inv hnode
    obtain ⟨hg, _⟩ := recordNodes_inv hrest
    have hpre₁ := hg.isPrefix.trans hpre
    have hvalue := hv hpre₁ hview
    have hplace : (handles.set i (some h)).map (·.map view) =
        place (handles.map (·.map view)) i (ev.graph.nodeValue (ev.envIn (.refl α) store row)
          (handles.map (·.map view)) i) := by
      rw [← hvalue]
      exact map_place ..
    rw [Graph.valuesAfter] at hvalues
    rw [Graph.sumsAfter] at hsums
    -- no later step takes the value of this node away again
    have hlast : Scalar.isFinite (view h) := by
      apply hvalues i
      rw [Graph.get_valuesAfter hi, get_place, if_pos rfl, hvalue]
    have ht₁ := recordNode_finite hmul hnode hpre₁ hview hlast (fun hadds => ?_) ht
    · apply ih his hrest (hplace ▸ hvalues) _ ht₁
      rw [hplace]
      intro x hx
      apply hsums
      split
      · exact List.mem_cons_of_mem _ hx
      · exact hx
    · rw [if_pos hadds] at hsums
      exact hsums _ List.mem_cons_self

theorem record_finite {r : RecordedRow α ev.graph.size} (hn : ev.graph.order.Nodup)
    (hr : ev.record store .empty row = .ok r) (hpre : r.tape.IsPrefix final)
    (hview : final.Reads (.refl α) view) {expected : α}
    (hf : ev.graph.FiniteOn (ev.envIn (.refl α) store row) expected) :
    ∀ u < r.tape.size, Scalar.isFinite (view u) := by
  obtain ⟨_, _, _, hread⟩ := record_inv hr
  obtain ⟨_, hprediction⟩ := hread hpre hview
  obtain ⟨⟨handles, tape⟩, hnodes, hr⟩ := Except.bind_eq_ok_iff.1 hr
  have hunset : (Vector.replicate ev.graph.size none).map (·.map view) =
      Vector.replicate ev.graph.size none := Vector.map_replicate ..
  have hall (hpre : tape.IsPrefix final) : ∀ u < tape.size, Scalar.isFinite (view u) := by
    apply recordNodes_finite hmul hn hnodes hpre hview
    · rw [hunset]
      exact hf.values
    · rw [hunset]
      exact hf.sums
    · exact fun u hu => absurd hu (Nat.not_lt_zero u)
  dsimp only at hr
  split at hr
  · cases hr
    exact hall hpre
  · cases hr
    have hc : tape.call (.constant 0) = .ok (tape.constant 0) := rfl
    have hlast : view tape.size = ev.graph.prediction (ev.envIn (.refl α) store row) := hprediction
    apply Tape.forall_lt_of_call hc (hall ((Tape.call_isPrefix hc).trans hpre))
    rw [hlast]
    exact hf.prediction

/-- Recorded alone, a row produces finite numbers only if and only if the interpreter computes
nothing else for it. -/
theorem findNonFinite?_numbers_eq_none_iff (hn : ev.graph.order.Nodup) (hp : ev.Readable store)
    (row : Row α) : findNonFinite? (ev.numbers store row) = none ↔
      ev.graph.FiniteOn (ev.envIn (.refl α) store row) row.expected := by
  obtain ⟨h, own, halone, hnumbers⟩ := exists_recordAlone row hp
  obtain ⟨r, hr, hc⟩ := Except.bind_eq_ok_iff.1 halone
  have hc : r.tape.call (.squaredError r.prediction row.expected) = .ok (h, own) := hc
  obtain ⟨hg, _, _, hread⟩ := record_inv hr
  have hrecorded := (hg.call hc trivial).recorded
  have hview := hrecorded.reads_valueAt
  rw [hnumbers, Tape.findNonFinite?_values_eq_none_iff]
  constructor
  · intro hall
    have hfinite : own.AllFinite := by
      intro u e he
      rw [← Tape.valueAt_eq he]
      exact hall u (Tape.lt_size he)
    exact finiteOn_of_record hr hc (fun _ _ he => he) hrecorded hfinite
  · intro hf
    obtain ⟨_, hprediction⟩ := hread (Tape.call_isPrefix hc) hview
    have herror : own.valueAt h =
        ev.graph.squaredError (ev.envIn (.refl α) store row) row.expected := by
      rw [Graph.squaredError, ← hprediction]
      exact hview.call hc fun _ _ he => he
    have hrow := record_finite hmul hn hr (Tape.call_isPrefix hc) hview hf
    exact Tape.forall_lt_of_call hc hrow (herror ▸ hf.squaredError)

end

section Exits

variable {rows : List (Row α)} {epoch : Nat} {result : Except (Failure α) α}
  {after : ParameterStore α} {x : α}
  (hends : ev.Ends store rows epoch result after) (hp : ev.Readable store)

include hends hp

theorem Ends.row_iff {r : Nat} : result = .error (.nonFinite epoch (some r) .forward x) ↔
    ev.firstNonFinite? store rows = some (r, x) := by
  cases hends with
  | parameter _ hi => simp [missing?_eq_none_iff.2 hp] at hi
  | row _ hx => simp [hx]
  | mean _ hrows | gradient _ hrows | ok _ hrows => simp [hrows]

theorem Ends.mean_iff : result = .error (.nonFinite epoch none .forward x) ↔
    ev.firstNonFinite? store rows = none ∧
      ¬Scalar.isFinite (ev.graph.loss (ev.casesIn (.refl α) store rows)) ∧
      x = ev.graph.loss (ev.casesIn (.refl α) store rows) := by
  cases hends with
  | parameter _ hi => simp [missing?_eq_none_iff.2 hp] at hi
  | row _ hx => simp [hx]
  | mean _ hrows hloss => simp [hrows, hloss, eq_comm]
  | gradient _ _ hloss | ok _ _ hloss => simp [hloss]

theorem Ends.gradient_iff : result = .error (.nonFinite epoch none .backward x) ↔
    ev.firstNonFinite? store rows = none ∧
      Scalar.isFinite (ev.graph.loss (ev.casesIn (.refl α) store rows)) ∧
      findNonFinite? after.grads = some x := by
  cases hends with
  | parameter _ hi => simp [missing?_eq_none_iff.2 hp] at hi
  | row _ hx => simp [hx]
  | mean _ _ hloss => simp [hloss]
  | gradient _ hrows hloss _ hx => simp [hrows, hloss, hx]
  | ok _ _ _ _ hgrads => simp [hgrads]

theorem Ends.ok_iff : result = .ok x ↔
    ev.firstNonFinite? store rows = none ∧
      Scalar.isFinite (ev.graph.loss (ev.casesIn (.refl α) store rows)) ∧
      findNonFinite? after.grads = none ∧ x = ev.graph.loss (ev.casesIn (.refl α) store rows) := by
  cases hends with
  | parameter _ hi => simp [missing?_eq_none_iff.2 hp] at hi
  | row _ hx => simp [hx]
  | mean _ _ hloss => simp [hloss]
  | gradient _ _ _ _ hx => simp [hx]
  | ok _ hrows hloss _ hgrads => simp [hrows, hloss, hgrads, eq_comm]

end Exits

/-- Where the failures of an epoch come from. The epoch fails in a row exactly when that row is the
first for which the interpreter computes a number that is not finite, and reports the first such number
that recording the row alone produces. If there is no such row it fails exactly when the mean is not
finite, or else one of the gradients, of which it reports the first. -/
theorem accumulateGradients_origin {nodes : List (Node Float)} {connections : List Connection}
    {order : List String} {options : Graph.Options} {g : Graph Float}
    (hb : Graph.build nodes connections order options = .ok g) {store : ParameterStore Float}
    (hs : store.Fits g) (labels : List String) (rows : List (Row Float)) (epoch : Nat) :
    let ev := Evaluator.new g labels
    let finite (row : Row Float) : Prop := g.FiniteOn (g.env labels store row) row.expected
    let loss := g.loss (rows.map fun row => (g.env labels store row, row.expected))
    let result := (ev.accumulateGradients store rows epoch).1
    let after := (ev.accumulateGradients store rows epoch).2
    (∀ r, (∃ x, result = .error (.nonFinite epoch (some r) .forward x)) ↔
        ∃ row, rows[r]? = some row ∧ (∀ earlier ∈ rows.take r, finite earlier) ∧ ¬finite row) ∧
      (∀ r x, result = .error (.nonFinite epoch (some r) .forward x) →
        ∃ row, rows[r]? = some row ∧ (ev.numbers store row).find? (fun y => !y.isFinite) = some x) ∧
      (∀ x, result = .error (.nonFinite epoch none .forward x) ↔
        (∀ row ∈ rows, finite row) ∧ ¬loss.isFinite ∧ x = loss) ∧
      (∀ x, result = .error (.nonFinite epoch none .backward x) ↔
        (∀ row ∈ rows, finite row) ∧ loss.isFinite ∧
          after.grads.find? (fun y => !y.isFinite) = some x) ∧
      ∀ x, result = .ok x ↔
        (∀ row ∈ rows, finite row) ∧ loss.isFinite ∧ (∀ y ∈ after.grads, y.isFinite) ∧
          x = loss := by
  intro ev finite loss result after
  have hp : ev.Readable store := readable_of_fits hs
  have hends : ev.Ends store rows epoch result after := accumulateGradients_ends ev store rows epoch
  have hfinite (row : Row Float) : findNonFinite? (ev.numbers store row) = none ↔ finite row := by
    apply (findNonFinite?_numbers_eq_none_iff (fun _ _ => Float.isFinite_of_mul)
      (Graph.build_order_nodup hb) hp row).trans
    rw [envIn_new]
    rfl
  have hrows : ev.firstNonFinite? store rows = none ↔ ∀ row ∈ rows, finite row := by
    rw [firstNonFinite?_eq_none_iff]
    exact forall₂_congr fun row _ => hfinite row
  have hloss : ev.graph.loss (ev.casesIn (.refl Float) store rows) = loss :=
    congrArg g.loss (casesIn_new g labels store rows)
  refine ⟨?place, ?value, ?mean, ?gradient, ?success⟩
  case place =>
    intro r
    simp only [hends.row_iff hp, exists_firstNonFinite?_iff, hfinite, ne_eq]
  case value =>
    intro r x hx
    obtain ⟨row, hrow, _, hx⟩ := firstNonFinite?_eq_some_iff.1 ((hends.row_iff hp).1 hx)
    exact ⟨row, hrow, hx⟩
  case mean =>
    intro x
    rw [hends.mean_iff hp, hrows, hloss]
    rfl
  case gradient =>
    intro x
    rw [hends.gradient_iff hp, hrows, hloss]
    rfl
  case success =>
    intro x
    rw [hends.ok_iff hp, hrows, hloss, findNonFinite?_eq_none_iff]
    rfl

/-- The weight overflows in the second row, and the output node brings it back to 0. -/
theorem accumulateGradients_origin_squashed :
    let nodes : List (Node Float) := [⟨"x", .input, some "x", .linear, 0.0⟩,
      ⟨"w", .weight, none, .linear, 1e10⟩, ⟨"output", .neuron, none, .relu, 0.0⟩]
    let connections : List Connection := [⟨"x", "w"⟩, ⟨"w", "output"⟩]
    let g : Graph Float := {
      size := 3
      nodes := ⟨nodes.toArray, rfl⟩
      order := [0, 1, 2]
      incoming := #v[[], [0], [1]]
      hasDeclaredInputs := #v[false, true, true]
      output := some 2
      mode := .strict }
    let store : ParameterStore Float := ⟨#[⟨1, 1e10, 0.0⟩]⟩
    let rows : List (Row Float) := [⟨[1.0], 1.0⟩, ⟨[-1e300], 1.0⟩, ⟨[2.0], 1.0⟩]
    Graph.build nodes connections ["x", "w", "output"] {} = .ok g ∧ store.Fits g ∧
      (∃ x, ((Evaluator.new g ["x"]).accumulateGradients store rows 0).1 =
        .error (.nonFinite 0 (some 1) .forward x)) ∧
      g.FiniteOn (g.env ["x"] store ⟨[1.0], 1.0⟩) 1.0 ∧
      ¬g.FiniteOn (g.env ["x"] store ⟨[-1e300], 1.0⟩) 1.0 ∧
      (g.prediction (g.env ["x"] store ⟨[-1e300], 1.0⟩)).isFinite := by
  intro nodes connections g store rows
  have hb : Graph.build nodes connections ["x", "w", "output"] {} = .ok g := by
    -- building does not look at the numbers
    simp only [nodes, g]
    generalize (1e10 : Float) = w, (0.0 : Float) = x
    cbv
  have hs : store.Fits g := rfl
  have hfirst : ((Evaluator.new g ["x"]).firstNonFinite? store rows).map (·.1) = some 1 := by
    decide +kernel
  obtain ⟨⟨_, x⟩, hx, rfl⟩ := Option.map_eq_some_iff.1 hfirst
  have hr := recordEpoch_of_some (readable_of_fits hs) hx 0
  have hresult : ∃ x, ((Evaluator.new g ["x"]).accumulateGradients store rows 0).1 =
      .error (.nonFinite 0 (some 1) .forward x) :=
    ⟨x, congrArg Prod.fst (accumulateGradients_of_error hr)⟩
  obtain ⟨hrow, _⟩ := accumulateGradients_origin hb hs ["x"] rows 0
  obtain ⟨row, ⟨⟩, hearlier, hnot⟩ := (hrow 1).1 hresult
  exact ⟨hb, hs, hresult, hearlier _ List.mem_cons_self, hnot, by decide +kernel⟩

end Evaluator

end Backprop
