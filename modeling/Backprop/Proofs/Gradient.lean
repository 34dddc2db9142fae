import Backprop.Proofs.Rows
import Backprop.Proofs.Tape.Duality

namespace Backprop

open TrivSqZeroExt
open Finset (range)

variable {K : Type} [ExactScalar K]

def Translation.dual (id : Nat) : Translation K (DualNumber K) where
  constant := inl
  parameter id' x := inl x + if id' = id then DualNumber.eps else 0
  constant_zero := inl_zero K

/-- The loss when a parameter `θ` is replaced by `θ + ε`. -/
def Graph.dualLoss (g : Graph K) (labels : List String) (store : ParameterStore K)
    (rows : List (Row K)) (p : Parameter K) : DualNumber K :=
  g.loss <| rows.map fun row =>
    ((g.env labels store row).vary inl p.node (inl p.value + DualNumber.eps), inl row.expected)

theorem Call.fst_result (id : Nat) (c : Call K) (view : Handle → DualNumber K) :
    ((c.translate (.dual id)).result view).fst = c.result fun u => (view u).fst := by
  cases c with
  | constant x => rfl
  | parameter id' x =>
    simp only [translate, Translation.dual, result]
    split <;> simp
  | sum args => simp [translate, result, Dual.fst_sum, Scalar.sum_eq, Function.comp_def]
  | mul left right => exact fst_mul _ _
  | activate activation arg => exact Dual.fst_activate _ _
  | squaredError prediction expected => exact fst_mul _ _
  | mean args => simp [translate, result, Dual.fst_mean, Function.comp_def]

def Entry.seed (id : Nat) (e : Entry K) : K :=
  match e.op with
  | .parameter id' => if id' = id then 1 else 0
  | _ => 0

namespace Tape

variable {t : Tape K} {id : Nat} {view : Handle → DualNumber K}

theorem fst_view (ht : t.Recorded) (hv : t.Reads (.dual id) view) {h : Handle} (hh : h < t.size) :
    (view h).fst = t.valueAt h := by
  have hfst : t.Reads (.refl K) fun u => (view u).fst := by
    intro u e he
    beta_reduce
    rw [hv u e he, Call.fst_result, Call.translate_refl]
  exact Reads.unique ht.wellFormed hfst ht.reads_valueAt h hh

theorem snd_view (ht : t.Recorded) (hv : t.Reads (.dual id) view) {h : Handle} {e : Entry K}
    (he : t.entries[h]? = some e) :
    (view h).snd = t.localTangent e (fun u => (view u).snd) + e.seed id := by
  have hfst : ∀ u ∈ e.op.operands, (view u).fst = t.valueAt u := fun u hu =>
    fst_view ht hv (Nat.lt_trans (ht.wellFormed h e he u hu) (lt_size he))
  rw [hv h e he]
  cases e with
  | mk op x =>
    cases op with
    | constant => simp [Entry.call, Call.translate, Translation.dual, Call.result, localTangent,
        Entry.seed]
    | parameter id' =>
      simp only [Entry.call, Call.translate, Translation.dual, Call.result, localTangent,
        Entry.seed]
      split <;> simp
    | sum args =>
      simp [Entry.call, Call.translate, Call.result, localTangent, Entry.seed, Dual.snd_sum,
        Function.comp_def]
    | mul left right =>
      have hl := hfst left (by simp [Op.operands])
      have hr := hfst right (by simp [Op.operands])
      simp only [Entry.call, Call.translate, Call.result, localTangent, Entry.seed, add_zero]
      apply (snd_mul _ _).trans
      simp only [hl, hr, smul_eq_mul, MulOpposite.smul_eq_mul_unop, MulOpposite.unop_op]
      ring
    | activate activation arg =>
      have ha := hfst arg (by simp [Op.operands])
      simp only [Entry.call, Call.translate, Call.result, localTangent, Entry.seed, add_zero]
      rw [Dual.snd_activate, ha]
    | squaredError prediction expected =>
      have hp := hfst prediction (by simp [Op.operands])
      simp only [Entry.call, Call.translate, Call.result, localTangent, Entry.seed, add_zero]
      apply (snd_mul _ _).trans
      simp only [Translation.dual, fst_sub, snd_sub, fst_inl, snd_inl, hp, smul_eq_mul,
        MulOpposite.smul_eq_mul_unop, MulOpposite.unop_op]
      ring
    | mean args =>
      simp only [Entry.call, Call.translate, Call.result, localTangent, Entry.seed, add_zero,
        Dual.snd_mean, Scalar.mean_eq, List.map_map, List.length_map, Function.comp_def]
      split
      · next h => simp [h]
      · rfl

theorem sum_reads (id : Nat) (es : List (Entry K)) (as : List K) :
    ((((es.zip as).filterMap fun (e, a) => match e.op with
        | .parameter id => some (id, a)
        | _ => none).filter (·.1 = id)).map (·.2)).sum =
      ∑ h ∈ range as.length, as[h]?.getD 0 * (es[h]?).elim 0 (Entry.seed id) := by
  induction as generalizing es with
  | nil => simp
  | cons a as ih =>
    cases es with
    | nil => simp
    | cons e es =>
      rw [List.length_cons, Finset.sum_range_succ', List.zip_cons_cons]
      simp only [List.getElem?_cons_succ, List.getElem?_cons_zero, Option.getD_some,
        Option.elim_some, ← ih es, List.filterMap_cons, Entry.seed]
      cases e.op with
      | parameter id' =>
        by_cases hid : id' = id
        · simp [hid, add_comm]
        · simp [hid]
      | _ => simp

theorem sum_parameterAdjoints (t : Tape K) (adjoints : Array K) (id : Nat) :
    (((t.parameterAdjoints adjoints).filter (·.1 = id)).map (·.2)).sum =
      ∑ h ∈ range adjoints.size,
        adjointOf adjoints h * (t.entries[h]?).elim 0 (Entry.seed id) := by
  have hs := sum_reads id t.entries.toList adjoints.toList
  simp only [Array.length_toList, Array.getElem?_toList] at hs
  exact hs

/-- The gradient that is added up for a parameter is the `ε` of what the root stands for when the
parameter moves. -/
theorem sum_parameterAdjoints_backward (ht : t.Recorded) {root : Handle} (hr : t.size = root + 1)
    (hv : t.Reads (.dual id) view) {adjoints : Array K} (hb : t.backward root = .ok adjoints)
    (hs : adjoints.size = root + 1) :
    (((t.parameterAdjoints adjoints).filter (·.1 = id)).map (·.2)).sum = (view root).snd := by
  have hd (h : Handle) (e : Entry K) (_ : h ≤ root) (he : t.entries[h]? = some e) :
      (view h).snd = t.localTangent e (fun u => (view u).snd) +
        (t.entries[h]?).elim 0 (Entry.seed id) := by
    rw [he]
    exact snd_view ht hv he
  have hlt : root < t.size := Nat.lt_of_lt_of_eq (Nat.lt_succ_self root) hr.symm
  rw [sum_parameterAdjoints, hs]
  exact backward_dual ht hlt hd hb

end Tape

namespace ParameterStore

variable {g : Graph K} {store : ParameterStore K}

theorem Fits.casesIn_dual (hs : store.Fits g) {id : Nat} {p : Parameter K}
    (hp : store.params[id]? = some p) (labels : List String) (rows : List (Row K)) :
    g.loss ((Evaluator.new g labels).casesIn (.dual id) store rows) =
      g.dualLoss labels store rows p := by
  have hl := hs.lookUp? hp
  have henv (row : Row K) : (Evaluator.new g labels).envIn (.dual id) store row =
      (g.env labels store row).vary inl p.node (inl p.value + DualNumber.eps) := by
    rw [← Evaluator.envIn_new]
    apply congrArg (Env.mk _)
    funext i
    change ((store.lookUp? i).map fun r => (Translation.dual id).parameter r.1 r.2).getD 0 =
      if i = p.node then _ else inl (((store.lookUp? i).map fun r => r.2).getD 0)
    by_cases hi : i = p.node
    · rw [if_pos hi, hi, hl]
      simp [Translation.dual]
    · rw [if_neg hi]
      cases hk : store.lookUp? i with
      | none => exact (inl_zero K).symm
      | some r =>
        obtain ⟨p', hp', hn, _⟩ := lookUp?_inv hk
        have hne : r.1 ≠ id := by
          rintro rfl
          rw [hp] at hp'
          cases hp'
          exact hi hn.symm
        simp [Translation.dual, hne]
  rw [Graph.dualLoss, Evaluator.casesIn]
  simp only [henv]
  rfl

end ParameterStore

namespace Evaluator

variable {g : Graph K} {labels : List String} {store : ParameterStore K} {rows : List (Row K)}
  {epoch id : Nat} {loss : K} {root : Handle} {tape : Tape K} {p : Parameter K}

/-- The gradients do not depend on the tape, only on what its root stands for in dual numbers. -/
theorem accumulateGradients_eq {ev : Evaluator K}
    (hr : ev.recordEpoch store rows epoch = .ok (loss, root, tape)) :
    ev.accumulateGradients store rows epoch =
      (.ok loss, store.withGrads fun id =>
        (ev.graph.loss (ev.casesIn (.dual id) store rows)).snd) := by
  obtain ⟨hg, hsize, _, hroot⟩ := recordEpoch_inv hr
  have hlt : root < tape.size := Nat.lt_of_lt_of_eq (Nat.lt_succ_self root) hsize.symm
  obtain ⟨adjoints, hb, hadj⟩ := Tape.backward_ok hg.recorded.wellFormed hlt
  -- The tape is read in dual numbers: the tangents of its reads add up to the tangent of the root.
  have hgradient (id : Nat) :
      tape.gradient root id = (ev.graph.loss (ev.casesIn (.dual id) store rows)).snd := by
    obtain ⟨view, hview⟩ := hg.recorded.exists_reads (.dual id)
    rw [Tape.gradient, hb, ← hroot hview,
      ← Tape.sum_parameterAdjoints_backward hg.recorded hsize hview hb hadj, List.sum_eq_foldl]
  rw [accumulateGradients_of_ok hr, findNonFinite?_exact, funext hgradient]

theorem accumulateGradients_ok (labels : List String) (hs : store.Fits g) (rows : List (Row K))
    (epoch : Nat) :
    ∃ loss root tape after,
      (Evaluator.new g labels).recordEpoch store rows epoch = .ok (loss, root, tape) ∧
        (Evaluator.new g labels).accumulateGradients store rows epoch = (.ok loss, after) ∧
        after.size = store.size ∧
        ∀ (id : Nat) (p : Parameter K), store.params[id]? = some p →
          after.params[id]? = some { p with grad := (g.dualLoss labels store rows p).snd } := by
  obtain ⟨loss, root, tape, hr⟩ : ∃ loss root tape,
      (Evaluator.new g labels).recordEpoch store rows epoch = .ok (loss, root, tape) :=
    recordEpoch_ok epoch rows fun _ => readable_of_fits hs
  refine ⟨loss, root, tape, _, hr, accumulateGradients_eq hr, ParameterStore.size_withGrads _ _, ?_⟩
  intro id p hp
  rw [ParameterStore.getElem?_withGrads, hp, ← hs.casesIn_dual hp labels rows]
  rfl

theorem recordEpoch_eq_fst
    (hr : (Evaluator.new g labels).recordEpoch store rows epoch = .ok (loss, root, tape))
    (hs : store.Fits g) (hp : store.params[id]? = some p) :
    loss = (g.dualLoss labels store rows p).fst := by
  obtain ⟨hg, hsize, hloss, hroot⟩ := recordEpoch_inv hr
  obtain ⟨view, hview⟩ := hg.recorded.exists_reads (.dual id)
  have hv := (hroot hview).trans (hs.casesIn_dual hp labels rows)
  rw [hloss, ← hv, Tape.fst_view hg.recorded hview (Nat.lt_of_lt_of_eq root.lt_succ_self hsize.symm)]

/-- An epoch computes the derivative of its loss: the gradient of each parameter is the `ε` of the
loss at `θ + ε`, and the loss itself is what stands without `ε`. -/
theorem accumulateGradients_eq_dualLoss (g : Graph K) (labels : List String)
    {store : ParameterStore K} (hs : store.Fits g) (rows : List (Row K)) (epoch : Nat) :
    ∃ loss after,
      (Evaluator.new g labels).accumulateGradients store rows epoch = (.ok loss, after) ∧
        after.size = store.size ∧
        ∀ (id : Nat) (p : Parameter K), store.params[id]? = some p →
          loss = (g.dualLoss labels store rows p).fst ∧
            after.params[id]? = some { p with grad := (g.dualLoss labels store rows p).snd } := by
  obtain ⟨loss, root, tape, after, hr, ha, hsize, hps⟩ :=
    accumulateGradients_ok labels hs rows epoch
  exact ⟨loss, after, ha, hsize, fun id p hp => ⟨recordEpoch_eq_fst hr hs hp, hps id p hp⟩⟩

/-- A weight `θ = 3` that reads `x = 1` through two connections: the loss is `(2 * θ - 4) ^ 2`. The
gradient 5 of an earlier epoch is gone. -/
theorem accumulateGradients_two_connections :
    let g : Graph ℚ := {
      size := 3
      nodes := #v[⟨"x", .input, some "x", .linear, 0⟩, ⟨"w", .weight, none, .linear, 3⟩,
        ⟨"output", .output, none, .linear, 0⟩]
      order := [0, 1, 2]
      incoming := #v[[], [0, 0], [1]]
      hasDeclaredInputs := #v[false, true, true]
      output := some 2
      mode := .strict }
    let store : ParameterStore ℚ := ⟨#[⟨1, 3, 5⟩]⟩
    store.Fits g ∧ ∃ after,
      (Evaluator.new g ["x"]).accumulateGradients store [⟨[1], 4⟩] 0 = (.ok 4, after) ∧
        after.params[0]? = some ⟨1, 3, 8⟩ := by
  intro g store
  have hs : store.Fits g := rfl
  obtain ⟨loss, after, h, _, hp⟩ := accumulateGradients_eq_dualLoss g ["x"] hs [⟨[1], 4⟩] 0
  obtain ⟨hloss, hgrad⟩ := hp 0 ⟨1, 3, 5⟩ rfl
  have hfst : (g.dualLoss ["x"] store [⟨[1], 4⟩] ⟨1, 3, 5⟩).fst = 4 := by decide +kernel
  have hsnd : (g.dualLoss ["x"] store [⟨[1], 4⟩] ⟨1, 3, 5⟩).snd = 8 := by decide +kernel
  rw [hfst] at hloss
  rw [hsnd] at hgrad
  subst hloss
  exact ⟨hs, after, h, hgrad⟩

end Evaluator

end Backprop
