import Backprop.Proofs.Training.Reordering

namespace Backprop

variable {K : Type} [ExactScalar K]

namespace Scalar

theorem mean_singleton (x : K) : mean [x] = x := by
  rw [mean_eq, List.sum_singleton, List.length_singleton, Nat.cast_one, div_one]

theorem mean_perm {xs ys : List K} (h : xs.Perm ys) : mean xs = mean ys := by
  rw [mean_eq, mean_eq, h.sum_eq, h.length_eq]

theorem mean_copies [CharZero K] {k : Nat} (hk : 1 ≤ k) (xs : List K) :
    mean (List.replicate k xs).flatten = mean xs := by
  have hk' : (k : K) ≠ 0 := Nat.cast_ne_zero.2 (Nat.one_le_iff_ne_zero.1 hk)
  have hsum : (List.replicate k xs).flatten.sum = k * xs.sum := by
    rw [List.sum_flatten, List.map_replicate, List.sum_replicate, nsmul_eq_mul]
  have hlength : (List.replicate k xs).flatten.length = k * xs.length := by
    rw [List.length_flatten, List.map_replicate, List.sum_replicate, smul_eq_mul]
  rw [mean_eq, mean_eq, hsum, hlength, Nat.cast_mul, mul_div_mul_left _ _ hk']

end Scalar

namespace Evaluator

def rowError {β : Type} [Scalar β] (ev : Evaluator K) (ℓ : Translation K β)
    (store : ParameterStore K) (row : Row K) : β :=
  ev.graph.squaredError (ev.envIn ℓ store row) (ℓ.constant row.expected)

theorem loss_casesIn {β : Type} [Scalar β] (ev : Evaluator K) (ℓ : Translation K β)
    (store : ParameterStore K) (rows : List (Row K)) :
    ev.graph.loss (ev.casesIn ℓ store rows) = Scalar.mean (rows.map (ev.rowError ℓ store)) := by
  rw [Graph.loss, casesIn, List.map_map]
  rfl

variable {ev : Evaluator K} {store : ParameterStore K} {rows : List (Row K)}

/-- Losses and gradients of single rows, of which an epoch over any rows takes the mean. -/
theorem accumulateGradients_eq_mean (hp : rows ≠ [] → ev.Readable store) (epoch : Nat) :
    ev.accumulateGradients store rows epoch =
      (.ok (Scalar.mean (rows.map (ev.rowError (.refl K) store))),
        store.withGrads fun id =>
          Scalar.mean (rows.map fun row => (ev.rowError (.dual id) store row).snd)) := by
  obtain ⟨loss, root, tape, hr⟩ := recordEpoch_ok epoch rows hp
  have hloss : loss = Scalar.mean (rows.map (ev.rowError (.refl K) store)) := by
    rw [recordEpoch_loss hr, loss_casesIn]
  have hgradient (id : Nat) : (ev.graph.loss (ev.casesIn (.dual id) store rows)).snd =
      Scalar.mean (rows.map fun row => (ev.rowError (.dual id) store row).snd) := by
    rw [loss_casesIn, Dual.snd_mean, List.map_map]
    rfl
  rw [accumulateGradients_eq hr, hloss]
  simp only [hgradient]

theorem accumulateGradients_singleton (hp : ev.Readable store) (row : Row K) (epoch : Nat) :
    ev.accumulateGradients store [row] epoch =
      (.ok (ev.rowError (.refl K) store row),
        store.withGrads fun id => (ev.rowError (.dual id) store row).snd) := by
  rw [accumulateGradients_eq_mean fun _ => hp]
  simp only [List.map_singleton, Scalar.mean_singleton]

end Evaluator

namespace Trainer

theorem run_of_means (t : Trainer K) {rows : List (Row K)}
    (hempty : rows.isEmpty = t.rows.isEmpty)
    (hmean : ∀ f : Row K → K, Scalar.mean (rows.map f) = Scalar.mean (t.rows.map f)) :
    ({ t with rows } : Trainer K).run.1 = t.run.1 := by
  rw [run_fst, run_fst]
  refine outcome_congr rfl hempty rfl fun store hs epoch => ?_
  have hp : (Evaluator.new t.graph t.labels).Readable store := Evaluator.readable_of_fits hs
  rw [Evaluator.accumulateGradients_eq_mean fun _ => hp,
    Evaluator.accumulateGradients_eq_mean fun _ => hp]
  simp only [hmean]

theorem run_perm (t : Trainer K) {rows : List (Row K)} (h : rows.Perm t.rows) :
    ({ t with rows } : Trainer K).run.1 = t.run.1 :=
  t.run_of_means h.isEmpty_eq fun f => Scalar.mean_perm (h.map f)

theorem run_copies [CharZero K] (t : Trainer K) {k : Nat} (hk : 1 ≤ k) :
    ({ t with rows := (List.replicate k t.rows).flatten } : Trainer K).run.1 = t.run.1 := by
  apply t.run_of_means
  · rw [Bool.eq_iff_iff, List.isEmpty_iff, List.isEmpty_iff, List.flatten_eq_nil_iff]
    simp [List.mem_replicate, Nat.one_le_iff_ne_zero.1 hk]
  · intro f
    rw [List.map_flatten, List.map_replicate, Scalar.mean_copies hk]

/-- An epoch comes to the mean, over its rows, of the loss and of the gradients that it comes to on each
row alone. If the store lacks a parameter it fails, and it fails on each row alone for the same reason.
So a run leaves the same parameters and the same history after the rows have been put in another
order or written out several times. -/
theorem run_rowwise [CharZero K] :
    (∀ (g : Graph K) labels store rows epoch, rows ≠ [] →
      let ev := Evaluator.new g labels
      (ev.Readable store → ∃ (loss : Row K → K) (gradient : Row K → Nat → K),
        (∀ row, ev.accumulateGradients store [row] epoch =
          (.ok (loss row), store.withGrads (gradient row))) ∧
        ev.accumulateGradients store rows epoch =
          (.ok ((rows.map loss).sum / rows.length),
            store.withGrads fun id => (rows.map fun row => gradient row id).sum / rows.length)) ∧
      (¬ev.Readable store → ∃ failure,
        (∀ row, ev.accumulateGradients store [row] epoch = (.error failure, store)) ∧
        ev.accumulateGradients store rows epoch = (.error failure, store)) ∧
      (store.Fits g → ev.Readable store)) ∧
    ∀ t : Trainer K,
      (∀ rows, rows.Perm t.rows → ({ t with rows } : Trainer K).run.1 = t.run.1) ∧
      (∀ k, 1 ≤ k →
        ({ t with rows := (List.replicate k t.rows).flatten } : Trainer K).run.1 = t.run.1) ∧
      ∀ store, t.validate = .ok store → ∃ outcome, t.run.1 = .ok outcome := by
  constructor
  · intro g labels store rows epoch hrows ev
    refine ⟨fun hp => ?_, fun hp => ?_, fun hs => Evaluator.readable_of_fits hs⟩
    · refine ⟨ev.rowError (.refl K) store, fun row id => (ev.rowError (.dual id) store row).snd,
        fun row => Evaluator.accumulateGradients_singleton hp row epoch, ?_⟩
      rw [Evaluator.accumulateGradients_eq_mean fun _ => hp]
      simp only [Scalar.mean_eq, List.length_map]
    · obtain ⟨i, hi⟩ := Option.ne_none_iff_exists'.1 (mt Evaluator.missing?_eq_none_iff.1 hp)
      have hfails {rows : List (Row K)} (hrows : rows ≠ []) :=
        Evaluator.accumulateGradients_of_error (Evaluator.recordEpoch_of_missing hi hrows epoch)
      exact ⟨_, fun row => hfails (List.cons_ne_nil row []), hfails hrows⟩
  · exact fun t => ⟨fun _ => t.run_perm, fun _ => t.run_copies, fun _ => run_ok⟩

/-- Two rows that pull the weight `θ = 3` apart: `(2 * θ - 4) ^ 2` is 4 with the slope 8 there, and
`(θ - 6) ^ 2` is 9 with the slope -6. -/
theorem run_rowwise_two_rows :
    let g : Graph ℚ := {
      size := 3
      nodes := #v[⟨"x", .input, some "x", .linear, 0⟩, ⟨"w", .weight, none, .linear, 3⟩,
        ⟨"output", .output, none, .linear, 0⟩]
      order := [0, 1, 2]
      incoming := #v[[], [0], [1]]
      hasDeclaredInputs := #v[false, true, true]
      output := some 2
      mode := .strict }
    let ev := Evaluator.new g ["x"]
    let store : ParameterStore ℚ := ⟨#[⟨1, 3, 0⟩]⟩
    let row : Row ℚ := ⟨[2], 4⟩
    let row' : Row ℚ := ⟨[1], 6⟩
    let t : Trainer ℚ :=
      { graph := g, rows := [row, row'], labels := ["x"], config := ⟨1 / 10, 2⟩ }
    let alone := ev.accumulateGradients store [row] 0
    let alone' := ev.accumulateGradients store [row'] 0
    let both := ev.accumulateGradients store [row, row'] 0
    (alone.1.toOption = some 4 ∧ alone.2.grads = [8]) ∧
      (alone'.1.toOption = some 9 ∧ alone'.2.grads = [-6]) ∧
      (both.1.toOption = some (13 / 2) ∧ both.2.grads = [1]) ∧
      ∃ outcome, t.run.1 = .ok outcome ∧
        ({ t with rows := [row', row] } : Trainer ℚ).run.1 = .ok outcome ∧
        ({ t with rows := [row, row', row, row'] } : Trainer ℚ).run.1 = .ok outcome := by
  intro g ev store row row' t alone alone' both
  have hrow : alone.1.toOption = some 4 ∧ alone.2.grads = [8] := by decide +kernel
  have hrow' : alone'.1.toOption = some 9 ∧ alone'.2.grads = [-6] := by decide +kernel
  obtain ⟨hmean, hrun⟩ := @run_rowwise ℚ _ _
  obtain ⟨hreadable, _, hfits⟩ := hmean g ["x"] store [row, row'] 0 nofun
  obtain ⟨loss, gradient, halone, hall⟩ := hreadable (hfits rfl)
  have hgrads (grad : Nat → ℚ) : (store.withGrads grad).grads = [grad 0] :=
    ParameterStore.grads_withGrads store grad
  have hread {row : Row ℚ} {x y : ℚ}
      (h : (ev.accumulateGradients store [row] 0).1.toOption = some x ∧
        (ev.accumulateGradients store [row] 0).2.grads = [y]) :
      loss row = x ∧ gradient row 0 = y := by
    rw [halone, hgrads] at h
    exact ⟨Option.some.inj h.1, List.singleton_inj.1 h.2⟩
  obtain ⟨hx, hy⟩ := hread hrow
  obtain ⟨hx', hy'⟩ := hread hrow'
  refine ⟨hrow, hrow', ?_, ?_⟩
  · have hboth : both = _ := hall
    rw [hboth, hgrads]
    norm_num [hx, hx', hy, hy', Except.toOption]
  · have hconfig : t.config.validate = .ok () := if_pos (by decide +kernel)
    have hv : t.validate = .ok store := by
      rw [validate_eq, hconfig]
      rfl
    obtain ⟨hperm, hcopies, hok⟩ := hrun t
    obtain ⟨outcome, ho⟩ := hok store hv
    have hswap := hperm [row', row] (List.Perm.swap row row' [])
    exact ⟨outcome, ho, hswap.trans ho, (hcopies 2 (by decide)).trans ho⟩

end Trainer

end Backprop
