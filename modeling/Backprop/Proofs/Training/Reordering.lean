import Backprop.Proofs.Gradient
import Backprop.Proofs.Graph.Forward
import Backprop.Proofs.Training.Congruence

namespace Backprop

namespace Graph

variable {α β : Type} [Scalar α] {g : Graph β} {incoming : Vector (List (Fin g.size)) g.size}

theorem sameSums_of_perm
    (hsum : ∀ {xs ys : List α}, xs.Perm ys → Scalar.sum xs = Scalar.sum ys)
    (hp : ∀ i, (incoming.get i).Perm (g.incoming.get i)) : g.SameSums α incoming := by
  intro v i
  have h := (hp i).filterMap v.get
  rw [incomingSum, incomingSum]
  generalize (incoming.get i).filterMap v.get = xs at h ⊢
  generalize (g.incoming.get i).filterMap v.get = ys at h ⊢
  cases xs with
  | nil => rw [List.nil_perm.1 h]
  | cons x xs =>
    cases ys with
    | nil => cases List.perm_nil.1 h
    | cons y ys => exact hsum h

end Graph

variable {K : Type} [ExactScalar K]

theorem Scalar.sum_perm {xs ys : List K} (h : xs.Perm ys) : Scalar.sum xs = Scalar.sum ys := by
  rw [sum_eq, sum_eq, h.sum_eq]

theorem Dual.sum_perm {xs ys : List (DualNumber K)} (h : xs.Perm ys) :
    Scalar.sum xs = Scalar.sum ys := by
  rw [sum_eq, sum_eq, h.sum_eq]

namespace Evaluator

structure Agree (ev ev' : Evaluator K) (store : ParameterStore K) (rows : List (Row K)) : Prop where
  readable : ev'.Readable store ↔ ev.Readable store
  loss : ev'.graph.loss (ev'.casesIn (.refl K) store rows) =
    ev.graph.loss (ev.casesIn (.refl K) store rows)
  dual : ∀ id, ev'.graph.loss (ev'.casesIn (.dual id) store rows) =
    ev.graph.loss (ev.casesIn (.dual id) store rows)

variable {ev ev' : Evaluator K} {store : ParameterStore K} {rows : List (Row K)}

theorem Agree.recordEpoch_ok_iff (h : Agree ev ev' store rows) (epoch : Nat) :
    (∃ r, ev'.recordEpoch store rows epoch = .ok r) ↔
      ∃ r, ev.recordEpoch store rows epoch = .ok r := by
  rw [Evaluator.recordEpoch_ok_iff, Evaluator.recordEpoch_ok_iff, h.readable]

theorem Agree.accumulateGradients_of_ok (h : Agree ev ev' store rows) {epoch : Nat}
    {r : K × Handle × Tape K} (hr : ev.recordEpoch store rows epoch = .ok r) :
    ev'.accumulateGradients store rows epoch = ev.accumulateGradients store rows epoch := by
  obtain ⟨r', hr'⟩ := (h.recordEpoch_ok_iff epoch).2 ⟨r, hr⟩
  have hloss : r'.1 = r.1 := by
    rw [recordEpoch_loss hr, recordEpoch_loss hr', h.loss]
  rw [accumulateGradients_eq hr, accumulateGradients_eq hr', hloss]
  simp only [h.dual]

/-- If no epoch comes about, then none does for either of them, and the store is as it was. -/
theorem Agree.accumulateGradients (h : Agree ev ev' store rows) (epoch : Nat) :
    (ev'.accumulateGradients store rows epoch).1.toOption =
        (ev.accumulateGradients store rows epoch).1.toOption ∧
      (ev'.accumulateGradients store rows epoch).2 = (ev.accumulateGradients store rows epoch).2 := by
  cases hr : ev.recordEpoch store rows epoch with
  | ok r =>
    rw [h.accumulateGradients_of_ok hr]
    exact ⟨rfl, rfl⟩
  | error failure =>
    cases hr' : ev'.recordEpoch store rows epoch with
    | ok r' =>
      obtain ⟨r, hok⟩ := (h.recordEpoch_ok_iff epoch).1 ⟨r', hr'⟩
      rw [hr] at hok
      cases hok
    | error failure' =>
      rw [Evaluator.accumulateGradients, Evaluator.accumulateGradients, hr, hr']
      exact ⟨rfl, rfl⟩

end Evaluator

namespace Graph.Forward

variable {g : Graph K} {incoming : Vector (List (Fin g.size)) g.size} {order : List (Fin g.size)}

omit [ExactScalar K] in
theorem readable_iff (h : g.Forward) (labels : List String) (store : ParameterStore K) :
    (Evaluator.new g labels).Readable store ↔
      ∀ i, (g.node i).kind.isTrainable → (store.lookUp? i).isSome := by
  constructor
  · intro hp i
    exact hp i (h.complete i)
  · intro hp i _
    exact hp i

theorem agree_rearrange (h : g.Forward) (h' : (g.rearrange incoming order).Forward)
    (hp : ∀ i, (incoming.get i).Perm (g.incoming.get i)) (labels : List String)
    (store : ParameterStore K) (rows : List (Row K)) :
    Evaluator.Agree (.new g labels) (.new (g.rearrange incoming order) labels) store rows where
  readable := by
    rw [h.readable_iff, h'.readable_iff]
    rfl
  loss := h.loss_rearrange h' (sameSums_of_perm Scalar.sum_perm hp) _
  dual id := h.loss_rearrange h' (sameSums_of_perm Dual.sum_perm hp) _

end Graph.Forward

namespace Trainer

variable {t t' : Trainer K} {store : ParameterStore K}

theorem runEpoch_ok (hs : store.Fits t.graph) (epoch : Nat) :
    ∃ r, t.runEpoch (.new t.graph t.labels) store epoch = .ok r := by
  obtain ⟨loss, _, _, after, _, ha, _⟩ :=
    Evaluator.accumulateGradients_ok t.labels hs t.rows epoch
  rw [runEpoch]
  simp only [ha, bind, Except.bind, Evaluator.findNonFinite?_exact]
  exact ⟨_, rfl⟩

theorem runEpochs_ok (hs : store.Fits t.graph) (count epoch : Nat) (history : List K) :
    ∃ r, t.runEpochs (.new t.graph t.labels) count epoch store history = .ok r := by
  induction count generalizing epoch store history with
  | zero => exact ⟨_, rfl⟩
  | succ count ih =>
    obtain ⟨⟨loss, next⟩, hr⟩ := runEpoch_ok hs epoch
    rw [runEpochs, hr]
    exact ih (runEpoch_fits hs hr) _ _

/-- What is not refused from the start is trained to the end. -/
theorem run_ok (hv : t.validate = .ok store) : ∃ outcome, t.run.1 = .ok outcome := by
  obtain ⟨r, hr⟩ := runEpochs_ok (validate_fits hv) t.config.epochs 0 []
  rw [run_fst, outcome, hv]
  simp only [bind, Except.bind, hr]
  exact ⟨_, rfl⟩

theorem run_congr (hconfig : t'.config = t.config) (hrows : t'.rows = t.rows)
    (hstart : ParameterStore.ofGraph t'.graph = ParameterStore.ofGraph t.graph)
    (h : ∀ store, Evaluator.Agree (.new t.graph t.labels) (.new t'.graph t'.labels) store t.rows) :
    t'.run.1 = t.run.1 := by
  rw [run_fst, run_fst]
  apply outcome_congr hconfig (congrArg List.isEmpty hrows) hstart
  intro store hs epoch
  rw [hrows]
  have hp : (Evaluator.new t.graph t.labels).Readable store := Evaluator.readable_of_fits hs
  obtain ⟨r, hr⟩ := Evaluator.recordEpoch_ok_iff.2 fun _ => hp
  exact (h store).accumulateGradients_of_ok hr

variable {nodes : List (Node K)} {connections connections' : List Connection}
  {order order' : List String} {output : String} {g g' : Graph K}

/-- The same nodes and connections, each sent in two orders that strict mode accepts: an epoch comes
to the same loss and the same gradients, and a training run to the same result. What either can fail
for, a parameter that is not in the store or a run that is refused, both fail for. -/
theorem run_reorder (hc : connections'.Perm connections)
    (h : Graph.build nodes connections order { mode := .strict, output } = .ok g)
    (h' : Graph.build nodes connections' order' { mode := .strict, output } = .ok g') :
    (∀ labels store rows epoch,
      let result := (Evaluator.new g labels).accumulateGradients store rows epoch
      let result' := (Evaluator.new g' labels).accumulateGradients store rows epoch
      result'.1.toOption = result.1.toOption ∧ result'.2 = result.2 ∧
        (store.Fits g → ∃ loss, result.1 = .ok loss)) ∧
      ∀ t : Trainer K,
        ({ t with graph := g' } : Trainer K).run.1 = ({ t with graph := g } : Trainer K).run.1 ∧
          ∀ store, ({ t with graph := g } : Trainer K).validate = .ok store →
            ∃ outcome, ({ t with graph := g } : Trainer K).run.1 = .ok outcome := by
  have hg := Graph.forward_of_build h
  have hg' := Graph.forward_of_build h'
  obtain ⟨incoming, is, rfl, _, hp⟩ := Graph.exists_rearrange hc h h'
  constructor
  · intro labels store rows epoch
    obtain ⟨hloss, hstore⟩ :=
      (hg.agree_rearrange hg' hp labels store rows).accumulateGradients epoch
    refine ⟨hloss, hstore, fun hs => ?_⟩
    obtain ⟨loss, _, _, _, _, ha, _⟩ := Evaluator.accumulateGradients_ok labels hs rows epoch
    exact ⟨loss, congrArg Prod.fst ha⟩
  · intro t
    refine ⟨run_congr rfl rfl (ParameterStore.ofGraph_congr rfl) fun store => ?_, fun _ => run_ok⟩
    exact hg.agree_rearrange hg' hp t.labels store t.rows

theorem run_reorder_two_weights :
    let nodes : List (Node ℚ) := [⟨"x", .input, some "x", .linear, 0⟩,
      ⟨"u", .weight, none, .linear, 3⟩, ⟨"v", .weight, none, .linear, 5⟩,
      ⟨"output", .output, none, .linear, 0⟩]
    let connections : List Connection :=
      [⟨"x", "u"⟩, ⟨"x", "v"⟩, ⟨"u", "output"⟩, ⟨"v", "output"⟩]
    let connections' : List Connection :=
      [⟨"v", "output"⟩, ⟨"x", "u"⟩, ⟨"u", "output"⟩, ⟨"x", "v"⟩]
    let g : Graph ℚ := {
      size := 4
      nodes := ⟨nodes.toArray, rfl⟩
      order := [0, 1, 2, 3]
      incoming := #v[[], [0], [0], [1, 2]]
      hasDeclaredInputs := #v[false, true, true, true]
      output := some 3
      mode := .strict }
    let g' : Graph ℚ := { g with order := [0, 2, 1, 3], incoming := #v[[], [0], [0], [2, 1]] }
    let store : ParameterStore ℚ := ⟨#[⟨1, 3, 0⟩, ⟨2, 5, 0⟩]⟩
    let row : Row ℚ := ⟨[2], 1⟩
    connections'.Perm connections ∧
      Graph.build nodes connections ["x", "u", "v", "output"] {} = .ok g ∧
      Graph.build nodes connections' ["x", "v", "u", "output"] {} = .ok g' ∧
      ((Evaluator.new g' ["x"]).accumulateGradients store [row] 0).1.toOption =
        ((Evaluator.new g ["x"]).accumulateGradients store [row] 0).1.toOption ∧
      ((Evaluator.new g' ["x"]).accumulateGradients store [row] 0).2 =
        ((Evaluator.new g ["x"]).accumulateGradients store [row] 0).2 ∧
      (∃ loss, ((Evaluator.new g ["x"]).accumulateGradients store [row] 0).1 = .ok loss) ∧
      ∃ outcome, ({ graph := g, rows := [row], labels := ["x"], config := ⟨1 / 100, 2⟩ } :
          Trainer ℚ).run.1 = .ok outcome ∧
        ({ graph := g', rows := [row], labels := ["x"], config := ⟨1 / 100, 2⟩ } :
          Trainer ℚ).run.1 = .ok outcome := by
  intro nodes connections connections' g g' store row
  have hc : connections'.Perm connections := by decide
  have h : Graph.build nodes connections ["x", "u", "v", "output"] {} = .ok g := by cbv
  have h' : Graph.build nodes connections' ["x", "v", "u", "output"] {} = .ok g' := by cbv
  obtain ⟨hgradients, hrun⟩ := run_reorder hc h h'
  obtain ⟨hloss, hstore, hok⟩ := hgradients ["x"] store [row] 0
  let t : Trainer ℚ := { graph := g, rows := [row], labels := ["x"], config := ⟨1 / 100, 2⟩ }
  have hconfig : t.config.validate = .ok () := if_pos (by decide +kernel)
  have hv : t.validate = .ok store := by
    rw [validate_eq, hconfig]
    rfl
  obtain ⟨hsame, hrun⟩ := hrun t
  obtain ⟨outcome, ho⟩ := hrun store hv
  exact ⟨hc, h, h', hloss, hstore, hok rfl, outcome, ho, hsame.trans ho⟩

end Trainer

end Backprop
