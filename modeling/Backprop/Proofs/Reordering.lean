import Backprop.Proofs.Epoch
import Backprop.Proofs.Exact
import Backprop.Proofs.Graph.Forward

namespace Backprop

variable {α : Type} {nodes : List (Node α)} {connections : List Connection}
  {order order' : List String} {output : String} {g g' : Graph α} {store : ParameterStore α}

theorem Graph.exists_reorder
    (h : build nodes connections order { mode := .strict, output } = .ok g)
    (h' : build nodes connections order' { mode := .strict, output } = .ok g') :
    ∃ is, g' = g.rearrange g.incoming is := by
  obtain ⟨incoming, is, rfl, he, _⟩ := exists_rearrange (List.Perm.refl connections) h h'
  obtain rfl := he rfl
  exact ⟨is, rfl⟩

variable [Scalar α]

theorem Graph.Forward.addedLoss_reorder {is : List (Fin g.size)} (h : g.Forward)
    (h' : (g.rearrange g.incoming is).Forward) (labels : List String) (store : ParameterStore α)
    (rows : List (Row α)) :
    (g.rearrange g.incoming is).addedLoss labels store rows = g.addedLoss labels store rows := by
  have herror (row : Row α) :
      (g.rearrange g.incoming is).squaredError (g.env labels store row) row.expected =
        g.squaredError (g.env labels store row) row.expected :=
    h.squaredError_rearrange h' (fun _ _ => rfl) _ _
  rw [addedLoss, addedLoss]
  split
  · rfl
  · apply congrArg (· / (rows.length : α))
    apply congrArg (rows.foldl · 0)
    funext total row
    exact congrArg (total + ·) (herror row)

/-- Two orders of the same nodes and connections: an evaluation comes to the same values and the same
prediction, and an epoch to the same loss. -/
theorem Evaluator.evaluate_reorder
    (h : Graph.build nodes connections order { mode := .strict, output } = .ok g)
    (h' : Graph.build nodes connections order' { mode := .strict, output } = .ok g')
    (hs : store.Fits g) (labels : List String) :
    (∀ row, ∃ e e', (Evaluator.new g labels).evaluate store row = .ok e ∧
        (Evaluator.new g' labels).evaluate store row = .ok e' ∧
        e'.values.toList = e.values.toList ∧ e'.prediction = e.prediction) ∧
      ∀ rows, ∃ loss, (Evaluator.new g labels).epochLoss store rows = .ok loss ∧
        (Evaluator.new g' labels).epochLoss store rows = .ok loss := by
  have hg := Graph.forward_of_build h
  have hg' := Graph.forward_of_build h'
  obtain ⟨is, rfl⟩ := Graph.exists_reorder h h'
  have hs' : store.Fits (g.rearrange g.incoming is) := hs
  constructor
  · intro row
    have hvalues : (g.rearrange g.incoming is).values (g.env labels store row) =
        g.values (g.env labels store row) :=
      hg.values_rearrange hg' (fun _ _ => rfl) _
    refine ⟨_, _, evaluate_new hs labels row, evaluate_new hs' labels row, ?_, ?_⟩
    · exact congrArg Vector.toList hvalues
    · exact congrArg (fun values => (g.output.bind values.get).getD 0) hvalues
  · intro rows
    refine ⟨_, epochLoss_new labels hs rows, ?_⟩
    rw [epochLoss_new labels hs', hg.addedLoss_reorder hg']

theorem Evaluator.evaluate_reorder_two_weights :
    let nodes : List (Node ℚ) := [⟨"x", .input, some "x", .linear, 0⟩,
      ⟨"u", .weight, none, .linear, 3⟩, ⟨"v", .weight, none, .linear, 5⟩,
      ⟨"output", .output, none, .linear, 0⟩]
    let connections : List Connection :=
      [⟨"x", "u"⟩, ⟨"x", "v"⟩, ⟨"v", "output"⟩, ⟨"x", "output"⟩, ⟨"u", "output"⟩]
    let g : Graph ℚ := {
      size := 4
      nodes := ⟨nodes.toArray, rfl⟩
      order := [0, 1, 2, 3]
      incoming := #v[[], [0], [0], [2, 0, 1]]
      hasDeclaredInputs := #v[false, true, true, true]
      output := some 3
      mode := .strict }
    let g' : Graph ℚ := { g with order := [0, 2, 1, 3] }
    let store : ParameterStore ℚ := ⟨#[⟨1, 3, 0⟩, ⟨2, 5, 0⟩]⟩
    Graph.build nodes connections ["x", "u", "v", "output"] {} = .ok g ∧
      Graph.build nodes connections ["x", "v", "u", "output"] {} = .ok g' ∧ store.Fits g ∧
      (∃ e e', (Evaluator.new g ["x"]).evaluate store ⟨[2], 1⟩ = .ok e ∧
        (Evaluator.new g' ["x"]).evaluate store ⟨[2], 1⟩ = .ok e' ∧
        e'.values.toList = e.values.toList ∧ e'.prediction = e.prediction) ∧
      ∃ loss, (Evaluator.new g ["x"]).epochLoss store [⟨[2], 1⟩] = .ok loss ∧
        (Evaluator.new g' ["x"]).epochLoss store [⟨[2], 1⟩] = .ok loss := by
  intro nodes connections g g' store
  have h : Graph.build nodes connections ["x", "u", "v", "output"] {} = .ok g := by cbv
  have h' : Graph.build nodes connections ["x", "v", "u", "output"] {} = .ok g' := by cbv
  have hs : store.Fits g := rfl
  obtain ⟨hvalues, hloss⟩ := evaluate_reorder h h' hs ["x"]
  exact ⟨h, h', hs, hvalues _, hloss _⟩

end Backprop
