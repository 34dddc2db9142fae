import Backprop.GradientCheck
import Backprop.Proofs.Lookup
import Backprop.Proofs.Training.Congruence

namespace Backprop

variable {α : Type}

namespace Row

variable [Zero α] {labels labels' : List String} {row : Row α} {label : String}

theorem look_eq_lookup (row : Row α) (labels : List String) (label : String) :
    row.look labels (some label) = ((labels.zip row.inputs).lookup label).getD 0 := by
  rw [List.lookup_zip]
  rfl

theorem look_pad (row : Row α) (labels : List String) (label : String) (n : Nat) :
    ({ row with inputs := row.inputs ++ List.replicate n 0 } : Row α).look labels (some label) =
      row.look labels (some label) := by
  simp only [look, Option.bind_some]
  cases labels.idxOf? label with
  | none => rfl
  | some column =>
    rw [Option.bind_some, Option.bind_some, List.getElem?_append]
    split
    · rfl
    · next hc =>
      rw [List.getElem?_replicate, List.getElem?_eq_none (Nat.le_of_not_lt hc)]
      split <;> rfl

theorem look_append {more : List String} (h : label ∈ more → label ∈ labels) (row : Row α) :
    row.look (labels ++ more) (some label) = row.look labels (some label) := by
  have hcolumn : (labels ++ more).idxOf? label = labels.idxOf? label := by
    rw [List.idxOf?_append]
    by_cases hmore : label ∈ more
    · obtain ⟨column, hc⟩ := Option.isSome_iff_exists.1 (List.isSome_idxOf?.2 (h hmore))
      rw [hc, Option.some_or]
    · rw [List.idxOf?_eq_none_iff.2 hmore, Option.map_none, Option.or_none]
  rw [look, look, Option.bind_some, Option.bind_some, hcolumn]

end Row

namespace Graph

def LooksUp (g : Graph α) (label : String) : Prop :=
  ∃ i ∈ g.order, (g.node i).kind = .input ∧ (g.node i).label = some label

/-- The graph looks up the same in both rows, each under labels of its own, and they expect the same. -/
structure Alike [Zero α] (g : Graph α) (labels labels' : List String) (row row' : Row α) :
    Prop where
  expected : row'.expected = row.expected
  look : ∀ label, g.LooksUp label → row'.look labels' (some label) = row.look labels (some label)

theorem Alike.look_node [Zero α] {g : Graph α} {labels labels' : List String} {row row' : Row α}
    (h : g.Alike labels labels' row row') {i : Fin g.size} (hi : i ∈ g.order)
    (hk : (g.node i).kind = .input) :
    row'.look labels' (g.node i).label = row.look labels (g.node i).label := by
  cases hl : (g.node i).label with
  | none => rfl
  | some label => exact h.look label ⟨i, hi, hk, hl⟩

/-- The row as it stands in another table, where the columns come in another order, where there is one
more column, which the graph does not look up or whose label stands further to the front already, where
zeros follow the row, or where more such labels follow the labels. -/
inductive Retabulated [Zero α] (g : Graph α) (labels : List String) (row : Row α) :
    List String → Row α → Prop
  | permute {labels' : List String} {inputs : List α} (hlabels : labels.Nodup)
    (hp : (labels'.zip inputs).Perm (labels.zip row.inputs)) :
    g.Retabulated labels row labels' { row with inputs }
  | insert (k : Nat) (label : String) (x : α) (h : ¬g.LooksUp label ∨ label ∈ labels.take k) :
    g.Retabulated labels row (labels.insertIdx k label)
      { row with inputs := row.inputs.insertIdx k x }
  | pad (n : Nat) :
    g.Retabulated labels row labels { row with inputs := row.inputs ++ List.replicate n 0 }
  | append (more : List String) (h : ∀ label ∈ more, ¬g.LooksUp label ∨ label ∈ labels) :
    g.Retabulated labels row (labels ++ more) row

theorem Retabulated.alike [Zero α] {g : Graph α} {labels labels' : List String} {row row' : Row α}
    (h : g.Retabulated labels row labels' row') : g.Alike labels labels' row row' := by
  cases h with
  | permute hlabels hp =>
    refine ⟨rfl, fun label _ => ?_⟩
    have hkeys : ((labels.zip row.inputs).map (·.1)).Nodup := by
      rw [List.zip_eq_zip_take_min, List.map_fst_zip (by simp)]
      exact (List.take_sublist _ _).nodup hlabels
    rw [Row.look_eq_lookup, Row.look_eq_lookup, List.lookup_perm hkeys hp.symm]
  | insert k label' x h =>
    refine ⟨rfl, fun label hlabel => ?_⟩
    have hbefore : label = label' → label' ∈ labels.take k := by
      rintro rfl
      exact h.resolve_left fun hn => hn hlabel
    rw [Row.look_eq_lookup, Row.look_eq_lookup, List.lookup_zip_insertIdx hbefore]
  | pad n => exact ⟨rfl, fun label _ => row.look_pad labels label n⟩
  | append more h =>
    refine ⟨rfl, fun label hlabel => Row.look_append (fun hmore => ?_) row⟩
    exact (h label hmore).resolve_left fun hn => hn hlabel

end Graph

namespace Evaluator

variable [Scalar α] {g : Graph α} {labels labels' : List String} {row row' : Row α}
  {rows rows' : List (Row α)}

theorem recordNode_of_alike (h : g.Alike labels labels' row row') {i : Fin g.size} (hi : i ∈ g.order)
    (store : ParameterStore α) (handles : Vector (Option Handle) g.size) (tape : Tape α) :
    (new g labels').recordNode store row' handles tape i =
      (new g labels).recordNode store row handles tape i := by
  have hread (hk : (g.node i).kind = .input) :
      (new g labels').readInput row' i = (new g labels).readInput row i := by
    rw [readInput_new, readInput_new, h.look_node hi hk]
  simp only [recordNode, new]
  cases hk : (g.node i).kind with
  | input => exact congrArg (fun x => Except.ok (tape.constant x)) (hread hk)
  | _ => rfl

theorem record_of_alike (h : g.Alike labels labels' row row') (store : ParameterStore α)
    (tape : Tape α) :
    (new g labels').record store tape row' = (new g labels).record store tape row :=
  @record_exchange _ _ (new g labels) g.nodes g.mode (new g labels').columns _ _ _
    (fun _ hi handles tape => recordNode_of_alike h hi store handles tape) tape

theorem evaluate_of_alike (h : g.Alike labels labels' row row') (store : ParameterStore α) :
    (new g labels').evaluate store row' = (new g labels).evaluate store row := by
  rw [evaluate, evaluate, record_of_alike h]
  rfl

theorem retraces_of_alike (h : g.Alike labels labels' row row') (store : ParameterStore α) :
    Retraces (new g labels) (new g labels') store row row' where
  expected := h.expected
  trace tape := congrArg (Except.map _) (record_of_alike h store tape)

theorem addErrors_of_alike (h : List.Forall₂ (g.Alike labels labels') rows rows')
    (store : ParameterStore α) (total : α) :
    (new g labels').addErrors store total rows' = (new g labels).addErrors store total rows := by
  induction h generalizing total with
  | nil => rfl
  | cons hrow hrows ih =>
    rw [addErrors, addErrors, evaluate_of_alike hrow, hrow.expected]
    simp only [ih]
    rfl

theorem epochLoss_of_alike (h : List.Forall₂ (g.Alike labels labels') rows rows')
    (store : ParameterStore α) :
    (new g labels').epochLoss store rows' = (new g labels).epochLoss store rows := by
  rw [epochLoss, epochLoss, addErrors_of_alike h, h.isEmpty_eq, h.length_eq]

theorem accumulateGradients_of_alike (h : List.Forall₂ (g.Alike labels labels') rows rows')
    (store : ParameterStore α) (epoch : Nat) :
    (new g labels').accumulateGradients store rows' epoch =
      (new g labels).accumulateGradients store rows epoch :=
  accumulateGradients_of_retraces (h.imp fun _ _ hrow => retraces_of_alike hrow store) epoch

end Evaluator

namespace Graph

variable [Scalar α] {g : Graph α} {labels labels' : List String} {rows rows' : List (Row α)}

/-- Whatever is done with the graph on the second table comes to what it comes to on the first. -/
structure Indistinguishable (g : Graph α) (labels labels' : List String)
    (rows rows' : List (Row α)) : Prop where
  evaluate : ∀ store, List.Forall₂ (fun row row' =>
    (Evaluator.new g labels').evaluate store row' = (Evaluator.new g labels).evaluate store row)
    rows rows'
  epochLoss : ∀ store,
    (Evaluator.new g labels').epochLoss store rows' = (Evaluator.new g labels).epochLoss store rows
  accumulateGradients : ∀ store epoch,
    (Evaluator.new g labels').accumulateGradients store rows' epoch =
      (Evaluator.new g labels).accumulateGradients store rows epoch
  run : ∀ (config : TrainingConfig α) (phase phase' : Phase α),
    let t : Trainer α := { graph := g, rows, labels, config, phase }
    let t' : Trainer α := { graph := g, rows := rows', labels := labels', config, phase := phase' }
    t'.run = (t.run.1, { t' with phase := t.run.2.phase })

theorem indistinguishable_of_alike (h : List.Forall₂ (g.Alike labels labels') rows rows') :
    g.Indistinguishable labels labels' rows rows' where
  evaluate store := h.imp fun _ _ hrow => Evaluator.evaluate_of_alike hrow store
  epochLoss store := Evaluator.epochLoss_of_alike h store
  accumulateGradients store epoch := Evaluator.accumulateGradients_of_alike h store epoch
  run config phase phase' := by
    intro t t'
    have hsame : t'.outcome = t.outcome :=
      Trainer.outcome_congr rfl h.isEmpty_eq rfl fun store _ epoch =>
        Evaluator.accumulateGradients_of_alike h store epoch
    rw [Trainer.run_eq, Trainer.run_eq, hsame]

/-- A table matters only through what the evaluated input nodes look up in it. So its columns may come
in any order if their labels are distinct, columns may be added that are not looked up, labels may be
repeated further back, and zeros may stand behind a row. -/
theorem indistinguishable (g : Graph α) (labels labels' : List String) (rows rows' : List (Row α)) :
    (List.Forall₂ (g.Alike labels labels') rows rows' →
      g.Indistinguishable labels labels' rows rows') ∧
    (List.Forall₂ (fun row row' => g.Retabulated labels row labels' row') rows rows' →
      g.Indistinguishable labels labels' rows rows') := by
  refine ⟨indistinguishable_of_alike, fun h => indistinguishable_of_alike ?_⟩
  exact h.imp fun _ _ hrow => hrow.alike

theorem indistinguishable_spare_column :
    let g : Graph Float := {
      size := 3
      nodes := #v[⟨"a", .input, some "x", .linear, 0⟩, ⟨"b", .input, some "y", .linear, 0⟩,
        ⟨"output", .output, none, .linear, 0⟩]
      order := [0, 1, 2]
      incoming := #v[[], [], [0, 1]]
      hasDeclaredInputs := #v[false, false, true]
      output := some 2
      mode := .strict }
    let rows : List (Row Float) := [⟨[3.0], 1.0⟩]
    let rows' : List (Row Float) := [⟨[1.0 / 0.0, 0.0, 3.0, 7.0], 1.0⟩]
    List.Forall₂ (g.Alike ["x", "y"] ["spare", "y", "x", "y"]) rows rows' ∧
      g.Indistinguishable ["x", "y"] ["spare", "y", "x", "y"] rows rows' := by
  intro g rows rows'
  have hx : ["x", "y"].idxOf? "x" = some 0 := by decide
  have hy : ["x", "y"].idxOf? "y" = some 1 := by decide
  have hx' : ["spare", "y", "x", "y"].idxOf? "x" = some 2 := by decide
  have hy' : ["spare", "y", "x", "y"].idxOf? "y" = some 1 := by decide
  have h : List.Forall₂ (g.Alike ["x", "y"] ["spare", "y", "x", "y"]) rows rows' := by
    refine .cons ⟨rfl, ?_⟩ .nil
    rintro label ⟨i, -, hk, hl⟩
    fin_cases i
    · cases hl
      simp only [Row.look, Option.bind_some, hx, hx']
      rfl
    · cases hl
      simp only [Row.look, Option.bind_some, hy, hy']
      rfl
    · cases hk
  exact ⟨h, (indistinguishable g _ _ rows rows').1 h⟩

end Graph

end Backprop
