import Backprop.Proofs.Epoch
import Backprop.Proofs.Exact
import Backprop.Proofs.Renaming
import Backprop.Proofs.Tape.Append

namespace Backprop

variable {α : Type}

theorem ParameterStore.isNone_lookUp? (s : ParameterStore α) (node : Nat) :
    (s.lookUp? node).isNone = (s.paramFor? node).isNone := by
  cases hid : s.paramFor? node with
  | none =>
    rw [lookUp?, hid, Option.bind_none]
    rfl
  | some id =>
    obtain ⟨hlt, _⟩ := Array.findIdx?_eq_some_iff_getElem.1 hid
    rw [lookUp?, hid, Option.bind_some, Array.getElem?_eq_getElem hlt]
    rfl

/-- What a row leaves on a tape of its own, moved on past the end of another tape. -/
def RecordedRow.behind {n : Nat} (tape : Tape α) (r : RecordedRow α n) : RecordedRow α n where
  handles := r.handles.map (·.map (· + tape.size))
  prediction := r.prediction + tape.size
  tape := tape.append r.tape

namespace Evaluator

variable [Scalar α] {ev : Evaluator α} {store : ParameterStore α}

theorem record_append (tape : Tape α) (row : Row α) : ev.record store tape row =
    (ev.record store .empty row).map (·.behind tape) := by
  have hfinds : (Renaming.refl ev).Finds tape.behind.parameter store store :=
    fun _ => Option.map_id_apply.symm
  have hrecord := record_embed hfinds .empty row
  have hstart : tape.behind.tape .empty = tape := tape.append_empty
  have hrow : (Renaming.refl ev).recordedRow tape.behind = (RecordedRow.behind tape) :=
    funext fun r => congrArg (RecordedRow.mk · _ _) (Graph.Renaming.vector_refl _)
  rw [hstart, hrow] at hrecord
  exact hrecord

theorem trace_append (tape : Tape α) (row : Row α) : ev.trace store tape row =
    (ev.trace store .empty row).map (Prod.map (· + tape.size) tape.append) := by
  rw [trace, trace, record_append]
  cases ev.record store .empty row <;> rfl

theorem recordLoss_eq_trace (epoch number : Nat) (row : Row α) (tape : Tape α) :
    ev.recordLoss store epoch number row tape = (do
      let (prediction, recorded) ← ev.trace store tape row
      let (h, recorded) ← recorded.squaredError prediction row.expected
      match findNonFinite? (recorded.valuesFrom tape.size) with
      | some x => throw (.nonFinite epoch (some number) .forward x)
      | none => return (h, recorded)) := by
  rw [recordLoss, trace]
  cases ev.record store tape row <;> rfl

/-- Records a row with its squared error on a tape of its own. -/
def recordAlone (ev : Evaluator α) (store : ParameterStore α) (row : Row α) :
    Except (Failure α) (Handle × Tape α) := do
  let r ← ev.record store .empty row
  r.tape.squaredError r.prediction row.expected

def numbers (ev : Evaluator α) (store : ParameterStore α) (row : Row α) : List α :=
  match ev.recordAlone store row with
  | .ok (_, own) => own.values
  | .error _ => []

def firstNonFinite? (ev : Evaluator α) (store : ParameterStore α) :
    List (Row α) → Option (Nat × α)
  | [] => none
  | row :: rows =>
    match findNonFinite? (ev.numbers store row) with
    | some x => some (0, x)
    | none => (ev.firstNonFinite? store rows).map (Prod.map (· + 1) id)

variable {row : Row α} {rows : List (Row α)} {number epoch : Nat} {tape : Tape α}

theorem firstNonFinite?_cons_of_some {x : α} (hx : findNonFinite? (ev.numbers store row) = some x) :
    ev.firstNonFinite? store (row :: rows) = some (0, x) := by
  rw [firstNonFinite?, hx]

theorem firstNonFinite?_cons_of_none (hx : findNonFinite? (ev.numbers store row) = none) :
    ev.firstNonFinite? store (row :: rows) =
      (ev.firstNonFinite? store rows).map (Prod.map (· + 1) id) := by
  rw [firstNonFinite?, hx]

theorem firstNonFinite?_eq_none_iff : ev.firstNonFinite? store rows = none ↔
    ∀ row ∈ rows, findNonFinite? (ev.numbers store row) = none := by
  induction rows with
  | nil => exact iff_of_true rfl nofun
  | cons row rows ih =>
    rw [List.forall_mem_cons]
    cases hx : findNonFinite? (ev.numbers store row) with
    | some x =>
      rw [firstNonFinite?_cons_of_some hx]
      exact iff_of_false nofun fun h => Option.some_ne_none x h.1
    | none =>
      rw [firstNonFinite?_cons_of_none hx, Option.map_eq_none_iff, ih]
      exact (and_iff_right rfl).symm

theorem firstNonFinite?_eq_some_iff {r : Nat} {x : α} :
    ev.firstNonFinite? store rows = some (r, x) ↔
      ∃ row, rows[r]? = some row ∧
        (∀ earlier ∈ rows.take r, findNonFinite? (ev.numbers store earlier) = none) ∧
        findNonFinite? (ev.numbers store row) = some x := by
  induction rows generalizing r with
  | nil => exact iff_of_false nofun fun ⟨_, hrow, _⟩ => absurd hrow nofun
  | cons first rows ih =>
    cases hx : findNonFinite? (ev.numbers store first) with
    | some y =>
      rw [firstNonFinite?_cons_of_some hx]
      cases r with
      | zero =>
        constructor
        · intro h
          cases h
          exact ⟨first, rfl, nofun, hx⟩
        · rintro ⟨_, ⟨⟩, _, hrow⟩
          rw [hx] at hrow
          cases hrow
          rfl
      | succ r =>
        apply iff_of_false nofun
        rintro ⟨_, _, hearlier, _⟩
        have hfirst := hearlier first List.mem_cons_self
        rw [hx] at hfirst
        cases hfirst
    | none =>
      rw [firstNonFinite?_cons_of_none hx, Option.map_eq_some_iff]
      cases r with
      | zero =>
        apply iff_of_false nofun
        rintro ⟨_, ⟨⟩, _, hrow⟩
        rw [hx] at hrow
        cases hrow
      | succ r =>
        rw [List.take_succ_cons, List.forall_mem_cons, List.getElem?_cons_succ]
        simp only [hx, true_and]
        rw [← ih]
        constructor
        · rintro ⟨_, hrest, ⟨⟩⟩
          exact hrest
        · exact fun hrest => ⟨(r, x), hrest, rfl⟩

theorem exists_firstNonFinite?_iff {r : Nat} :
    (∃ x, ev.firstNonFinite? store rows = some (r, x)) ↔
      ∃ row, rows[r]? = some row ∧
        (∀ earlier ∈ rows.take r, findNonFinite? (ev.numbers store earlier) = none) ∧
        findNonFinite? (ev.numbers store row) ≠ none := by
  simp only [firstNonFinite?_eq_some_iff, Option.ne_none_iff_exists']
  constructor
  · rintro ⟨x, row, hrow, hearlier, hx⟩
    exact ⟨row, hrow, hearlier, x, hx⟩
  · rintro ⟨row, hrow, hearlier, x, hx⟩
    exact ⟨x, row, hrow, hearlier, hx⟩

theorem recordLoss_eq (epoch number : Nat) (row : Row α) (tape : Tape α) :
    ev.recordLoss store epoch number row tape = (do
      let (h, own) ← ev.recordAlone store row
      match findNonFinite? own.values with
      | some x => throw (.nonFinite epoch (some number) .forward x)
      | none => return (h + tape.size, tape.append own)) := by
  rw [recordLoss_eq_trace, trace_append, trace, recordAlone]
  cases ev.record store .empty row with
  | error failure => rfl
  | ok r =>
    have hcall : (tape.append r.tape).squaredError (r.prediction + tape.size) row.expected =
        (r.tape.squaredError r.prediction row.expected).map
          (Prod.map (· + tape.size) tape.append) :=
      tape.behind.call r.tape (.squaredError r.prediction row.expected)
    simp only [Except.map, Prod.map, bind, Except.bind, hcall]
    cases r.tape.squaredError r.prediction row.expected with
    | error failure => rfl
    | ok p =>
      cases hx : findNonFinite? p.2.values <;> simp only [Tape.valuesFrom_append, hx]

theorem exists_recordAlone (row : Row α) (hp : ev.Readable store) :
    ∃ h own, ev.recordAlone store row = .ok (h, own) ∧ ev.numbers store row = own.values := by
  obtain ⟨r, hr⟩ := record_ok row .empty hp
  obtain ⟨_, _, hlt, _⟩ := record_inv hr
  obtain ⟨⟨h, own⟩, hc⟩ : ∃ p, r.tape.squaredError r.prediction row.expected = .ok p :=
    ⟨_, Tape.call_ok (c := .squaredError _ _) fun u hu => List.mem_singleton.1 hu ▸ hlt⟩
  have halone : ev.recordAlone store row = .ok (h, own) := Except.bind_eq_ok_iff.2 ⟨r, hr, hc⟩
  refine ⟨h, own, halone, ?_⟩
  rw [numbers, halone]

theorem recordLoss_of_some {x : α} (hp : ev.Readable store)
    (hx : findNonFinite? (ev.numbers store row) = some x) (epoch number : Nat) (tape : Tape α) :
    ev.recordLoss store epoch number row tape =
      .error (.nonFinite epoch (some number) .forward x) := by
  obtain ⟨h, own, halone, hnumbers⟩ := exists_recordAlone row hp
  rw [hnumbers] at hx
  rw [recordLoss_eq, halone]
  simp only [bind, Except.bind, hx]
  rfl

theorem recordLoss_of_none (hp : ev.Readable store)
    (hx : findNonFinite? (ev.numbers store row) = none) (tape : Tape α) :
    ∃ loss, ∀ epoch number, ev.recordLoss store epoch number row tape = .ok loss := by
  obtain ⟨h, own, halone, hnumbers⟩ := exists_recordAlone row hp
  rw [hnumbers] at hx
  refine ⟨(h + tape.size, tape.append own), fun epoch number => ?_⟩
  rw [recordLoss_eq, halone]
  simp only [bind, Except.bind, hx]
  rfl

/-- Rows are recorded up to the first one that fails. -/
theorem recordLosses_of_some {r : Nat} {x : α} (hp : ev.Readable store)
    (hx : ev.firstNonFinite? store rows = some (r, x)) (epoch number : Nat) (tape : Tape α) :
    ev.recordLosses store epoch number rows tape =
      .error (.nonFinite epoch (some (number + r)) .forward x) := by
  induction rows generalizing number r tape with
  | nil => cases hx
  | cons row rows ih =>
    rw [recordLosses]
    cases hrow : findNonFinite? (ev.numbers store row) with
    | some y =>
      rw [firstNonFinite?_cons_of_some hrow] at hx
      cases hx
      rw [recordLoss_of_some hp hrow]
      rfl
    | none =>
      rw [firstNonFinite?_cons_of_none hrow] at hx
      obtain ⟨⟨r, _⟩, hrest, ⟨⟩⟩ := Option.map_eq_some_iff.1 hx
      obtain ⟨loss, hloss⟩ := recordLoss_of_none hp hrow tape
      rw [hloss]
      simp only [bind, Except.bind, ih hrest, Nat.add_assoc, Nat.add_comm 1]

theorem recordLosses_of_none (hp : rows ≠ [] → ev.Readable store)
    (hx : ev.firstNonFinite? store rows = none) (tape : Tape α) :
    ∃ losses, ∀ epoch number, ev.recordLosses store epoch number rows tape = .ok losses := by
  induction rows generalizing tape with
  | nil => exact ⟨([], tape), fun _ _ => rfl⟩
  | cons row rows ih =>
    have hp := hp (List.cons_ne_nil row rows)
    rw [firstNonFinite?_eq_none_iff, List.forall_mem_cons, ← firstNonFinite?_eq_none_iff] at hx
    obtain ⟨loss, hloss⟩ := recordLoss_of_none hp hx.1 tape
    obtain ⟨losses, hlosses⟩ := ih (fun _ => hp) hx.2 loss.2
    refine ⟨(loss.1 :: losses.1, losses.2), fun epoch number => ?_⟩
    rw [recordLosses, hloss]
    simp only [bind, Except.bind, hlosses]
    rfl

/-- The mean that is recorded behind all rows is the loss of the interpreter. -/
theorem mean_of_recordLosses {losses : List Handle}
    (hr : ev.recordLosses store epoch 0 rows .empty = .ok (losses, tape)) :
    ∃ root tape', tape.mean losses = .ok (root, tape') ∧
      tape'.value root = .ok (ev.graph.loss (ev.casesIn (.refl α) store rows)) := by
  obtain ⟨hg, hlt, hview⟩ := recordLosses_inv hr
  obtain ⟨⟨root, tape'⟩, hm⟩ : ∃ p, tape.call (.mean losses) = .ok p := ⟨_, Tape.call_ok hlt⟩
  have hreads := (hg.call hm trivial).recorded.reads_valueAt
  have hloss : tape'.valueAt root = ev.graph.loss (ev.casesIn (.refl α) store rows) := by
    rw [Graph.loss, ← hview (Tape.call_isPrefix hm) hreads]
    exact hreads.call hm fun _ _ he => he
  refine ⟨root, tape', hm, ?_⟩
  rw [Tape.value_eq (Tape.call_lt hm), hloss]

theorem recordEpoch_of_some {r : Nat} {x : α} (hp : ev.Readable store)
    (hx : ev.firstNonFinite? store rows = some (r, x)) (epoch : Nat) :
    ev.recordEpoch store rows epoch = .error (.nonFinite epoch (some r) .forward x) := by
  rw [recordEpoch, recordLosses_of_some hp hx, Nat.zero_add]
  rfl

theorem recordEpoch_of_none (hp : rows ≠ [] → ev.Readable store)
    (hx : ev.firstNonFinite? store rows = none) :
    let loss := ev.graph.loss (ev.casesIn (.refl α) store rows)
    ∃ root tape, ∀ epoch, ev.recordEpoch store rows epoch =
      if Scalar.isFinite loss then .ok (loss, root, tape)
      else .error (.nonFinite epoch none .forward loss) := by
  obtain ⟨⟨losses, tape⟩, hlosses⟩ := recordLosses_of_none hp hx .empty
  obtain ⟨root, tape', hmean, hvalue⟩ := mean_of_recordLosses (hlosses 0 0)
  refine ⟨root, tape', fun epoch => ?_⟩
  rw [recordEpoch, hlosses]
  simp only [bind, Except.bind, hmean, hvalue]
  rfl

section Missing

variable {i : Fin ev.graph.size} {handles : Vector (Option Handle) ev.graph.size}

def lacks (ev : Evaluator α) (store : ParameterStore α) (i : Fin ev.graph.size) : Bool :=
  (ev.graph.node i).kind.isTrainable && (store.paramFor? i).isNone

def missing? (ev : Evaluator α) (store : ParameterStore α) : Option (Fin ev.graph.size) :=
  ev.graph.order.find? (ev.lacks store)

omit [Scalar α] in
theorem lacks_eq_false_iff : ev.lacks store i = false ↔
    ((ev.graph.node i).kind.isTrainable → (store.lookUp? i).isSome) := by
  rw [lacks, Bool.and_eq_false_imp, ← store.isNone_lookUp?, Option.isNone_eq_false_iff]

omit [Scalar α] in
theorem missing?_eq_none_iff : ev.missing? store = none ↔ ev.Readable store := by
  rw [missing?, List.find?_eq_none]
  apply forall₂_congr
  intro i _
  rw [Bool.not_eq_true, lacks_eq_false_iff]

theorem recordNode_of_lacks (hi : ev.lacks store i) :
    ev.recordNode store row handles tape i =
      .error (.mismatch (.noParameter (ev.graph.node i).id)) := by
  obtain ⟨ht, hl⟩ := Bool.and_eq_true_iff.1 hi
  rw [← store.isNone_lookUp?, Option.isNone_iff_eq_none] at hl
  have hread : ev.readParameter store tape i =
      .error (.mismatch (.noParameter (ev.graph.node i).id)) := by
    rw [readParameter_eq, hl]
  rw [recordNode]
  cases hk : (ev.graph.node i).kind with
  | bias => exact hread
  | weight =>
    dsimp only
    rw [hread]
    rfl
  | _ =>
    rw [hk] at ht
    cases ht

theorem recordNodes_of_lacks {is : List (Fin ev.graph.size)} (hv : Valid handles tape)
    (hi : is.find? (ev.lacks store) = some i) :
    ev.recordNodes store row is handles tape =
      .error (.mismatch (.noParameter (ev.graph.node i).id)) := by
  induction is generalizing handles tape with
  | nil => cases hi
  | cons j is ih =>
    rw [recordNodes]
    by_cases hj : ev.lacks store j
    · rw [List.find?_cons_of_pos hj] at hi
      cases hi
      rw [recordNode_of_lacks hj]
      rfl
    · rw [List.find?_cons_of_neg hj] at hi
      have hp := lacks_eq_false_iff.1 (Bool.not_eq_true _ ▸ hj)
      obtain ⟨h, tape', hn⟩ := recordNode_ok row hp hv
      obtain ⟨hg, hh, _⟩ := recordNode_inv hn
      rw [hn]
      exact ih ((hv.mono hg.size_le).place j hh) hi

theorem record_of_missing (hi : ev.missing? store = some i) (tape : Tape α) (row : Row α) :
    ev.record store tape row = .error (.mismatch (.noParameter (ev.graph.node i).id)) := by
  rw [record, recordNodes_of_lacks (allKnown_replicate _ _) hi]
  rfl

theorem recordEpoch_of_missing (hi : ev.missing? store = some i) (hrows : rows ≠ [])
    (epoch : Nat) :
    ev.recordEpoch store rows epoch = .error (.mismatch (.noParameter (ev.graph.node i).id)) := by
  obtain ⟨row, rows, rfl⟩ := List.exists_cons_of_ne_nil hrows
  rw [recordEpoch, recordLosses, recordLoss, record_of_missing hi]
  rfl

end Missing

section Exact

variable {K : Type} [ExactScalar K] {ev : Evaluator K} {store : ParameterStore K}
  {rows : List (Row K)}

theorem findNonFinite?_exact (xs : List K) : findNonFinite? xs = none := by
  rw [findNonFinite?, List.find?_eq_none]
  intro x _
  simp [ExactScalar.isFinite_eq]

theorem recordEpoch_ok (epoch : Nat) (rows : List (Row K))
    (hp : rows ≠ [] → ev.Readable store) :
    ∃ loss root tape, ev.recordEpoch store rows epoch = .ok (loss, root, tape) := by
  have hx : ev.firstNonFinite? store rows = none :=
    firstNonFinite?_eq_none_iff.2 fun row _ => findNonFinite?_exact _
  obtain ⟨root, tape, hr⟩ := recordEpoch_of_none hp hx
  exact ⟨_, root, tape, (hr epoch).trans (if_pos (ExactScalar.isFinite_eq _))⟩

/-- In exact arithmetic nothing but a missing parameter stops an epoch. -/
theorem recordEpoch_ok_iff {epoch : Nat} : (∃ r, ev.recordEpoch store rows epoch = .ok r) ↔
    (rows ≠ [] → ev.Readable store) := by
  constructor
  · rintro ⟨r, hr⟩
    exact readable_of_recordEpoch hr
  · intro hp
    obtain ⟨loss, root, tape, hr⟩ := recordEpoch_ok epoch rows hp
    exact ⟨_, hr⟩

end Exact

end Evaluator

end Backprop
