import Backprop.Proofs.Training.Ends

namespace Backprop

variable {α : Type}

namespace Graph

def Owns (g : Graph α) (node : Nat) : Prop :=
  ∃ n, g.node? node = some n ∧ (n.kind = .weight ∨ n.kind = .bias)

theorem owns_iff {g : Graph α} {i : Fin g.size} : g.Owns i ↔ i ∈ g.trainable := by
  simp only [Owns, g.node?_val, Option.some.injEq, exists_eq_left']
  rw [trainable, List.mem_filter, and_iff_right (List.mem_finRange i)]
  cases (g.node i).kind <;> decide

theorem pairwise_trainable (g : Graph α) : g.trainable.Pairwise (· < ·) :=
  (List.pairwise_lt_finRange g.size).filter _

/-- In an ascending list the place of an element is how many are less. -/
theorem countP_lt_of_getElem? {n id : Nat} {i : Fin n} {is : List (Fin n)}
    (hp : is.Pairwise (· < ·)) (hi : is[id]? = some i) : is.countP (· < i) = id := by
  induction is generalizing id with
  | nil => cases hi
  | cons j is ih =>
    obtain ⟨hj, his⟩ := List.pairwise_cons.1 hp
    cases id with
    | zero =>
      cases hi
      rw [List.countP_eq_zero]
      simpa using fun k hk => (hj k hk).le
    | succ id =>
      have hlt : j < i := hj i (List.mem_of_getElem? hi)
      rw [List.countP_cons_of_pos (by simpa using hlt), ih his hi]

end Graph

inductive Edit (α : Type)
  | setValue (x : α)
  | addGrad (x : α)
  | clearGrad

/-- What may be done to a store. Whole lists of gradients are added up to the first one whose parameter
is not in the store. -/
inductive Change (α : Type)
  | edit (id : Nat) (e : Edit α)
  | descend (rate : α)
  | zeroGrad
  | addGrads (items : List (Nat × α))
  | accumulate (ev : Evaluator α) (rows : List (Row α)) (epoch : Nat)

section Made

variable [Scalar α]

def Edit.apply (p : Parameter α) : Edit α → Parameter α
  | .setValue x => { p with value := x }
  | .addGrad x => { p with grad := p.grad + x }
  | .clearGrad => { p with grad := 0 }

def Change.Makes (c : Change α) (id : Nat) (p p' : Parameter α) : Prop :=
  match c with
  | .edit target e => p' = if id = target then e.apply p else p
  | .descend rate => p' = { p with value := p.value - rate * p.grad }
  | .zeroGrad => p' = { p with grad := 0 }
  | .addGrads _ | .accumulate .. => ∃ x, p' = { p with grad := x }

theorem Edit.node_apply (e : Edit α) (p : Parameter α) : (e.apply p).node = p.node := by
  cases e <;> rfl

theorem Change.Makes.node {c : Change α} {id : Nat} {p p' : Parameter α} (h : c.Makes id p p') :
    p'.node = p.node := by
  cases c with
  | edit target e =>
    cases h
    split
    · exact e.node_apply p
    · rfl
  | descend | zeroGrad =>
    cases h
    rfl
  | addGrads | accumulate =>
    obtain ⟨x, rfl⟩ := h
    rfl

end Made

namespace ParameterStore

section Numbers

variable {s : ParameterStore α} {g : Graph α}

/-- The parameters of a store and the nodes of a graph that own one belong together one to one, and
parameters are numbered as these nodes are declared. -/
structure Numbers (s : ParameterStore α) (g : Graph α) : Prop where
  size : s.size = g.trainable.length
  beyond : ∀ id, s.size ≤ id → s.get id = .error (.outOfBounds id s.size)
  paramFor?_iff : ∀ node id, s.paramFor? node = some id ↔
    g.Owns node ∧ ∃ p, s.get id = .ok p ∧ p.node = node
  inverse : ∀ id p, s.get id = .ok p → s.paramFor? p.node = some id
  /-- A node has as many parameters before its own as there are nodes before it that own one. -/
  consecutive : ∀ i : Fin g.size, g.Owns i → s.paramFor? i = some (g.trainable.countP (· < i))
  table : ∀ node, s.paramFor? node = g.numberTable[node]?.join

theorem get_eq_ok_iff {id : Nat} {p : Parameter α} : s.get id = .ok p ↔ s.params[id]? = some p := by
  rw [get]
  cases s.params[id]? <;> simp

theorem Fits.numbers (h : s.Fits g) : s.Numbers g where
  size := by
    have hlength := congrArg List.length h
    simpa [ParameterStore.size] using hlength
  beyond id hid := by
    rw [get, Array.getElem?_eq_none hid]
  paramFor?_iff node id := by
    simp only [get_eq_ok_iff]
    constructor
    · intro hk
      obtain ⟨p, hp, rfl⟩ := paramFor?_inv hk
      obtain ⟨i, hi, hn⟩ := h.exists_node hp
      have howns : g.Owns i := Graph.owns_iff.2 (List.mem_filter.2 ⟨List.mem_finRange i, hi⟩)
      exact ⟨hn ▸ howns, p, hp, rfl⟩
    · rintro ⟨_, p, hp, rfl⟩
      exact h.paramFor? hp
  inverse id p hp := h.paramFor? (get_eq_ok_iff.1 hp)
  consecutive i hi := by
    obtain ⟨id, hid⟩ := List.getElem?_of_mem (Graph.owns_iff.1 hi)
    obtain ⟨p, hp, hn⟩ := h.exists_getElem? hid
    rw [Graph.countP_lt_of_getElem? g.pairwise_trainable hid, ← hn, h.paramFor? hp]
  table := h.paramFor?_eq_numberTable

end Numbers

/-- The second store has the parameters of the first, and each is related to what it was. -/
structure Pointwise (R : Nat → Parameter α → Parameter α → Prop) (s s' : ParameterStore α) :
    Prop where
  size : s'.size = s.size
  params : ∀ (id : Nat) (p : Parameter α), s.params[id]? = some p →
    ∃ p', s'.params[id]? = some p' ∧ R id p p'

def Regrades : ParameterStore α → ParameterStore α → Prop :=
  Pointwise fun _ p p' => ∃ x, p' = { p with grad := x }

section Pointwise

variable {R : Nat → Parameter α → Parameter α → Prop} {s s' : ParameterStore α}

theorem Pointwise.nodes (h : Pointwise R s s') (hR : ∀ id p p', R id p p' → p'.node = p.node) :
    s'.nodes = s.nodes := by
  apply List.ext_getElem?
  intro id
  simp only [ParameterStore.nodes, List.getElem?_map, Array.getElem?_toList]
  cases hp : s.params[id]? with
  | none =>
    have hsize : s'.size ≤ id := h.size.le.trans (Array.getElem?_eq_none_iff.1 hp)
    rw [Array.getElem?_eq_none hsize]
  | some p =>
    obtain ⟨p', hp', hr⟩ := h.params id p hp
    rw [hp', Option.map_some, Option.map_some, hR id p p' hr]

theorem pointwise_modify (s : ParameterStore α) (target : Nat) (f : Parameter α → Parameter α) :
    Pointwise (fun id p p' => p' = if id = target then f p else p) s
      ⟨s.params.modify target f⟩ := by
  refine ⟨Array.size_modify, fun id p hp => ⟨_, ?_, rfl⟩⟩
  rw [Array.getElem?_modify, hp]
  by_cases h : target = id
  · rw [if_pos h, if_pos h.symm, Option.map_some]
  · rw [if_neg h, if_neg (Ne.symm h)]

theorem regrades_refl (s : ParameterStore α) : s.Regrades s :=
  ⟨rfl, fun _ p hp => ⟨p, hp, p.grad, rfl⟩⟩

theorem Regrades.trans {s'' : ParameterStore α} (h : s.Regrades s') (h' : s'.Regrades s'') :
    s.Regrades s'' := by
  refine ⟨h'.size.trans h.size, fun id p hp => ?_⟩
  obtain ⟨p', hp', x, rfl⟩ := h.params id p hp
  obtain ⟨p'', hp'', y, rfl⟩ := h'.params id _ hp'
  exact ⟨_, hp'', y, rfl⟩

theorem regrades_modify (s : ParameterStore α) (target : Nat) {f : Parameter α → Parameter α}
    (hf : ∀ p, ∃ x, f p = { p with grad := x }) : s.Regrades ⟨s.params.modify target f⟩ := by
  obtain ⟨hsize, hparams⟩ := s.pointwise_modify target f
  refine ⟨hsize, fun id p hp => ?_⟩
  obtain ⟨_, hp', rfl⟩ := hparams id p hp
  refine ⟨_, hp', ?_⟩
  split
  · exact hf p
  · exact ⟨p.grad, rfl⟩

theorem regrades_withGrads (s : ParameterStore α) (grad : Nat → α) :
    s.Regrades (s.withGrads grad) := by
  refine ⟨s.size_withGrads grad, fun id p hp => ⟨_, ?_, grad id, rfl⟩⟩
  rw [getElem?_withGrads, hp, Option.map_some]

end Pointwise

variable [Scalar α] {s : ParameterStore α} {g : Graph α}

theorem regrades_addGrads (s : ParameterStore α) (items : List (Nat × α)) :
    s.Regrades (s.addGrads items).2 := by
  induction items generalizing s with
  | nil => exact s.regrades_refl
  | cons item items ih =>
    rw [addGrads, addGrad, modify]
    by_cases hid : item.1 < s.size
    · rw [if_pos hid]
      exact (s.regrades_modify item.1 fun p => ⟨_, rfl⟩).trans (ih _)
    · rw [if_neg hid]
      exact s.regrades_refl

theorem regrades_of_ends {ev : Evaluator α} {rows : List (Row α)} {epoch : Nat}
    {result : Except (Failure α) α} {after : ParameterStore α}
    (h : ev.Ends s rows epoch result after) : s.Regrades after := by
  cases h with
  | gradient | ok => exact s.regrades_withGrads _
  | _ => exact s.regrades_refl

def edit (s : ParameterStore α) (id : Nat) : Edit α → Except (Failure α) (ParameterStore α)
  | .setValue x => s.setValue id x
  | .addGrad x => s.addGrad id x
  | .clearGrad => s.clearGrad id

def change (s : ParameterStore α) : Change α → Except (Failure α) Unit × ParameterStore α
  | .edit id e =>
    match s.edit id e with
    | .ok after => (.ok (), after)
    | .error failure => (.error failure, s)
  | .descend rate => (.ok (), s.descend rate)
  | .zeroGrad => (.ok (), s.zeroGrad)
  | .addGrads items => s.addGrads items
  | .accumulate ev rows epoch =>
    let (result, after) := ev.accumulateGradients s rows epoch
    (result.map fun _ => (), after)

def afterChanges (s : ParameterStore α) (changes : List (Change α)) : ParameterStore α :=
  changes.foldl (fun s c => (s.change c).2) s

theorem edit_eq_modify (s : ParameterStore α) (id : Nat) (e : Edit α) :
    s.edit id e = s.modify id fun p => e.apply p := by
  cases e <;> rfl

theorem change_edit_of_lt {id : Nat} (h : id < s.size) (e : Edit α) :
    s.change (.edit id e) = (.ok (), ⟨s.params.modify id fun p => e.apply p⟩) := by
  rw [change, edit_eq_modify, modify, if_pos h]

theorem change_edit_of_le {id : Nat} (h : s.size ≤ id) (e : Edit α) :
    s.change (.edit id e) = (.error (.outOfBounds id s.size), s) := by
  rw [change, edit_eq_modify, modify, if_neg (Nat.not_lt_of_le h)]

theorem pointwise_change (s : ParameterStore α) (c : Change α) :
    Pointwise c.Makes s (s.change c).2 := by
  cases c with
  | edit target e =>
    by_cases h : target < s.size
    · rw [change_edit_of_lt h]
      exact s.pointwise_modify target fun p => e.apply p
    · rw [change_edit_of_le (Nat.le_of_not_lt h)]
      refine ⟨rfl, fun id p hp => ⟨p, hp, (if_neg ?_).symm⟩⟩
      rintro rfl
      exact h (Array.getElem?_eq_some_iff.1 hp).1
  | descend rate =>
    refine ⟨Array.size_map, fun id p hp => ⟨_, ?_, rfl⟩⟩
    simp [change, ParameterStore.descend, hp]
  | zeroGrad => exact ⟨Array.size_map, fun id p hp => ⟨_, getElem?_zeroGrad hp, rfl⟩⟩
  | addGrads items => exact s.regrades_addGrads items
  | accumulate ev rows epoch => exact regrades_of_ends (ev.accumulateGradients_ends s rows epoch)

theorem nodes_change (s : ParameterStore α) (c : Change α) : (s.change c).2.nodes = s.nodes :=
  (s.pointwise_change c).nodes fun _ _ _ => Change.Makes.node

theorem nodes_afterChanges (s : ParameterStore α) (changes : List (Change α)) :
    (s.afterChanges changes).nodes = s.nodes := by
  induction changes generalizing s with
  | nil => rfl
  | cons c changes ih => exact (ih (s.change c).2).trans (s.nodes_change c)

/-- Whatever is done to a store that was made for a graph, in any order and with any failures on the
way, every parameter stays with its node. An edit changes its own parameter only, an update values
only, each by its own gradient, and what clears or adds up gradients changes gradients only. An edit
of a parameter that is not there fails and changes nothing. -/
theorem numbers_afterChanges {made : ParameterStore α} (h : ofGraph g = .ok made)
    (changes : List (Change α)) :
    let s := made.afterChanges changes
    s.Numbers g ∧ (∀ c, Pointwise c.Makes s (s.change c).2) ∧
      (∀ id e, s.size ≤ id → s.change (.edit id e) = (.error (.outOfBounds id s.size), s)) ∧
      (∀ id e, id < s.size → (s.change (.edit id e)).1 = .ok ()) ∧
      (∀ rate, (s.change (.descend rate)).1 = .ok ()) ∧ (s.change .zeroGrad).1 = .ok () := by
  intro s
  have hs : s.Fits g := (ofGraph_fits h).of_nodes (made.nodes_afterChanges changes)
  exact ⟨hs.numbers, s.pointwise_change, fun _ e hid => change_edit_of_le hid e,
    fun _ e hid => congrArg Prod.fst (change_edit_of_lt hid e), fun _ => rfl, rfl⟩

/-- A weight and a bias around an input, and changes of which three fail: an edit of a third parameter,
an epoch of a graph with a parameter of its own, and gradients of which the second belongs nowhere. -/
theorem numbers_afterChanges_failures :
    let g : Graph ℚ := {
      size := 4
      nodes := #v[⟨"w", .weight, none, .linear, 3⟩, ⟨"x", .input, some "x", .linear, 0⟩,
        ⟨"b", .bias, none, .linear, 1⟩, ⟨"output", .output, none, .linear, 0⟩]
      order := [1, 0, 2, 3]
      incoming := #v[[1], [], [], [0, 2]]
      hasDeclaredInputs := #v[true, false, false, true]
      output := some 3
      mode := .strict }
    let other : Graph ℚ := {
      size := 2
      nodes := #v[⟨"x", .input, some "x", .linear, 0⟩, ⟨"b", .bias, none, .linear, 1⟩]
      order := [0, 1]
      incoming := #v[[], []]
      hasDeclaredInputs := #v[false, false]
      output := some 1
      mode := .strict }
    let made : ParameterStore ℚ := ⟨#[⟨0, 3, 0⟩, ⟨2, 1, 0⟩]⟩
    let rows : List (Row ℚ) := [⟨[2], 4⟩]
    let s := made.afterChanges [.edit 2 (.setValue 5), .accumulate (.new g ["x"]) rows 0,
      .descend (1 / 2), .accumulate (.new other ["x"]) rows 1, .addGrads [(1, 7), (6, 8), (0, 9)]]
    ofGraph g = .ok made ∧ s.paramFor? 0 = some 0 ∧ s.paramFor? 1 = none ∧ s.paramFor? 2 = some 1 ∧
      s.change (.edit 2 .clearGrad) = (.error (.outOfBounds 2 2), s) := by
  intro g other made rows s
  have h : ofGraph g = .ok made := rfl
  obtain ⟨hs, _, hbeyond, _⟩ := numbers_afterChanges h [.edit 2 (.setValue 5),
    .accumulate (.new g ["x"]) rows 0, .descend (1 / 2), .accumulate (.new other ["x"]) rows 1,
    .addGrads [(1, 7), (6, 8), (0, 9)]]
  have hw : g.Owns (0 : Fin 4) := ⟨_, rfl, .inl rfl⟩
  have hb : g.Owns (2 : Fin 4) := ⟨_, rfl, .inr rfl⟩
  have hx : ¬g.Owns (1 : Fin 4) := by
    rw [Graph.owns_iff]
    decide
  have hcount : g.trainable.length = 2 ∧ g.trainable.countP (· < (0 : Fin 4)) = 0 ∧
      g.trainable.countP (· < (2 : Fin 4)) = 1 := by decide
  obtain ⟨hlength, hfirst, hsecond⟩ := hcount
  refine ⟨h, ?_, ?_, ?_, ?_⟩
  · rw [← hfirst]
    exact hs.consecutive (0 : Fin 4) hw
  · rw [Option.eq_none_iff_forall_ne_some]
    exact fun id hid => hx ((hs.paramFor?_iff 1 id).1 hid).1
  · rw [← hsecond]
    exact hs.consecutive (2 : Fin 4) hb
  · have hsize := hs.size
    rw [hlength] at hsize
    have hfails := hbeyond 2 .clearGrad hsize.le
    rw [hsize] at hfails
    exact hfails

end ParameterStore

end Backprop
