import Mathlib
import Backprop.Proofs.Interpreter
import Backprop.Tape.Backward

namespace Backprop.Graph

variable {α : Type}

theorem node?_val (g : Graph α) (i : Fin g.size) : g.node? i = some (g.node i) :=
  Vector.getElem?_eq_getElem i.isLt

theorem nodup_trainable (g : Graph α) : g.trainable.Nodup :=
  (List.nodup_finRange _).filter _

theorem join_getElem?_noteNumbers {nodes : List Nat} {table : Array (Option Nat)} (id node : Nat)
    (hn : nodes.Nodup) (hsize : ∀ n ∈ nodes, n < table.size) :
    (noteNumbers id nodes table)[node]?.join =
      ((nodes.findIdx? (· == node)).map (· + id)).or table[node]?.join := by
  induction nodes generalizing id table with
  | nil => rfl
  | cons n nodes ih =>
    obtain ⟨hnot, hn⟩ := List.nodup_cons.1 hn
    obtain ⟨hlt, hsize⟩ := List.forall_mem_cons.1 hsize
    rw [noteNumbers, ih (id + 1) hn fun n hn => by simpa using hsize n hn,
      List.findIdx?_cons, Array.getElem?_setIfInBounds]
    by_cases he : n = node
    · have hnone : nodes.findIdx? (· == node) = none := by
        rw [List.findIdx?_eq_none_iff]
        exact fun m hm => beq_eq_false_iff_ne.2 fun h => hnot (he.trans h.symm ▸ hm)
      simp [he, hnone, he ▸ hlt]
    · simp [he, Function.comp_def, Nat.add_assoc, Nat.add_comm 1 id]

theorem join_getElem?_numberTable (g : Graph α) (node : Nat) :
    g.numberTable[node]?.join = (g.trainable.map (·.val)).findIdx? (· == node) := by
  have hn : (g.trainable.map (·.val)).Nodup := g.nodup_trainable.map Fin.val_injective
  rw [numberTable, join_getElem?_noteNumbers 0 node hn]
  · have hnone : (Array.replicate g.size (none : Option Nat))[node]?.join = none := by
      rw [Array.getElem?_replicate]
      split <;> rfl
    simp [hnone]
  · simp

end Backprop.Graph

namespace Backprop.ParameterStore

variable {α : Type} {s : ParameterStore α} {g : Graph α} {id : Nat} {p : Parameter α}

/-- The parameters of the store are those of the graph, in the same order, whatever their values and
gradients have become. -/
def Fits (s : ParameterStore α) (g : Graph α) : Prop :=
  s.params.toList.map (·.node) = g.trainable.map (·.val)

theorem ofGraph_fits [Scalar α] (h : ofGraph g = .ok s) : s.Fits g := by
  rw [ofGraph] at h
  split at h
  · cases h
  · cases h
    simp [Fits]

theorem exists_ofGraph [Scalar α] (h : g.trainable ≠ []) : ∃ s, ofGraph g = .ok s := by
  rw [ofGraph]
  split
  · next hnil => exact absurd hnil h
  · exact ⟨_, rfl⟩

theorem trainable_ne_nil [Scalar α] (h : ofGraph g = .ok s) : g.trainable ≠ [] := by
  rw [ofGraph] at h
  split at h
  · cases h
  · next hne => exact hne

theorem getElem?_ofGraph [Scalar α] (h : ofGraph g = .ok s) (id : Nat) :
    s.params[id]? = g.trainable[id]?.map fun i => ⟨i, (g.node i).initial, 0⟩ := by
  rw [ofGraph] at h
  split at h
  · cases h
  · cases h
    rw [List.getElem?_toArray, List.getElem?_map]

theorem mem_ofGraph [Scalar α] (h : ofGraph g = .ok s) (hp : p ∈ s.params) :
    ∃ i : Fin g.size, p = ⟨i, (g.node i).initial, 0⟩ := by
  obtain ⟨id, hid⟩ := Array.getElem?_of_mem hp
  rw [getElem?_ofGraph h] at hid
  obtain ⟨i, _, rfl⟩ := Option.map_eq_some_iff.1 hid
  exact ⟨i, rfl⟩

def initialParams [Scalar α] (g : Graph α) : List (Parameter α) :=
  g.trainable.map fun i => { node := i.val, value := (g.node i).initial, grad := 0 }

theorem ofGraph_eq [Scalar α] (g : Graph α) : ofGraph g = match initialParams g with
    | [] => .error .nothingToTrain
    | ps => .ok ⟨ps.toArray⟩ := by
  rw [ofGraph, initialParams]
  cases g.trainable <;> rfl

/-- Nothing else of the graph is in the store. -/
theorem ofGraph_congr [Scalar α] {g' : Graph α} (h : initialParams g' = initialParams g) :
    ofGraph g' = ofGraph g := by
  rw [ofGraph_eq, ofGraph_eq, h]

def nodes (s : ParameterStore α) : List Nat :=
  s.params.toList.map (·.node)

theorem Fits.of_nodes {s' : ParameterStore α} (h : s.Fits g) (hn : s'.nodes = s.nodes) : s'.Fits g :=
  hn.trans h

theorem size_eq_of_nodes {s' : ParameterStore α} (h : s'.nodes = s.nodes) : s'.size = s.size := by
  simpa [nodes, size] using congrArg List.length h

theorem nodes_modify (s : ParameterStore α) (id : Nat) {f : Parameter α → Parameter α}
    (hf : ∀ p, (f p).node = p.node) :
    (⟨s.params.modify id f⟩ : ParameterStore α).nodes = s.nodes := by
  apply List.ext_getElem?
  intro id'
  simp only [nodes, List.getElem?_map, Array.getElem?_toList, Array.getElem?_modify]
  split
  · rw [Option.map_map, Function.comp_def]
    simp only [hf]
  · rfl

/-- Parameters and the nodes that they stand behind have the same numbers. -/
theorem Fits.getElem? (h : s.Fits g) (id : Nat) :
    s.params[id]?.map (·.node) = g.trainable[id]?.map (·.val) := by
  have hlist := congrArg (fun nodes : List Nat => nodes[id]?) h
  simpa only [List.getElem?_map, Array.getElem?_toList] using hlist

theorem Fits.exists_getElem? (h : s.Fits g) {i : Fin g.size} (hi : g.trainable[id]? = some i) :
    ∃ p : Parameter α, s.params[id]? = some p ∧ p.node = i := by
  have hnode := h.getElem? id
  rw [hi, Option.map_some, Option.map_eq_some_iff] at hnode
  exact hnode

theorem Fits.nodup (h : s.Fits g) : (s.params.toList.map (·.node)).Nodup := by
  rw [h]
  exact g.nodup_trainable.map Fin.val_injective

theorem Fits.exists_node (h : s.Fits g) (hp : s.params[id]? = some p) :
    ∃ i : Fin g.size, (g.node i).kind.isTrainable ∧ p.node = i := by
  have hmem : p.node ∈ g.trainable.map (·.val) := by
    rw [← h]
    exact List.mem_map_of_mem (Array.mem_toList_iff.2 (Array.mem_of_getElem? hp))
  obtain ⟨i, hi, he⟩ := List.mem_map.1 hmem
  exact ⟨i, (List.mem_filter.1 hi).2, he.symm⟩

theorem Fits.exists_node? (h : s.Fits g) (hp : p ∈ s.params) :
    ∃ node, g.node? p.node = some node := by
  obtain ⟨id, hid⟩ := Array.getElem?_of_mem hp
  obtain ⟨i, _, hi⟩ := h.exists_node hid
  rw [hi, g.node?_val]
  exact ⟨_, rfl⟩

theorem Fits.exists_param (h : s.Fits g) {i : Fin g.size} (hi : (g.node i).kind.isTrainable) :
    ∃ (id : Nat) (p : Parameter α), s.params[id]? = some p ∧ p.node = i := by
  have hmem : i.val ∈ s.params.toList.map (·.node) := by
    rw [h]
    exact List.mem_map_of_mem (List.mem_filter.2 ⟨List.mem_finRange i, hi⟩)
  obtain ⟨p, hp, he⟩ := List.mem_map.1 hmem
  obtain ⟨id, hid⟩ := Array.getElem?_of_mem (Array.mem_toList_iff.1 hp)
  exact ⟨id, p, hid, he⟩

theorem Fits.injective (h : s.Fits g) {id' : Nat} {p' : Parameter α} (hp : s.params[id]? = some p)
    (hp' : s.params[id']? = some p') (hn : p.node = p'.node) : id = id' := by
  obtain ⟨hid, rfl⟩ := Array.getElem?_eq_some_iff.1 hp
  obtain ⟨hid', rfl⟩ := Array.getElem?_eq_some_iff.1 hp'
  have hi : id < (s.params.toList.map (·.node)).length := by simpa using hid
  have hj : id' < (s.params.toList.map (·.node)).length := by simpa using hid'
  have hget : (s.params.toList.map (·.node))[id] = (s.params.toList.map (·.node))[id'] := by
    simpa using hn
  exact h.nodup.getElem_inj_iff.1 hget

theorem paramFor?_inv {node : Nat} (h : s.paramFor? node = some id) :
    ∃ p, s.params[id]? = some p ∧ p.node = node := by
  obtain ⟨hid, hn, _⟩ := Array.findIdx?_eq_some_iff_getElem.1 h
  exact ⟨_, Array.getElem?_eq_getElem hid, beq_iff_eq.1 hn⟩

theorem paramFor?_eq (s : ParameterStore α) (node : Nat) :
    s.paramFor? node = s.nodes.findIdx? (· == node) := by
  obtain ⟨⟨params⟩⟩ := s
  rw [nodes, List.findIdx?_map]
  exact List.findIdx?_toArray ..

/-- A search comes to what was noted when the parameters were made. -/
theorem Fits.paramFor?_eq_numberTable (h : s.Fits g) (node : Nat) :
    s.paramFor? node = g.numberTable[node]?.join := by
  rw [g.join_getElem?_numberTable, paramFor?_eq]
  exact congrArg (List.findIdx? (· == node)) h

theorem Fits.paramFor? (h : s.Fits g) (hp : s.params[id]? = some p) :
    s.paramFor? p.node = some id := by
  cases hk : s.paramFor? p.node with
  | none => simpa using Array.findIdx?_eq_none_iff.1 hk p (Array.mem_of_getElem? hp)
  | some k =>
    obtain ⟨p', hp', hn⟩ := paramFor?_inv hk
    rw [h.injective hp' hp hn]

theorem lookUp?_inv {node : Nat} {x : α} (h : s.lookUp? node = some (id, x)) :
    ∃ p, s.params[id]? = some p ∧ p.node = node ∧ p.value = x := by
  obtain ⟨k, hk, hm⟩ := Option.bind_eq_some_iff.1 h
  obtain ⟨p, hp, he⟩ := Option.map_eq_some_iff.1 hm
  cases he
  obtain ⟨p', hp', hn⟩ := paramFor?_inv hk
  rw [hp] at hp'
  cases hp'
  exact ⟨p, hp, hn, rfl⟩

theorem Fits.lookUp? (h : s.Fits g) (hp : s.params[id]? = some p) :
    s.lookUp? p.node = some (id, p.value) := by
  rw [ParameterStore.lookUp?, h.paramFor? hp, Option.bind_some, hp, Option.map_some]

theorem Fits.lookUp?_eq_some_iff (h : s.Fits g) {node : Nat} {r : Nat × α} :
    s.lookUp? node = some r ↔
      ∃ p : Parameter α, s.params[r.1]? = some p ∧ p.node = node ∧ p.value = r.2 := by
  refine ⟨lookUp?_inv, ?_⟩
  rintro ⟨p, hp, rfl, hv⟩
  rw [h.lookUp? hp, hv]

theorem Fits.lookUp?_eq_none (h : s.Fits g) {i : Fin g.size}
    (hi : ¬(g.node i).kind.isTrainable) : s.lookUp? i = none := by
  cases hl : s.lookUp? i with
  | none => rfl
  | some r =>
    obtain ⟨p, hp, hn, _⟩ := lookUp?_inv hl
    obtain ⟨j, hj, he⟩ := h.exists_node hp
    have hij : i = j := Fin.ext (hn.symm.trans he)
    exact absurd (hij ▸ hj) hi

theorem Fits.isSome_lookUp? (hs : s.Fits g) {i : Fin g.size} (hi : (g.node i).kind.isTrainable) :
    (s.lookUp? i).isSome := by
  obtain ⟨id, p, hp, hn⟩ := hs.exists_param hi
  rw [← hn, hs.lookUp? hp]
  rfl

theorem Fits.valueOf_eq [Zero α] (h : s.Fits g) (hp : p ∈ s.params) :
    s.valueOf p.node = p.value := by
  obtain ⟨id, hid⟩ := Array.getElem?_of_mem hp
  rw [valueOf, h.lookUp? hid]
  rfl

theorem Fits.exists_valueOf [Zero α] (h : s.Fits g) {i : Fin g.size}
    (hi : (g.node i).kind.isTrainable) :
    ∃ p ∈ s.params, p.node = i ∧ s.valueOf i = p.value := by
  obtain ⟨id, p, hid, hn⟩ := h.exists_param hi
  have hp := Array.mem_of_getElem? hid
  have hv := h.valueOf_eq hp
  rw [hn] at hv
  exact ⟨p, hp, hn, hv⟩

def named (s : ParameterStore α) (g : Graph α) : List (Option String × α) :=
  s.params.toList.map fun p => ((g.node? p.node).map (·.id), p.value)

theorem Fits.named_eq [Zero α] (h : s.Fits g) :
    s.named g = g.trainable.map fun i => (some (g.node i).id, s.valueOf i) := by
  apply List.ext_getElem?
  intro id
  have hnode := h.getElem? id
  rw [named, List.getElem?_map, List.getElem?_map, Array.getElem?_toList]
  cases hp : s.params[id]? with
  | none =>
    rw [hp, Option.map_none, eq_comm, Option.map_eq_none_iff] at hnode
    rw [hnode, Option.map_none, Option.map_none]
  | some p =>
    rw [hp, Option.map_some, eq_comm, Option.map_eq_some_iff] at hnode
    obtain ⟨i, hi, hn⟩ := hnode
    have hid : g.node? p.node = some (g.node i) := by
      rw [← hn, Graph.node?_val]
    have hvalue := h.valueOf_eq (Array.mem_of_getElem? hp)
    rw [hi, Option.map_some, Option.map_some, hid, hn, hvalue]
    rfl

def put (s : ParameterStore α) (id : Nat) (x : α) : ParameterStore α :=
  ⟨s.params.modify id ({ · with value := x })⟩

theorem setValue_eq (hp : s.params[id]? = some p) (x : α) : s.setValue id x = .ok (s.put id x) :=
  if_pos (Array.getElem?_eq_some_iff.1 hp).1

theorem getElem?_put (s : ParameterStore α) (id id' : Nat) (x : α) :
    (s.put id x).params[id']? =
      if id = id' then s.params[id']?.map ({ · with value := x }) else s.params[id']? :=
  Array.getElem?_modify

theorem getElem?_put_self (hp : s.params[id]? = some p) (x : α) :
    (s.put id x).params[id]? = some { p with value := x } := by
  rw [getElem?_put, if_pos rfl, hp, Option.map_some]

theorem put_put (s : ParameterStore α) (id : Nat) (x y : α) :
    (s.put id x).put id y = s.put id y := by
  apply congrArg ParameterStore.mk
  apply Array.ext_getElem?
  intro id'
  change ((s.put id x).put id y).params[id']? = (s.put id y).params[id']?
  simp only [getElem?_put]
  split
  · rw [Option.map_map]
    rfl
  · rfl

theorem put_value (hp : s.params[id]? = some p) : s.put id p.value = s := by
  apply congrArg ParameterStore.mk
  apply Array.ext_getElem?
  intro id'
  change (s.put id p.value).params[id']? = s.params[id']?
  rw [getElem?_put]
  split
  · next he => rw [← he, hp, Option.map_some]
  · rfl

theorem setValue_put (hp : s.params[id]? = some p) (x : α) :
    (s.put id x).setValue id p.value = .ok s := by
  rw [setValue_eq (getElem?_put_self hp x), put_put, put_value hp]

theorem Fits.put (h : s.Fits g) (id : Nat) (x : α) : (s.put id x).Fits g :=
  h.of_nodes (nodes_modify s id fun _ => rfl)

theorem Fits.valueOf_put [Zero α] (h : s.Fits g) (hp : s.params[id]? = some p) (x : α)
    (node : Nat) : (s.put id x).valueOf node = if node = p.node then x else s.valueOf node := by
  have hput := h.put id x
  have hother {id' : Nat} {p' : Parameter α} (hn : p'.node ≠ p.node) :
      (s.put id x).params[id']? = some p' ↔ s.params[id']? = some p' := by
    rw [getElem?_put]
    split
    · next he =>
      rw [← he, hp, Option.map_some]
      refine iff_of_false (fun hs => hn ?_) fun hs => hn ?_
      · rw [← Option.some.inj hs]
      · rw [← Option.some.inj hs]
    · rfl
  by_cases hn : node = p.node
  · rw [if_pos hn, valueOf, hn, hput.lookUp? (getElem?_put_self hp x)]
    rfl
  · have hl : (s.put id x).lookUp? node = s.lookUp? node := by
      apply Option.ext
      intro r
      rw [hput.lookUp?_eq_some_iff, h.lookUp?_eq_some_iff]
      apply exists_congr
      intro p'
      constructor
      · rintro ⟨hs, rfl, hv⟩
        exact ⟨(hother hn).1 hs, rfl, hv⟩
      · rintro ⟨hs, rfl, hv⟩
        exact ⟨(hother hn).2 hs, rfl, hv⟩
    rw [if_neg hn, valueOf, hl, valueOf]

def withGrads (s : ParameterStore α) (grad : Nat → α) : ParameterStore α :=
  ⟨s.params.mapIdx fun id p => { p with grad := grad id }⟩

theorem getElem?_withGrads (s : ParameterStore α) (grad : Nat → α) (id : Nat) :
    (s.withGrads grad).params[id]? = s.params[id]?.map ({ · with grad := grad id }) :=
  Array.getElem?_mapIdx

theorem size_withGrads (s : ParameterStore α) (grad : Nat → α) :
    (s.withGrads grad).size = s.size :=
  Array.size_mapIdx

theorem map_withGrads {β : Type} (s : ParameterStore α) (grad : Nat → α) {f : Parameter α → β}
    (hf : ∀ p x, f { p with grad := x } = f p) :
    (s.withGrads grad).params.toList.map f = s.params.toList.map f := by
  apply List.ext_getElem?
  intro id
  rw [List.getElem?_map, List.getElem?_map, Array.getElem?_toList, Array.getElem?_toList,
    getElem?_withGrads, Option.map_map, Function.comp_def]
  simp only [hf]

theorem nodes_withGrads (s : ParameterStore α) (grad : Nat → α) :
    (s.withGrads grad).nodes = s.nodes :=
  s.map_withGrads grad fun _ _ => rfl

theorem values_withGrads (s : ParameterStore α) (grad : Nat → α) :
    (s.withGrads grad).values = s.values :=
  s.map_withGrads grad fun _ _ => rfl

theorem grads_withGrads (s : ParameterStore α) (grad : Nat → α) :
    (s.withGrads grad).grads = (List.range s.size).map grad := by
  apply List.ext_getElem?
  intro id
  rw [grads, List.getElem?_map, Array.getElem?_toList, getElem?_withGrads, Option.map_map,
    List.getElem?_map]
  by_cases hid : id < s.size
  · rw [List.getElem?_range hid, Array.getElem?_eq_getElem hid]
    rfl
  · rw [Array.getElem?_eq_none (Nat.le_of_not_lt hid), List.getElem?_eq_none]
    · rfl
    · rw [List.length_range]
      exact Nat.le_of_not_lt hid

theorem eq_withGrads {s' : ParameterStore α} {grad : Nat → α} (hsize : s'.size = s.size)
    (hs : ∀ (id : Nat) (p : Parameter α), s.params[id]? = some p →
      s'.params[id]? = some { p with grad := grad id }) : s' = s.withGrads grad := by
  apply congrArg ParameterStore.mk
  apply Array.ext_getElem?
  intro id
  cases hp : s.params[id]? with
  | some p => rw [hs id p hp, Array.getElem?_mapIdx, hp, Option.map_some]
  | none =>
    rw [Array.getElem?_mapIdx, hp, Option.map_none, Array.getElem?_eq_none_iff]
    exact hsize.le.trans (Array.getElem?_eq_none_iff.1 hp)

variable [Scalar α]

theorem getElem?_zeroGrad (hp : s.params[id]? = some p) :
    s.zeroGrad.params[id]? = some { p with grad := 0 } := by
  simp [zeroGrad, hp]

theorem nodes_zeroGrad (s : ParameterStore α) : s.zeroGrad.nodes = s.nodes := by
  simp [nodes, zeroGrad]

theorem eq_zero_of_mem_grads_zeroGrad {x : α} (hx : x ∈ s.zeroGrad.grads) :
    x = 0 := by
  simp only [grads, zeroGrad, Array.toList_map, List.map_map, List.mem_map] at hx
  obtain ⟨_, _, hx⟩ := hx
  exact hx.symm

theorem nodes_descend (s : ParameterStore α) (rate : α) : (s.descend rate).nodes = s.nodes := by
  simp [nodes, descend]

/-- Each gradient takes up what is meant for it, in turn. -/
theorem addGrads_ok {items : List (Nat × α)} (h : ∀ item ∈ items, item.1 < s.size) :
    ∃ after, s.addGrads items = (.ok (), after) ∧ after.size = s.size ∧
      ∀ (id : Nat) (p : Parameter α), s.params[id]? = some p → after.params[id]? = some { p with
        grad := ((items.filter (·.1 = id)).map (·.2)).foldl (· + ·) p.grad } := by
  induction items generalizing s with
  | nil => exact ⟨s, rfl, rfl, fun _ _ hp => hp⟩
  | cons item items ih =>
    obtain ⟨hi, his⟩ := List.forall_mem_cons.1 h
    let next : ParameterStore α :=
      ⟨s.params.modify item.1 fun p => { p with grad := p.grad + item.2 }⟩
    have hadd : s.addGrad item.1 item.2 = .ok next := if_pos hi
    have hsize : next.size = s.size := Array.size_modify
    obtain ⟨after, ha, hz, hps⟩ := ih (s := next) fun item hm => hsize ▸ his item hm
    refine ⟨after, ?_, hz.trans hsize, fun id p hp => ?_⟩
    · rw [addGrads, hadd]
      exact ha
    · by_cases hid : item.1 = id
      · have hn : next.params[id]? = some { p with grad := p.grad + item.2 } := by
          rw [Array.getElem?_modify, if_pos hid, hp, Option.map_some]
        rw [hps id _ hn, List.filter_cons_of_pos (by simpa using hid)]
        rfl
      · have hn : next.params[id]? = some p := by
          rw [Array.getElem?_modify, if_neg hid, hp]
        rw [hps id p hn, List.filter_cons_of_neg (by simpa using hid)]

end Backprop.ParameterStore
