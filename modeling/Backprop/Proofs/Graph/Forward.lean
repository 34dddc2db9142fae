import Backprop.Proofs.Equations

namespace Backprop.Graph

variable {α : Type} {nodes : List (Node α)} {connections connections' : List Connection}
  {order order' : List String} {options : Options} {output : String} {g g' : Graph α}

theorem resolveConnections_eq {n : Nat} {mode : Mode} {index : String → Option (Fin n)}
    {edges : List (Fin n × Fin n)} (h : resolveConnections mode index connections = .ok edges) :
    edges = connections.filterMap fun c =>
      (index c.source).bind fun i => (index c.target).map fun j => (i, j) := by
  induction connections generalizing edges with
  | nil =>
    cases h
    rfl
  | cons c cs ih =>
    rw [resolveConnections] at h
    rw [List.filterMap_cons]
    split at h
    · next i j hi hj =>
      obtain ⟨es, hes, h⟩ := Except.bind_eq_ok_iff.1 h
      cases h
      simp only [hi, hj, Option.bind_some, Option.map_some, ← ih hes]
    · next hdangling =>
      have hnone : ((index c.source).bind fun i => (index c.target).map fun j => (i, j)) = none := by
        cases hi : index c.source with
        | none => rfl
        | some i =>
          cases hj : index c.target with
          | none => rfl
          | some j => exact absurd hj (hdangling i j hi)
      cases mode with
      | lenient =>
        rw [hnone]
        exact ih h
      | strict => cases h

/-- What the resolved connections bring into a node are the sources of those that have its name as
their target. -/
theorem Names.filterMap_edges {n : Nat} {index : String → Option (Fin n)} {name : Fin n → String}
    (h : Names index name) (connections : List Connection) (i : Fin n) :
    ((connections.filterMap fun c =>
        (index c.source).bind fun j => (index c.target).map fun k => (j, k)).filterMap
          fun e => if e.2 = i then some e.1 else none) =
      (connections.filter (·.target = name i)).filterMap fun c => index c.source := by
  rw [List.filterMap_filterMap, List.filterMap_filter]
  apply List.filterMap_congr
  intro c _
  by_cases ht : c.target = name i
  · rw [(h _ i).2 ht.symm, if_pos (decide_eq_true ht)]
    cases index c.source with
    | none => rfl
    | some j => exact if_pos rfl
  · rw [if_neg (by simpa using ht)]
    cases index c.source with
    | none => rfl
    | some j =>
      cases hk : index c.target with
      | none => rfl
      | some k =>
        apply if_neg
        rintro rfl
        exact ht ((h _ _).1 hk).symm

/-- The sources of the connections into a node, in the order of the connections. What is not the id of
a node is no source. -/
def sources (g : Graph α) (connections : List Connection) (i : Fin g.size) : List (Fin g.size) :=
  (connections.filter (·.target = (g.node i).id)).filterMap fun c => g.indexOf? c.source

theorem get_incoming_assemble {n : Nat} (vector : Vector (Node α) n) (edges : List (Fin n × Fin n))
    (is : List (Fin n)) (i : Fin n) :
    (assemble vector connections options edges is).incoming.get i =
      edges.filterMap fun e => if e.2 = i then some e.1 else none :=
  Vector.getElem_ofFn i.isLt

theorem get_incoming (h : build nodes connections order options = .ok g) (i : Fin g.size) :
    g.incoming.get i = g.sources connections i := by
  obtain ⟨hn, edges, is, hes, _, _, rfl⟩ := build_iff.1 h
  apply (get_incoming_assemble _ edges is i).trans
  rw [resolveConnections_eq hes]
  exact (names_number? hn).filterMap_edges connections i

theorem get_hasDeclaredInputs_assemble {n : Nat} (vector : Vector (Node α) n)
    (edges : List (Fin n × Fin n)) (is : List (Fin n)) (i : Fin n) :
    (assemble vector connections options edges is).hasDeclaredInputs.get i =
      connections.any (·.target == (vector.get i).id) :=
  Vector.getElem_map _ i.isLt

theorem get_hasDeclaredInputs (h : build nodes connections order options = .ok g)
    (i : Fin g.size) :
    g.hasDeclaredInputs.get i = true ↔ ∃ c ∈ connections, c.target = (g.node i).id := by
  obtain ⟨_, edges, is, _, _, _, rfl⟩ := build_iff.1 h
  rw [get_hasDeclaredInputs_assemble (vectorOf nodes) edges is i, List.any_eq_true]
  simp only [beq_iff_eq]
  rfl

theorem output_eq (h : build nodes connections order options = .ok g) :
    g.output = g.indexOf? options.output := by
  obtain ⟨_, edges, is, _, _, _, rfl⟩ := build_iff.1 h
  rfl

theorem indexOf?_node (h : build nodes connections order options = .ok g) (i : Fin g.size) :
    g.indexOf? (g.node i).id = some i := by
  obtain ⟨hn, _, _, _, _, _, rfl⟩ := build_iff.1 h
  exact (names_number? hn).index_name i

theorem map_node_trainable (h : build nodes connections order options = .ok g) :
    g.trainable.map g.node = nodes.filter (·.kind.isTrainable) := by
  obtain ⟨_, edges, is, _, _, _, rfl⟩ := build_iff.1 h
  have hnodes : (List.finRange nodes.length).map nodes.get = nodes := List.map_get_finRange nodes
  conv_rhs => rw [← hnodes]
  rw [List.filter_map]
  rfl

theorem forward_assemble {n : Nat} {vector : Vector (Node α) n} {edges : List (Fin n × Fin n)}
    {is : List (Fin n)} (hn : is.Nodup) (hc : checkOrder vector edges is = .ok ()) :
    (assemble vector connections options edges is).Forward := by
  obtain ⟨hall, hlt⟩ := checkOrder_iff.1 hc
  refine ⟨hn, hall, ?_⟩
  intro (i : Fin n) (j : Fin n) hj
  rw [get_incoming_assemble] at hj
  obtain ⟨e, he, hj⟩ := List.mem_filterMap.1 hj
  split at hj
  · next hi =>
    cases hj
    rw [← hi]
    exact (standsBefore_iff (hall _) (hall _)).2 (hlt e he)
  · cases hj

theorem forward_of_build
    (h : build nodes connections order { mode := .strict, output } = .ok g) : g.Forward := by
  obtain ⟨_, edges, is, _, his, hc, rfl⟩ := build_iff.1 h
  exact forward_assemble (resolveOrder_fresh his).1 (hc rfl)

/-- Two strict builds from the same nodes, with the same connections in whatever order. -/
theorem exists_rearrange (hc : connections'.Perm connections)
    (h : build nodes connections order { mode := .strict, output } = .ok g)
    (h' : build nodes connections' order' { mode := .strict, output } = .ok g') :
    ∃ incoming is, g' = g.rearrange incoming is ∧
      (connections' = connections → incoming = g.incoming) ∧
      ∀ i, (incoming.get i).Perm (g.incoming.get i) := by
  obtain ⟨hn, edges, is, hes, _, _, rfl⟩ := build_iff.1 h
  obtain ⟨_, edges', is', hes', _, _, rfl⟩ := build_iff.1 h'
  have hany (node : Node α) : connections'.any (·.target == node.id) =
      connections.any (·.target == node.id) :=
    hc.any_eq
  have hedges : edges'.Perm edges := by
    rw [resolveConnections_eq hes, resolveConnections_eq hes']
    exact hc.filterMap _
  have heq : assemble (vectorOf nodes) connections' { output } edges' is' =
      (assemble (vectorOf nodes) connections { output } edges is).rearrange
        (assemble (vectorOf nodes) connections' { output } edges' is').incoming is' := by
    simp only [assemble, rearrange, hany]
  have hincoming (i : Fin nodes.length) :
      ((assemble (vectorOf nodes) connections' { output } edges' is').incoming.get i).Perm
        ((assemble (vectorOf nodes) connections { output } edges is).incoming.get i) := by
    rw [get_incoming_assemble, get_incoming_assemble]
    exact hedges.filterMap _
  refine ⟨_, is', heq, ?_, hincoming⟩
  rintro rfl
  rw [hes] at hes'
  cases hes'
  rfl

end Backprop.Graph
