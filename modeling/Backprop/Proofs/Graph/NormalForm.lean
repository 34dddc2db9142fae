import Backprop.Proofs.Graph.Defects
import Backprop.Proofs.Graph.Forward

namespace Backprop.Graph

variable {α : Type} {n : Nat} {nodes : List (Node α)} {connections : List Connection}
  {order : List String} {options : Options} {g g' : Graph α}

/-- The nodes are those that were declared. Names in the order and at the ends of connections become
numbers; the order keeps the first mention of each node, and a connection is kept if both of its ends
are nodes, though one that is dropped still counts as declared. -/
structure NormalForm (nodes : List (Node α)) (connections : List Connection) (order : List String)
    (options : Options) (g : Graph α) : Prop where
  nodes : g.nodes.toList = nodes
  mode : g.mode = options.mode
  index : ∀ id i, g.indexOf? id = some i ↔ (g.node i).id = id
  order : g.order = (order.filterMap g.indexOf?).eraseDups
  nodup : g.order.Nodup
  incoming : ∀ t, g.incoming.get t =
    (connections.filter (·.target = (g.node t).id)).filterMap fun c => g.indexOf? c.source
  declared : ∀ t, g.hasDeclaredInputs.get t ↔ ∃ c ∈ connections, c.target = (g.node t).id
  declared_strict : options.mode = .strict →
    ∀ t, g.hasDeclaredInputs.get t ↔ g.incoming.get t ≠ []
  output : g.output = g.indexOf? options.output

section Phases

variable {mode : Mode} {index : String → Option (Fin n)} {seen is : List (Fin n)}

theorem exists_resolveConnections_lenient (index : String → Option (Fin n))
    (connections : List Connection) :
    ∃ edges, resolveConnections .lenient index connections = .ok edges := by
  induction connections with
  | nil => exact ⟨[], rfl⟩
  | cons c cs ih =>
    obtain ⟨edges, hedges⟩ := ih
    rw [resolveConnections]
    split
    · next i j _ _ =>
      rw [hedges]
      exact ⟨(i, j) :: edges, rfl⟩
    · exact ⟨edges, hedges⟩

theorem exists_resolveOrder_lenient (index : String → Option (Fin n)) (seen : List (Fin n))
    (order : List String) : ∃ is, resolveOrder .lenient index seen order = .ok is := by
  induction order generalizing seen with
  | nil => exact ⟨[], rfl⟩
  | cons id ids ih =>
    cases hi : index id with
    | none =>
      simp only [resolveOrder, hi]
      exact ih seen
    | some i =>
      by_cases hs : i ∈ seen
      · simp only [resolveOrder, hi, if_pos hs]
        exact ih seen
      · obtain ⟨is, his⟩ := ih (i :: seen)
        rw [resolveOrder_of_fresh _ hi hs, his]
        exact ⟨i :: is, rfl⟩

theorem resolveOrder_eq (h : resolveOrder mode index seen order = .ok is) :
    is = ((order.filterMap index).filter (· ∉ seen)).eraseDups := by
  induction order generalizing seen is with
  | nil =>
    cases h
    rfl
  | cons id ids ih =>
    cases hi : index id with
    | none =>
      rw [List.filterMap_cons_none hi]
      cases mode with
      | lenient =>
        simp only [resolveOrder, hi] at h
        exact ih h
      | strict => simp [resolveOrder, hi] at h
    | some i =>
      rw [List.filterMap_cons_some hi]
      by_cases hs : i ∈ seen
      · rw [List.filter_cons_of_neg (by simpa using hs)]
        cases mode with
        | lenient =>
          simp only [resolveOrder, hi, if_pos hs] at h
          exact ih h
        | strict => simp [resolveOrder, hi, hs] at h
      · rw [resolveOrder_of_fresh _ hi hs, Except.map_eq_ok_iff] at h
        obtain ⟨js, hjs, rfl⟩ := h
        have hseen : (fun j => decide (j ∉ i :: seen)) =
            fun j => (!j == i) && decide (j ∉ seen) := by
          funext j
          rw [Bool.eq_iff_iff]
          simp
        rw [List.filter_cons_of_pos (by simpa using hs), List.eraseDups_cons, List.filter_filter,
          ih hjs, hseen]

end Phases

theorem indexOf?_eq_none_iff (h : build nodes connections order options = .ok g) (id : String) :
    g.indexOf? id = none ↔ id ∉ nodes.map (·.id) := by
  obtain ⟨hn, edges, is, _, _, _, rfl⟩ := build_iff.1 h
  exact (names_number? hn).eq_none_iff (map_id_eq nodes)

/-- In strict mode no connection into a node is dropped. -/
theorem get_incoming_ne_nil_iff {output : String}
    (h : build nodes connections order { mode := .strict, output } = .ok g) (t : Fin g.size) :
    g.incoming.get t ≠ [] ↔ ∃ c ∈ connections, c.target = (g.node t).id := by
  have hw := exists_build_strict_iff.1 ⟨g, h⟩
  have hsource : ∀ c ∈ connections, g.indexOf? c.source ≠ none := by
    intro c hc hnone
    exact (indexOf?_eq_none_iff h _).1 hnone (hw.source_mem c hc)
  rw [get_incoming h, sources, Ne, List.filterMap_eq_nil_iff]
  constructor
  · intro hi
    by_contra hc
    refine hi fun c hm => absurd ?_ hc
    obtain ⟨hm, ht⟩ := List.mem_filter.1 hm
    exact ⟨c, hm, of_decide_eq_true ht⟩
  · rintro ⟨c, hm, ht⟩ hi
    exact hsource c hm (hi c (List.mem_filter.2 ⟨hm, decide_eq_true ht⟩))

theorem normalForm_of_build (h : build nodes connections order options = .ok g) :
    g.NormalForm nodes connections order options where
  nodes := by
    obtain ⟨_, edges, is, _, _, _, rfl⟩ := build_iff.1 h
    exact List.toList_toArray
  mode := by
    obtain ⟨_, edges, is, _, _, _, rfl⟩ := build_iff.1 h
    rfl
  index := by
    obtain ⟨hn, edges, is, _, _, _, rfl⟩ := build_iff.1 h
    exact names_number? hn
  order := by
    obtain ⟨hn, edges, is, _, his, _, rfl⟩ := build_iff.1 h
    have horder := resolveOrder_eq his
    simp only [List.not_mem_nil, not_false_eq_true, decide_true, List.filter_true] at horder
    exact horder
  nodup := build_order_nodup h
  incoming := get_incoming h
  declared := get_hasDeclaredInputs h
  declared_strict := by
    intro hm t
    obtain ⟨mode, output⟩ := options
    cases hm
    rw [get_incoming_ne_nil_iff h, get_hasDeclaredInputs h]
  output := output_eq h

/-- All parts of a graph but its nodes are said in terms of its nodes, and those are given. -/
theorem NormalForm.unique (h : g.NormalForm nodes connections order options)
    (h' : g'.NormalForm nodes connections order options) : g = g' := by
  obtain ⟨size, vector, is, incoming, declared, output, mode⟩ := g
  obtain ⟨size', vector', is', incoming', declared', output', mode'⟩ := g'
  have hsize : size = size' := by
    rw [← vector.length_toList, ← vector'.length_toList, h.nodes, h'.nodes]
  subst hsize
  have hvector : vector = vector' := Vector.toList_inj.1 (h.nodes.trans h'.nodes.symm)
  subst hvector
  have hincoming : incoming = incoming' :=
    ext_get fun t => (h.incoming t).trans (h'.incoming t).symm
  have hdeclared : declared = declared' :=
    ext_get fun t => Bool.eq_iff_iff.2 ((h.declared t).trans (h'.declared t).symm)
  have horder : is = is' := h.order.trans h'.order.symm
  have houtput : output = output' := h.output.trans h'.output.symm
  have hmode : mode = mode' := h.mode.trans h'.mode.symm
  rw [hincoming, hdeclared, horder, houtput, hmode]

theorem build_eq_ok_iff (hok : ∃ g, build nodes connections order options = .ok g) :
    build nodes connections order options = .ok g ↔
      g.NormalForm nodes connections order options := by
  refine ⟨normalForm_of_build, fun hg => ?_⟩
  obtain ⟨g', hg'⟩ := hok
  rw [hg', (normalForm_of_build hg').unique hg]

theorem build_lenient_eq_error_iff {output : String} {defect : GraphDefect} :
    build nodes connections order { mode := .lenient, output } = .error defect ↔
      ∃ id, FirstRepeated (nodes.map (·.id)) id ∧ defect = .duplicateId id := by
  obtain ⟨edges, hedges⟩ := exists_resolveConnections_lenient (number? (vectorOf nodes)) connections
  obtain ⟨is, his⟩ := exists_resolveOrder_lenient (number? (vectorOf nodes)) [] order
  rw [build_eq_error_iff, hedges, his]
  simp

theorem exists_build_lenient_iff {output : String} :
    (∃ g, build nodes connections order { mode := .lenient, output } = .ok g) ↔
      (nodes.map (·.id)).Nodup := by
  obtain ⟨edges, hedges⟩ := exists_resolveConnections_lenient (number? (vectorOf nodes)) connections
  obtain ⟨is, his⟩ := exists_resolveOrder_lenient (number? (vectorOf nodes)) [] order
  constructor
  · rintro ⟨g, hg⟩
    exact (build_iff.1 hg).1
  · intro hn
    exact ⟨_, build_iff.2 ⟨hn, edges, is, hedges, his, nofun, rfl⟩⟩

/-- A lenient build fails for ids that are repeated and for nothing else. A build that succeeds, in
either mode, comes to the normal form of its input. -/
theorem build_normalForm (nodes : List (Node α)) (connections : List Connection)
    (order : List String) (output : String) :
    (∀ defect, build nodes connections order { mode := .lenient, output } = .error defect ↔
        ∃ id, FirstRepeated (nodes.map (·.id)) id ∧ defect = .duplicateId id) ∧
      ((∃ defect, build nodes connections order { mode := .lenient, output } = .error defect) ↔
        ¬(nodes.map (·.id)).Nodup) ∧
      (∀ g, build nodes connections order { mode := .lenient, output } = .ok g ↔
        (nodes.map (·.id)).Nodup ∧
          g.NormalForm nodes connections order { mode := .lenient, output }) ∧
      ∀ g, build nodes connections order { mode := .strict, output } = .ok g ↔
        WellOrdered (nodes.map (·.id)) connections order ∧
          g.NormalForm nodes connections order { mode := .strict, output } := by
  refine ⟨fun defect => build_lenient_eq_error_iff, ?fails, fun g => ?lenient, fun g => ?strict⟩
  case fails =>
    have hok : (∃ g, build nodes connections order { mode := .lenient, output } = .ok g) ↔
        (nodes.map (·.id)).Nodup := exists_build_lenient_iff
    rw [← hok]
    cases build nodes connections order { mode := .lenient, output } <;> simp
  case lenient =>
    constructor
    · intro h
      exact ⟨exists_build_lenient_iff.1 ⟨g, h⟩, normalForm_of_build h⟩
    · rintro ⟨hn, hg⟩
      exact (build_eq_ok_iff (exists_build_lenient_iff.2 hn)).2 hg
  case strict =>
    constructor
    · intro h
      exact ⟨exists_build_strict_iff.1 ⟨g, h⟩, normalForm_of_build h⟩
    · rintro ⟨hw, hg⟩
      exact (build_eq_ok_iff (exists_build_strict_iff.2 hw)).2 hg

end Backprop.Graph
