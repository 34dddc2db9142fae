import Backprop.Proofs.Graph.Build

namespace Backprop.Graph

variable {α : Type} {n : Nat} {ids : List String} {connections : List Connection}
  {order : List String}

/-- The order lists each of the ids once, with every connection between two of them going forward. -/
structure WellOrdered (ids : List String) (connections : List Connection) (order : List String) :
    Prop where
  nodup : ids.Nodup
  source_mem : ∀ c ∈ connections, c.source ∈ ids
  target_mem : ∀ c ∈ connections, c.target ∈ ids
  perm : order.Perm ids
  forward : ∀ c ∈ connections, order.idxOf c.source < order.idxOf c.target

instance : Decidable (WellOrdered ids connections order) :=
  decidable_of_iff (ids.Nodup ∧ (∀ c ∈ connections, c.source ∈ ids) ∧
      (∀ c ∈ connections, c.target ∈ ids) ∧ order.Perm ids ∧
      ∀ c ∈ connections, order.idxOf c.source < order.idxOf c.target)
    ⟨fun ⟨h₁, h₂, h₃, h₄, h₅⟩ => ⟨h₁, h₂, h₃, h₄, h₅⟩, fun ⟨h₁, h₂, h₃, h₄, h₅⟩ => ⟨h₁, h₂, h₃, h₄, h₅⟩⟩

def Leads (connections : List Connection) : String → String → Prop :=
  Relation.TransGen fun source target => ⟨source, target⟩ ∈ connections

theorem WellOrdered.lt_of_leads (h : WellOrdered ids connections order) {a b : String}
    (hl : Leads connections a b) : order.idxOf a < order.idxOf b := by
  induction hl with
  | single hc => exact h.forward _ hc
  | tail _ hc ih => exact ih.trans (h.forward _ hc)

/-- There is no order for a cycle. -/
theorem WellOrdered.not_leads (h : WellOrdered ids connections order) (a : String) :
    ¬Leads connections a a :=
  fun hl => Nat.lt_irrefl _ (h.lt_of_leads hl)

/-- The numbers that a strict build resolves are those of well-ordered names. -/
theorem Names.wellOrdered_iff {index : String → Option (Fin n)} {name : Fin n → String}
    (h : Names index name) :
    WellOrdered ((List.finRange n).map name) connections order ↔
      ∃ (edges : List (Fin n × Fin n)) (is : List (Fin n)),
        edges.map (fun e => ⟨name e.1, name e.2⟩) = connections ∧ (is.map name = order ∧ is.Nodup) ∧
          (∀ i, i ∈ is) ∧ ∀ e ∈ edges, is.idxOf e.1 < is.idxOf e.2 := by
  have hmem {id : String} : id ∈ (List.finRange n).map name ↔ ∃ i, name i = id := by
    simp
  constructor
  · intro hw
    have hcs : connections ∈ Set.range
        (List.map fun e : Fin n × Fin n => (⟨name e.1, name e.2⟩ : Connection)) := by
      rw [Set.range_list_map]
      intro c hc
      obtain ⟨i, hi⟩ := hmem.1 (hw.source_mem c hc)
      obtain ⟨j, hj⟩ := hmem.1 (hw.target_mem c hc)
      exact ⟨(i, j), congrArg₂ Connection.mk hi hj⟩
    have hids : order ∈ Set.range (List.map name) := by
      rw [Set.range_list_map]
      exact fun id hid => hmem.1 (hw.perm.mem_iff.1 hid)
    obtain ⟨edges, rfl⟩ := hcs
    obtain ⟨is, rfl⟩ := hids
    have hperm := (List.map_perm_map_iff h.injective).1 hw.perm
    have hforward := List.forall_mem_map.1 hw.forward
    simp only [h.idxOf_map] at hforward
    exact ⟨edges, is, rfl, ⟨rfl, hperm.nodup_iff.2 (List.nodup_finRange n)⟩,
      fun i => hperm.mem_iff.2 (List.mem_finRange i), hforward⟩
  · rintro ⟨edges, is, rfl, ⟨rfl, hn⟩, hall, hlt⟩
    have hperm : is.Perm (List.finRange n) :=
      (List.perm_ext_iff_of_nodup hn (List.nodup_finRange n)).2 fun i =>
        iff_of_true (hall i) (List.mem_finRange i)
    refine {
      nodup := (List.nodup_finRange n).map h.injective
      source_mem := List.forall_mem_map.2 fun e _ => hmem.2 ⟨e.1, rfl⟩
      target_mem := List.forall_mem_map.2 fun e _ => hmem.2 ⟨e.2, rfl⟩
      perm := hperm.map name
      forward := List.forall_mem_map.2 fun e he => ?_ }
    rw [h.idxOf_map, h.idxOf_map]
    exact hlt e he

theorem exists_build_strict_iff {nodes : List (Node α)} {output : String} :
    (∃ g, build nodes connections order { mode := .strict, output } = .ok g) ↔
      WellOrdered (nodes.map (·.id)) connections order := by
  have hids := map_id_eq nodes
  constructor
  · rintro ⟨g, hb⟩
    obtain ⟨hn, edges, is, hes, his, hc, -⟩ := build_iff.1 hb
    have h := names_number? hn
    obtain ⟨hmap, hnodup, -⟩ := h.resolveOrder_iff.1 his
    rw [hids, h.wellOrdered_iff]
    exact ⟨edges, is, h.resolveConnections_iff.1 hes, ⟨hmap, hnodup⟩, checkOrder_iff.1 (hc rfl)⟩
  · intro hw
    have hn := hw.nodup
    have h := names_number? hn
    rw [hids, h.wellOrdered_iff] at hw
    obtain ⟨edges, is, hes, ⟨hmap, hnodup⟩, hc⟩ := hw
    exact ⟨_, build_iff.2 ⟨hn, edges, is, h.resolveConnections_iff.2 hes,
      h.resolveOrder_iff.2 ⟨hmap, hnodup, fun _ _ => List.not_mem_nil⟩,
      fun _ => checkOrder_iff.2 hc, rfl⟩⟩

/-- A strict build accepts the well-ordered graphs and no others, whichever node gives the
prediction. If the connections form a cycle then there is no order to accept. -/
theorem build_strict_ok_iff_wellOrdered (nodes : List (Node α)) (connections : List Connection)
    (output : String) :
    (∀ order, (∃ g, build nodes connections order { mode := .strict, output } = .ok g) ↔
        WellOrdered (nodes.map (·.id)) connections order) ∧
      ((∃ id, Leads connections id id) → ∀ order, ∃ defect,
        build nodes connections order { mode := .strict, output } = .error defect) := by
  refine ⟨fun order => exists_build_strict_iff, ?_⟩
  intro ⟨id, hid⟩ order
  cases hb : build nodes connections order { mode := .strict, output } with
  | error defect => exact ⟨defect, rfl⟩
  | ok g => exact absurd hid ((exists_build_strict_iff.1 ⟨g, hb⟩).not_leads id)

theorem build_strict_two_nodes :
    let nodes : List (Node Nat) := [⟨"x", .input, none, .linear, 0⟩, ⟨"y", .neuron, none, .linear, 0⟩]
    let options : Options := { mode := .strict, output := defaultOutput }
    (∃ g, build nodes [⟨"x", "y"⟩, ⟨"x", "y"⟩] ["x", "y"] options = .ok g) ∧
      ∀ order, ∃ defect, build nodes [⟨"x", "y"⟩, ⟨"y", "x"⟩] order options = .error defect := by
  intro nodes options
  constructor
  · apply ((build_strict_ok_iff_wellOrdered nodes _ defaultOutput).1 _).2
    decide
  · apply (build_strict_ok_iff_wellOrdered nodes _ defaultOutput).2
    exact ⟨"x", .tail (.single (b := "y") (by decide)) (by decide)⟩

end Backprop.Graph
