import Backprop.Proofs.Graph.Forward

namespace Backprop.Graph

variable {α : Type} {connections : List Connection} {order : List String}

/-- The second graph is the first with other numbers for its nodes. -/
structure Renaming (g g' : Graph α) where
  index : Fin g.size ≃ Fin g'.size
  node : ∀ i, g'.node (index i) = g.node i
  order : g'.order = g.order.map index
  incoming : ∀ i, g'.incoming.get (index i) = (g.incoming.get i).map index
  hasDeclaredInputs : ∀ i, g'.hasDeclaredInputs.get (index i) = g.hasDeclaredInputs.get i
  output : g'.output = g.output.map index

section

variable {n n' : Nat} {mode : Mode} {index : String → Option (Fin n)} {name : Fin n → String}
  {index' : String → Option (Fin n')} {name' : Fin n' → String}

theorem resolveConnections_rename (f : Fin n → Fin n') (connections : List Connection) :
    resolveConnections mode (fun id => (index id).map f) connections =
      (resolveConnections mode index connections).map (List.map (Prod.map f f)) := by
  induction connections with
  | nil => rfl
  | cons c cs ih =>
    rw [resolveConnections, resolveConnections, ih]
    cases hs : index c.source with
    | none => cases mode <;> rfl
    | some i =>
      cases ht : index c.target with
      | none => cases mode <;> rfl
      | some j => cases resolveConnections mode index cs <;> rfl

theorem resolveOrder_rename {f : Fin n → Fin n'} (hf : f.Injective) (seen : List (Fin n))
    (order : List String) :
    resolveOrder mode (fun id => (index id).map f) (seen.map f) order =
      (resolveOrder mode index seen order).map (List.map f) := by
  induction order generalizing seen with
  | nil => rfl
  | cons id ids ih =>
    cases hi : index id with
    | none =>
      simp only [resolveOrder, hi, Option.map_none]
      cases mode with
      | lenient => exact ih seen
      | strict => rfl
    | some i =>
      have hmem : f i ∈ seen.map f ↔ i ∈ seen := List.mem_map_of_injective hf
      simp only [resolveOrder, hi, Option.map_some, hmem]
      split
      · cases mode with
        | lenient => exact ih seen
        | strict => rfl
      · have hrest := ih (i :: seen)
        rw [List.map_cons] at hrest
        rw [hrest]
        cases resolveOrder mode index (i :: seen) ids <;> rfl

theorem checkOrder_rename (σ : Fin n ≃ Fin n') {nodes : Vector (Node α) n}
    {edges : List (Fin n × Fin n)} {is : List (Fin n)} (h : checkOrder nodes edges is = .ok ())
    (nodes' : Vector (Node α) n') :
    checkOrder nodes' (edges.map (Prod.map σ σ)) (is.map σ) = .ok () := by
  obtain ⟨hall, hlt⟩ := checkOrder_iff.1 h
  apply checkOrder_iff.2
  constructor
  · intro j
    exact List.mem_map.2 ⟨σ.symm j, hall _, σ.apply_symm_apply j⟩
  · rw [List.forall_mem_map]
    intro e he
    rw [Prod.map_fst, Prod.map_snd, idxOf_map_of_injective σ.injective,
      idxOf_map_of_injective σ.injective]
    exact hlt e he

theorem Names.exists_rename (h : Names index name) (h' : Names index' name')
    (hrange : Set.range name = Set.range name') :
    ∃ σ : Fin n ≃ Fin n', (∀ i, name' (σ i) = name i) ∧ index' = fun id => (index id).map σ := by
  let σ : Fin n ≃ Fin n' := (Equiv.ofInjective name h.injective).trans
    ((Equiv.setCongr hrange).trans (Equiv.ofInjective name' h'.injective).symm)
  have hname (i : Fin n) : name' (σ i) = name i :=
    Equiv.apply_ofInjective_symm h'.injective _
  refine ⟨σ, hname, ?_⟩
  funext id
  ext j
  obtain ⟨i, rfl⟩ := σ.surjective j
  rw [Option.map_eq_some_iff]
  constructor
  · intro hj
    exact ⟨i, (h _ i).2 ((hname i).symm.trans ((h' _ _).1 hj)), rfl⟩
  · rintro ⟨k, hk, hki⟩
    apply (h' _ _).2
    rw [← hki, hname, (h _ k).1 hk]

end

section

variable {nodes nodes' : List (Node α)} {options : Options} {g : Graph α}

theorem filterMap_edges_rename {n n' : Nat} (σ : Fin n ≃ Fin n') (edges : List (Fin n × Fin n))
    (i : Fin n) :
    (edges.map (Prod.map σ σ)).filterMap (fun e => if e.2 = σ i then some e.1 else none) =
      (edges.filterMap fun e => if e.2 = i then some e.1 else none).map σ := by
  rw [List.filterMap_map, List.map_filterMap]
  apply List.filterMap_congr
  intro e _
  simp only [Function.comp_apply, Prod.map_fst, Prod.map_snd, σ.injective.eq_iff]
  split <;> rfl

/-- Graphs that are put together from the same nodes, numbered in two ways. -/
def Renaming.assemble {n n' : Nat} (σ : Fin n ≃ Fin n') {vector : Vector (Node α) n}
    {vector' : Vector (Node α) n'} (hnode : ∀ i, vector'.get (σ i) = vector.get i)
    (houtput : number? vector' options.output = (number? vector options.output).map σ)
    (connections : List Connection) (edges : List (Fin n × Fin n)) (is : List (Fin n)) :
    (assemble vector connections options edges is).Renaming
      (assemble vector' connections options (edges.map (Prod.map σ σ)) (is.map σ)) where
  index := σ
  node := hnode
  order := rfl
  incoming i := by
    apply (get_incoming_assemble vector' _ _ (σ i)).trans
    apply (filterMap_edges_rename σ edges i).trans
    exact congrArg (List.map σ) (get_incoming_assemble vector edges is i).symm
  hasDeclaredInputs i := by
    apply (get_hasDeclaredInputs_assemble vector' _ _ (σ i)).trans
    apply Eq.trans _ (get_hasDeclaredInputs_assemble vector edges is i).symm
    exact congrArg (fun node => connections.any (·.target == node.id)) (hnode i)
  output := houtput

theorem mem_range_id {id : String} :
    id ∈ Set.range (fun i => (nodes.get i).id) ↔ id ∈ nodes.map (·.id) := by
  constructor
  · rintro ⟨i, rfl⟩
    exact List.mem_map_of_mem (List.getElem_mem i.isLt)
  · intro h
    obtain ⟨node, hnode, rfl⟩ := List.mem_map.1 h
    obtain ⟨i, hi, rfl⟩ := List.getElem_of_mem hnode
    exact ⟨⟨i, hi⟩, rfl⟩

/-- Nodes with ids of their own are found in another list of the same nodes. -/
theorem get_rename (hp : nodes'.Perm nodes) (hn : (nodes'.map (·.id)).Nodup)
    {σ : Fin nodes.length ≃ Fin nodes'.length} (hid : ∀ i, (nodes'.get (σ i)).id = (nodes.get i).id)
    (i : Fin nodes.length) : (vectorOf nodes').get (σ i) = (vectorOf nodes).get i := by
  obtain ⟨k, hk, he⟩ := List.getElem_of_mem (hp.mem_iff.2 (List.getElem_mem i.isLt))
  have hik : σ i = ⟨k, hk⟩ :=
    (names_number? hn).injective ((hid i).trans (congrArg Node.id he).symm)
  exact (congrArg nodes'.get hik).trans he

theorem exists_build_perm (hp : nodes'.Perm nodes)
    (h : build nodes connections order options = .ok g) :
    ∃ g', build nodes' connections order options = .ok g' ∧ Nonempty (g.Renaming g') := by
  obtain ⟨hn, edges, is, hes, his, hc, rfl⟩ := build_iff.1 h
  have hn' : (nodes'.map (·.id)).Nodup := (hp.map _).nodup_iff.2 hn
  have hrange : Set.range (fun i => (nodes.get i).id) =
      Set.range fun i => (nodes'.get i).id := by
    ext id
    rw [mem_range_id, mem_range_id, (hp.map _).mem_iff]
  obtain ⟨σ, hid, hindex⟩ := (names_number? hn).exists_rename (names_number? hn') hrange
  have hes' : resolveConnections options.mode (number? (vectorOf nodes')) connections =
      .ok (edges.map (Prod.map σ σ)) := by
    rw [hindex, resolveConnections_rename, hes]
    rfl
  have his' : resolveOrder options.mode (number? (vectorOf nodes')) [] order =
      .ok (is.map σ) := by
    have hr : resolveOrder options.mode (fun id => (number? (vectorOf nodes) id).map σ) [] order =
        (resolveOrder options.mode (number? (vectorOf nodes)) [] order).map (List.map σ) :=
      resolveOrder_rename σ.injective [] order
    rw [his] at hr
    rw [hindex]
    exact hr
  have hc' : options.mode = .strict →
      checkOrder (vectorOf nodes') (edges.map (Prod.map σ σ)) (is.map σ) = .ok () :=
    fun hm => checkOrder_rename σ (hc hm) _
  have houtput := congrFun hindex options.output
  exact ⟨_, build_iff.2 ⟨hn', _, _, hes', his', hc', rfl⟩,
    ⟨.assemble σ (get_rename hp hn' hid) houtput connections edges is⟩⟩

theorem nonempty_renaming {g' : Graph α} (hp : nodes'.Perm nodes)
    (h : build nodes connections order options = .ok g)
    (h' : build nodes' connections order options = .ok g') : Nonempty (g.Renaming g') := by
  obtain ⟨g'', hb, hσ⟩ := exists_build_perm hp h
  cases h'.symm.trans hb
  exact hσ

end

end Backprop.Graph
