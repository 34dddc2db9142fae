import Backprop.Proofs.Graph.WellOrdered

namespace Backprop.Graph

variable {α : Type} {n : Nat} {ids : List String} {connections : List Connection}
  {order : List String} {defect : GraphDefect}

def FirstRepeated (ids : List String) (id : String) : Prop :=
  ∃ front back, ids = front ++ id :: back ∧ front.Nodup ∧ id ∈ front

def Joined (ids : List String) (connections : List Connection) : Prop :=
  ∀ c ∈ connections, c.source ∈ ids ∧ c.target ∈ ids

def Lists (ids order : List String) : Prop :=
  order.Nodup ∧ ∀ id ∈ order, id ∈ ids

theorem firstRepeated?_eq_some_iff {seen : List String} {id : String} :
    firstRepeated? seen ids = some id ↔ ∃ front back, ids = front ++ id :: back ∧ front.Nodup ∧
      (∀ x ∈ front, x ∉ seen) ∧ (id ∈ seen ∨ id ∈ front) := by
  induction ids generalizing seen with
  | nil => simp [firstRepeated?]
  | cons x xs ih =>
    rw [firstRepeated?]
    by_cases hx : x ∈ seen
    · rw [if_pos hx, Option.some.injEq]
      constructor
      · rintro rfl
        exact ⟨[], xs, rfl, List.nodup_nil, List.forall_mem_nil _, .inl hx⟩
      · rintro ⟨front, back, hids, _, hfront, _⟩
        cases front with
        | nil => exact (List.cons.inj hids).1
        | cons y front =>
          obtain ⟨rfl, _⟩ := List.cons.inj hids
          exact absurd hx (hfront x List.mem_cons_self)
    · rw [if_neg hx, ih]
      constructor
      · rintro ⟨front, back, rfl, hn, hfront, hid⟩
        have hxf : x ∉ front := fun hm => hfront x hm List.mem_cons_self
        refine ⟨x :: front, back, rfl, List.nodup_cons.2 ⟨hxf, hn⟩, List.forall_mem_cons.2
          ⟨hx, fun y hy hs => hfront y hy (List.mem_cons_of_mem x hs)⟩, ?_⟩
        rw [List.mem_cons] at hid ⊢
        tauto
      · rintro ⟨front, back, hids, hn, hfront, hid⟩
        cases front with
        | nil =>
          obtain ⟨rfl, _⟩ := List.cons.inj hids
          simp [hx] at hid
        | cons y front =>
          obtain ⟨rfl, rfl⟩ := List.cons.inj hids
          obtain ⟨hxf, hn⟩ := List.nodup_cons.1 hn
          obtain ⟨_, hfront⟩ := List.forall_mem_cons.1 hfront
          refine ⟨front, back, rfl, hn, fun z hz hs => ?_, ?_⟩
          · rcases List.mem_cons.1 hs with rfl | hs
            · exact hxf hz
            · exact hfront z hz hs
          · rw [List.mem_cons] at hid ⊢
            tauto

theorem firstRepeated?_nil_eq_some_iff {id : String} :
    firstRepeated? [] ids = some id ↔ FirstRepeated ids id := by
  simp [firstRepeated?_eq_some_iff, FirstRepeated]

section Phases

variable {index : String → Option (Fin n)} {seen is : List (Fin n)} {id : String} {i : Fin n}

/-- Why a strict build refuses an entry of the order where these nodes have been listed. -/
inductive Rejected (index : String → Option (Fin n)) (listed : List (Fin n)) (id : String) :
    GraphDefect → Prop
  | unknown (hi : index id = none) : Rejected index listed id (.unknownInOrder id)
  | duplicate {i : Fin n} (hi : index id = some i) (hl : i ∈ listed) :
    Rejected index listed id (.duplicateInOrder id)

theorem Rejected.mono {listed listed' : List (Fin n)} (h : Rejected index listed id defect)
    (hl : ∀ i ∈ listed, i ∈ listed') : Rejected index listed' id defect := by
  cases h with
  | unknown hi => exact .unknown hi
  | duplicate hi hm => exact .duplicate hi (hl _ hm)

theorem rejected_or_fresh (index : String → Option (Fin n)) (seen : List (Fin n)) (id : String) :
    (∃ defect, Rejected index seen id defect) ∨ ∃ i, index id = some i ∧ i ∉ seen := by
  cases hi : index id with
  | none => exact .inl ⟨_, .unknown hi⟩
  | some i =>
    by_cases hs : i ∈ seen
    · exact .inl ⟨_, .duplicate hi hs⟩
    · exact .inr ⟨i, rfl, hs⟩

theorem resolveOrder_of_rejected (h : Rejected index seen id defect) (order : List String) :
    resolveOrder .strict index seen (id :: order) = .error defect := by
  cases h with
  | unknown hi => simp only [resolveOrder, hi]
  | duplicate hi hl => simp only [resolveOrder, hi, if_pos hl]

theorem resolveOrder_of_fresh (mode : Mode) (hi : index id = some i) (hs : i ∉ seen)
    (order : List String) :
    resolveOrder mode index seen (id :: order) =
      (resolveOrder mode index (i :: seen) order).map (i :: ·) := by
  simp only [resolveOrder, hi, if_neg hs]
  cases resolveOrder mode index (i :: seen) order <;> rfl

/-- An order is refused for the first entry that is, and what stands before it is resolved. -/
theorem exists_rejected (h : resolveOrder .strict index seen order = .error defect) :
    ∃ front id back is, order = front ++ id :: back ∧
      resolveOrder .strict index seen front = .ok is ∧ Rejected index (is ++ seen) id defect := by
  induction order generalizing seen with
  | nil => cases h
  | cons id ids ih =>
    rcases rejected_or_fresh index seen id with ⟨defect', hr⟩ | ⟨i, hi, hs⟩
    · rw [resolveOrder_of_rejected hr] at h
      cases h
      exact ⟨[], id, ids, [], rfl, rfl, hr⟩
    · rw [resolveOrder_of_fresh _ hi hs, Except.map_eq_error_iff] at h
      obtain ⟨front, id', back, is, rfl, his, hr⟩ := ih h
      refine ⟨id :: front, id', back, i :: is, rfl, ?_, hr.mono fun j hj => ?_⟩
      · rw [resolveOrder_of_fresh _ hi hs, his]
        rfl
      · rw [List.mem_append, List.mem_cons] at *
        tauto

theorem resolveOrder_append_of_rejected {front : List String}
    (his : resolveOrder .strict index seen front = .ok is)
    (h : Rejected index (is ++ seen) id defect) (back : List String) :
    resolveOrder .strict index seen (front ++ id :: back) = .error defect := by
  induction front generalizing seen is with
  | nil =>
    cases his
    exact resolveOrder_of_rejected h back
  | cons x front ih =>
    rcases rejected_or_fresh index seen x with ⟨defect', hr⟩ | ⟨i, hi, hs⟩
    · rw [resolveOrder_of_rejected hr] at his
      cases his
    · rw [resolveOrder_of_fresh _ hi hs, Except.map_eq_ok_iff] at his
      obtain ⟨js, hjs, rfl⟩ := his
      rw [List.cons_append, resolveOrder_of_fresh _ hi hs, Except.map_eq_error_iff]
      apply ih hjs (h.mono fun j hj => ?_)
      rw [List.mem_append, List.mem_cons] at *
      tauto

theorem checkOrder_eq_error_iff {nodes : Vector (Node α) n} {edges : List (Fin n × Fin n)} :
    checkOrder nodes edges is = .error defect ↔
      (∃ i, (List.finRange n).find? (fun i => i ∉ is) = some i ∧
        defect = .missingFromOrder (nodes.get i).id) ∨
      (∀ i, i ∈ is) ∧ ∃ e, edges.find? (fun e => ¬is.idxOf e.1 < is.idxOf e.2) = some e ∧
        defect = .orderViolation (nodes.get e.1).id (nodes.get e.2).id := by
  rw [checkOrder]
  cases hm : (List.finRange n).find? fun i => i ∉ is with
  | some i =>
    have hi : i ∉ is := by simpa using List.find?_some hm
    have hall : ¬∀ i, i ∈ is := fun h => hi (h i)
    simp [hall, eq_comm, Vector.get_eq_getElem]
  | none =>
    have hall (i : Fin n) : i ∈ is := by
      simpa using List.find?_eq_none.1 hm i (List.mem_finRange i)
    have hbefore : (fun e : Fin n × Fin n => !standsBefore is e.1 e.2) =
        fun e => decide ¬is.idxOf e.1 < is.idxOf e.2 := by
      funext e
      rw [Bool.eq_iff_iff, decide_eq_true_iff, ← standsBefore_iff (hall e.1) (hall e.2)]
      simp
    simp only [hbefore]
    cases edges.find? (fun e => decide ¬is.idxOf e.1 < is.idxOf e.2) with
    | none => simp
    | some e => simp [hall, eq_comm, Vector.get_eq_getElem]

end Phases

theorem mem_iff_mem_range {name : Fin n → String} {id : String}
    (hids : ids = (List.finRange n).map name) : id ∈ ids ↔ id ∈ Set.range name := by
  simp [hids]

namespace Names

variable {index : String → Option (Fin n)} {name : Fin n → String} {id : String}

theorem eq_none_iff (h : Names index name) (hids : ids = (List.finRange n).map name) :
    index id = none ↔ id ∉ ids := by
  rw [mem_iff_mem_range hids]
  constructor
  · rintro hi ⟨i, rfl⟩
    rw [h.index_name] at hi
    cases hi
  · intro hid
    cases hi : index id with
    | none => rfl
    | some i => exact absurd ⟨i, (h id i).1 hi⟩ hid

theorem exists_resolveConnections_iff (h : Names index name)
    (hids : ids = (List.finRange n).map name) :
    (∃ edges, resolveConnections .strict index connections = .ok edges) ↔
      Joined ids connections := by
  simp only [h.resolveConnections_iff]
  change connections ∈ Set.range (List.map _) ↔ _
  rw [Set.range_list_map]
  apply forall₂_congr
  intro c _
  rw [mem_iff_mem_range hids, mem_iff_mem_range hids]
  constructor
  · rintro ⟨e, rfl⟩
    exact ⟨⟨e.1, rfl⟩, e.2, rfl⟩
  · rintro ⟨⟨i, hi⟩, j, hj⟩
    exact ⟨(i, j), congrArg₂ Connection.mk hi hj⟩

theorem resolveConnections_eq_error_iff (h : Names index name)
    (hids : ids = (List.finRange n).map name) :
    resolveConnections .strict index connections = .error defect ↔
      ∃ c, connections.find? (fun c => c.source ∉ ids ∨ c.target ∉ ids) = some c ∧
        defect = .danglingConnection c.source c.target
          (if c.source ∈ ids then c.target else c.source) := by
  have hnone {id : String} (hi : index id = none) : id ∉ ids := (h.eq_none_iff hids).1 hi
  have hsome {id : String} {i : Fin n} (hi : index id = some i) : id ∈ ids :=
    (mem_iff_mem_range hids).2 ⟨i, (h id i).1 hi⟩
  induction connections with
  | nil => simp [resolveConnections]
  | cons c cs ih =>
    rw [resolveConnections]
    cases hs : index c.source with
    | none =>
      rw [List.find?_cons_of_pos (by simp [hnone hs])]
      simp [hnone hs, eq_comm]
    | some i =>
      cases ht : index c.target with
      | none =>
        rw [List.find?_cons_of_pos (by simp [hnone ht])]
        simp [hsome hs, eq_comm]
      | some j =>
        rw [List.find?_cons_of_neg (by simp [hsome hs, hsome ht])]
        exact Except.bind_ok_eq_error_iff.trans ih

theorem exists_resolveOrder_iff (h : Names index name) (hids : ids = (List.finRange n).map name) :
    (∃ is, resolveOrder .strict index [] order = .ok is) ↔ Lists ids order := by
  simp only [h.resolveOrder_iff, Lists, mem_iff_mem_range hids]
  constructor
  · rintro ⟨is, rfl, hn, _⟩
    refine ⟨hn.map h.injective, ?_⟩
    simp
  · rintro ⟨hn, hl⟩
    have horder : order ∈ Set.range (List.map name) := by
      rw [Set.range_list_map]
      exact hl
    obtain ⟨is, rfl⟩ := horder
    exact ⟨is, rfl, hn.of_map name, fun _ _ => List.not_mem_nil⟩

theorem resolveOrder_eq_error_iff (h : Names index name)
    (hids : ids = (List.finRange n).map name) :
    resolveOrder .strict index [] order = .error defect ↔
      ∃ front id back, order = front ++ id :: back ∧ Lists ids front ∧
        (id ∉ ids ∧ defect = .unknownInOrder id ∨ id ∈ front ∧ defect = .duplicateInOrder id) := by
  constructor
  · intro hr
    obtain ⟨front, id, back, is, rfl, his, hrejected⟩ := exists_rejected hr
    have hfront : Lists ids front := (h.exists_resolveOrder_iff hids).1 ⟨is, his⟩
    obtain ⟨rfl, _⟩ := h.resolveOrder_iff.1 his
    refine ⟨_, id, back, rfl, hfront, ?_⟩
    cases hrejected with
    | unknown hi => exact .inl ⟨(h.eq_none_iff hids).1 hi, rfl⟩
    | duplicate hi hl =>
      rw [List.append_nil] at hl
      rw [← (h id _).1 hi]
      exact .inr ⟨List.mem_map_of_mem hl, rfl⟩
  · rintro ⟨front, id, back, rfl, hfront, hid⟩
    obtain ⟨is, his⟩ := (h.exists_resolveOrder_iff hids).2 hfront
    obtain ⟨rfl, _⟩ := h.resolveOrder_iff.1 his
    refine resolveOrder_append_of_rejected his ?_ back
    rw [List.append_nil]
    rcases hid with ⟨hid, rfl⟩ | ⟨hid, rfl⟩
    · exact .unknown ((h.eq_none_iff hids).2 hid)
    · obtain ⟨i, hi, rfl⟩ := List.mem_map.1 hid
      exact .duplicate (h.index_name i) hi

theorem checkOrder_eq_error_iff (h : Names index name) (hids : ids = (List.finRange n).map name)
    {nodes : Vector (Node α) n} (hname : ∀ i, (nodes.get i).id = name i)
    {edges : List (Fin n × Fin n)} {is : List (Fin n)}
    (hedges : edges.map (fun e => ⟨name e.1, name e.2⟩) = connections)
    (his : is.map name = order) :
    checkOrder nodes edges is = .error defect ↔
      (∃ id, ids.find? (fun id => id ∉ order) = some id ∧ defect = .missingFromOrder id) ∨
      (∀ id ∈ ids, id ∈ order) ∧
        ∃ c, connections.find? (fun c => ¬order.idxOf c.source < order.idxOf c.target) = some c ∧
          defect = .orderViolation c.source c.target := by
  have hmem (i : Fin n) : name i ∈ is.map name ↔ i ∈ is :=
    List.mem_map_of_injective h.injective
  subst hids hedges his
  rw [Graph.checkOrder_eq_error_iff]
  simp only [hname, List.find?_map, Function.comp_def, h.idxOf_map, hmem, List.forall_mem_map,
    List.mem_finRange, forall_const]
  simp

end Names

theorem build_eq_error_iff {nodes : List (Node α)} {options : Options} :
    build nodes connections order options = .error defect ↔
      (∃ id, FirstRepeated (nodes.map (·.id)) id ∧ defect = .duplicateId id) ∨
      (nodes.map (·.id)).Nodup ∧
        (resolveConnections options.mode (number? (vectorOf nodes)) connections = .error defect ∨
        ∃ edges,
          resolveConnections options.mode (number? (vectorOf nodes)) connections = .ok edges ∧
          (resolveOrder options.mode (number? (vectorOf nodes)) [] order = .error defect ∨
          ∃ is, resolveOrder options.mode (number? (vectorOf nodes)) [] order = .ok is ∧
            options.mode = .strict ∧ checkOrder (vectorOf nodes) edges is = .error defect)) := by
  have hn : firstRepeated? [] (nodes.map (·.id)) = none ↔ (nodes.map (·.id)).Nodup := by
    rw [firstRepeated?_eq_none_iff]
    simp
  simp only [← firstRepeated?_nil_eq_some_iff]
  rw [build, ← hn]
  cases hr : firstRepeated? [] (nodes.map (·.id)) with
  | some id =>
    constructor
    · intro h
      cases h
      exact .inl ⟨id, rfl, rfl⟩
    · rintro (⟨_, ⟨⟩, rfl⟩ | ⟨h, _⟩)
      · rfl
      · cases h
  | none =>
    simp only [reduceCtorEq, false_and, exists_false, false_or, true_and]
    refine Except.bind_eq_error_iff.trans (or_congr_right (exists_congr fun edges => ?_))
    refine and_congr_right fun _ => ?_
    refine Except.bind_eq_error_iff.trans (or_congr_right (exists_congr fun is => ?_))
    refine and_congr_right fun _ => ?_
    by_cases hm : options.mode = .strict
    · rw [if_pos hm, and_iff_right hm]
      exact Except.bind_ok_eq_error_iff
    · rw [if_neg hm]
      constructor
      · intro h
        cases h
      · intro h
        exact absurd h.1 hm

/-- What is wrong with a graph. An id that is repeated comes first, then a connection with an end that
is no node, an entry of the order that is no node or has been listed, a node that the order leaves
out, and last a connection that does not go forward; of its kind it is the first. -/
inductive FirstDefect (ids : List String) (connections : List Connection) (order : List String) :
    GraphDefect → Prop
  | repeated {id : String} (hid : FirstRepeated ids id) :
    FirstDefect ids connections order (.duplicateId id)
  | dangling {c : Connection} (hids : ids.Nodup)
    (hc : connections.find? (fun c => c.source ∉ ids ∨ c.target ∉ ids) = some c) :
    FirstDefect ids connections order (.danglingConnection c.source c.target
      (if c.source ∈ ids then c.target else c.source))
  | unknown {front back : List String} {id : String} (hids : ids.Nodup)
    (hconnections : Joined ids connections) (horder : order = front ++ id :: back)
    (hfront : Lists ids front) (hid : id ∉ ids) :
    FirstDefect ids connections order (.unknownInOrder id)
  | listed {front back : List String} {id : String} (hids : ids.Nodup)
    (hconnections : Joined ids connections) (horder : order = front ++ id :: back)
    (hfront : Lists ids front) (hid : id ∈ front) :
    FirstDefect ids connections order (.duplicateInOrder id)
  | missing {id : String} (hids : ids.Nodup) (hconnections : Joined ids connections)
    (horder : Lists ids order) (hid : ids.find? (fun id => id ∉ order) = some id) :
    FirstDefect ids connections order (.missingFromOrder id)
  | backward {c : Connection} (hids : ids.Nodup) (hconnections : Joined ids connections)
    (horder : order.Perm ids)
    (hc : connections.find? (fun c => ¬order.idxOf c.source < order.idxOf c.target) = some c) :
    FirstDefect ids connections order (.orderViolation c.source c.target)

/-- The same with what earlier kinds have in common taken out, as a build meets them. -/
theorem firstDefect_iff : FirstDefect ids connections order defect ↔
    (∃ id, FirstRepeated ids id ∧ defect = .duplicateId id) ∨
    ids.Nodup ∧
      ((∃ c, connections.find? (fun c => c.source ∉ ids ∨ c.target ∉ ids) = some c ∧
        defect = .danglingConnection c.source c.target
          (if c.source ∈ ids then c.target else c.source)) ∨
      Joined ids connections ∧
        ((∃ front id back, order = front ++ id :: back ∧ Lists ids front ∧
          (id ∉ ids ∧ defect = .unknownInOrder id ∨ id ∈ front ∧ defect = .duplicateInOrder id)) ∨
        Lists ids order ∧
          ((∃ id, ids.find? (fun id => id ∉ order) = some id ∧ defect = .missingFromOrder id) ∨
          (∀ id ∈ ids, id ∈ order) ∧
            ∃ c, connections.find? (fun c => ¬order.idxOf c.source < order.idxOf c.target) =
              some c ∧ defect = .orderViolation c.source c.target))) := by
  constructor
  · intro h
    cases h with
    | repeated hid => exact .inl ⟨_, hid, rfl⟩
    | dangling hids hc => exact .inr ⟨hids, .inl ⟨_, hc, rfl⟩⟩
    | unknown hids hconnections horder hfront hid =>
      exact .inr ⟨hids, .inr ⟨hconnections, .inl ⟨_, _, _, horder, hfront, .inl ⟨hid, rfl⟩⟩⟩⟩
    | listed hids hconnections horder hfront hid =>
      exact .inr ⟨hids, .inr ⟨hconnections, .inl ⟨_, _, _, horder, hfront, .inr ⟨hid, rfl⟩⟩⟩⟩
    | missing hids hconnections horder hid =>
      exact .inr ⟨hids, .inr ⟨hconnections, .inr ⟨horder, .inl ⟨_, hid, rfl⟩⟩⟩⟩
    | backward hids hconnections horder hc =>
      have hlists : Lists ids order := ⟨horder.nodup_iff.2 hids, fun _ => horder.mem_iff.1⟩
      exact .inr ⟨hids, .inr ⟨hconnections, .inr
        ⟨hlists, .inr ⟨fun _ => horder.mem_iff.2, _, hc, rfl⟩⟩⟩⟩
  · rintro (⟨id, hid, rfl⟩ | ⟨hids, ⟨c, hc, rfl⟩ | ⟨hconnections, horder⟩⟩)
    · exact .repeated hid
    · exact .dangling hids hc
    rcases horder with ⟨front, id, back, rfl, hfront, ⟨hid, rfl⟩ | ⟨hid, rfl⟩⟩ |
      ⟨hlists, ⟨id, hid, rfl⟩ | ⟨hall, c, hc, rfl⟩⟩
    · exact .unknown hids hconnections rfl hfront hid
    · exact .listed hids hconnections rfl hfront hid
    · exact .missing hids hconnections hlists hid
    · have hperm : order.Perm ids :=
        (List.perm_ext_iff_of_nodup hlists.1 hids).2 fun id => ⟨hlists.2 id, hall id⟩
      exact .backward hids hconnections hperm hc

/-- A strict build is refused for the first defect, and for nothing else. -/
theorem build_strict_eq_error_iff_firstDefect (nodes : List (Node α))
    (connections : List Connection) (order : List String) (output : String)
    (defect : GraphDefect) :
    build nodes connections order { mode := .strict, output } = .error defect ↔
      FirstDefect (nodes.map (·.id)) connections order defect := by
  have hids := map_id_eq nodes
  rw [build_eq_error_iff, firstDefect_iff]
  refine or_congr_right (and_congr_right fun hn => ?_)
  have h := names_number? hn
  rw [h.resolveConnections_eq_error_iff hids, ← h.exists_resolveConnections_iff hids,
    h.resolveOrder_eq_error_iff hids, ← h.exists_resolveOrder_iff hids]
  simp only [true_and, ← exists_and_right]
  -- Where two phases have come to a result, the third is about what they have resolved.
  refine or_congr_right (exists_congr fun edges => and_congr_right fun hedges => ?_)
  refine or_congr_right (exists_congr fun is => and_congr_right fun his => ?_)
  exact h.checkOrder_eq_error_iff hids (fun _ => rfl) (h.resolveConnections_iff.1 hedges)
    (h.resolveOrder_iff.1 his).1

/-- The connection to a node that does not exist comes before the entry that does not, and before the
loop, which no order lets go forward. -/
example : (build [⟨"x", .input, none, .linear, 0⟩, ⟨"y", .neuron, none, .linear, 0⟩]
      [⟨"y", "y"⟩, ⟨"x", "ghost"⟩] ["x", "phantom"] {} : Except GraphDefect (Graph Nat)) =
    .error (.danglingConnection "x" "ghost" "ghost") := by
  cbv

end Backprop.Graph
