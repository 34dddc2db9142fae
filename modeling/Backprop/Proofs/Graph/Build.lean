import Mathlib
import Backprop.Graph.Build
import Backprop.Proofs.Monad

namespace Backprop.Graph

variable {α β γ : Type} {n : Nat} {ids : List String} {connections : List Connection}
  {order : List String}

theorem idxOf_map_of_injective [DecidableEq β] [DecidableEq γ] {f : β → γ} (hf : f.Injective)
    (xs : List β) (x : β) : (xs.map f).idxOf (f x) = xs.idxOf x := by
  rw [List.idxOf, List.findIdx_map]
  exact congrArg (xs.findIdx ·) (funext fun _ => hf.beq_eq)

theorem firstRepeated?_eq_none_iff {seen : List String} :
    firstRepeated? seen ids = none ↔ ids.Nodup ∧ ∀ id ∈ ids, id ∉ seen := by
  induction ids generalizing seen with
  | nil => simp [firstRepeated?]
  | cons id ids ih =>
    rw [firstRepeated?]
    by_cases hs : id ∈ seen
    · simp [hs]
    · rw [if_neg hs, ih]
      simp only [List.nodup_cons, List.mem_cons, not_or, forall_eq_or_imp]
      constructor
      · rintro ⟨hn, hi⟩
        exact ⟨⟨fun hm => (hi id hm).1 rfl, hn⟩, hs, fun x hx => (hi x hx).2⟩
      · rintro ⟨⟨hm, hn⟩, -, hi⟩
        exact ⟨hn, fun x hx => ⟨fun he => hm (he ▸ hx), hi x hx⟩⟩

theorem resolveOrder_fresh {mode : Mode} {index : String → Option (Fin n)} {seen is : List (Fin n)}
    (hr : resolveOrder mode index seen order = .ok is) : is.Nodup ∧ ∀ i ∈ is, i ∉ seen := by
  induction order generalizing seen is with
  | nil =>
    cases hr
    exact ⟨List.nodup_nil, nofun⟩
  | cons id ids ih =>
    cases hi : index id with
    | none =>
      cases mode with
      | lenient =>
        simp only [resolveOrder, hi] at hr
        exact ih hr
      | strict => simp [resolveOrder, hi] at hr
    | some i =>
      simp only [resolveOrder, hi] at hr
      split at hr
      · cases mode with
        | lenient => exact ih hr
        | strict => cases hr
      · next hs =>
        obtain ⟨js, hjs, hr⟩ := Except.bind_eq_ok_iff.1 hr
        cases hr
        obtain ⟨hn, hd⟩ := ih hjs
        simp only [List.mem_cons, not_or] at hd
        exact ⟨List.nodup_cons.2 ⟨fun him => (hd i him).1 rfl, hn⟩,
          List.forall_mem_cons.2 ⟨hs, fun j hj => (hd j hj).2⟩⟩

/-- Each number has a name of its own, by which it is found. -/
def Names (index : String → Option (Fin n)) (name : Fin n → String) : Prop :=
  ∀ id i, index id = some i ↔ name i = id

theorem names_of_nodup (nodes : Vector (Node α) n) (h : (nodes.toList.map (·.id)).Nodup) :
    Names (fun id => nodes.findFinIdx? (·.id == id)) fun i => (nodes.get i).id := by
  obtain ⟨nodes, rfl⟩ := nodes
  intro id i
  have hinj (j k : Fin nodes.size) (he : nodes[j].id = nodes[k].id) : j = k := by
    have hj : j < (nodes.toList.map (·.id)).length := by simp
    have hk : k < (nodes.toList.map (·.id)).length := by simp
    have hget : (nodes.toList.map (·.id))[j.val] = (nodes.toList.map (·.id))[k.val] := by
      simpa using he
    exact Fin.ext (h.getElem_inj_iff.1 hget)
  have hf : (⟨nodes, rfl⟩ : Vector (Node α) nodes.size).findFinIdx? (·.id == id) = some i ↔
      nodes.findFinIdx? (·.id == id) = some i := by
    simp
  apply hf.trans
  apply Array.findFinIdx?_eq_some_iff.trans
  constructor
  · intro hi
    exact beq_iff_eq.1 hi.1
  · intro hi
    have hfirst (j : Fin nodes.size) (hj : j < i) : ¬(nodes[j].id == id) = true := by
      intro he
      have hji := hinj j i ((beq_iff_eq.1 he).trans hi.symm)
      exact Fin.ne_of_lt hj hji
    exact ⟨beq_iff_eq.2 hi, hfirst⟩

namespace Names

variable {index : String → Option (Fin n)} {name : Fin n → String}

theorem index_name (h : Names index name) (i : Fin n) : index (name i) = some i :=
  (h _ i).2 rfl

theorem injective (h : Names index name) : name.Injective := by
  intro i j hij
  have hi := h.index_name i
  rw [hij, h.index_name j] at hi
  exact (Option.some.inj hi).symm

/-- A strict build resolves connections between named nodes, and no others. -/
theorem resolveConnections_iff (h : Names index name) {edges : List (Fin n × Fin n)} :
    resolveConnections .strict index connections = .ok edges ↔
      edges.map (fun e => ⟨name e.1, name e.2⟩) = connections := by
  induction connections generalizing edges with
  | nil =>
    rw [resolveConnections, List.map_eq_nil_iff, Except.ok.injEq, eq_comm]
  | cons c cs ih =>
    rw [resolveConnections, List.map_eq_cons_iff]
    constructor
    · intro hr
      split at hr
      · next i j hi hj =>
        obtain ⟨es, hes, hr⟩ := Except.bind_eq_ok_iff.1 hr
        cases hr
        refine ⟨(i, j), es, rfl, ?_, ih.1 hes⟩
        rw [(h _ _).1 hi, (h _ _).1 hj]
      · cases hr
    · rintro ⟨e, es, rfl, rfl, hes⟩
      simp only [h.index_name, ih.2 hes]
      rfl

theorem idxOf_map (h : Names index name) (is : List (Fin n)) (i : Fin n) :
    (is.map name).idxOf (name i) = is.idxOf i :=
  idxOf_map_of_injective h.injective is i

theorem resolveOrder_iff (h : Names index name) {seen is : List (Fin n)} :
    resolveOrder .strict index seen order = .ok is ↔
      is.map name = order ∧ is.Nodup ∧ ∀ i ∈ is, i ∉ seen := by
  induction order generalizing seen is with
  | nil =>
    rw [resolveOrder, List.map_eq_nil_iff, Except.ok.injEq]
    constructor
    · rintro rfl
      exact ⟨rfl, List.nodup_nil, nofun⟩
    · exact fun hi => hi.1.symm
  | cons id ids ih =>
    rw [List.map_eq_cons_iff]
    constructor
    · intro hr
      refine ⟨?_, resolveOrder_fresh hr⟩
      cases hi : index id with
      | none => simp [resolveOrder, hi] at hr
      | some i =>
        simp only [resolveOrder, hi] at hr
        split at hr
        · cases hr
        · obtain ⟨js, hjs, hr⟩ := Except.bind_eq_ok_iff.1 hr
          cases hr
          exact ⟨i, js, rfl, (h _ _).1 hi, (ih.1 hjs).1⟩
    · rintro ⟨⟨i, js, rfl, rfl, hm⟩, hn, hd⟩
      obtain ⟨hij, hn⟩ := List.nodup_cons.1 hn
      obtain ⟨hs, hd⟩ := List.forall_mem_cons.1 hd
      have hfresh : ∀ j ∈ js, j ∉ i :: seen := fun j hj => by
        rw [List.mem_cons, not_or]
        exact ⟨fun he => hij (he ▸ hj), hd j hj⟩
      have hjs := ih.2 ⟨hm, hn, hfresh⟩
      simp only [resolveOrder, h.index_name, if_neg hs, hjs]
      rfl

end Names

theorem standsBefore_iff {is : List (Fin n)} {i j : Fin n} (hi : i ∈ is) (hj : j ∈ is) :
    standsBefore is i j ↔ is.idxOf i < is.idxOf j := by
  have hidx {k : Fin n} (hk : k ∈ is) : is.idxOf? k = some (is.idxOf k) := by
    apply List.idxOf?_eq_some_iff.2
    refine ⟨List.idxOf_lt_length_of_mem hk, List.getElem_idxOf _, ?_⟩
    intro l hl he
    have hne := List.not_of_lt_findIdx hl
    exact absurd (beq_iff_eq.2 he) (Bool.eq_false_iff.1 hne)
  rw [standsBefore, hidx hi, hidx hj]
  exact decide_eq_true_iff

theorem checkOrder_iff {nodes : Vector (Node α) n} {edges : List (Fin n × Fin n)}
    {is : List (Fin n)} :
    checkOrder nodes edges is = .ok () ↔
      (∀ i, i ∈ is) ∧ ∀ e ∈ edges, is.idxOf e.1 < is.idxOf e.2 := by
  rw [checkOrder]
  split
  · next i hi =>
    have hm := List.find?_some hi
    constructor
    · nofun
    · intro h
      simp [h.1 i] at hm
  · next hall =>
    have hall (i : Fin n) : i ∈ is := by
      simpa using List.find?_eq_none.1 hall i (List.mem_finRange i)
    split
    · next source target he =>
      have hb := List.find?_some he
      constructor
      · nofun
      · intro h
        have hlt := h.2 _ (List.mem_of_find?_eq_some he)
        simp [(standsBefore_iff (hall source) (hall target)).2 hlt] at hb
    · next he =>
      have hforward : ∀ e ∈ edges, is.idxOf e.1 < is.idxOf e.2 := by
        intro e hm
        have hb := List.find?_eq_none.1 he e hm
        exact (standsBefore_iff (hall _) (hall _)).1 (by simpa using hb)
      exact iff_of_true rfl ⟨hall, hforward⟩

def vectorOf {β : Type} (xs : List β) : Vector β xs.length :=
  ⟨xs.toArray, List.size_toArray⟩

def number? (nodes : Vector (Node α) n) (id : String) : Option (Fin n) :=
  nodes.findFinIdx? (·.id == id)

def assemble (nodes : Vector (Node α) n) (connections : List Connection) (options : Options)
    (edges : List (Fin n × Fin n)) (order : List (Fin n)) : Graph α where
  size := n
  nodes := nodes
  order := order
  incoming := Vector.ofFn fun i => edges.filterMap fun e => if e.2 = i then some e.1 else none
  hasDeclaredInputs := nodes.map fun node => connections.any (·.target == node.id)
  output := number? nodes options.output
  mode := options.mode

theorem build_iff {nodes : List (Node α)} {options : Options} {g : Graph α} :
    build nodes connections order options = .ok g ↔ (nodes.map (·.id)).Nodup ∧ ∃ edges is,
      resolveConnections options.mode (number? (vectorOf nodes)) connections = .ok edges ∧
      resolveOrder options.mode (number? (vectorOf nodes)) [] order = .ok is ∧
      (options.mode = .strict → checkOrder (vectorOf nodes) edges is = .ok ()) ∧
      assemble (vectorOf nodes) connections options edges is = g := by
  have hn : firstRepeated? [] (nodes.map (·.id)) = none ↔ (nodes.map (·.id)).Nodup := by
    rw [firstRepeated?_eq_none_iff]
    simp
  rw [build, ← hn]
  cases firstRepeated? [] (nodes.map (·.id)) with
  | some id => exact ⟨nofun, fun h => nomatch h.1⟩
  | none =>
    rw [and_iff_right rfl]
    refine Except.bind_eq_ok_iff.trans (exists_congr fun edges => ?_)
    rw [exists_and_left]
    refine and_congr_right fun _ => ?_
    refine Except.bind_eq_ok_iff.trans (exists_congr fun is => and_congr_right fun _ => ?_)
    by_cases hm : options.mode = .strict
    · rw [forall_prop_of_true hm, if_pos hm]
      refine Except.bind_eq_ok_iff.trans ⟨fun ⟨_, hc, ho⟩ => ⟨hc, Except.ok.inj ho⟩,
        fun ⟨hc, ho⟩ => ⟨(), hc, congrArg Except.ok ho⟩⟩
    · rw [if_neg hm]
      exact ⟨fun ho => ⟨fun h => absurd h hm, Except.ok.inj ho⟩, fun h => congrArg Except.ok h.2⟩

theorem names_number? {nodes : List (Node α)} (h : (nodes.map (·.id)).Nodup) :
    Names (number? (vectorOf nodes)) fun i => nodes[i].id :=
  names_of_nodup (vectorOf nodes) h

theorem map_id_eq (nodes : List (Node α)) :
    nodes.map (·.id) = (List.finRange nodes.length).map fun i => nodes[i].id := by
  apply List.ext_getElem <;> simp

theorem build_order_nodup {nodes : List (Node α)} {options : Options} {g : Graph α}
    (h : build nodes connections order options = .ok g) : g.order.Nodup := by
  obtain ⟨_, edges, is, _, his, _, rfl⟩ := build_iff.1 h
  exact (resolveOrder_fresh his).1

end Backprop.Graph
