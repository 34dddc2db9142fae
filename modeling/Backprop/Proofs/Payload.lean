import Backprop.Proofs.Monad
import Backprop.Proofs.Graph.Build
import Backprop.Proofs.Json.Number
import Backprop.Request.Payload

namespace Backprop

open Json (Document Numeral)

namespace Json.Document

variable {d : Document} {x : Float} {β : Type} {default : β} {read? : Document → Option β}
  {P : β → Prop}

theorem isFinite_float? (h : d.float? = some x) : x.isFinite := by
  rw [float?.eq_def] at h
  split at h
  · obtain ⟨n, hn, rfl⟩ := Option.map_eq_some_iff.1 h
    exact Numeral.isFinite_number? hn
  · cases h

theorem nat?_lt {n : ℕ} (h : d.nat? = some n) : n < 2 ^ 64 := by
  rw [nat?] at h
  split at h
  · next k hk =>
    cases h
    rw [whole?.eq_def] at hk
    split at hk
    · split at hk
      · next hn =>
        cases hk
        exact Numeral.whole_lt hn
      · cases hk
    · cases hk
  · cases h

theorem nullable?_inv {y : Option β} (h : nullable? read? d = some y) :
    ∀ x ∈ y, ∃ d, read? d = some x := by
  rw [nullable?.eq_def] at h
  split at h
  · cases h
    nofun
  · obtain ⟨x, hx, rfl⟩ := Option.map_eq_some_iff.1 h
    rintro _ ⟨⟩
    exact ⟨_, hx⟩

/-- What holds of the default and of everything that is read holds of a field. -/
theorem fieldOr?_inv {field : Option Document} {b : β} (h : fieldOr? default read? field = some b)
    (hdefault : P default) (hread : ∀ d b, read? d = some b → P b) : P b := by
  cases field with
  | none =>
    cases h
    exact hdefault
  | some d => exact hread d b h

theorem members?_inv {ms : List (String × β)} (h : d.members? read? = some ms) :
    ∀ m ∈ ms, ∃ d, read? d = some m.2 := by
  rw [members?.eq_def] at h
  split at h
  · intro m hm
    obtain ⟨⟨key, d⟩, _, hd⟩ := Option.exists_of_mem_mapM h m hm
    obtain ⟨k, _, hd⟩ := Option.bind_eq_some_iff.1 hd
    obtain ⟨b, hb, hd⟩ := Option.bind_eq_some_iff.1 hd
    cases hd
    exact ⟨d, hb⟩
  · cases h

end Json.Document

open Json.Document

theorem NodeRequest.isFinite_value {d : Document} {n : NodeRequest}
    (h : NodeRequest.ofDocument? d = some n) : ∀ x ∈ n.value, x.isFinite := by
  obtain ⟨fields, _, h⟩ := Option.bind_eq_some_iff.1 h
  obtain ⟨kind, _, h⟩ := Option.bind_eq_some_iff.1 h
  obtain ⟨label, _, h⟩ := Option.bind_eq_some_iff.1 h
  obtain ⟨activation, _, h⟩ := Option.bind_eq_some_iff.1 h
  obtain ⟨value, hvalue, h⟩ := Option.bind_eq_some_iff.1 h
  cases h
  refine fieldOr?_inv (P := fun y => ∀ x ∈ y, x.isFinite) hvalue nofun fun d y hy x hx => ?_
  obtain ⟨d, hd⟩ := nullable?_inv hy x hx
  exact isFinite_float? hd

namespace TrainRequest

variable {r : TrainRequest}

/-- The numbers that can be seen in a report on no epochs. -/
structure Bounded (r : TrainRequest) : Prop where
  values : ∀ n ∈ r.nodes, ∀ x ∈ n.2.value, x.isFinite
  epochs : r.epochs < 2 ^ 64

theorem bounded_ofDocument? {d : Document} (h : ofDocument? d = some r) : r.Bounded := by
  obtain ⟨fields, _, h⟩ := Option.bind_eq_some_iff.1 h
  obtain ⟨nodes, hnodes, h⟩ := Option.bind_eq_some_iff.1 h
  obtain ⟨connections, _, h⟩ := Option.bind_eq_some_iff.1 h
  obtain ⟨trainingData, _, h⟩ := Option.bind_eq_some_iff.1 h
  obtain ⟨learningRate, _, h⟩ := Option.bind_eq_some_iff.1 h
  obtain ⟨epochs, hepochs, h⟩ := Option.bind_eq_some_iff.1 h
  obtain ⟨inputLabels, _, h⟩ := Option.bind_eq_some_iff.1 h
  obtain ⟨topologicalOrder, _, h⟩ := Option.bind_eq_some_iff.1 h
  obtain ⟨outputNode, _, h⟩ := Option.bind_eq_some_iff.1 h
  obtain ⟨lenient, _, h⟩ := Option.bind_eq_some_iff.1 h
  cases h
  refine ⟨fun n hn => ?_, ?_⟩
  · obtain ⟨d, _, hnodes⟩ := Option.bind_eq_some_iff.1 hnodes
    obtain ⟨d, hd⟩ := members?_inv hnodes n hn
    exact NodeRequest.isFinite_value hd
  · exact fieldOr?_inv (P := (· < 2 ^ 64)) hepochs (by decide) fun d n => nat?_lt

theorem bounded_ofJson {payload : String} (h : ofJson payload = .ok r) : r.Bounded := by
  rw [ofJson] at h
  split at h
  · next hd =>
    cases h
    obtain ⟨d, _, hd⟩ := Option.bind_eq_some_iff.1 hd
    exact bounded_ofDocument? hd
  · cases h

end TrainRequest

theorem Node.ofNames_inv {α : Type} {lenient : Bool} {id kind : String}
    {label activation : Option String} {initial : α} {n : Node α}
    (h : Node.ofNames lenient id kind label activation initial = .ok n) :
    n.id = id ∧ NodeKind.ofName? kind = some n.kind ∧ n.initial = initial := by
  cases hk : NodeKind.ofName? kind with
  | none =>
    simp only [Node.ofNames, hk] at h
    cases h
  | some k =>
    cases activation with
    | none =>
      simp only [Node.ofNames, hk] at h
      cases h
      exact ⟨rfl, rfl, rfl⟩
    | some name =>
      simp only [Node.ofNames, hk] at h
      split at h
      · cases h
        exact ⟨rfl, rfl, rfl⟩
      · split at h
        · cases h
          exact ⟨rfl, rfl, rfl⟩
        · cases h

theorem Graph.node_mem_of_build {α : Type} {nodes : List (Node α)} {connections : List Connection}
    {order : List String} {options : Options} {g : Graph α}
    (h : build nodes connections order options = .ok g) (i : Fin g.size) : g.node i ∈ nodes := by
  obtain ⟨_, _, _, _, _, _, rfl⟩ := build_iff.1 h
  exact List.getElem_mem i.isLt

theorem TrainRequest.Bounded.isFinite_initial {r : TrainRequest} (hr : r.Bounded) {g : Graph Float}
    (h : r.graph = .ok g) (i : Fin g.size) : (g.node i).initial.isFinite := by
  obtain ⟨nodes, hnodes, hbuild⟩ := Except.bind_eq_ok_iff.1 h
  obtain ⟨⟨id, node⟩, hm, hn⟩ :=
    Except.exists_of_mem_mapM hnodes _ (Graph.node_mem_of_build hbuild i)
  rw [(Node.ofNames_inv hn).2.2]
  cases hv : node.value with
  | none => decide +kernel
  | some x => exact hr.values _ hm x hv

end Backprop
