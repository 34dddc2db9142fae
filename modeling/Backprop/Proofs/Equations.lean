import Backprop.Proofs.Graph.Build
import Backprop.Proofs.Interpreter

namespace Backprop

variable {α β : Type}

theorem get_place {n : Nat} (values : Vector (Option α) n) (i j : Fin n) (x : α) :
    (place values i x).get j = if i = j then some x else values.get j := by
  rw [place, Vector.get_eq_getElem, Vector.getElem_set]
  simp only [Fin.val_inj]
  rfl

theorem ext_get {n : Nat} {v w : Vector α n} (h : ∀ i, v.get i = w.get i) : v = w := by
  apply Vector.ext
  intro i hi
  exact h ⟨i, hi⟩

namespace Graph

section

variable {n : Nat} {order front back : List (Fin n)} {i j : Fin n}

theorem standsBefore_inv (h : standsBefore order i j) :
    i ∈ order ∧ j ∈ order ∧ order.idxOf i < order.idxOf j := by
  have hmem {k : Fin n} (hk : order.idxOf? k ≠ none) : k ∈ order := by
    simpa using hk
  have hi : i ∈ order := by
    apply hmem
    intro hi
    simp [standsBefore, hi] at h
  have hj : j ∈ order := by
    apply hmem
    intro hj
    simp [standsBefore, hj] at h
  exact ⟨hi, hj, (standsBefore_iff hi hj).1 h⟩

theorem standsBefore_split (hn : (front ++ i :: back).Nodup) :
    standsBefore (front ++ i :: back) j i ↔ j ∈ front := by
  have hi : i ∈ front ++ i :: back := by
    simp
  have hfront : i ∉ front := by
    intro hi
    obtain ⟨_, _, hdisjoint⟩ := List.nodup_append.1 hn
    exact hdisjoint i hi i List.mem_cons_self rfl
  have hlength : (front ++ i :: back).idxOf i = front.length := by
    rw [List.idxOf_append_of_notMem hfront, List.idxOf_cons_self, Nat.add_zero]
  constructor
  · intro h
    obtain ⟨_, _, hlt⟩ := standsBefore_inv h
    rw [hlength] at hlt
    by_contra hj
    rw [List.idxOf_append_of_notMem hj] at hlt
    omega
  · intro hj
    apply (standsBefore_iff (List.mem_append_left _ hj) hi).2
    rw [hlength, List.idxOf_append_of_mem hj]
    exact List.idxOf_lt_length_of_mem hj

end

/-- What is known of the values when it is the turn of a node. -/
def known {n : Nat} (order : List (Fin n)) (i : Fin n) (values : Vector (Option α) n) :
    Vector (Option α) n :=
  Vector.ofFn fun j => if standsBefore order j i then values.get j else none

theorem get_known {n : Nat} (order : List (Fin n)) (i j : Fin n) (values : Vector (Option α) n) :
    (known order i values).get j = if standsBefore order j i then values.get j else none :=
  Vector.getElem_ofFn j.isLt

theorem known_congr {n : Nat} {order : List (Fin n)} {i : Fin n} {v w : Vector (Option α) n}
    (h : ∀ j, standsBefore order j i → v.get j = w.get j) : known order i v = known order i w := by
  apply ext_get
  intro j
  rw [get_known, get_known]
  split
  · next hj => exact h j hj
  · rfl

variable [Scalar α] {g : Graph β} {env : Env α g.size} {v w : Vector (Option α) g.size}

/-- An evaluated node is worth what follows from the nodes before it; the others are not worth
anything. -/
def Solves (g : Graph β) (env : Env α g.size) (v : Vector (Option α) g.size) : Prop :=
  ∀ i, v.get i = if i ∈ g.order then some (g.nodeValue env (known g.order i v) i) else none

theorem nodeValue_congr {i : Fin g.size} (h : ∀ j ∈ g.incoming.get i, v.get j = w.get j) :
    g.nodeValue env v i = g.nodeValue env w i := by
  have hsum : g.incomingSum v i = g.incomingSum w i := by
    rw [incomingSum, incomingSum, List.filterMap_congr h]
  rw [nodeValue, nodeValue, hsum]

theorem valuesAfter_append (env : Env α g.size) (front back : List (Fin g.size))
    (v : Vector (Option α) g.size) :
    g.valuesAfter env (front ++ back) v = g.valuesAfter env back (g.valuesAfter env front v) := by
  induction front generalizing v with
  | nil => rfl
  | cons i front ih => exact ih _

theorem get_valuesAfter {is : List (Fin g.size)} {j : Fin g.size} (hj : j ∉ is) :
    (g.valuesAfter env is v).get j = v.get j := by
  induction is generalizing v with
  | nil => rfl
  | cons i is ih =>
    rw [List.mem_cons, not_or] at hj
    obtain ⟨hi, his⟩ := hj
    rw [valuesAfter, ih his, get_place, if_neg (Ne.symm hi)]

theorem solves_values (hn : g.order.Nodup) (env : Env α g.size) : g.Solves env (g.values env) := by
  intro i
  by_cases hi : i ∈ g.order
  · rw [if_pos hi]
    obtain ⟨front, back, ho⟩ := List.append_of_mem hi
    let before := g.valuesAfter env front (Vector.replicate g.size none)
    have hvalues : g.values env =
        g.valuesAfter env back (place before i (g.nodeValue env before i)) := by
      rw [values, ho, valuesAfter_append]
      rfl
    rw [ho] at hn
    obtain ⟨_, hback, hdisjoint⟩ := List.nodup_append.1 hn
    -- What is known at the turn of `i` is what the nodes in front of it have left.
    have hknown : known g.order i (g.values env) = before := by
      apply ext_get
      intro j
      rw [get_known, ho]
      simp only [standsBefore_split hn]
      split
      · next hj =>
        have hne := hdisjoint j hj
        rw [hvalues, get_valuesAfter fun hm => hne j (List.mem_cons_of_mem i hm) rfl, get_place,
          if_neg (Ne.symm (hne i List.mem_cons_self))]
      · next hj =>
        rw [get_valuesAfter hj, Vector.get_replicate]
    rw [hknown, hvalues, get_valuesAfter (List.nodup_cons.1 hback).1, get_place, if_pos rfl]
  · rw [if_neg hi, values, get_valuesAfter hi, Vector.get_replicate]

theorem Solves.unique (hv : g.Solves env v) (hw : g.Solves env w) : v = w := by
  apply ext_get
  intro i
  induction hk : g.order.idxOf i using Nat.strong_induction_on generalizing i with
  | _ k ih =>
    have hknown : known g.order i v = known g.order i w := by
      apply known_congr
      intro j hj
      obtain ⟨_, _, hlt⟩ := standsBefore_inv hj
      exact ih _ (hk ▸ hlt) j rfl
    rw [hv i, hw i, hknown]

theorem solves_iff (hn : g.order.Nodup) : g.Solves env v ↔ v = g.values env := by
  constructor
  · intro hv
    exact hv.unique (solves_values hn env)
  · rintro rfl
    exact solves_values hn env

/-- Every node is evaluated, once, and after all nodes that it is connected from. -/
structure Forward (g : Graph β) : Prop where
  nodup : g.order.Nodup
  complete : ∀ i, i ∈ g.order
  forward : ∀ i, ∀ j ∈ g.incoming.get i, standsBefore g.order j i

theorem Forward.values_eq_iff (h : g.Forward) :
    v = g.values env ↔ ∀ i, v.get i = some (g.nodeValue env v i) := by
  have hnode (i : Fin g.size) : g.nodeValue env (known g.order i v) i = g.nodeValue env v i := by
    apply nodeValue_congr
    intro j hj
    rw [get_known, if_pos (h.forward i j hj)]
  rw [← solves_iff h.nodup, Solves]
  simp only [h.complete, if_true, hnode]

abbrev rearrange (g : Graph β) (incoming : Vector (List (Fin g.size)) g.size)
    (order : List (Fin g.size)) : Graph β :=
  { g with incoming, order }

section Rearrange

variable {incoming : Vector (List (Fin g.size)) g.size} {order : List (Fin g.size)}

def SameSums (α : Type) [Scalar α] (g : Graph β) (incoming : Vector (List (Fin g.size)) g.size) :
    Prop :=
  ∀ (v : Vector (Option α) g.size) (i : Fin g.size),
    (g.rearrange incoming g.order).incomingSum v i = g.incomingSum v i

/-- Values do not depend on the order as long as sums do not. -/
theorem Forward.values_rearrange (h : g.Forward) (h' : (g.rearrange incoming order).Forward)
    (hsum : g.SameSums α incoming) (env : Env α g.size) :
    (g.rearrange incoming order).values env = g.values env := by
  symm
  apply h'.values_eq_iff.2
  intro i
  have hi : (g.rearrange incoming order).incomingSum (g.values env) i =
      g.incomingSum (g.values env) i :=
    hsum _ i
  have hnode : (g.rearrange incoming order).nodeValue env (g.values env) i =
      g.nodeValue env (g.values env) i := by
    rw [nodeValue, nodeValue, hi]
    rfl
  rw [hnode]
  exact h.values_eq_iff.1 rfl i

theorem Forward.squaredError_rearrange (h : g.Forward)
    (h' : (g.rearrange incoming order).Forward) (hsum : g.SameSums α incoming)
    (env : Env α g.size) (expected : α) :
    (g.rearrange incoming order).squaredError env expected = g.squaredError env expected := by
  rw [squaredError, squaredError, prediction, prediction, h.values_rearrange h' hsum]

theorem Forward.loss_rearrange (h : g.Forward) (h' : (g.rearrange incoming order).Forward)
    (hsum : g.SameSums α incoming) (cases : List (Env α g.size × α)) :
    (g.rearrange incoming order).loss cases = g.loss cases := by
  rw [loss, loss]
  simp only [h.squaredError_rearrange h' hsum]

end Rearrange

end Graph

end Backprop
