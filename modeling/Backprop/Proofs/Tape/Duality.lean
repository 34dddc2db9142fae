import Backprop.Proofs.Exact
import Backprop.Proofs.Tape.Backward
import Backprop.Proofs.Tape.Reading

namespace Backprop.Tape

open Finset (range)

variable {K : Type} [ExactScalar K] {t : Tape K}

def localTangent (t : Tape K) (e : Entry K) (d : Handle → K) : K :=
  match e.op with
  | .constant | .parameter _ => 0
  | .sum args => (args.map d).sum
  | .mul left right => d left * t.valueAt right + t.valueAt left * d right
  | .activate activation arg =>
    let x := t.valueAt arg
    Scalar.slope activation x (Scalar.activate activation x) * d arg
  | .squaredError prediction expected => 2 * (t.valueAt prediction - expected) * d prediction
  | .mean args => if args = [] then 0 else (args.map d).sum / args.length

/-- Forward mode from entry `v`, for the first `n` entries: entry `v` has tangent 1, all others up
to it have tangent 0, and every later one follows the rule of its operation. -/
def tangents (t : Tape K) (v : Handle) : (n : Nat) → Array K
  | 0 => #[]
  | n + 1 =>
    let earlier := t.tangents v n
    earlier.push <|
      if n < v then 0
      else if n = v then 1
      else (t.entries[n]?).elim 0 fun e => t.localTangent e fun u => earlier[u]?.getD 0

def tangent (t : Tape K) (v h : Handle) : K :=
  (t.tangents v (h + 1))[h]?.getD 0

theorem size_tangents (t : Tape K) (v n : Nat) : (t.tangents v n).size = n := by
  induction n with
  | zero => rfl
  | succ n ih => rw [tangents, Array.size_push, ih]

theorem getElem?_tangents (t : Tape K) (v : Handle) {n u : Nat} (hu : u < n) :
    (t.tangents v n)[u]?.getD 0 = t.tangent v u := by
  induction n with
  | zero => exact absurd hu (Nat.not_lt_zero u)
  | succ n ih =>
    by_cases hn : u = n
    · subst hn
      rfl
    · have hlt : u < n := Nat.lt_of_le_of_ne (Nat.le_of_lt_succ hu) hn
      rw [tangents, Array.getElem?_push_lt (by rwa [size_tangents]), ← ih hlt,
        Array.getElem?_eq_getElem]

theorem localTangent_congr {e : Entry K} {d d' : Handle → K}
    (h : ∀ u ∈ e.op.operands, d u = d' u) : t.localTangent e d = t.localTangent e d' := by
  cases e with
  | mk op x =>
    cases op with
    | constant => rfl
    | parameter id => rfl
    | sum args => exact congrArg List.sum (List.map_congr_left h)
    | mul left right =>
      have hl := h left (by simp [Op.operands])
      have hr := h right (by simp [Op.operands])
      simp only [localTangent, hl, hr]
    | activate activation arg =>
      have ha := h arg (by simp [Op.operands])
      simp only [localTangent, ha]
    | squaredError prediction expected =>
      have hp := h prediction (by simp [Op.operands])
      simp only [localTangent, hp]
    | mean args =>
      have hs : (args.map d).sum = (args.map d').sum :=
        congrArg List.sum (List.map_congr_left h)
      simp only [localTangent, hs]

theorem tangent_before {v h : Handle} (hv : h < v) : t.tangent v h = 0 := by
  rw [tangent, tangents, Array.getElem?_push, if_pos (size_tangents ..).symm, if_pos hv,
    Option.getD_some]

theorem tangent_self (v : Handle) : t.tangent v v = 1 := by
  rw [tangent, tangents, Array.getElem?_push, if_pos (size_tangents ..).symm,
    if_neg (Nat.lt_irrefl v), if_pos rfl, Option.getD_some]

theorem tangent_after (hw : t.WellFormed) {v h : Handle} (hv : v < h) {e : Entry K}
    (he : t.entries[h]? = some e) : t.tangent v h = t.localTangent e (t.tangent v) := by
  rw [tangent, tangents, Array.getElem?_push, if_pos (size_tangents ..).symm,
    if_neg (Nat.not_lt_of_gt hv), if_neg (Nat.ne_of_gt hv), he, Option.getD_some, Option.elim_some]
  exact localTangent_congr fun u hu => getElem?_tangents t v (hw h e he u hu)

theorem localTangent_zero (e : Entry K) : t.localTangent e (fun _ => 0) = 0 := by
  cases e with
  | mk op x => cases op <;> simp [localTangent]

/-- Forward mode from `v` is the rule of every operation, with 1 added at `v`. -/
theorem tangent_eq (hw : t.WellFormed) (v : Handle) {h : Handle} {e : Entry K}
    (he : t.entries[h]? = some e) :
    t.tangent v h = t.localTangent e (t.tangent v) + if h = v then 1 else 0 := by
  have early (hv : h ≤ v) : t.localTangent e (t.tangent v) = 0 := by
    rw [← localTangent_zero (t := t) e]
    exact localTangent_congr fun u hu => tangent_before (Nat.lt_of_lt_of_le (hw h e he u hu) hv)
  rcases Nat.lt_trichotomy h v with hv | rfl | hv
  · rw [tangent_before hv, early (Nat.le_of_lt hv), if_neg (Nat.ne_of_lt hv), add_zero]
  · rw [tangent_self, early (Nat.le_refl _), if_pos rfl, zero_add]
  · rw [tangent_after hw hv he, if_neg (Nat.ne_of_gt hv), add_zero]

theorem sum_shares {e : Entry K} (hv : e.value = e.call.result t.valueAt) (a : K)
    (d : Handle → K) :
    ((t.shares e a).map fun c => c.2 * d c.1).sum = a * t.localTangent e d := by
  have same (b : K) (args : List Handle) :
      ((args.map (·, b)).map fun c : Handle × K => c.2 * d c.1).sum = b * (args.map d).sum := by
    rw [List.map_map, ← List.sum_map_mul_left]
    rfl
  cases e with
  | mk op x =>
    cases op with
    | constant => simp [shares, localTangent]
    | parameter id => simp [shares, localTangent]
    | sum args => exact same a args
    | mul left right =>
      simp only [shares, localTangent, List.map_cons, List.map_nil, List.sum_cons, List.sum_nil]
      ring
    | activate activation arg =>
      have hx : x = Scalar.activate activation (t.valueAt arg) := hv
      simp only [shares, localTangent, hx, List.map_cons, List.map_nil, List.sum_cons,
        List.sum_nil]
      ring
    | squaredError prediction expected =>
      simp only [shares, localTangent, List.map_cons, List.map_nil, List.sum_cons, List.sum_nil]
      ring
    | mean args =>
      simp only [shares, localTangent, same]
      split
      · next h => simp [h]
      · ring

theorem adjointOf_modify {adjoints : Array K} {h : Handle} (hh : h < adjoints.size) (x : K)
    (u : Handle) :
    adjointOf (adjoints.modify h (· + x)) u = adjointOf adjoints u + if u = h then x else 0 := by
  rw [adjointOf, adjointOf, Array.getElem?_modify]
  by_cases hu : h = u
  · subst hu
    rw [if_pos rfl, if_pos rfl, Array.getElem?_eq_getElem hh]
    rfl
  · rw [if_neg hu, if_neg (Ne.symm hu), add_zero]

theorem sum_adjointOf_addAll {adjoints : Array K} {items : List (Handle × K)} {n : Nat}
    (hi : ∀ item ∈ items, item.1 < n) (hn : n ≤ adjoints.size) (d : Handle → K) :
    ∑ u ∈ range n, adjointOf (addAll adjoints items) u * d u =
      ∑ u ∈ range n, adjointOf adjoints u * d u + (items.map fun c => c.2 * d c.1).sum := by
  induction items generalizing adjoints with
  | nil => simp [addAll]
  | cons item items ih =>
    obtain ⟨h, his⟩ := List.forall_mem_cons.1 hi
    have hsize : n ≤ (adjoints.modify item.1 (· + item.2)).size := by rwa [Array.size_modify]
    have hone : ∑ u ∈ range n, (if u = item.1 then item.2 else 0) * d u = item.2 * d item.1 := by
      simp [ite_mul, h]
    apply (ih his hsize).trans
    simp only [adjointOf_modify (Nat.lt_of_lt_of_le h hn), add_mul, Finset.sum_add_distrib, hone,
      List.map_cons, List.sum_cons, add_assoc]

/-- The sweep hands on to the summands `s` what it finds at the tangents `d`. -/
theorem sweep_dual (ht : t.Recorded) {d s : Handle → K} {n : Nat}
    (hd : ∀ (h : Handle) (e : Entry K), h < n → t.entries[h]? = some e →
      d h = t.localTangent e d + s h)
    {adjoints after : Array K} (hn : n ≤ t.size) (ha : n ≤ adjoints.size)
    (hs : t.sweep n adjoints = .ok after) :
    ∑ u ∈ range n, adjointOf after u * s u = ∑ u ∈ range n, adjointOf adjoints u * d u ∧
      ∀ u, n ≤ u → adjointOf after u = adjointOf adjoints u := by
  have hw := ht.wellFormed
  induction n generalizing adjoints with
  | zero =>
    cases hs
    exact ⟨rfl, fun _ _ => rfl⟩
  | succ n ih =>
    obtain ⟨e, he⟩ := exists_entry hn
    -- What this entry passes on reaches earlier entries only, so its own adjoint is final.
    let passed := t.shares e (adjointOf adjoints n)
    have hlt : ∀ c ∈ passed, c.1 < n := fun c hc => hw n e he _ (mem_operands_of_mem_shares hc)
    have hkeep : ∀ u, n ≤ u → adjointOf (addAll adjoints passed) u = adjointOf adjoints u :=
      fun u hu => adjointOf_addAll fun c hc => Nat.ne_of_lt (Nat.lt_of_lt_of_le (hlt c hc) hu)
    have hval : e.value = e.call.result t.valueAt := by
      rw [← valueAt_eq he, ht.reads_valueAt n e he, Call.translate_refl]
    rw [sweep, propagate_eq hw he ha] at hs
    obtain ⟨hsum, hafter⟩ := ih (fun h e hh => hd h e (Nat.lt_succ_of_lt hh)) (Nat.le_of_lt hn)
      (by rw [size_addAll]; exact Nat.le_of_lt ha) hs
    refine ⟨?_, fun u hu => (hafter u (Nat.le_of_lt hu)).trans (hkeep u (Nat.le_of_lt hu))⟩
    rw [Finset.sum_range_succ, Finset.sum_range_succ, hsum, hafter n (Nat.le_refl n),
      hkeep n (Nat.le_refl n), sum_adjointOf_addAll hlt (Nat.le_of_lt ha), sum_shares hval,
      hd n e (Nat.lt_succ_self n) he]
    ring

theorem sum_rootAdjoints (root : Handle) (d : Handle → K) :
    ∑ u ∈ range (root + 1), adjointOf (rootAdjoints root) u * d u = d root := by
  have hroot (u : Handle) (hu : u ≤ root) :
      adjointOf (rootAdjoints root : Array K) u = if u = root then 1 else 0 := by
    rw [adjointOf, rootAdjoints, Array.getElem?_push, Array.size_replicate]
    split
    · rfl
    · next h => simp [Nat.lt_of_le_of_ne hu h]
  rw [Finset.sum_congr rfl fun u hu => by rw [hroot u (Finset.mem_range_succ_iff.1 hu)]]
  simp

/-- Adjoints measure how much the root gains from what is added to the tangents of entries. -/
theorem backward_dual (ht : t.Recorded) {root : Handle} (hr : root < t.size) {d s : Handle → K}
    (hd : ∀ (h : Handle) (e : Entry K), h ≤ root → t.entries[h]? = some e →
      d h = t.localTangent e d + s h)
    {adjoints : Array K} (hb : t.backward root = .ok adjoints) :
    ∑ u ∈ range (root + 1), adjointOf adjoints u * s u = d root := by
  rw [backward_eq hr] at hb
  have hsize : root + 1 ≤ (rootAdjoints root : Array K).size :=
    Nat.le_of_eq (size_rootAdjoints root).symm
  rw [← sum_rootAdjoints root d]
  exact (sweep_dual ht (fun h e hh => hd h e (Nat.le_of_lt_succ hh)) hr hsize hb).1

/-- Reverse mode is forward mode: the adjoint of an entry up to the root is the tangent of the root
in forward mode from that entry, and entries beyond the root have none. -/
theorem adjointOf_backward (ht : t.Recorded) {root : Handle} (hr : root < t.size) :
    ∃ adjoints, t.backward root = .ok adjoints ∧
      (∀ v ≤ root, adjointOf adjoints v = t.tangent v root) ∧
      ∀ v > root, adjointOf adjoints v = 0 := by
  obtain ⟨adjoints, hb, hsize⟩ := backward_ok ht.wellFormed hr
  refine ⟨adjoints, hb, fun v hv => ?_, fun v hv => ?_⟩
  · have hd := backward_dual ht hr (fun h e _ he => tangent_eq ht.wellFormed v he) hb
    rw [← hd]
    simp [Nat.lt_succ_of_le hv]
  · have hnone : adjoints[v]? = none := Array.getElem?_eq_none (by rw [hsize]; exact hv)
    rw [adjointOf, hnone, Option.getD_none]

/-- A parameter that is read by a sum twice and by a product beside it; the last entry lies beyond
the root. -/
theorem adjointOf_backward_fan_out :
    let t : Tape ℚ := ⟨#[⟨.parameter 0, 3⟩, ⟨.sum [0, 0], 6⟩, ⟨.mul 1 0, 18⟩,
      ⟨.squaredError 2 17, 1⟩]⟩
    t.Recorded ∧ 2 < t.size ∧ ∃ adjoints, t.backward 2 = .ok adjoints ∧
      (∀ v ≤ 2, adjointOf adjoints v = t.tangent v 2) ∧ ∀ v > 2, adjointOf adjoints v = 0 := by
  intro t
  have h₁ := (Grows.refl : (empty : Tape ℚ).Grows (fun _ => True) _).push (c := .parameter 0 3)
    (by decide) trivial
  have h₂ := h₁.push (c := .sum [0, 0]) (by decide) trivial
  have h₃ := h₂.push (c := .mul 1 0) (by decide) trivial
  have h₄ := h₃.push (c := .squaredError 2 17) (by decide) trivial
  have ht : t.Recorded := by
    unfold Recorded
    convert h₄ using 1
    decide +kernel
  exact ⟨ht, by decide, adjointOf_backward ht (by decide)⟩

end Backprop.Tape
