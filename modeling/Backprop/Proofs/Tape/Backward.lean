import Backprop.Proofs.Tape.Call
import Backprop.Tape.Backward

namespace Backprop.Tape

variable {α : Type} [Scalar α]

/-- What an entry passes on when all its operands are on the tape. -/
def shares (t : Tape α) (e : Entry α) (a : α) : List (Handle × α) :=
  match e.op with
  | .constant | .parameter _ => []
  | .sum args => args.map (·, a)
  | .mul left right => [(left, a * t.valueAt right), (right, a * t.valueAt left)]
  | .activate activation arg => [(arg, a * Scalar.slope activation (t.valueAt arg) e.value)]
  | .squaredError prediction expected =>
    [(prediction, a * ((1 + 1) * (t.valueAt prediction - expected)))]
  | .mean args => args.map (·, a / (args.length : α))

theorem contributions_eq {t : Tape α} {e : Entry α} (h : ∀ u ∈ e.op.operands, u < t.size) (a : α) :
    t.contributions e a = .ok (t.shares e a) := by
  cases e with
  | mk op x =>
    cases op with
    | constant => rfl
    | parameter id => rfl
    | sum args => rfl
    | mul left right =>
      obtain ⟨hl, hr⟩ := List.forall_mem_cons.1 h
      simp only [contributions, shares, value_eq hl, value_eq (hr right (List.mem_singleton_self _))]
      rfl
    | activate activation arg =>
      simp only [contributions, shares, value_eq (h arg (List.mem_singleton_self _))]
      rfl
    | squaredError prediction expected =>
      simp only [contributions, shares, value_eq (h prediction (List.mem_singleton_self _))]
      rfl
    | mean args => rfl

theorem mem_operands_of_mem_shares {t : Tape α} {e : Entry α} {a : α} {c : Handle × α}
    (hc : c ∈ t.shares e a) : c.1 ∈ e.op.operands := by
  cases e with
  | mk op x =>
    cases op with
    | constant => cases hc
    | parameter id => cases hc
    | sum args =>
      obtain ⟨u, hu, rfl⟩ := List.mem_map.1 hc
      exact hu
    | mul left right =>
      simp only [shares, List.mem_cons, List.not_mem_nil, or_false] at hc
      rcases hc with rfl | rfl <;> simp [Op.operands]
    | activate activation arg =>
      cases List.mem_singleton.1 hc
      exact List.mem_singleton_self _
    | squaredError prediction expected =>
      cases List.mem_singleton.1 hc
      exact List.mem_singleton_self _
    | mean args =>
      obtain ⟨u, hu, rfl⟩ := List.mem_map.1 hc
      exact hu

def addAll (adjoints : Array α) (items : List (Handle × α)) : Array α :=
  items.foldl (fun adjoints item => adjoints.modify item.1 (· + item.2)) adjoints

theorem size_addAll (adjoints : Array α) (items : List (Handle × α)) :
    (addAll adjoints items).size = adjoints.size := by
  induction items generalizing adjoints with
  | nil => rfl
  | cons item items ih =>
    have h := ih (adjoints.modify item.1 (· + item.2))
    rwa [Array.size_modify] at h

theorem foldlM_addAdjoint {adjoints : Array α} {items : List (Handle × α)}
    (h : ∀ item ∈ items, item.1 < adjoints.size) :
    items.foldlM addAdjoint adjoints = .ok (addAll adjoints items) := by
  induction items generalizing adjoints with
  | nil => rfl
  | cons item items ih =>
    obtain ⟨hi, his⟩ := List.forall_mem_cons.1 h
    rw [List.foldlM_cons, addAdjoint, if_pos hi]
    exact ih (by simpa only [Array.size_modify] using his)

theorem adjointOf_addAll {adjoints : Array α} {items : List (Handle × α)} {h : Handle}
    (hi : ∀ item ∈ items, item.1 ≠ h) : adjointOf (addAll adjoints items) h = adjointOf adjoints h := by
  induction items generalizing adjoints with
  | nil => rfl
  | cons item items ih =>
    obtain ⟨hi, his⟩ := List.forall_mem_cons.1 hi
    apply (ih his).trans
    rw [adjointOf, adjointOf, Array.getElem?_modify, if_neg hi]

variable {t : Tape α}

theorem propagate_eq (hw : t.WellFormed) {h : Handle} {e : Entry α} (he : t.entries[h]? = some e)
    {adjoints : Array α} (ha : h < adjoints.size) :
    t.propagate adjoints h = .ok (addAll adjoints (t.shares e (adjointOf adjoints h))) := by
  have hx : adjoints[h]? = some (adjointOf adjoints h) := by
    rw [adjointOf, Array.getElem?_eq_getElem ha, Option.getD_some]
  have hs : ∀ c ∈ t.shares e (adjointOf adjoints h), c.1 < adjoints.size := fun c hc =>
    Nat.lt_trans (hw h e he _ (mem_operands_of_mem_shares hc)) ha
  have hc := contributions_eq (fun u hu => Nat.lt_trans (hw h e he u hu) (lt_size he))
    (adjointOf adjoints h)
  simp only [propagate, he, hx, hc]
  exact foldlM_addAdjoint hs

theorem sweep_ok (hw : t.WellFormed) {h : Handle} {adjoints : Array α} (ht : h ≤ t.size)
    (ha : h ≤ adjoints.size) :
    ∃ after, t.sweep h adjoints = .ok after ∧ after.size = adjoints.size := by
  induction h generalizing adjoints with
  | zero => exact ⟨adjoints, rfl, rfl⟩
  | succ h ih =>
    obtain ⟨e, he⟩ := exists_entry ht
    have hs := size_addAll adjoints (t.shares e (adjointOf adjoints h))
    obtain ⟨after, hr, hz⟩ := ih (Nat.le_of_lt ht) (Nat.le_of_lt (Nat.lt_of_lt_of_eq ha hs.symm))
    refine ⟨after, ?_, hz.trans hs⟩
    rw [sweep, propagate_eq hw he ha]
    exact hr

def rootAdjoints (root : Handle) : Array α :=
  (Array.replicate root 0).push 1

theorem size_rootAdjoints (root : Handle) : (rootAdjoints root : Array α).size = root + 1 := by
  simp [rootAdjoints]

theorem backward_eq {root : Handle} (hr : root < t.size) :
    t.backward root = t.sweep (root + 1) (rootAdjoints root) :=
  if_pos hr

theorem backward_ok (hw : t.WellFormed) {root : Handle} (hr : root < t.size) :
    ∃ adjoints, t.backward root = .ok adjoints ∧ adjoints.size = root + 1 := by
  have hs := size_rootAdjoints (α := α) root
  rw [backward_eq hr, ← hs]
  exact sweep_ok hw (Nat.le_trans (Nat.le_of_eq hs) hr) (Nat.le_refl _)

omit [Scalar α] in
theorem exists_read_of_mem {t : Tape α} {adjoints : Array α} {item : Nat × α}
    (hi : item ∈ t.parameterAdjoints adjoints) :
    ∃ (h : Handle) (e : Entry α), t.entries[h]? = some e ∧ e.op = .parameter item.1 := by
  obtain ⟨⟨e, a⟩, hz, hm⟩ := List.mem_filterMap.1 hi
  obtain ⟨h, hh⟩ := Array.getElem?_of_mem (Array.mem_toList_iff.1 (List.of_mem_zip hz).1)
  dsimp only at hm
  split at hm
  · next id ho =>
    cases hm
    exact ⟨h, e, hh, ho⟩
  · cases hm

/-- What the reverse sweep adds up for a parameter, all in all. -/
def gradient (t : Tape α) (root : Handle) (id : Nat) : α :=
  match t.backward root with
  | .ok adjoints =>
    (((t.parameterAdjoints adjoints).filter (·.1 = id)).map (·.2)).foldl (· + ·) 0
  | .error _ => 0

end Backprop.Tape
