import Backprop.Proofs.Exact
import Backprop.Proofs.Tape.Backward

namespace Backprop.Tape

variable {α : Type} [Scalar α] {t t' : Tape α} {c : Call α}

section Calls

def attempt (t : Tape α) (c : Call α) : Tape α :=
  match t.call c with
  | .ok (_, t') => t'
  | .error _ => t

def afterCalls (t : Tape α) (calls : List (Call α)) : Tape α :=
  calls.foldl attempt t

/-- A call that succeeds: one more entry, with operands that all stand before it, and the older
entries as they were. -/
structure Appends (t : Tape α) (c : Call α) (t' : Tape α) : Prop where
  operands : ∀ u ∈ c.op.operands, u < t.size
  size : t'.size = t.size + 1
  last : t'.entries[t.size]? = some ⟨c.op, c.result t.valueAt⟩
  older : ∀ h < t.size, t'.entries[h]? = t.entries[h]?

theorem appends_push (ho : ∀ u ∈ c.op.operands, u < t.size) :
    t.Appends c (t.push c.op (c.result t.valueAt)).2 where
  operands := ho
  size := size_push ..
  last := by rw [getElem?_push, if_pos rfl]
  older h hh := by rw [getElem?_push, if_neg (Nat.ne_of_lt hh)]

theorem attempt_of_ok {h : Handle} (hc : t.call c = .ok (h, t')) : t.attempt c = t' := by
  rw [attempt, hc]

theorem attempt_of_error {failure : Failure α} (hc : t.call c = .error failure) :
    t.attempt c = t := by
  rw [attempt, hc]

theorem grows_attempt (t : Tape α) (c : Call α) : t.Grows (fun _ => True) (t.attempt c) := by
  cases hc : t.call c with
  | ok r =>
    rw [attempt_of_ok hc]
    exact .single hc trivial
  | error failure =>
    rw [attempt_of_error hc]
    exact .refl

theorem grows_afterCalls (t : Tape α) (calls : List (Call α)) :
    t.Grows (fun _ => True) (t.afterCalls calls) := by
  induction calls generalizing t with
  | nil => exact .refl
  | cons c calls ih => exact (grows_attempt t c).trans (ih (t.attempt c))

theorem recorded_afterCalls (calls : List (Call α)) :
    ((empty : Tape α).afterCalls calls).Recorded :=
  grows_afterCalls empty calls

end Calls

section Sweep

theorem shares_congr {e : Entry α} (h : ∀ u ∈ e.op.operands, t'.valueAt u = t.valueAt u) (a : α) :
    t'.shares e a = t.shares e a := by
  cases e with
  | mk op x =>
    cases op with
    | constant | parameter | sum | mean => rfl
    | mul left right =>
      obtain ⟨hl, hr⟩ := List.forall_mem_cons.1 h
      simp only [shares, hl, hr right (List.mem_singleton_self _)]
    | activate activation arg => simp only [shares, h arg (List.mem_singleton_self _)]
    | squaredError prediction expected =>
      simp only [shares, h prediction (List.mem_singleton_self _)]

omit [Scalar α] in
theorem IsPrefix.valueAt [Zero α] (hp : t.IsPrefix t') {h : Handle} (hh : h < t.size) :
    t'.valueAt h = t.valueAt h := by
  obtain ⟨e, he⟩ := exists_entry hh
  rw [valueAt_eq he, valueAt_eq (hp h e he)]

variable (hw : t.WellFormed) (hw' : t'.WellFormed) (hp : t.IsPrefix t')

include hw hw' hp

/-- An entry passes on the same when more entries stand behind it: its operands are earlier ones. -/
theorem IsPrefix.propagate {h : Handle} (hh : h < t.size) {adjoints : Array α}
    (ha : h < adjoints.size) : t'.propagate adjoints h = t.propagate adjoints h := by
  obtain ⟨e, he⟩ := exists_entry hh
  rw [propagate_eq hw he ha, propagate_eq hw' (hp h e he) ha]
  rw [shares_congr fun u hu => hp.valueAt (Nat.lt_trans (hw h e he u hu) hh)]

theorem IsPrefix.sweep {n : Handle} (hn : n ≤ t.size) {adjoints : Array α}
    (ha : n ≤ adjoints.size) : t'.sweep n adjoints = t.sweep n adjoints := by
  induction n generalizing adjoints with
  | zero => rfl
  | succ n ih =>
    obtain ⟨e, he⟩ := exists_entry hn
    rw [Tape.sweep, Tape.sweep, hp.propagate hw hw' hn ha, propagate_eq hw he ha]
    apply ih (Nat.le_of_lt hn)
    rw [size_addAll]
    exact Nat.le_of_lt ha

/-- The sweep from an entry reads nothing behind it. -/
theorem IsPrefix.backward {root : Handle} (hr : root < t.size) :
    t'.backward root = t.backward root := by
  rw [backward_eq hr, backward_eq (Nat.lt_of_lt_of_le hr hp.size_le)]
  exact hp.sweep hw hw' hr (Nat.le_of_eq (size_rootAdjoints root).symm)

end Sweep

theorem backward_beyond {root : Handle} (hr : t.size ≤ root) :
    t.backward root = .error (.outOfBounds root t.size) :=
  if_neg (Nat.not_lt_of_le hr)

theorem adjointOf_beyond {adjoints : Array α} {h : Handle} (hh : adjoints.size ≤ h) :
    adjointOf adjoints h = 0 := by
  rw [adjointOf, Array.getElem?_eq_none hh, Option.getD_none]

theorem backward_size (hw : t.WellFormed) {root : Handle} {adjoints : Array α}
    (hb : t.backward root = .ok adjoints) : adjoints.size = root + 1 := by
  by_cases hr : root < t.size
  · obtain ⟨adjoints', hb', hsize⟩ := backward_ok hw hr
    rw [hb] at hb'
    cases hb'
    exact hsize
  · rw [backward_beyond (Nat.le_of_not_lt hr)] at hb
    cases hb

/-- Whatever is called on a new tape, entries refer to earlier ones only, and one more call either
fails for an operand that is not on the tape or appends one entry. The sweep succeeds from every
entry, gives nothing to what comes after it, and stays the same for all that is called later on. -/
theorem backward_afterCalls (calls : List (Call α)) :
    let t := (empty : Tape α).afterCalls calls
    t.WellFormed ∧
      (∀ c, (∃ u ∈ c.op.operands, t.size ≤ u) ∧
            t.call c = .error (.breach .handle) ∧ t.attempt c = t ∨
          ∃ t', t.call c = .ok (t.size, t') ∧ t.attempt c = t' ∧ t.Appends c t') ∧
      (∀ root, (∃ adjoints, t.backward root = .ok adjoints) ↔ root < t.size) ∧
      (∀ root, t.size ≤ root → t.backward root = .error (.outOfBounds root t.size)) ∧
      (∀ root adjoints, t.backward root = .ok adjoints → ∀ h > root, adjointOf adjoints h = 0) ∧
      ∀ later root, root < t.size → (t.afterCalls later).backward root = t.backward root := by
  intro t
  have hw : t.WellFormed := (recorded_afterCalls calls).wellFormed
  refine ⟨hw, ?step, fun root => ⟨?inside, ?total⟩, fun root => backward_beyond, ?beyond, ?later⟩
  case step =>
    intro c
    by_cases ho : ∀ u ∈ c.op.operands, u < t.size
    · exact .inr ⟨_, call_ok ho, attempt_of_ok (call_ok ho), appends_push ho⟩
    · have hc := call_beyond ho
      push Not at ho
      exact .inl ⟨ho, hc, attempt_of_error hc⟩
  case inside =>
    rintro ⟨adjoints, hb⟩
    by_contra hr
    rw [backward_beyond (Nat.le_of_not_lt hr)] at hb
    cases hb
  case total =>
    intro hr
    obtain ⟨adjoints, hb, _⟩ := backward_ok hw hr
    exact ⟨adjoints, hb⟩
  case beyond =>
    intro root adjoints hb h hh
    apply adjointOf_beyond
    rw [backward_size hw hb]
    exact hh
  case later =>
    intro later root hr
    have hg := grows_afterCalls t later
    exact hg.isPrefix.backward hw (hg.wellFormed hw) hr

theorem backward_afterCalls_refused :
    let t := (empty : Tape ℚ).afterCalls [.parameter 0 3, .mul 0 7, .sum [0, 0]]
    t.size = 2 ∧ (∃ adjoints, t.backward 1 = .ok adjoints ∧ ∀ h > 1, adjointOf adjoints h = 0) ∧
      (t.afterCalls [.mul 1 0, .mean [2, 5]]).backward 1 = t.backward 1 := by
  intro t
  obtain ⟨_, _, htotal, _, hbeyond, hlater⟩ :=
    backward_afterCalls (α := ℚ) [.parameter 0 3, .mul 0 7, .sum [0, 0]]
  have hsize : t.size = 2 := by decide +kernel
  have hr : 1 < t.size := hsize ▸ Nat.one_lt_two
  obtain ⟨adjoints, hb⟩ := (htotal 1).2 hr
  exact ⟨hsize, ⟨adjoints, hb, hbeyond 1 adjoints hb⟩, hlater _ 1 hr⟩

end Backprop.Tape
