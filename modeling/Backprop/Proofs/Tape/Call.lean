import Backprop.Proofs.Monad
import Backprop.Tape.Basic

namespace Backprop

inductive Call (α : Type)
  | constant (x : α)
  | parameter (id : Nat) (x : α)
  | sum (args : List Handle)
  | mul (left right : Handle)
  | activate (activation : Activation) (arg : Handle)
  | squaredError (prediction : Handle) (expected : α)
  | mean (args : List Handle)

variable {α : Type}

namespace Call

def op : Call α → Op α
  | .constant _ => .constant
  | .parameter id _ => .parameter id
  | .sum args => .sum args
  | .mul left right => .mul left right
  | .activate activation arg => .activate activation arg
  | .squaredError prediction expected => .squaredError prediction expected
  | .mean args => .mean args

variable [Scalar α]

/-- The number that is recorded, given those of the operands. -/
def result (value : Handle → α) : Call α → α
  | .constant x | .parameter _ x => x
  | .sum args => Scalar.sum (args.map value)
  | .mul left right => value left * value right
  | .activate activation arg => Scalar.activate activation (value arg)
  | .squaredError prediction expected =>
    (value prediction - expected) * (value prediction - expected)
  | .mean args => Scalar.mean (args.map value)

theorem result_congr {value value' : Handle → α} (c : Call α)
    (h : ∀ u ∈ c.op.operands, value u = value' u) : c.result value = c.result value' := by
  cases c with
  | constant x => rfl
  | parameter id x => rfl
  | sum args => exact congrArg Scalar.sum (List.map_congr_left h)
  | mul left right =>
    have hl := h left (by simp [op, Op.operands])
    have hr := h right (by simp [op, Op.operands])
    simp only [result, hl, hr]
  | activate activation arg =>
    have ha := h arg (by simp [op, Op.operands])
    simp only [result, ha]
  | squaredError prediction expected =>
    have hp := h prediction (by simp [op, Op.operands])
    simp only [result, hp]
  | mean args => exact congrArg Scalar.mean (List.map_congr_left h)

end Call

def Entry.call (e : Entry α) : Call α :=
  match e.op with
  | .constant => .constant e.value
  | .parameter id => .parameter id e.value
  | .sum args => .sum args
  | .mul left right => .mul left right
  | .activate activation arg => .activate activation arg
  | .squaredError prediction expected => .squaredError prediction expected
  | .mean args => .mean args

@[simp] theorem Entry.call_op (e : Entry α) : e.call.op = e.op := by
  cases e with
  | mk op x => cases op <;> rfl

theorem Call.call_entry [Scalar α] (c : Call α) (value : Handle → α) :
    (Entry.mk c.op (c.result value)).call = c := by
  cases c <;> rfl

namespace Tape

def valueAt [Zero α] (t : Tape α) (h : Handle) : α :=
  (t.value? h).getD 0

theorem valueAt_eq [Zero α] {t : Tape α} {h : Handle} {e : Entry α} (he : t.entries[h]? = some e) :
    t.valueAt h = e.value := by
  simp only [valueAt, value?, he, Option.map_some, Option.getD_some]

theorem lt_size {t : Tape α} {h : Handle} {e : Entry α} (he : t.entries[h]? = some e) :
    h < t.size :=
  (Array.getElem?_eq_some_iff.1 he).1

theorem exists_entry {t : Tape α} {h : Handle} (hh : h < t.size) : ∃ e, t.entries[h]? = some e :=
  ⟨_, Array.getElem?_eq_getElem hh⟩

theorem getElem?_push (t : Tape α) (op : Op α) (x : α) (h : Handle) :
    (t.push op x).2.entries[h]? = if h = t.size then some ⟨op, x⟩ else t.entries[h]? :=
  Array.getElem?_push

theorem size_push (t : Tape α) (op : Op α) (x : α) : (t.push op x).2.size = t.size + 1 :=
  Array.size_push _

def WellFormed (t : Tape α) : Prop :=
  ∀ (h : Handle) (e : Entry α), t.entries[h]? = some e → ∀ u ∈ e.op.operands, u < h

theorem WellFormed.push {t : Tape α} (hw : t.WellFormed) {op : Op α} {x : α}
    (ho : ∀ u ∈ op.operands, u < t.size) : (t.push op x).2.WellFormed := by
  intro h e he
  rw [getElem?_push] at he
  split at he
  · next hh =>
    cases he
    subst hh
    exact ho
  · exact hw h e he

def IsPrefix (s t : Tape α) : Prop :=
  ∀ (h : Handle) (e : Entry α), s.entries[h]? = some e → t.entries[h]? = some e

theorem IsPrefix.trans {r s t : Tape α} (h₁ : r.IsPrefix s) (h₂ : s.IsPrefix t) : r.IsPrefix t :=
  fun h e he => h₂ h e (h₁ h e he)

theorem IsPrefix.size_le {s t : Tape α} (hp : s.IsPrefix t) : s.size ≤ t.size := by
  by_contra hlt
  obtain ⟨e, he⟩ := exists_entry (Nat.lt_of_not_le hlt)
  exact Nat.lt_irrefl _ (lt_size (hp _ e he))

theorem IsPrefix.push (t : Tape α) (op : Op α) (x : α) : t.IsPrefix (t.push op x).2 := by
  intro h e he
  rw [getElem?_push, if_neg (Nat.ne_of_lt (lt_size he))]
  exact he

theorem value_beyond {t : Tape α} {h : Handle} (hh : t.size ≤ h) :
    t.value h = .error (.breach .handle) := by
  have he : t.entries[h]? = none := Array.getElem?_eq_none hh
  simp only [value, value?, he, Option.map_none]

variable [Scalar α]

theorem value_eq {t : Tape α} {h : Handle} (hh : h < t.size) : t.value h = .ok (t.valueAt h) := by
  obtain ⟨e, he⟩ := exists_entry hh
  simp only [value, value?, valueAt, he, Option.map_some, Option.getD_some]

theorem mapM_value {t : Tape α} (args : List Handle) (h : ∀ u ∈ args, u < t.size) :
    args.mapM t.value = .ok (args.map t.valueAt) :=
  List.mapM_eq_pure_map fun u hu => value_eq (h u hu)

theorem mapM_value_beyond {t : Tape α} (args : List Handle)
    (h : ¬∀ u ∈ args, u < t.size) :
    args.mapM t.value = .error (.breach .handle) := by
  induction args with
  | nil => simp at h
  | cons u us ih =>
    rw [List.mapM_cons]
    by_cases hu : u < t.size
    · rw [value_eq hu, ih fun hus => h (List.forall_mem_cons.2 ⟨hu, hus⟩)]
      rfl
    · rw [value_beyond (Nat.le_of_not_lt hu)]
      rfl

def call (t : Tape α) : Call α → Except (Failure α) (Handle × Tape α)
  | .constant x => .ok (t.constant x)
  | .parameter id x => .ok (t.parameter id x)
  | .sum args => t.sum args
  | .mul left right => t.mul left right
  | .activate activation arg => t.activate activation arg
  | .squaredError prediction expected => t.squaredError prediction expected
  | .mean args => t.mean args

theorem call_ok {t : Tape α} {c : Call α} (h : ∀ u ∈ c.op.operands, u < t.size) :
    t.call c = .ok (t.push c.op (c.result t.valueAt)) := by
  cases c with
  | constant x => rfl
  | parameter id x => rfl
  | sum args =>
    rw [call, sum, mapM_value args h]
    rfl
  | mul left right =>
    obtain ⟨hl, hr⟩ := List.forall_mem_cons.1 h
    rw [call, mul, value_eq hl, value_eq (hr right (List.mem_singleton_self _))]
    rfl
  | activate activation arg =>
    rw [call, activate, value_eq (h arg (List.mem_singleton_self _))]
    rfl
  | squaredError prediction expected =>
    rw [call, squaredError, value_eq (h prediction (List.mem_singleton_self _))]
    rfl
  | mean args =>
    rw [call, mean, mapM_value args h]
    rfl

theorem call_beyond {t : Tape α} {c : Call α} (h : ¬∀ u ∈ c.op.operands, u < t.size) :
    t.call c = .error (.breach .handle) := by
  cases c with
  | constant x => exact (h (by simp [Call.op, Op.operands])).elim
  | parameter id x => exact (h (by simp [Call.op, Op.operands])).elim
  | sum args =>
    rw [call, sum, mapM_value_beyond args h]
    rfl
  | mul left right =>
    by_cases hl : left < t.size
    · have hr : t.size ≤ right := by simpa [Call.op, Op.operands, hl] using h
      rw [call, mul, value_eq hl, value_beyond hr]
      rfl
    · rw [call, mul, value_beyond (Nat.le_of_not_lt hl)]
      rfl
  | activate activation arg =>
    simp only [Call.op, Op.operands, List.forall_mem_singleton, Nat.not_lt] at h
    rw [call, activate, value_beyond h]
    rfl
  | squaredError prediction expected =>
    simp only [Call.op, Op.operands, List.forall_mem_singleton, Nat.not_lt] at h
    rw [call, squaredError, value_beyond h]
    rfl
  | mean args =>
    rw [call, mean, mapM_value_beyond args h]
    rfl

theorem call_inv {t t' : Tape α} {c : Call α} {h : Handle} (hc : t.call c = .ok (h, t')) :
    (∀ u ∈ c.op.operands, u < t.size) ∧ h = t.size ∧ t' = (t.push c.op (c.result t.valueAt)).2 := by
  by_cases ho : ∀ u ∈ c.op.operands, u < t.size
  · rw [call_ok ho] at hc
    obtain ⟨rfl, rfl⟩ := Prod.mk.inj (Except.ok.inj hc)
    exact ⟨ho, rfl, rfl⟩
  · rw [call_beyond ho] at hc
    cases hc

/-- The second tape comes from the first by calls of which each satisfies `P`. -/
inductive Grows (P : Call α → Prop) (t : Tape α) : Tape α → Prop
  | refl : Grows P t t
  | call {s s' : Tape α} {c : Call α} {h : Handle} :
    Grows P t s → s.call c = .ok (h, s') → P c → Grows P t s'

variable {P : Call α → Prop} {r s t t' : Tape α} {c : Call α} {h : Handle}

theorem Grows.single (hc : t.call c = .ok (h, t')) (hP : P c) : t.Grows P t' :=
  .call .refl hc hP

theorem Grows.push (hg : t.Grows P s) (ho : ∀ u ∈ c.op.operands, u < s.size) (hP : P c) :
    t.Grows P (s.push c.op (c.result s.valueAt)).2 :=
  hg.call (call_ok ho) hP

theorem Grows.trans (h₁ : r.Grows P s) (h₂ : s.Grows P t) : r.Grows P t := by
  induction h₂ with
  | refl => exact h₁
  | call _ hc hP ih => exact .call ih hc hP

theorem Grows.mono {Q : Call α → Prop} (hg : t.Grows P t') (hPQ : ∀ c, P c → Q c) :
    t.Grows Q t' := by
  induction hg with
  | refl => exact .refl
  | call _ hc hP ih => exact .call ih hc (hPQ _ hP)

theorem call_isPrefix (hc : t.call c = .ok (h, t')) : t.IsPrefix t' := by
  obtain ⟨_, _, rfl⟩ := call_inv hc
  exact .push _ _ _

theorem call_lt (hc : t.call c = .ok (h, t')) : h < t'.size := by
  obtain ⟨_, rfl, rfl⟩ := call_inv hc
  rw [size_push]
  exact Nat.lt_succ_self _

theorem call_size_le (hc : t.call c = .ok (h, t')) : t.size ≤ t'.size := by
  obtain ⟨_, _, rfl⟩ := call_inv hc
  rw [size_push]
  exact Nat.le_succ _

theorem Grows.isPrefix (hg : t.Grows P t') : t.IsPrefix t' := by
  induction hg with
  | refl => exact fun _ _ he => he
  | call _ hc _ ih => exact ih.trans (call_isPrefix hc)

theorem Grows.wellFormed (hg : t.Grows P t') (hw : t.WellFormed) : t'.WellFormed := by
  induction hg with
  | refl => exact hw
  | call _ hc _ ih =>
    obtain ⟨ho, _, rfl⟩ := call_inv hc
    exact ih.push ho

theorem Grows.size_le (hg : t.Grows P t') : t.size ≤ t'.size := by
  induction hg with
  | refl => exact Nat.le_refl _
  | call _ hc _ ih => exact Nat.le_trans ih (call_size_le hc)

/-- What was appended comes from calls that satisfy `P`. -/
theorem Grows.of_entry (hg : t.Grows P t') {u : Handle} {e : Entry α} (hu : t.size ≤ u)
    (he : t'.entries[u]? = some e) : P e.call := by
  induction hg with
  | refl => exact absurd (lt_size he) (Nat.not_lt_of_le hu)
  | call _ hc hP ih =>
    obtain ⟨_, _, rfl⟩ := call_inv hc
    rw [getElem?_push] at he
    split at he
    · cases he
      rwa [Call.call_entry]
    · exact ih he

def Recorded (t : Tape α) : Prop :=
  empty.Grows (fun _ => True) t

theorem Grows.recorded (hg : empty.Grows P t) : t.Recorded :=
  hg.mono fun _ _ => trivial

theorem Recorded.wellFormed (ht : t.Recorded) : t.WellFormed :=
  Grows.wellFormed ht fun _ _ he => absurd (lt_size he) (Nat.not_lt_zero _)

end Tape

end Backprop
