import Backprop.Proofs.Tape.Call

namespace Backprop

/-- What constants and parameters stand for in another arithmetic. -/
structure Translation (α β : Type) [Zero α] [Zero β] where
  constant : α → β
  parameter : Nat → α → β
  constant_zero : constant 0 = 0

def Translation.refl (α : Type) [Zero α] : Translation α α where
  constant x := x
  parameter _ x := x
  constant_zero := rfl

variable {α β : Type}

def Call.translate [Zero α] [Zero β] (ℓ : Translation α β) : Call α → Call β
  | .constant x => .constant (ℓ.constant x)
  | .parameter id x => .parameter id (ℓ.parameter id x)
  | .sum args => .sum args
  | .mul left right => .mul left right
  | .activate activation arg => .activate activation arg
  | .squaredError prediction expected => .squaredError prediction (ℓ.constant expected)
  | .mean args => .mean args

theorem Call.operands_translate [Zero α] [Zero β] (ℓ : Translation α β) (c : Call α) :
    (c.translate ℓ).op.operands = c.op.operands := by
  cases c <;> rfl

theorem Call.translate_refl [Zero α] (c : Call α) : c.translate (.refl α) = c := by
  cases c <;> rfl

variable [Scalar α] [Scalar β] {ℓ : Translation α β}

namespace Tape

/-- `view` tells what each entry of the tape stands for. -/
def Reads (t : Tape α) (ℓ : Translation α β) (view : Handle → β) : Prop :=
  ∀ (h : Handle) (e : Entry α), t.entries[h]? = some e →
    view h = (e.call.translate ℓ).result view

theorem Reads.push {t : Tape α} {view view' : Handle → β} (ht : t.Reads ℓ view)
    (hw : t.WellFormed) {c : Call α} (hc : ∀ u ∈ c.op.operands, u < t.size)
    (hv : ∀ u < t.size, view' u = view u)
    (hn : view' t.size = (c.translate ℓ).result view) :
    (t.push c.op (c.result t.valueAt)).2.Reads ℓ view' := by
  intro h e he
  rw [getElem?_push] at he
  split at he
  · next hh =>
    cases he
    rw [hh, hn, Call.call_entry]
    apply Call.result_congr
    intro u hu
    rw [Call.operands_translate] at hu
    exact (hv u (hc u hu)).symm
  · rw [hv h (lt_size he), ht h e he]
    apply Call.result_congr
    intro u hu
    rw [Call.operands_translate, Entry.call_op] at hu
    exact (hv u (Nat.lt_trans (hw h e he u hu) (lt_size he))).symm

theorem Recorded.exists_reads {t : Tape α} (ht : t.Recorded) (ℓ : Translation α β) :
    ∃ view, t.Reads ℓ view := by
  induction ht with
  | refl => exact ⟨fun _ => 0, fun _ _ he => absurd (lt_size he) (Nat.not_lt_zero _)⟩
  | @call s s' c h hs hc _ ih =>
    obtain ⟨view, hv⟩ := ih
    obtain ⟨ho, _, rfl⟩ := call_inv hc
    refine ⟨Function.update view s.size ((c.translate ℓ).result view),
      hv.push (Recorded.wellFormed hs) ho ?_ ?_⟩
    · exact fun u hu => Function.update_of_ne (Nat.ne_of_lt hu) _ _
    · exact Function.update_self _ _ _

/-- Each value on a recorded tape is the result of its operation. -/
theorem Recorded.reads_valueAt {t : Tape α} (ht : t.Recorded) : t.Reads (.refl α) t.valueAt := by
  induction ht with
  | refl => exact fun _ _ he => absurd (lt_size he) (Nat.not_lt_zero _)
  | @call s s' c h hs hc _ ih =>
    obtain ⟨ho, _, rfl⟩ := call_inv hc
    apply Reads.push ih (Recorded.wellFormed hs) ho
    · intro u hu
      obtain ⟨e, he⟩ := exists_entry hu
      rw [valueAt_eq he, valueAt_eq (IsPrefix.push _ _ _ _ _ he)]
    · have hn := getElem?_push s c.op (c.result s.valueAt) s.size
      rw [if_pos rfl] at hn
      rw [valueAt_eq hn, Call.translate_refl]

theorem Reads.unique {t : Tape α} {view view' : Handle → β} (hw : t.WellFormed)
    (h₁ : t.Reads ℓ view) (h₂ : t.Reads ℓ view') (h : Handle) (hh : h < t.size) :
    view h = view' h := by
  induction h using Nat.strong_induction_on with
  | _ h ih =>
    obtain ⟨e, he⟩ := exists_entry hh
    rw [h₁ h _ he, h₂ h _ he]
    apply Call.result_congr
    intro u hu
    rw [Call.operands_translate, Entry.call_op] at hu
    have hlt := hw h _ he u hu
    exact ih u hlt (Nat.lt_trans hlt hh)

end Tape

end Backprop
