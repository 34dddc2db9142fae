import Backprop.Proofs.Tape.Call

namespace Backprop

variable {α : Type} {place : Handle → Handle} {number : Nat → Nat}

def Op.relabel (place : Handle → Handle) (number : Nat → Nat) : Op α → Op α
  | .constant => .constant
  | .parameter id => .parameter (number id)
  | .sum args => .sum (args.map place)
  | .mul left right => .mul (place left) (place right)
  | .activate activation arg => .activate activation (place arg)
  | .squaredError prediction expected => .squaredError (place prediction) expected
  | .mean args => .mean (args.map place)

def Call.relabel (place : Handle → Handle) (number : Nat → Nat) : Call α → Call α
  | .constant x => .constant x
  | .parameter id x => .parameter (number id) x
  | .sum args => .sum (args.map place)
  | .mul left right => .mul (place left) (place right)
  | .activate activation arg => .activate activation (place arg)
  | .squaredError prediction expected => .squaredError (place prediction) expected
  | .mean args => .mean (args.map place)

theorem Op.operands_relabel (op : Op α) :
    (op.relabel place number).operands = op.operands.map place := by
  cases op <;> rfl

theorem Call.op_relabel (c : Call α) : (c.relabel place number).op = c.op.relabel place number := by
  cases c <;> rfl

theorem Call.result_relabel [Scalar α] (c : Call α) (value : Handle → α) :
    (c.relabel place number).result value = c.result fun u => value (place u) := by
  cases c with
  | sum args | mean args =>
    rw [relabel, result, List.map_map]
    rfl
  | _ => rfl

namespace Tape

/-- How tapes are found again on others. -/
structure Embedding (α : Type) [Zero α] where
  handle : Handle → Handle
  parameter : Nat → Nat
  tape : Tape α → Tape α
  lt_size_iff : ∀ t u, handle u < (tape t).size ↔ u < t.size
  valueAt : ∀ t u, (tape t).valueAt (handle u) = t.valueAt u
  push : ∀ t op x, (tape t).push (op.relabel handle parameter) x = (t.push op x).map handle tape

namespace Embedding

variable [Scalar α]

theorem call (e : Embedding α) (t : Tape α) (c : Call α) :
    (e.tape t).call (c.relabel e.handle e.parameter) =
      (t.call c).map (Prod.map e.handle e.tape) := by
  have hoperands : (∀ u ∈ (c.relabel e.handle e.parameter).op.operands, u < (e.tape t).size) ↔
      ∀ u ∈ c.op.operands, u < t.size := by
    rw [Call.op_relabel, Op.operands_relabel, List.forall_mem_map]
    simp only [e.lt_size_iff]
  by_cases ho : ∀ u ∈ c.op.operands, u < t.size
  · have hvalue : (fun u => (e.tape t).valueAt (e.handle u)) = t.valueAt := funext (e.valueAt t)
    rw [call_ok ho, call_ok (hoperands.2 ho), Call.op_relabel, Call.result_relabel, hvalue, e.push]
    rfl
  · rw [call_beyond ho, call_beyond (mt hoperands.1 ho)]
    rfl

end Embedding

end Tape

end Backprop
