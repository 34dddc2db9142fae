import Backprop.Proofs.Tape.Backward
import Backprop.Proofs.Tape.Embedding
import Backprop.Training.Epoch

namespace Backprop

variable {α : Type}

def Op.rename (ρ : Nat → Nat) : Op α → Op α
  | .parameter id => .parameter (ρ id)
  | op => op

def Entry.rename (ρ : Nat → Nat) (e : Entry α) : Entry α :=
  { e with op := e.op.rename ρ }

def Call.rename (ρ : Nat → Nat) : Call α → Call α
  | .parameter id x => .parameter (ρ id) x
  | c => c

theorem Op.relabel_id (ρ : Nat → Nat) (op : Op α) : op.relabel id ρ = op.rename ρ := by
  cases op with
  | sum args | mean args =>
    rw [relabel, List.map_id]
    rfl
  | _ => rfl

theorem Call.relabel_id (ρ : Nat → Nat) (c : Call α) : c.relabel id ρ = c.rename ρ := by
  cases c with
  | sum args | mean args =>
    rw [relabel, List.map_id]
    rfl
  | _ => rfl

namespace Tape

def rename (ρ : Nat → Nat) (t : Tape α) : Tape α :=
  ⟨t.entries.map (Entry.rename ρ)⟩

variable {ρ : Nat → Nat} {t : Tape α}

theorem empty_rename (ρ : Nat → Nat) : (empty : Tape α).rename ρ = empty :=
  congrArg Tape.mk Array.map_empty

theorem getElem?_rename (ρ : Nat → Nat) (t : Tape α) (h : Handle) :
    (t.rename ρ).entries[h]? = t.entries[h]?.map (Entry.rename ρ) :=
  Array.getElem?_map

theorem size_rename (ρ : Nat → Nat) (t : Tape α) : (t.rename ρ).size = t.size :=
  Array.size_map

theorem value?_rename (ρ : Nat → Nat) (t : Tape α) (h : Handle) :
    (t.rename ρ).value? h = t.value? h := by
  rw [value?, value?, getElem?_rename, Option.map_map]
  rfl

theorem value_rename (ρ : Nat → Nat) (t : Tape α) (h : Handle) :
    (t.rename ρ).value h = t.value h := by
  rw [value, value, value?_rename]

theorem valueAt_rename [Zero α] (ρ : Nat → Nat) (t : Tape α) :
    (t.rename ρ).valueAt = t.valueAt := by
  funext h
  rw [valueAt, valueAt, value?_rename]

theorem valuesFrom_rename (ρ : Nat → Nat) (t : Tape α) (start : Nat) :
    (t.rename ρ).valuesFrom start = t.valuesFrom start := by
  rw [valuesFrom, valuesFrom, size_rename, rename, ← Array.map_extract, Array.toList_map,
    List.map_map]
  rfl

theorem push_rename (ρ : Nat → Nat) (t : Tape α) (op : Op α) (x : α) :
    (t.rename ρ).push (op.rename ρ) x = (t.push op x).map id (Tape.rename ρ) := by
  have hentries : (t.rename ρ).entries.push ⟨op.rename ρ, x⟩ =
      (t.entries.push ⟨op, x⟩).map (Entry.rename ρ) := by
    rw [Array.map_push]
    rfl
  rw [push, push, size_rename, hentries]
  rfl

def renumbering [Zero α] (ρ : Nat → Nat) : Embedding α where
  handle := id
  parameter := ρ
  tape := rename ρ
  lt_size_iff t u := by
    rw [size_rename]
    rfl
  valueAt t u := congrFun (valueAt_rename ρ t) u
  push t op x := by
    rw [Op.relabel_id, push_rename]

variable [Scalar α]

theorem call_rename (ρ : Nat → Nat) (t : Tape α) (c : Call α) :
    (t.rename ρ).call (c.rename ρ) = (t.call c).map (Prod.map id (Tape.rename ρ)) := by
  rw [← Call.relabel_id]
  exact (renumbering ρ).call t c

theorem contributions_rename (ρ : Nat → Nat) (t : Tape α) (e : Entry α) (a : α) :
    (t.rename ρ).contributions (e.rename ρ) a = t.contributions e a := by
  cases e with
  | mk op x => cases op <;> simp only [contributions, Entry.rename, Op.rename, value_rename]

theorem propagate_rename (ρ : Nat → Nat) (t : Tape α) (adjoints : Array α) (h : Handle) :
    (t.rename ρ).propagate adjoints h = t.propagate adjoints h := by
  rw [propagate, propagate, getElem?_rename]
  cases t.entries[h]? with
  | none => rfl
  | some e =>
    cases adjoints[h]? with
    | none => rfl
    | some a => simp only [Option.map_some, contributions_rename]

theorem sweep_rename (ρ : Nat → Nat) (t : Tape α) (h : Handle) (adjoints : Array α) :
    (t.rename ρ).sweep h adjoints = t.sweep h adjoints := by
  induction h generalizing adjoints with
  | zero => rfl
  | succ h ih => simp only [sweep, propagate_rename, ih]

theorem backward_rename (ρ : Nat → Nat) (t : Tape α) (root : Handle) :
    (t.rename ρ).backward root = t.backward root := by
  rw [backward, backward, size_rename, sweep_rename]

omit [Scalar α] in
theorem parameterAdjoints_rename (ρ : Nat → Nat) (t : Tape α) (adjoints : Array α) :
    (t.rename ρ).parameterAdjoints adjoints =
      (t.parameterAdjoints adjoints).map (Prod.map ρ id) := by
  rw [parameterAdjoints, parameterAdjoints, rename, Array.toList_map, List.zip_map_left,
    List.filterMap_map, List.map_filterMap]
  apply List.filterMap_congr
  rintro ⟨⟨op, x⟩, a⟩ _
  cases op <;> rfl

omit [Scalar α] in
/-- What is meant for a parameter is what was meant for it under its old number. -/
theorem filter_rename {ρ : Nat → Nat} (hρ : ρ.Injective) (items : List (Nat × α)) (n : Nat) :
    ((items.map (Prod.map ρ id)).filter (·.1 = ρ n)).map (·.2) =
      (items.filter (·.1 = n)).map (·.2) := by
  rw [List.filter_map, List.map_map]
  simp only [Function.comp_def, Prod.map_fst, Prod.map_snd, hρ.eq_iff, id]

theorem gradient_rename {ρ : Nat → Nat} (hρ : ρ.Injective) (t : Tape α) (root : Handle) (id : Nat) :
    (t.rename ρ).gradient root (ρ id) = t.gradient root id := by
  rw [gradient, gradient, backward_rename]
  cases t.backward root with
  | error e => rfl
  | ok adjoints => simp only [parameterAdjoints_rename, filter_rename hρ]

end Tape

end Backprop
