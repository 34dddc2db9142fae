import Backprop.Proofs.Tape.Embedding
import Backprop.Training.Epoch

namespace Backprop

variable {α : Type}

def Entry.shift (n : Nat) (e : Entry α) : Entry α :=
  { e with op := e.op.relabel (· + n) id }

namespace Tape

def append (s t : Tape α) : Tape α :=
  ⟨s.entries ++ t.entries.map (Entry.shift s.size)⟩

theorem append_empty (s : Tape α) : s.append .empty = s := by
  have hentries : s.entries ++ #[] = s.entries := Array.append_empty
  rw [append, empty, Array.map_empty, hentries]

theorem size_append (s t : Tape α) : (s.append t).size = t.size + s.size := by
  rw [size, append, Array.size_append, Array.size_map, Nat.add_comm]
  rfl

theorem getElem?_append (s t : Tape α) (h : Handle) :
    (s.append t).entries[h + s.size]? = t.entries[h]?.map (Entry.shift s.size) := by
  have hle : s.entries.size ≤ h + s.size := Nat.le_add_left _ _
  have hsub : h + s.size - s.entries.size = h := Nat.add_sub_cancel ..
  rw [append, Array.getElem?_append_right hle, hsub, Array.getElem?_map]

theorem value?_append (s t : Tape α) (h : Handle) :
    (s.append t).value? (h + s.size) = t.value? h := by
  rw [value?, value?, getElem?_append, Option.map_map]
  rfl

theorem push_append (s t : Tape α) (op : Op α) (x : α) :
    (s.append t).push (op.relabel (· + s.size) id) x = (t.push op x).map (· + s.size) s.append := by
  have hentries : (s.append t).entries.push ⟨op.relabel (· + s.size) id, x⟩ =
      s.entries ++ (t.entries.push ⟨op, x⟩).map (Entry.shift s.size) := by
    rw [Array.map_push]
    exact Array.push_append
  rw [push, size_append, hentries]
  rfl

/-- Every tape is found again behind the given one. -/
def behind [Zero α] (s : Tape α) : Embedding α where
  handle := (· + s.size)
  parameter := id
  tape := s.append
  lt_size_iff t u := by
    rw [size_append, Nat.add_lt_add_iff_right]
  valueAt t u := by
    rw [valueAt, valueAt, value?_append]
  push := s.push_append

def values (t : Tape α) : List α :=
  t.entries.toList.map (·.value)

theorem valuesFrom_append (s t : Tape α) : (s.append t).valuesFrom s.size = t.values := by
  have hentries : (s.append t).entries.extract s.size (s.append t).size =
      t.entries.map (Entry.shift s.size) := by
    rw [size_append, Nat.add_comm]
    apply Array.extract_append_right.trans
    rw [← Array.map_extract]
    exact congrArg (Array.map _) Array.extract_size
  rw [valuesFrom, hentries, Array.toList_map, List.map_map]
  rfl

end Tape

end Backprop
