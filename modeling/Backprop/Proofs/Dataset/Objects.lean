import Backprop.Proofs.Dataset.Formats
import Backprop.Proofs.Lookup

namespace Backprop

namespace Json.Value

variable {members members' : List (String × Value)} {key : String} {v : Value}

theorem nodup_reverse (h : (members.map (·.1)).Nodup) : (members.reverse.map (·.1)).Nodup := by
  rwa [List.map_reverse, List.nodup_reverse]

theorem member?_eq_some_iff (h : (members.map (·.1)).Nodup) :
    member? members key = some v ↔ (key, v) ∈ members := by
  rw [member?, List.lookup_eq_some_iff_mem (nodup_reverse h), List.mem_reverse]

/-- Members with different keys may come in any order. -/
theorem member?_perm (h : (members.map (·.1)).Nodup) (hp : members.Perm members') :
    member? members key = member? members' key := by
  apply List.lookup_perm (nodup_reverse h)
  exact ((List.reverse_perm members).trans hp).trans (List.reverse_perm members').symm

end Json.Value

namespace Dataset

open Json (Value)

def nonNull? (members : List (String × Value)) (key : String) : Option Value :=
  match Value.member? members key with
  | some .null => none
  | found => found

theorem target?_eq (members : List (String × Value)) :
    target? members = targetKeys.findSome? (nonNull? members) :=
  rfl

theorem readMembers_perm {members members' : List (String × Value)} (labels : List String)
    (h : (members.map (·.1)).Nodup) (hp : members.Perm members') :
    readMembers labels members = readMembers labels members' := by
  have hmember : Value.member? members = Value.member? members' :=
    funext fun _ => Value.member?_perm h hp
  simp only [readMembers, target?, hmember]

/-- A row with a value under each label, and a target under a key that is no label. -/
structure ObjectRow (labels : List String) where
  values : List Value
  key : String
  target : Value
  length_values : values.length = labels.length
  key_mem : key ∈ targetKeys
  key_notMem : key ∉ labels
  target_ne_null : target ≠ .null

namespace ObjectRow

variable {labels : List String} {r : ObjectRow labels} {key : String} {v : Value}

def inputs (r : ObjectRow labels) : List (String × Value) :=
  labels.zip r.values

def members (r : ObjectRow labels) : List (String × Value) :=
  r.inputs ++ [(r.key, r.target)]

def cells (r : ObjectRow labels) : List Value :=
  r.values ++ [r.target]

def earlierKeys (r : ObjectRow labels) : List String :=
  targetKeys.takeWhile (· ≠ r.key)

/-- The input that is taken for the target. -/
def shadow? (r : ObjectRow labels) : Option Value :=
  r.earlierKeys.findSome? (nonNull? r.inputs)

theorem map_fst_inputs (r : ObjectRow labels) : r.inputs.map (·.1) = labels :=
  List.map_fst_zip r.length_values.ge

theorem map_snd_inputs (r : ObjectRow labels) : r.inputs.map (·.2) = r.values :=
  List.map_snd_zip r.length_values.le

theorem map_labels {β : Type} {f : String → β} {f' : Value → β}
    (h : ∀ input ∈ r.inputs, f input.1 = f' input.2) : labels.map f = r.values.map f' := by
  have hlabels := congrArg (List.map f) r.map_fst_inputs
  have hvalues := congrArg (List.map f') r.map_snd_inputs
  rw [← hlabels, ← hvalues, List.map_map, List.map_map]
  exact List.map_congr_left h

theorem exists_targetKeys_eq (r : ObjectRow labels) :
    r.key ∉ r.earlierKeys ∧ ∃ later, targetKeys = r.earlierKeys ++ r.key :: later := by
  obtain ⟨front, later, hkeys, hfront⟩ := List.eq_append_cons_of_mem r.key_mem
  have hearlier : r.earlierKeys = front := by
    have hne : ∀ key ∈ front, decide (key ≠ r.key) = true := fun key hk =>
      decide_eq_true (ne_of_mem_of_not_mem hk hfront)
    rw [earlierKeys, hkeys, List.takeWhile_append_of_pos hne, List.takeWhile_cons_of_neg (by simp),
      List.append_nil]
  rw [hearlier]
  exact ⟨hfront, later, hkeys⟩

section

variable (hlabels : labels.Nodup)

include hlabels

theorem nodup_inputs (r : ObjectRow labels) : (r.inputs.map (·.1)).Nodup := by
  rwa [map_fst_inputs]

theorem nodup_members (r : ObjectRow labels) : (r.members.map (·.1)).Nodup := by
  rw [members, List.map_append, map_fst_inputs, List.map_singleton, List.nodup_append_comm]
  exact List.nodup_cons.2 ⟨r.key_notMem, hlabels⟩

theorem member?_of_ne (hkey : key ≠ r.key) :
    Value.member? r.members key = Value.member? r.inputs key := by
  apply Option.ext
  intro v
  rw [Value.member?_eq_some_iff (nodup_members hlabels r),
    Value.member?_eq_some_iff (nodup_inputs hlabels r), members, List.mem_append, List.mem_singleton]
  exact or_iff_left fun he => hkey (congrArg Prod.fst he)

theorem member?_input (hv : (key, v) ∈ r.inputs) : Value.member? r.members key = some v :=
  (Value.member?_eq_some_iff (nodup_members hlabels r)).2 (List.mem_append_left _ hv)

theorem nonNull?_key (r : ObjectRow labels) : nonNull? r.members r.key = some r.target := by
  have hfound : Value.member? r.members r.key = some r.target :=
    (Value.member?_eq_some_iff (nodup_members hlabels r)).2
      (List.mem_append_right _ (List.mem_singleton_self _))
  rw [nonNull?, hfound]
  split
  · next hnull => exact absurd (Option.some.inj hnull) r.target_ne_null
  · rfl

theorem target?_members (r : ObjectRow labels) :
    target? r.members = some (r.shadow?.getD r.target) := by
  obtain ⟨hkey, later, hkeys⟩ := r.exists_targetKeys_eq
  have hearlier : r.earlierKeys.findSome? (nonNull? r.members) = r.shadow? := by
    have hfound : ∀ key ∈ r.earlierKeys, nonNull? r.members key = nonNull? r.inputs key := by
      intro key hk
      rw [nonNull?, nonNull?, member?_of_ne hlabels (ne_of_mem_of_not_mem hk hkey)]
    rw [shadow?, ← List.head?_filterMap, ← List.head?_filterMap, List.filterMap_congr hfound]
  rw [target?_eq, hkeys, List.findSome?_append, hearlier, List.findSome?_cons, nonNull?_key hlabels]
  cases r.shadow? <;> rfl

theorem readMembers_members (r : ObjectRow labels) : readMembers labels r.members =
    ⟨r.values.map readValue, readValue (r.shadow?.getD r.target)⟩ := by
  have hinputs : (labels.map fun label => ((Value.member? r.members label).map readValue).getD 0.0) =
      r.values.map readValue := by
    apply map_labels
    intro input hmem
    rw [member?_input hlabels hmem, Option.map_some, Option.getD_some]
  rw [readMembers, target?_members hlabels]
  exact congrArg (Row.mk · _) hinputs

theorem shadow?_eq_none_iff (r : ObjectRow labels) :
    r.shadow? = none ↔ ∀ key ∈ r.earlierKeys, ∀ v, (key, v) ∈ r.inputs → v = .null := by
  have hnull (key : String) :
      nonNull? r.inputs key = none ↔ ∀ v, (key, v) ∈ r.inputs → v = .null := by
    simp only [← Value.member?_eq_some_iff (nodup_inputs hlabels r)]
    rw [nonNull?]
    cases Value.member? r.inputs key with
    | none => simp
    | some v => cases v <;> simp
  rw [shadow?, List.findSome?_eq_none_iff]
  exact forall₂_congr fun key _ => hnull key

end

/-- An object with the members of the row, in any order. -/
def Spells (r : ObjectRow labels) (v : Value) : Prop :=
  ∃ members, v = .object members ∧ r.members.Perm members

theorem readRecordsFrom_objects (hlabels : labels.Nodup) {rows : List (ObjectRow labels)}
    {items : List Value} (h : List.Forall₂ Spells rows items) (line : Nat) :
    readRecordsFrom labels line items = .ok (rows.map fun r =>
      ⟨r.values.map readValue, readValue (r.shadow?.getD r.target)⟩) := by
  induction h generalizing line with
  | nil => rfl
  | @cons r _ _ _ hrow _ ih =>
    obtain ⟨members, rfl, hp⟩ := hrow
    rw [readRecordsFrom, readRecord, ← readMembers_perm labels (nodup_members hlabels r) hp,
      readMembers_members hlabels, ih]
    rfl

theorem rowOfCells_cells (r : ObjectRow labels) :
    rowOfCells labels.length (r.cells.map readValue) =
      ⟨r.values.map readValue, readValue r.target⟩ := by
  have htake : (r.values.map readValue).take labels.length = r.values.map readValue :=
    List.take_of_length_le (by rw [List.length_map, r.length_values])
  rw [cells, List.map_append, List.map_singleton, rowOfCells, List.dropLast_concat, htake,
    List.getLast?_concat, Option.getD_some]

end ObjectRow

/-- An object is read as the array of its inputs and of what is taken for its target: the first input, in
the order of the target keys, that stands under a key before that of the target and is not null, or else
the target. Without such inputs objects and arrays make the same table. -/
theorem readRecords_objects {labels : List String} (hlabels : labels.Nodup)
    {rows : List (ObjectRow labels)} {items : List Value} {objects arrays : String}
    (hrows : List.Forall₂ ObjectRow.Spells rows items)
    (hobjects : Value.ofString? objects = some (.array items))
    (harrays : Value.ofString? arrays = some (.array (rows.map fun r => .array r.cells))) :
    readRecords objects labels = .ok (rows.map fun r =>
        ⟨r.values.map readValue, readValue (r.shadow?.getD r.target)⟩) ∧
      readRecords arrays labels = .ok (rows.map fun r =>
        ⟨r.values.map readValue, readValue r.target⟩) ∧
      ((∀ r ∈ rows, ∀ key ∈ r.earlierKeys, ∀ v, (key, v) ∈ r.inputs → v = .null) →
        readRecords objects labels = readRecords arrays labels) := by
  have hread : readRecords objects labels = .ok (rows.map fun r =>
      ⟨r.values.map readValue, readValue (r.shadow?.getD r.target)⟩) := by
    rw [readRecords, hobjects]
    exact ObjectRow.readRecordsFrom_objects hlabels hrows 1
  have hread' : readRecords arrays labels = .ok (rows.map fun r =>
      ⟨r.values.map readValue, readValue r.target⟩) := by
    have hcells := readRecordsFrom_arrays labels 1 (rows.map ObjectRow.cells)
    simp only [List.map_map, Function.comp_def, ObjectRow.rowOfCells_cells] at hcells
    rw [readRecords, harrays]
    exact hcells
  refine ⟨hread, hread', fun hclear => ?_⟩
  rw [hread, hread']
  refine congrArg Except.ok (List.map_congr_left fun r hr => ?_)
  rw [(r.shadow?_eq_none_iff hlabels).2 (hclear r hr), Option.getD_none]

/-- A row whose target stands under the last key, behind a null input, and one in which it stands under the
first. -/
theorem readRecords_objects_two_rows :
    let objects := "[\x7b\"y\": null, \"output\": \"2.5\", \"x\": 1\x7d,\n" ++
      " \x7b\"x\": 3, \"expected\": true, \"y\": 4\x7d]"
    let arrays := "[[1, null, \"2.5\"], [3, 4, true]]"
    readRecords objects ["x", "y"] = .ok [⟨[1.0, 0.0], 2.5⟩, ⟨[3.0, 4.0], 1.0⟩] ∧
      readRecords objects ["x", "y"] = readRecords arrays ["x", "y"] := by
  intro objects arrays
  have hobjects : Value.ofString? objects = some (.array [
      .object [("y", .null), ("output", .text "2.5"), ("x", .number (.whole 1))],
      .object [("x", .number (.whole 3)), ("expected", .bool true), ("y", .number (.whole 4))]]) := by
    unfold objects
    rfl
  have harrays : Value.ofString? arrays = some (.array [
      .array [.number (.whole 1), .null, .text "2.5"],
      .array [.number (.whole 3), .number (.whole 4), .bool true]]) := by
    unfold arrays
    rfl
  let first : ObjectRow ["x", "y"] :=
    { values := [.number (.whole 1), .null], key := "output", target := .text "2.5"
      length_values := rfl, key_mem := by decide, key_notMem := by decide, target_ne_null := nofun }
  let second : ObjectRow ["x", "y"] :=
    { values := [.number (.whole 3), .number (.whole 4)], key := "expected", target := .bool true
      length_values := rfl, key_mem := by decide, key_notMem := by decide, target_ne_null := nofun }
  have hfirst : first.Spells
      (.object [("y", .null), ("output", .text "2.5"), ("x", .number (.whole 1))]) :=
    ⟨_, rfl, (List.perm_append_singleton _ _).symm⟩
  have hsecond : second.Spells
      (.object [("x", .number (.whole 3)), ("expected", .bool true), ("y", .number (.whole 4))]) :=
    ⟨_, rfl, .cons _ (.swap _ _ _)⟩
  have hclear : ∀ r ∈ [first, second], ∀ key ∈ r.earlierKeys, ∀ v, (key, v) ∈ r.inputs →
      v = .null := by
    have hkeys : first.earlierKeys = ["expected", "y"] := by rfl
    have hkeys' : second.earlierKeys = [] := by rfl
    simp [hkeys, hkeys', first, ObjectRow.inputs]
  obtain ⟨hread, _, hsame⟩ := readRecords_objects (by decide) (.cons hfirst (.cons hsecond .nil))
    hobjects harrays
  exact ⟨hread, hsame hclear⟩

/-- An input called `y` is taken for the target, which stands under `output`. -/
theorem readRecords_input_as_target :
    readRecords "[\x7b\"y\": 1, \"output\": 2\x7d]" ["y"] = .ok [⟨[1.0], 1.0⟩] ∧
      readRecords "[[1, 2]]" ["y"] = .ok [⟨[1.0], 2.0⟩] ∧
      readRecords "[\x7b\"y\": 1, \"output\": 2\x7d]" ["y"] ≠ readRecords "[[1, 2]]" ["y"] := by
  have hobject : readRecords "[\x7b\"y\": 1, \"output\": 2\x7d]" ["y"] = .ok [⟨[1.0], 1.0⟩] := by rfl
  have harray : readRecords "[[1, 2]]" ["y"] = .ok [⟨[1.0], 2.0⟩] := by rfl
  have hne : (1.0 : Float) ≠ 2.0 := by decide +kernel
  refine ⟨hobject, harray, ?_⟩
  rw [hobject, harray]
  simpa using hne

end Dataset

end Backprop
