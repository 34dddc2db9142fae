import Backprop.Proofs.Dataset.Export
import Backprop.Proofs.Json.Number
import Backprop.Proofs.Monad

namespace Backprop

/-- A row that can be trained on with so many columns. -/
structure Row.Usable (row : Row Float) (width : Nat) : Prop where
  finite_inputs : ∀ x ∈ row.inputs, x.isFinite
  finite_expected : row.expected.isFinite
  length_le : row.inputs.length ≤ width

namespace Json.Value

/-- All numbers in the value are finite, however deep they stand. -/
inductive Finite : Value → Prop
  | null : Finite .null
  | bool (b : Bool) : Finite (.bool b)
  | number {n : Number} : n.toFloat.isFinite → Finite (.number n)
  | text (s : String) : Finite (.text s)
  | array {items : List Value} : (∀ v ∈ items, Finite v) → Finite (.array items)
  | object {members : List (String × Value)} :
      (∀ m ∈ members, Finite m.2) → Finite (.object members)

variable {v : Value}

theorem finite_ofDocument? {depth : Nat} {d : Document} (h : ofDocument? depth d = some v) :
    v.Finite := by
  induction depth using Nat.strong_induction_on generalizing d v with
  | _ depth ih =>
    rw [ofDocument?.eq_def] at h
    split at h
    · cases h
      exact .null
    · cases h
      exact .bool _
    · obtain ⟨n, hn, rfl⟩ := Option.map_eq_some_iff.1 h
      exact .number (Numeral.isFinite_number? hn)
    · obtain ⟨s, _, rfl⟩ := Option.map_eq_some_iff.1 h
      exact .text s
    · cases h
    · cases h
    · obtain ⟨items, hitems, h⟩ := Option.bind_eq_some_iff.1 h
      cases h
      refine .array fun v hv => ?_
      obtain ⟨d, _, hd⟩ := Option.exists_of_mem_mapM hitems v hv
      exact ih _ (Nat.lt_succ_self _) hd
    · obtain ⟨members, hmembers, h⟩ := Option.bind_eq_some_iff.1 h
      cases h
      refine .object fun m hm => ?_
      obtain ⟨⟨key, d⟩, _, hd⟩ := Option.exists_of_mem_mapM hmembers m hm
      obtain ⟨_, _, hd⟩ := Option.bind_eq_some_iff.1 hd
      obtain ⟨v, hv, hd⟩ := Option.bind_eq_some_iff.1 hd
      cases hd
      exact ih _ (Nat.lt_succ_self _) hv

theorem finite_ofString? {s : String} (h : ofString? s = some v) : v.Finite := by
  obtain ⟨d, _, hd⟩ := Option.bind_eq_some_iff.1 h
  exact finite_ofDocument? hd

theorem mem_of_member? {members : List (String × Value)} {key : String}
    (h : member? members key = some v) : (key, v) ∈ members := by
  obtain ⟨_, _, hmembers, _⟩ := List.lookup_eq_some_iff.1 h
  rw [← List.mem_reverse, hmembers]
  exact List.mem_append_right _ List.mem_cons_self

end Json.Value

namespace Dataset

open Json (Value)
open Text

theorem isFinite_readCell (cs : List Char) : (readCell cs).isFinite := by
  rw [readCell]
  split
  · split
    · assumption
    · exact Float.isFinite_zero
  · exact Float.isFinite_zero

theorem isFinite_readValue {v : Value} (h : v.Finite) : (readValue v).isFinite := by
  cases h with
  | number hn => exact hn
  | text s => exact isFinite_readCell s.toList
  | bool b =>
    cases b with
    | true => exact (by decide +kernel : (1.0 : Float).isFinite)
    | false => exact Float.isFinite_zero
  | null | array | object => exact Float.isFinite_zero

theorem isFinite_getD {x : Option Float} (h : ∀ y ∈ x, y.isFinite) : (x.getD 0.0).isFinite := by
  cases x with
  | none => exact Float.isFinite_zero
  | some y => exact h y rfl

theorem usable_rowOfCells {cells : List Float} (h : ∀ x ∈ cells, x.isFinite) (width : Nat) :
    (rowOfCells width cells).Usable width where
  finite_inputs x hx := h x (List.mem_of_mem_dropLast (List.mem_of_mem_take hx))
  finite_expected := isFinite_getD fun _ hx => h _ (List.mem_of_getLast? hx)
  length_le := List.length_take_le _ _

theorem usable_readLine (width : Nat) (line : List Char) : (readLine width line).Usable width := by
  apply usable_rowOfCells
  intro x hx
  obtain ⟨cell, _, rfl⟩ := List.mem_map.1 hx
  exact isFinite_readCell cell

theorem mem_of_target? {members : List (String × Value)} {v : Value}
    (h : target? members = some v) : ∃ key, (key, v) ∈ members := by
  obtain ⟨key, _, hkey⟩ := List.exists_of_findSome?_eq_some h
  split at hkey
  · cases hkey
  · exact ⟨key, Value.mem_of_member? hkey⟩

theorem usable_readMembers {members : List (String × Value)} (h : ∀ m ∈ members, m.2.Finite)
    (labels : List String) : (readMembers labels members).Usable labels.length where
  finite_inputs x hx := by
    obtain ⟨label, _, rfl⟩ := List.mem_map.1 hx
    apply isFinite_getD
    intro y hy
    obtain ⟨v, hv, rfl⟩ := Option.map_eq_some_iff.1 hy
    exact isFinite_readValue (h _ (Value.mem_of_member? hv))
  finite_expected := by
    apply isFinite_getD
    intro y hy
    obtain ⟨v, hv, rfl⟩ := Option.map_eq_some_iff.1 hy
    obtain ⟨key, hmem⟩ := mem_of_target? hv
    exact isFinite_readValue (h _ hmem)
  length_le := (List.length_map _).le

def rowOf? (labels : List String) : Value → Option (Row Float)
  | .array cells => some (rowOfCells labels.length (cells.map readValue))
  | .object members => some (readMembers labels members)
  | _ => none

def IsRow : Value → Prop
  | .array _ | .object _ => True
  | _ => False

variable {labels : List String} {item : Value} {row : Row Float}

theorem rowOf?_eq_none_iff : rowOf? labels item = none ↔ ¬IsRow item := by
  cases item <;> simp [rowOf?, IsRow]

theorem readRecord_eq (labels : List String) (line : Nat) (item : Value) :
    readRecord labels line item = match rowOf? labels item with
      | some row => .ok row
      | none => .error (.unreadableDataset line (.notARow item.render)) := by
  cases item <;> rfl

theorem usable_of_rowOf? (hitem : item.Finite) (h : rowOf? labels item = some row) :
    row.Usable labels.length := by
  cases hitem with
  | array hcells =>
    cases h
    apply usable_rowOfCells
    intro x hx
    obtain ⟨cell, hcell, rfl⟩ := List.mem_map.1 hx
    exact isFinite_readValue (hcells cell hcell)
  | object hmembers =>
    cases h
    exact usable_readMembers hmembers labels
  | null | bool | number | text => cases h

theorem readRecordsFrom_cons (labels : List String) (line : Nat) (item : Value) (items : List Value) :
    readRecordsFrom labels line (item :: items) = match rowOf? labels item with
      | some row => (readRecordsFrom labels (line + 1) items).map (row :: ·)
      | none => .error (.unreadableDataset line (.notARow item.render)) := by
  rw [readRecordsFrom, readRecord_eq]
  cases rowOf? labels item with
  | none => rfl
  | some row => cases readRecordsFrom labels (line + 1) items <;> rfl

theorem readRecordsFrom_eq_ok_iff {line : Nat} {items : List Value} {rows : List (Row Float)} :
    readRecordsFrom labels line items = .ok rows ↔
      List.Forall₂ (fun item row => rowOf? labels item = some row) items rows := by
  induction items generalizing line rows with
  | nil => simp [readRecordsFrom, eq_comm]
  | cons item items ih =>
    rw [readRecordsFrom_cons, List.forall₂_cons_left_iff]
    cases rowOf? labels item with
    | none => simp
    | some row =>
      simp only [Except.map_eq_ok_iff, ih, Option.some.injEq]
      constructor
      · rintro ⟨rest, hrest, rfl⟩
        exact ⟨row, rest, rfl, hrest, rfl⟩
      · rintro ⟨_, rest, rfl, hrest, rfl⟩
        exact ⟨rest, hrest, rfl⟩

/-- The first element that is no row is reported, under its number. -/
theorem readRecordsFrom_eq_error_iff {line : Nat} {items : List Value} {failure : Failure Float} :
    readRecordsFrom labels line items = .error failure ↔
      ∃ i item, items[i]? = some item ∧ (∀ earlier ∈ items.take i, IsRow earlier) ∧ ¬IsRow item ∧
        failure = .unreadableDataset (line + i) (.notARow item.render) := by
  induction items generalizing line with
  | nil => simp [readRecordsFrom]
  | cons item items ih =>
    rw [readRecordsFrom_cons]
    by_cases hitem : IsRow item
    · obtain ⟨row, hrow⟩ := Option.ne_none_iff_exists'.1 (mt rowOf?_eq_none_iff.1 (not_not.2 hitem))
      rw [hrow]
      dsimp only
      rw [Except.map_eq_error_iff, ih]
      constructor
      · rintro ⟨i, found, hfound, hearlier, hnot, rfl⟩
        refine ⟨i + 1, found, hfound, List.forall_mem_cons.2 ⟨hitem, hearlier⟩, hnot, ?_⟩
        rw [Nat.add_assoc, Nat.add_comm 1]
      · rintro ⟨i, found, hfound, hearlier, hnot, rfl⟩
        cases i with
        | zero =>
          cases hfound
          exact absurd hitem hnot
        | succ i =>
          refine ⟨i, found, hfound, (List.forall_mem_cons.1 hearlier).2, hnot, ?_⟩
          rw [Nat.add_assoc, Nat.add_comm 1]
    · rw [rowOf?_eq_none_iff.2 hitem]
      dsimp only
      constructor
      · rintro ⟨⟩
        exact ⟨0, item, rfl, List.forall_mem_nil _, hitem, rfl⟩
      · rintro ⟨i, found, hfound, hearlier, hnot, rfl⟩
        cases i with
        | zero =>
          cases hfound
          rfl
        | succ i => exact absurd (hearlier item List.mem_cons_self) hitem

theorem readRecords_eq_ok_iff {text : String} {rows : List (Row Float)} :
    readRecords text labels = .ok rows ↔ ∃ items, Value.ofString? text = some (.array items) ∧
      List.Forall₂ (fun item row => rowOf? labels item = some row) items rows := by
  rw [readRecords]
  split
  · next h => simp [h]
  · next items h => simp [h, readRecordsFrom_eq_ok_iff]
  · next v hv h =>
    have hne (items : List Value) : v ≠ .array items := hv items
    simp [h, hne]

theorem readRecords_unreadable_iff {text : String} {line : Nat} {defect : ImportDefect} :
    readRecords text labels = .error (.unreadableDataset line defect) ↔
      (∃ v, Value.ofString? text = some v ∧ (∀ items, v ≠ .array items) ∧
          line = 0 ∧ defect = .notAnArray) ∨
        ∃ items i item, Value.ofString? text = some (.array items) ∧ items[i]? = some item ∧
          (∀ earlier ∈ items.take i, IsRow earlier) ∧ ¬IsRow item ∧
          line = i + 1 ∧ defect = .notARow item.render := by
  rw [readRecords]
  split
  · next h => simp [h]
  · next items h => simp [h, readRecordsFrom_eq_error_iff, Nat.add_comm 1]
  · next v hv h =>
    have hne (items : List Value) : v ≠ .array items := hv items
    simp [h, hne, eq_comm]

def filledLines (text : String) : List (List Char) :=
  (text.toList.splitOn '\n').filter fun line => line.any fun c => !isBlank c

theorem contentLines_toList (text : String) :
    contentLines text.toList = (filledLines text).map trim := by
  have hfilled (line : List Char) :
      (!(trim line).isEmpty) = line.any fun c => !isBlank c := by
    rw [Bool.eq_iff_iff]
    simp [trim_eq_nil_iff]
  rw [contentLines_eq, List.filter_map, filledLines]
  simp only [Function.comp_def, hfilled]
  rfl

theorem readDelimited_eq_ok_iff {text : String} {rows : List (Row Float)} :
    readDelimited text labels = .ok rows ↔ 2 ≤ (filledLines text).length ∧
      rows = (filledLines text).tail.map fun line => readLine labels.length (trim line) := by
  rw [readDelimited, readDelimitedChars, contentLines_toList]
  rcases filledLines text with _ | ⟨header, _ | ⟨line, lines⟩⟩
  · simp
  · simp
  · simp [eq_comm, Function.comp_def]

theorem readDelimited_eq_error_iff {text : String} {failure : Failure Float} :
    readDelimited text labels = .error failure ↔ (filledLines text).length < 2 ∧
      failure = .unreadableDataset (filledLines text).length .noDataRow := by
  rw [readDelimited, readDelimitedChars, contentLines_toList]
  rcases filledLines text with _ | ⟨header, _ | ⟨line, lines⟩⟩
  · simp [eq_comm]
  · simp [eq_comm]
  · simp

theorem load_json (text : String) (labels : List String) : load text .json labels =
    (readRecords (String.ofList (trim text.toList)) labels).map .ofList := by
  rw [load]
  cases readRecords (String.ofList (trim text.toList)) labels <;> rfl

/-- A loaded table has finite numbers and no row wider than the labels, with one row for each element of the
document, in order, or for each line below the heading. A document is refused for its first element that is
no row, or for not being an array, and a text for having no line below the heading. -/
theorem load_usable (text : String) (labels : List String) :
    (∀ format table, load text format labels = .ok table →
        ∀ row ∈ table.items, row.Usable labels.length) ∧
      (∀ table, load text .json labels = .ok table →
        ∃ items, Value.ofString? (String.ofList (trim text.toList)) = some (.array items) ∧
          List.Forall₂ (fun item row => rowOf? labels item = some row ∧
            ∀ members, item = .object members → row.inputs.length = labels.length)
            items table.items.toList) ∧
      (∀ table, load text .delimited labels = .ok table → table.items.toList =
        (filledLines text).tail.map fun line => readLine labels.length (trim line)) ∧
      (∀ line defect, readRecords text labels = .error (.unreadableDataset line defect) ↔
        (∃ v, Value.ofString? text = some v ∧ (∀ items, v ≠ .array items) ∧
            line = 0 ∧ defect = .notAnArray) ∨
          ∃ items i item, Value.ofString? text = some (.array items) ∧ items[i]? = some item ∧
            (∀ earlier ∈ items.take i, IsRow earlier) ∧ ¬IsRow item ∧
            line = i + 1 ∧ defect = .notARow item.render) ∧
      ∀ failure, readDelimited text labels = .error failure ↔ (filledLines text).length < 2 ∧
        failure = .unreadableDataset (filledLines text).length .noDataRow := by
  have hdocument {table : Dataset (Row Float)} (h : load text .json labels = .ok table) :
      ∃ items, Value.ofString? (String.ofList (trim text.toList)) = some (.array items) ∧
        List.Forall₂ (fun item row => rowOf? labels item = some row) items table.items.toList := by
    rw [load_json] at h
    obtain ⟨rows, hrows, rfl⟩ := Except.map_eq_ok_iff.1 h
    exact readRecords_eq_ok_iff.1 hrows
  have htext {table : Dataset (Row Float)} (h : load text .delimited labels = .ok table) :
      table.items.toList =
        (filledLines text).tail.map fun line => readLine labels.length (trim line) := by
    rw [load_delimited] at h
    obtain ⟨rows, hrows, rfl⟩ := Except.map_eq_ok_iff.1 h
    exact (readDelimited_eq_ok_iff.1 hrows).2
  refine ⟨?usable, ?document, fun _ => htext, fun _ _ => readRecords_unreadable_iff,
    fun _ => readDelimited_eq_error_iff⟩
  case usable =>
    intro format table h row hrow
    rw [← Array.mem_toList_iff] at hrow
    cases format with
    | delimited =>
      rw [htext h] at hrow
      obtain ⟨line, _, rfl⟩ := List.mem_map.1 hrow
      exact usable_readLine _ _
    | json =>
      obtain ⟨items, hitems, hrows⟩ := hdocument h
      obtain ⟨item, hmem, hitem⟩ := hrows.exists_of_mem row hrow
      cases Value.finite_ofString? hitems with
      | array hfinite => exact usable_of_rowOf? (hfinite item hmem) hitem
  case document =>
    intro table h
    obtain ⟨items, hitems, hrows⟩ := hdocument h
    refine ⟨items, hitems, hrows.imp fun item row hrow => ⟨hrow, ?_⟩⟩
    rintro members rfl
    cases hrow
    exact List.length_map _

/-- An infinite cell, a cell too many, and an object without a target; then a document and a text that are
refused. -/
theorem load_usable_two_rows :
    let text := "\t[[1, \"inf\", 2, 3], \x7b\"b\": true, \"y\": [4]\x7d]"
    let table : Dataset (Row Float) := .ofList [⟨[1.0, 0.0], 3.0⟩, ⟨[0.0, 1.0], 0.0⟩]
    load text .json ["a", "b"] = .ok table ∧ (∀ row ∈ table.items, row.Usable 2) ∧
      readRecords "[[1], 7, 8]" ["a"] = .error (.unreadableDataset 2 (.notARow "7")) ∧
      readDelimited "a\n \n" ["a"] = .error (.unreadableDataset 1 .noDataRow) := by
  intro text table
  have hload : load text .json ["a", "b"] = .ok table := by
    simp only [text, table]
    rfl
  obtain ⟨husable, -⟩ := load_usable text ["a", "b"]
  obtain ⟨-, -, -, hrecords, -⟩ := load_usable "[[1], 7, 8]" ["a"]
  obtain ⟨-, -, -, -, hlines⟩ := load_usable "a\n \n" ["a"]
  have hdocument : Value.ofString? "[[1], 7, 8]" = some (.array [.array [.number (.whole 1)],
      .number (.whole 7), .number (.whole 8)]) := by rfl
  have hitem : readRecords "[[1], 7, 8]" ["a"] = .error (.unreadableDataset 2 (.notARow "7")) :=
    (hrecords 2 _).2 <| .inr
      ⟨_, 1, .number (.whole 7), hdocument, rfl, by simp [IsRow], by simp [IsRow], rfl, by rfl⟩
  have hfilled : (filledLines "a\n \n").length = 1 := by decide +kernel
  have hline := (hlines (.unreadableDataset 1 .noDataRow)).2 (by rw [hfilled]; exact ⟨by decide, rfl⟩)
  exact ⟨hload, husable .json table hload, hitem, hline⟩

end Dataset

end Backprop
