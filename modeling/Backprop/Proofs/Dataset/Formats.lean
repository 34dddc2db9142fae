import Backprop.Proofs.Dataset.Delimited
import Backprop.Proofs.Json.Render

namespace Backprop.Dataset

open Json (Value)

theorem readRecordsFrom_arrays (labels : List String) (line : Nat) (rows : List (List Value)) :
    readRecordsFrom labels line (rows.map .array) =
      .ok (rows.map fun cells => rowOfCells labels.length (cells.map readValue)) := by
  induction rows generalizing line with
  | nil => rfl
  | cons cells rows ih =>
    rw [List.map_cons, readRecordsFrom, readRecord, ih]
    rfl

theorem readRecords_texts {json : String} {rows : List (List String)}
    (h : Value.ofString? json = some (.array (rows.map fun cells => .array (cells.map .text))))
    (labels : List String) :
    readRecords json labels = .ok (rows.map fun cells =>
      rowOfCells labels.length (cells.map fun cell => readCell cell.toList)) := by
  have hrows : (rows.map fun cells => Value.array (cells.map .text)) =
      (rows.map fun cells => cells.map Value.text).map .array := by
    rw [List.map_map]
    rfl
  rw [readRecords, h, hrows]
  dsimp only
  rw [readRecordsFrom_arrays, List.map_map]
  simp only [Function.comp_def, List.map_map, readValue]

theorem readDelimitedChars_newline (cs : List Char) (labels : List String) :
    readDelimitedChars (cs ++ ['\n']) labels = readDelimitedChars cs labels := by
  rw [readDelimitedChars, contentLines_append_singleton (by decide), readDelimitedChars]

theorem isCell_of {cell : String} (h : ∀ c ∈ cell.toList, c ∉ [',', ';', '\t', '\n']) :
    IsCell cell.toList := by
  intro c hc
  have hne := h c hc
  simp only [List.mem_cons, List.not_mem_nil, or_false, not_or] at hne
  obtain ⟨hcomma, hsemicolon, htab, hnewline⟩ := hne
  constructor
  · simp [isSeparator, hcomma, hsemicolon, htab]
  · exact hnewline

/-- A table of rows with two cells or more is read the same from lines of joined cells, the last of
which may end in a line break, and from any JSON text for the array of its rows. -/
theorem readDelimited_eq_readRecords {header text json : String} {rows : List (List String)}
    {lines : List (List Char)} (hheader : '\n' ∉ header.toList)
    (hcontent : ∃ c ∈ header.toList, ¬Text.isBlank c) (hrows : rows ≠ [])
    (hcells : ∀ cells ∈ rows, 2 ≤ cells.length ∧
      ∀ cell ∈ cells, ∀ c ∈ cell.toList, c ∉ [',', ';', '\t', '\n'])
    (hlines : List.Forall₂ (fun cells line => Joins (cells.map String.toList) line) rows lines)
    (htext : text.toList = ['\n'].intercalate (header.toList :: lines) ∨
      text.toList = ['\n'].intercalate (header.toList :: lines) ++ ['\n'])
    (hjson : Value.ofString? json =
      some (.array (rows.map fun cells => .array (cells.map .text)))) (labels : List String) :
    ∃ table, readDelimited text labels = .ok table ∧ readRecords json labels = .ok table := by
  refine ⟨_, ?_, readRecords_texts hjson labels⟩
  have hjoins : List.Forall₂ Joins (rows.map (·.map String.toList)) lines :=
    List.forall₂_map_left_iff.2 hlines
  have hcell : ∀ cells ∈ rows.map (·.map String.toList), ∀ cell ∈ cells, IsCell cell := by
    intro cells hc cell hmem
    obtain ⟨texts, htexts, rfl⟩ := List.mem_map.1 hc
    obtain ⟨s, hs, rfl⟩ := List.mem_map.1 hmem
    exact isCell_of ((hcells texts htexts).2 s hs)
  have hlength : ∀ cells ∈ rows.map (·.map String.toList), 2 ≤ cells.length := by
    intro cells hc
    obtain ⟨texts, htexts, rfl⟩ := List.mem_map.1 hc
    rw [List.length_map]
    exact (hcells texts htexts).1
  have hline := isLine_of_joins hjoins hcell hlength
  have hread := readDelimitedChars_joins ⟨hheader, hcontent⟩ (by simpa using hrows) hcell hjoins
    hline labels
  have hmap : (rows.map (·.map String.toList)).map
      (fun cells => rowOfCells labels.length (cells.map readCell)) =
      rows.map fun cells =>
        rowOfCells labels.length (cells.map fun cell => readCell cell.toList) := by
    simp only [List.map_map, Function.comp_def]
  rw [hmap] at hread
  rw [readDelimited]
  rcases htext with htext | htext
  · rw [htext, hread]
  · rw [htext, readDelimitedChars_newline, hread]

/-- Separators of both kinds, an empty cell, white space and a carriage return in cells. -/
theorem readDelimited_eq_readRecords_two_rows :
    let text := "a;y\n1, 2\r\nx;3e2,\n"
    let json := "[[\"1\", \" 2\\r\"], [\"x\", \"3e2\", \"\"]]"
    Value.ofString? json = some (.array [.array [.text "1", .text " 2\r"],
        .array [.text "x", .text "3e2", .text ""]]) ∧
      ∃ table, readDelimited text ["a"] = .ok table ∧ readRecords json ["a"] = .ok table := by
  intro text json
  let rows := [["1", " 2\r"], ["x", "3e2", ""]]
  have hjson : Value.ofString? json = some (.array [.array [.text "1", .text " 2\r"],
      .array [.text "x", .text "3e2", .text ""]]) := by cbv
  have hheader : '\n' ∉ "a;y".toList := by decide
  have hcontent : ∃ c ∈ "a;y".toList, ¬Text.isBlank c := ⟨'a', by simp, by decide⟩
  have hcells : ∀ cells ∈ rows, 2 ≤ cells.length ∧
      ∀ cell ∈ cells, ∀ c ∈ cell.toList, c ∉ [',', ';', '\t', '\n'] := by
    simp [rows]
  have hfirst : Joins (["1", " 2\r"].map String.toList) "1, 2\r".toList :=
    .cons _ (.inl rfl) (.last _)
  have hsecond : Joins (["x", "3e2", ""].map String.toList) "x;3e2,".toList :=
    .cons _ (.inr rfl) (.cons _ (.inl rfl) (.last _))
  have hlines : List.Forall₂ (fun cells line => Joins (cells.map String.toList) line) rows
      ["1, 2\r".toList, "x;3e2,".toList] := .cons hfirst (.cons hsecond .nil)
  have htext : text.toList =
      ['\n'].intercalate ["a;y".toList, "1, 2\r".toList, "x;3e2,".toList] ++ ['\n'] := by
    decide +kernel
  exact ⟨hjson, readDelimited_eq_readRecords hheader hcontent (List.cons_ne_nil _ _) hcells hlines
    (.inr htext) hjson ["a"]⟩

end Backprop.Dataset
