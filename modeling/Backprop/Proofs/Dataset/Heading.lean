import Backprop.Proofs.Dataset.Export

namespace Backprop.Dataset

open Text

/-- The rows that are read from the heading: one for each of its lines that is not blank, but the first. -/
def strays (labels : List String) : List (Row Float) :=
  (contentLines (heading labels)).tail.map (readLine labels.length)

/-- Labels that break the heading nowhere but in the white space it starts with. -/
def OneLine : List String → Prop
  | [] => True
  | first :: others =>
    '\n' ∉ first.toList.dropWhile isBlank ∧ ∀ label ∈ others, '\n' ∉ label.toList

section

variable {labels : List String} {cs : List Char}

/-- A text that begins and ends with something has another line behind every line feed. -/
theorem length_contentLines_eq_one_iff {first last : Char} (hfirst : ¬isBlank first)
    (hlast : ¬isBlank last) (hhead : cs.head? = some first) (htail : cs.getLast? = some last) :
    (contentLines cs).length = 1 ↔ '\n' ∉ cs := by
  have hnewline : isBlank '\n' := by decide
  constructor
  · intro hlength hmem
    obtain ⟨front, back, rfl⟩ := List.append_of_mem hmem
    have hfront : contentLines front ≠ [] := by
      cases front with
      | nil =>
        cases hhead
        exact absurd hnewline hfirst
      | cons c front =>
        cases hhead
        exact contentLines_ne_nil ⟨first, List.mem_cons_self, hfirst⟩
    have hback : contentLines back ≠ [] := by
      cases back using List.reverseRecOn with
      | nil =>
        rw [List.getLast?_concat] at htail
        cases htail
        exact absurd hnewline hlast
      | append_singleton back c =>
        rw [← List.cons_append, ← List.append_assoc, List.getLast?_concat] at htail
        cases htail
        exact contentLines_ne_nil ⟨last, by simp, hlast⟩
    rw [contentLines_append, List.length_append] at hlength
    have := List.length_pos_iff.2 hfront
    have := List.length_pos_iff.2 hback
    omega
  · intro hmem
    have hline : IsLine cs := ⟨hmem, first, List.mem_of_head? hhead, hfirst⟩
    rw [hline.contentLines_eq, List.length_singleton]

theorem heading_cons (first : String) (others : List String) :
    heading (first :: others) = first.toList ++ ',' :: heading others := by
  cases others <;> simp [heading, joined, List.intercalate]

theorem exists_heading (labels : List String) : ∃ front, heading labels = front ++ ['d'] := by
  induction labels with
  | nil => exact ⟨"expecte".toList, by simp [heading, joined, expectedHeading]⟩
  | cons first others ih =>
    obtain ⟨front, hfront⟩ := ih
    exact ⟨first.toList ++ ',' :: front, by simp [heading_cons, hfront]⟩

theorem notMem_heading : '\n' ∉ heading labels ↔ ∀ label ∈ labels, '\n' ∉ label.toList := by
  induction labels with
  | nil => simp [heading, joined, expectedHeading]
  | cons first others ih => simp [heading_cons, ih]

theorem notMem_dropWhile_heading : '\n' ∉ (heading labels).dropWhile isBlank ↔ OneLine labels := by
  cases labels with
  | nil => simp [heading, joined, expectedHeading, OneLine, isBlank]
  | cons first others =>
    rw [heading_cons, dropWhile_append_cons (by decide), OneLine, ← notMem_heading]
    simp

theorem exists_contentLines_heading (labels : List String) :
    ∃ line lines, contentLines (heading labels) = line :: lines := by
  obtain ⟨front, hfront⟩ := exists_heading labels
  exact List.exists_cons_of_ne_nil (contentLines_ne_nil ⟨'d', by simp [hfront], by decide⟩)

theorem strays_eq_nil_iff : strays labels = [] ↔ OneLine labels := by
  have hd : ¬isBlank 'd' := by decide
  have hlast : ((heading labels).dropWhile isBlank).getLast? = some 'd' := by
    obtain ⟨front, hfront⟩ := exists_heading labels
    rw [hfront, dropWhile_append_cons hd, List.getLast?_concat]
  have hfirst := List.head?_dropWhile_not isBlank (heading labels)
  have hone : strays labels = [] ↔ (contentLines (heading labels)).length = 1 := by
    obtain ⟨line, lines, hlines⟩ := exists_contentLines_heading labels
    rw [strays, hlines, List.tail_cons, List.map_eq_nil_iff, List.length_cons, Nat.add_eq_right,
      List.length_eq_zero_iff]
  -- White space at the front is trimmed away with the first line, so the heading may start behind it.
  rw [hone, ← notMem_dropWhile_heading, ← contentLines_dropWhile]
  generalize (heading labels).dropWhile isBlank = cs at hlast hfirst ⊢
  cases cs with
  | nil => cases hlast
  | cons first rest => exact length_contentLines_eq_one_iff (by simpa using hfirst) hd rfl hlast

end

theorem readLine_trim_writeRow (width : Nat) (row : Row Float) :
    readLine width (trim (writeRow width row)) = restored width row := by
  rw [readLine, (joins_writeRow width row).map_readCell_trim fun _ h => isCell_of_mem_cellsOf h]
  exact rowOfCells_cellsOf width row

/-- A written table is always read again, and no row is lost. There are others in front of the rows unless
the labels keep the heading on one line. -/
theorem readDelimited_writeDelimited_strays {rows : List (Row Float)} (hrows : rows ≠ [])
    (labels : List String) :
    ∃ text, writeDelimited rows labels = .ok text ∧
      readDelimited text labels = .ok (strays labels ++ rows.map (restored labels.length)) ∧
      (strays labels = [] ↔ OneLine labels) := by
  obtain ⟨text, hwrite, htext⟩ := exists_writeDelimited hrows labels
  obtain ⟨line, lines, hheading⟩ := exists_contentLines_heading labels
  have hne : rows.map (writeRow labels.length) ≠ [] := by simpa using hrows
  have hlines : contentLines text.toList =
      line :: (lines ++ (rows.map (writeRow labels.length)).map trim) := by
    rw [htext, List.intercalate_cons_of_ne_nil hne, ← List.append_cons, contentLines_append,
      contentLines_intercalate fun _ => isLine_of_mem_writeRow, hheading, List.cons_append]
  have hread : (lines ++ (rows.map (writeRow labels.length)).map trim).map (readLine labels.length) =
      strays labels ++ rows.map (restored labels.length) := by
    rw [strays, hheading, List.tail_cons, List.map_append, List.map_map, List.map_map]
    simp only [Function.comp_def, readLine_trim_writeRow]
  refine ⟨text, hwrite, ?_, strays_eq_nil_iff⟩
  rw [← hread, readDelimited]
  exact readDelimitedChars_of_contentLines hlines (by simp [hrows]) labels

/-- Two columns, the first of which has a line feed in the white space before its name. -/
theorem readDelimited_writeDelimited_strays_two_columns :
    let rows : List (Row Float) := [⟨[1.5], 2.0⟩]
    let labels := [" \na", "b"]
    rows ≠ [] ∧ OneLine labels ∧ ∃ text, writeDelimited rows labels = .ok text ∧
      readDelimited text labels = .ok [⟨[1.5, 0.0], 2.0⟩] := by
  intro rows labels
  have hrows : rows ≠ [] := List.cons_ne_nil _ _
  have hlabels : OneLine labels := by simp [OneLine, labels, isBlank]
  have hrestored : rows.map (restored 2) = [⟨[1.5, 0.0], 2.0⟩] := by rfl
  obtain ⟨text, hwrite, hread, hstrays⟩ := readDelimited_writeDelimited_strays hrows labels
  rw [hstrays.2 hlabels, List.nil_append] at hread
  exact ⟨hrows, hlabels, text, hwrite, hread.trans (congrArg Except.ok hrestored)⟩

/-- The label `a\nb` makes a row of its own: what it holds behind the line feed, and the name of the last
column. -/
theorem readDelimited_writeDelimited_newline :
    writeDelimited [⟨[1.0], 2.0⟩] ["a\nb"] = .ok "a\nb,expected\n1,2" ∧
      readDelimited "a\nb,expected\n1,2" ["a\nb"] = .ok [⟨[0.0], 0.0⟩, ⟨[1.0], 2.0⟩] ∧
      ∀ table, readDelimited "a\nb,expected\n1,2" ["a\nb"] = .ok table → table.length ≠ 1 := by
  have hread : readDelimited "a\nb,expected\n1,2" ["a\nb"] = .ok [⟨[0.0], 0.0⟩, ⟨[1.0], 2.0⟩] := by rfl
  refine ⟨by rfl, hread, fun table htable => ?_⟩
  rw [hread] at htable
  cases htable
  decide

end Backprop.Dataset
