import Backprop.Proofs.Dataset.Delimited
import Backprop.Proofs.Decimal.Plain

namespace Backprop.Dataset

open Text

theorem readDelimited_trim (text : String) (labels : List String) :
    readDelimited (String.ofList (trim text.toList)) labels = readDelimited text labels := by
  rw [readDelimited, String.toList_ofList, readDelimitedChars, contentLines_trim]
  rfl

theorem load_delimited (text : String) (labels : List String) :
    load text .delimited labels = (readDelimited text labels).map .ofList := by
  rw [← readDelimited_trim, load]
  cases readDelimited (String.ofList (trim text.toList)) labels <;> rfl

/-- What a number becomes by being written and read. -/
def finiteOrZero (x : Float) : Float :=
  if x.isFinite then x else 0.0

open Float.Model.UnpackedFloat (Sign)

theorem mem_signed {s : Sign} {cs : List Char} {c : Char} (h : c ∈ Decimal.signed s cs) :
    c = '-' ∨ c ∈ cs := by
  cases s with
  | positive => exact .inr h
  | negative => exact List.mem_cons.1 h

theorem mem_plainChars {x : Float} {c : Char} (h : c ∈ Decimal.plainChars x) :
    c.isDigit ∨ c ∈ ['-', '.', 'N', 'a', 'i', 'n', 'f'] := by
  rw [Decimal.plainChars] at h
  split at h
  · have hword : ∀ c ∈ "NaN".toList, c ∈ ['-', '.', 'N', 'a', 'i', 'n', 'f'] := by simp
    exact .inr (hword c h)
  · have hword : ∀ c ∈ "inf".toList, c ∈ ['-', '.', 'N', 'a', 'i', 'n', 'f'] := by simp
    rcases mem_signed h with rfl | h
    · exact .inr (by decide)
    · exact .inr (hword c h)
  · rcases mem_signed h with rfl | h
    · exact .inr (by decide)
    · rw [List.mem_singleton.1 h]
      exact .inl rfl
  · next s m e _ _ =>
    obtain ⟨_, _, hpositional, _, hchars⟩ := Decimal.exists_positional (Decimal.shortest .up m e)
    rcases mem_signed h with rfl | h
    · exact .inr (by decide)
    · rw [hpositional] at h
      rcases hchars c h with hdigit | rfl
      · exact .inl hdigit
      · exact .inr (by decide)

theorem signed_ne_nil (s : Sign) {cs : List Char} (h : cs ≠ []) : Decimal.signed s cs ≠ [] := by
  cases s with
  | positive => exact h
  | negative => exact List.cons_ne_nil _ _

theorem plainChars_ne_nil (x : Float) : Decimal.plainChars x ≠ [] := by
  rw [Decimal.plainChars]
  split
  · simp
  · exact signed_ne_nil _ (by simp)
  · exact signed_ne_nil _ (by simp)
  · next s m e _ _ =>
    obtain ⟨_, _, hpositional, _⟩ := Decimal.exists_positional (Decimal.shortest .up m e)
    rw [hpositional]
    exact signed_ne_nil s (List.cons_ne_nil _ _)

theorem not_isBlank_of_isDigit {c : Char} (h : c.isDigit) : ¬isBlank c := by
  rw [Char.isDigit, Bool.and_eq_true, decide_eq_true_eq, decide_eq_true_eq] at h
  have hlow : 48 ≤ c.toNat := UInt32.le_iff_toNat_le.1 h.1
  have hhigh : c.toNat ≤ 57 := UInt32.le_iff_toNat_le.1 h.2
  simp only [isBlank, Bool.or_eq_true, Bool.and_eq_true, decide_eq_true_eq]
  omega

theorem not_isSeparator_of_isDigit {c : Char} (h : c.isDigit) : ¬isSeparator c ∧ c ≠ '\n' := by
  have hne (d : Char) (hd : ¬d.isDigit) : c ≠ d := by
    rintro rfl
    exact hd h
  simp [isSeparator, hne ',' (by decide), hne ';' (by decide), hne '\t' (by decide),
    hne '\n' (by decide)]

theorem isCell_plainChars (x : Float) : IsCell (Decimal.plainChars x) := by
  intro c hc
  rcases mem_plainChars hc with h | h
  · exact not_isSeparator_of_isDigit h
  · have hothers : ∀ c ∈ ['-', '.', 'N', 'a', 'i', 'n', 'f'], ¬isSeparator c ∧ c ≠ '\n' := by
      simp [isSeparator]
    exact hothers c h

theorem not_isBlank_of_mem_plainChars {x : Float} {c : Char} (h : c ∈ Decimal.plainChars x) :
    ¬isBlank c := by
  rcases mem_plainChars h with h | h
  · exact not_isBlank_of_isDigit h
  · have hothers : ∀ c ∈ ['-', '.', 'N', 'a', 'i', 'n', 'f'], ¬isBlank c := by
      simp [isBlank]
    exact hothers c h

theorem trim_plainChars (x : Float) : trim (Decimal.plainChars x) = Decimal.plainChars x := by
  have hhead : (Decimal.plainChars x).dropWhile isBlank = Decimal.plainChars x := by
    rw [List.dropWhile_eq_self_iff]
    intro hl
    exact not_isBlank_of_mem_plainChars (List.getElem_mem hl)
  have htail : (Decimal.plainChars x).rdropWhile isBlank = Decimal.plainChars x := by
    rw [List.rdropWhile_eq_self_iff]
    intro hl
    exact not_isBlank_of_mem_plainChars (List.getLast_mem hl)
  rw [trim, hhead]
  exact htail

theorem readCell_plainChars (x : Float) : readCell (Decimal.plainChars x) = finiteOrZero x := by
  rw [readCell, trim_plainChars, finiteOrZero]
  by_cases h : x.isFinite
  · rw [Decimal.read?_plainChars h]
  · rw [if_neg h]
    change ¬x.toModel.unpack.isFinite = true at h
    rw [Decimal.plainChars]
    cases hu : x.toModel.unpack with
    | notANumber => rfl
    | infinity s =>
      cases s with
      | positive => rfl
      | negative => rfl
    | zero s =>
      rw [hu] at h
      exact absurd rfl h
    | finite s m e hm =>
      rw [hu] at h
      exact absurd rfl h

theorem joins_joined {cells : List (List Char)} (h : cells ≠ []) : Joins cells (joined cells) := by
  induction cells with
  | nil => exact absurd rfl h
  | cons cell cells ih =>
    cases cells with
    | nil =>
      have hone : joined [cell] = cell := by
        simp [joined]
      rw [hone]
      exact .last cell
    | cons next rest =>
      have hcons : joined (cell :: next :: rest) = cell ++ ',' :: joined (next :: rest) := by
        simp [joined, List.intercalate]
      rw [hcons]
      exact .cons cell (.inl rfl) (ih (List.cons_ne_nil _ _))

def cellsOf (width : Nat) (row : Row Float) : List (List Char) :=
  (List.range width).map (fun i => Decimal.plainChars (row.inputs[i]?.getD 0.0)) ++
    [Decimal.plainChars row.expected]

/-- What a row becomes by being written and read: as many inputs as there are labels, the missing
ones 0, and 0 for what is not finite. -/
def restored (width : Nat) (row : Row Float) : Row Float where
  inputs := (List.range width).map fun i => finiteOrZero (row.inputs[i]?.getD 0.0)
  expected := finiteOrZero row.expected

theorem rowOfCells_cellsOf (width : Nat) (row : Row Float) :
    rowOfCells width ((cellsOf width row).map readCell) = restored width row := by
  have hcells : (cellsOf width row).map readCell =
      (restored width row).inputs ++ [(restored width row).expected] := by
    simp [cellsOf, restored, Function.comp_def, readCell_plainChars]
  have hlength : (restored width row).inputs.length = width := by
    simp [restored]
  rw [hcells, rowOfCells, List.dropLast_concat, List.getLast?_concat, Option.getD_some,
    List.take_of_length_le hlength.le]

theorem isCell_of_mem_cellsOf {width : Nat} {row : Row Float} {cell : List Char}
    (h : cell ∈ cellsOf width row) : IsCell cell := by
  rcases List.mem_append.1 h with h | h
  · obtain ⟨i, _, rfl⟩ := List.mem_map.1 h
    exact isCell_plainChars _
  · rw [List.mem_singleton.1 h]
    exact isCell_plainChars _

theorem joins_writeRow (width : Nat) (row : Row Float) :
    Joins (cellsOf width row) (writeRow width row) :=
  joins_joined (List.append_ne_nil_of_right_ne_nil _ (List.cons_ne_nil _ _))

theorem isLine_writeRow (width : Nat) (row : Row Float) : IsLine (writeRow width row) where
  newline := (joins_writeRow width row).notMem_newline fun _ h =>
    (isCell_of_mem_cellsOf h).notMem_newline
  content := by
    obtain ⟨c, hc⟩ := List.exists_mem_of_ne_nil _ (plainChars_ne_nil row.expected)
    have hmem : Decimal.plainChars row.expected ∈ cellsOf width row :=
      List.mem_append_right _ (List.mem_singleton_self _)
    exact ⟨c, (joins_writeRow width row).mem hmem hc, not_isBlank_of_mem_plainChars hc⟩

theorem isLine_of_mem_writeRow {width : Nat} {rows : List (Row Float)} {line : List Char}
    (h : line ∈ rows.map (writeRow width)) : IsLine line := by
  obtain ⟨row, _, rfl⟩ := List.mem_map.1 h
  exact isLine_writeRow width row

/-- The first line of a written table, unless a label breaks it. -/
def heading (labels : List String) : List Char :=
  joined ((labels ++ [expectedHeading]).map String.toList)

/-- The name of the last column is there to be read, whatever the labels are. -/
theorem isLine_heading {labels : List String} (h : ∀ label ∈ labels, '\n' ∉ label.toList) :
    IsLine (heading labels) := by
  have hmem : expectedHeading.toList ∈ (labels ++ [expectedHeading]).map String.toList :=
    List.mem_map_of_mem (List.mem_append_right _ (List.mem_singleton_self _))
  have hjoins := joins_joined (List.ne_nil_of_mem hmem)
  constructor
  · apply hjoins.notMem_newline
    intro cell hc
    obtain ⟨label, hlabel, rfl⟩ := List.mem_map.1 hc
    rcases List.mem_append.1 hlabel with hlabel | hlabel
    · exact h label hlabel
    · rw [List.mem_singleton.1 hlabel]
      simp [expectedHeading]
  · exact ⟨'e', hjoins.mem hmem (by simp [expectedHeading]), by decide⟩

theorem exists_writeDelimited {rows : List (Row Float)} (hrows : rows ≠ []) (labels : List String) :
    ∃ text, writeDelimited rows labels = .ok text ∧ text.toList =
      ['\n'].intercalate (heading labels :: rows.map (writeRow labels.length)) := by
  rw [writeDelimited, writeDelimitedChars, if_neg (by simpa using hrows)]
  exact ⟨_, rfl, String.toList_ofList⟩

/-- A table that has rows is written to a text that is read again, by itself or as a dataset, as one
row for each, in order. -/
theorem readDelimited_writeDelimited {rows : List (Row Float)} {labels : List String}
    (hrows : rows ≠ []) (hlabels : ∀ label ∈ labels, '\n' ∉ label.toList) :
    ∃ text, writeDelimited rows labels = .ok text ∧
      readDelimited text labels = .ok (rows.map (restored labels.length)) ∧
      load text .delimited labels = .ok (.ofList (rows.map (restored labels.length))) := by
  obtain ⟨text, hwrite, htext⟩ := exists_writeDelimited hrows labels
  have hjoins : List.Forall₂ Joins (rows.map (cellsOf labels.length))
      (rows.map (writeRow labels.length)) := by
    rw [List.forall₂_map_left_iff, List.forall₂_map_right_iff, List.forall₂_same]
    intro row _
    exact joins_writeRow labels.length row
  have hcells : ∀ cells ∈ rows.map (cellsOf labels.length), ∀ cell ∈ cells, IsCell cell := by
    intro cells hc cell hmem
    obtain ⟨row, _, rfl⟩ := List.mem_map.1 hc
    exact isCell_of_mem_cellsOf hmem
  have hread : readDelimited text labels = .ok (rows.map (restored labels.length)) := by
    rw [readDelimited, htext, readDelimitedChars_joins (isLine_heading hlabels)
      (by simpa using hrows) hcells hjoins (fun _ => isLine_of_mem_writeRow) labels, List.map_map]
    simp only [Function.comp_def, rowOfCells_cellsOf]
  refine ⟨text, hwrite, hread, ?_⟩
  rw [load_delimited, hread]
  rfl

/-- A row with an input too many, and a short one in which nothing is finite. -/
theorem readDelimited_writeDelimited_ragged :
    let rows : List (Row Float) := [⟨[-0.0, 1.5, 7.0], 0.25⟩, ⟨[0.0 / 0.0], -1.0 / 0.0⟩]
    rows ≠ [] ∧ (∀ label ∈ ["a;b", " "], '\n' ∉ label.toList) ∧
      ∃ text, writeDelimited rows ["a;b", " "] = .ok text ∧
        readDelimited text ["a;b", " "] = .ok [⟨[-0.0, 1.5], 0.25⟩, ⟨[0.0, 0.0], 0.0⟩] ∧
        load text .delimited ["a;b", " "] =
          .ok (.ofList [⟨[-0.0, 1.5], 0.25⟩, ⟨[0.0, 0.0], 0.0⟩]) := by
  intro rows
  have hrows : rows ≠ [] := List.cons_ne_nil _ _
  have hlabels : ∀ label ∈ ["a;b", " "], '\n' ∉ label.toList := by decide
  have hrestored : rows.map (restored 2) = [⟨[-0.0, 1.5], 0.25⟩, ⟨[0.0, 0.0], 0.0⟩] := by rfl
  refine ⟨hrows, hlabels, ?_⟩
  rw [← hrestored]
  exact readDelimited_writeDelimited hrows hlabels

end Backprop.Dataset
