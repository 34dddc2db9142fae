import Backprop.Dataset.Import
import Backprop.Proofs.Text

namespace Backprop.Dataset

open Text

structure IsLine (cs : List Char) : Prop where
  newline : '\n' ∉ cs
  content : ∃ c ∈ cs, ¬isBlank c

theorem contentLines_eq (cs : List Char) : contentLines cs =
    ((cs.splitOnP (· == '\n')).map trim).filter fun line => !line.isEmpty := by
  rw [contentLines, split_eq]

theorem contentLines_append (cs ds : List Char) :
    contentLines (cs ++ '\n' :: ds) = contentLines cs ++ contentLines ds := by
  rw [contentLines_eq, List.splitOnP_append_cons _ _ (by decide), List.map_append,
    List.filter_append, ← contentLines_eq, ← contentLines_eq]

theorem splitOnP_of_notMem {cs : List Char} (h : '\n' ∉ cs) : cs.splitOnP (· == '\n') = [cs] := by
  apply List.splitOnP_eq_singleton
  intro c hc
  simpa using ne_of_mem_of_not_mem hc h

theorem contentLines_intercalate {lines : List (List Char)} (h : ∀ line ∈ lines, IsLine line) :
    contentLines (['\n'].intercalate lines) = lines.map trim := by
  cases lines with
  | nil => rfl
  | cons line lines =>
    have hsplit : (['\n'].intercalate (line :: lines)).splitOnP (· == '\n') = line :: lines :=
      List.splitOn_intercalate '\n' (fun l hl => (h l hl).newline) (List.cons_ne_nil _ _)
    rw [contentLines_eq, hsplit, List.filter_eq_self]
    intro trimmed ht
    obtain ⟨l, hl, rfl⟩ := List.mem_map.1 ht
    simpa using trim_ne_nil (h l hl).content

theorem contentLines_congr {cs ds : List Char} (hcs : '\n' ∉ cs) (hds : '\n' ∉ ds)
    (h : trim cs = trim ds) : contentLines cs = contentLines ds := by
  rw [contentLines_eq, contentLines_eq, splitOnP_of_notMem hcs, splitOnP_of_notMem hds,
    List.map_singleton, List.map_singleton, h]

theorem contentLines_blank_cons {c : Char} (hc : isBlank c) (cs : List Char) :
    contentLines (c :: cs) = contentLines cs := by
  by_cases hn : c = '\n'
  · rw [hn]
    exact contentLines_append [] cs
  · have hsplit : (c :: cs).splitOnP (· == '\n') =
        (cs.splitOnP (· == '\n')).modifyHead (List.cons c) := by
      rw [List.splitOnP_cons_eq_if_modifyHead, if_neg (by simpa using hn)]
    have htrim (piece : List Char) : trim (c :: piece) = trim piece :=
      trim_blank_append (List.forall_mem_singleton.2 hc) piece
    rw [contentLines_eq, contentLines_eq, hsplit]
    cases cs.splitOnP (· == '\n') with
    | nil => rfl
    | cons piece pieces => rw [List.modifyHead_cons, List.map_cons, List.map_cons, htrim]

/-- A text is one line, or a line and a text behind its line feed. -/
@[elab_as_elim]
theorem lines_induction {motive : List Char → Prop} (line : ∀ cs, '\n' ∉ cs → motive cs)
    (append : ∀ cs ds, '\n' ∉ cs → motive ds → motive (cs ++ '\n' :: ds)) (cs : List Char) :
    motive cs := by
  induction hk : cs.length using Nat.strong_induction_on generalizing cs with
  | _ k ih =>
    by_cases hmem : '\n' ∈ cs
    · obtain ⟨front, back, rfl, hfront⟩ := List.eq_append_cons_of_mem hmem
      have hlt : back.length < k := by
        rw [← hk, List.length_append, List.length_cons]
        omega
      exact append front back hfront (ih _ hlt back rfl)
    · exact line cs hmem

theorem contentLines_append_singleton {c : Char} (hc : isBlank c) (cs : List Char) :
    contentLines (cs ++ [c]) = contentLines cs := by
  by_cases hn : c = '\n'
  · rw [hn, contentLines_append]
    exact List.append_nil _
  · induction cs using lines_induction with
    | line cs hcs =>
      apply contentLines_congr _ hcs
      · exact trim_append_blank (List.forall_mem_singleton.2 hc) cs
      · intro h
        rcases List.mem_append.1 h with h | h
        · exact hcs h
        · exact hn (List.mem_singleton.1 h).symm
    | append cs ds _ ih =>
      rw [List.append_assoc, List.cons_append, contentLines_append, contentLines_append, ih]

theorem contentLines_blank_append {blank : List Char} (h : ∀ c ∈ blank, isBlank c)
    (cs : List Char) : contentLines (blank ++ cs) = contentLines cs := by
  induction blank with
  | nil => rfl
  | cons c blank ih =>
    obtain ⟨hc, hblank⟩ := List.forall_mem_cons.1 h
    exact (contentLines_blank_cons hc _).trans (ih hblank)

theorem contentLines_append_blank {blank : List Char} (h : ∀ c ∈ blank, isBlank c)
    (cs : List Char) : contentLines (cs ++ blank) = contentLines cs := by
  induction blank generalizing cs with
  | nil => rw [List.append_nil]
  | cons c blank ih =>
    obtain ⟨hc, hblank⟩ := List.forall_mem_cons.1 h
    rw [List.append_cons, ih hblank, contentLines_append_singleton hc]

theorem contentLines_of_notMem {cs : List Char} (h : '\n' ∉ cs) :
    contentLines cs = if trim cs = [] then [] else [trim cs] := by
  rw [contentLines_eq, splitOnP_of_notMem h, List.map_singleton]
  by_cases ht : trim cs = []
  · simp [ht]
  · simp [ht]

theorem IsLine.contentLines_eq {cs : List Char} (h : IsLine cs) : contentLines cs = [trim cs] := by
  rw [contentLines_of_notMem h.newline, if_neg (trim_ne_nil h.content)]

theorem contentLines_eq_nil_iff {cs : List Char} :
    contentLines cs = [] ↔ ∀ c ∈ cs, isBlank c := by
  refine ⟨fun h => ?_, fun h => contentLines_append_blank h []⟩
  have hline {cs : List Char} (hcs : '\n' ∉ cs) (h : contentLines cs = []) :
      ∀ c ∈ cs, isBlank c := by
    rw [contentLines_of_notMem hcs] at h
    rw [← trim_eq_nil_iff]
    by_contra ht
    rw [if_neg ht] at h
    exact List.cons_ne_nil _ _ h
  induction cs using lines_induction with
  | line cs hcs => exact hline hcs h
  | append cs ds hcs ih =>
    rw [contentLines_append, List.append_eq_nil_iff] at h
    rw [List.forall_mem_append, List.forall_mem_cons]
    exact ⟨hline hcs h.1, by decide, ih h.2⟩

theorem contentLines_ne_nil {cs : List Char} (h : ∃ c ∈ cs, ¬isBlank c) : contentLines cs ≠ [] := by
  rw [Ne, contentLines_eq_nil_iff]
  simpa using h

theorem contentLines_dropWhile (cs : List Char) :
    contentLines (cs.dropWhile isBlank) = contentLines cs := by
  have hblank : ∀ c ∈ cs.takeWhile isBlank, isBlank c := fun _ hc => List.mem_takeWhile_imp hc
  rw [← contentLines_blank_append hblank, List.takeWhile_append_dropWhile]

/-- White space around a table does not matter, whether or not it breaks a line. -/
theorem contentLines_trim (cs : List Char) : contentLines (trim cs) = contentLines cs := by
  obtain ⟨front, back, hcs, hfront, hback⟩ := exists_trim cs
  have hlines := congrArg contentLines hcs
  rw [contentLines_append_blank hback, contentLines_blank_append hfront] at hlines
  exact hlines.symm

theorem readDelimitedChars_of_contentLines {cs header : List Char} {lines : List (List Char)}
    (h : contentLines cs = header :: lines) (hlines : lines ≠ []) (labels : List String) :
    readDelimitedChars cs labels = .ok (lines.map (readLine labels.length)) := by
  obtain ⟨line, rest, rfl⟩ := List.exists_cons_of_ne_nil hlines
  rw [readDelimitedChars, h]

def IsCell (cs : List Char) : Prop :=
  ∀ c ∈ cs, ¬isSeparator c ∧ c ≠ '\n'

/-- Cells in a line, with a comma or a semicolon between any two of them. -/
inductive Joins : List (List Char) → List Char → Prop
  | last (cell : List Char) : Joins [cell] cell
  | cons {cells : List (List Char)} {line : List Char} (cell : List Char) {sep : Char} :
      sep = ',' ∨ sep = ';' → Joins cells line → Joins (cell :: cells) (cell ++ sep :: line)

section

variable {cells : List (List Char)} {line : List Char} {c : Char}

theorem isSeparator_of_joint (h : c = ',' ∨ c = ';') : isSeparator c := by
  rcases h with rfl | rfl
  · decide
  · decide

theorem not_isBlank_of_joint (h : c = ',' ∨ c = ';') : ¬isBlank c := by
  rcases h with rfl | rfl
  · decide
  · decide

theorem ne_newline_of_joint (h : c = ',' ∨ c = ';') : c ≠ '\n' := by
  rcases h with rfl | rfl
  · decide
  · decide

theorem Joins.notMem_newline (h : Joins cells line) (hcells : ∀ cell ∈ cells, '\n' ∉ cell) :
    '\n' ∉ line := by
  induction h with
  | last cell => exact hcells cell (List.mem_singleton_self cell)
  | cons cell hsep _ ih =>
    obtain ⟨hcell, hcells⟩ := List.forall_mem_cons.1 hcells
    intro hn
    rcases List.mem_append.1 hn with hn | hn
    · exact hcell hn
    · rcases List.mem_cons.1 hn with hn | hn
      · exact ne_newline_of_joint hsep hn.symm
      · exact ih hcells hn

theorem Joins.mem (h : Joins cells line) {cell : List Char} (hcell : cell ∈ cells) (hc : c ∈ cell) :
    c ∈ line := by
  induction h with
  | last _ => exact List.mem_singleton.1 hcell ▸ hc
  | cons _ _ _ ih =>
    rcases List.mem_cons.1 hcell with rfl | hcell
    · exact List.mem_append_left _ hc
    · exact List.mem_append_right _ (List.mem_cons_of_mem _ (ih hcell))

theorem IsCell.notMem_newline {cs : List Char} (h : IsCell cs) : '\n' ∉ cs :=
  fun hn => (h _ hn).2 rfl

theorem Joins.isLine (h : Joins cells line) (hcells : ∀ cell ∈ cells, IsCell cell)
    (hlength : 2 ≤ cells.length) : IsLine line where
  newline := h.notMem_newline fun cell hc => (hcells cell hc).notMem_newline
  content := by
    cases h with
    | last cell => exact absurd hlength (by simp)
    | cons cell hsep _ =>
      exact ⟨_, List.mem_append_right _ List.mem_cons_self, not_isBlank_of_joint hsep⟩

theorem readCell_congr {cs ds : List Char} (h : trim cs = trim ds) : readCell cs = readCell ds := by
  rw [readCell, readCell, h]

theorem IsCell.split_eq {cs : List Char} (h : IsCell cs) : split isSeparator cs = [cs] := by
  rw [Text.split_eq, List.splitOnP_eq_singleton]
  intro c hc
  exact Bool.eq_false_iff.2 (h c hc).1

theorem IsCell.split_append {cs : List Char} (h : IsCell cs) (hc : isSeparator c)
    (ds : List Char) : split isSeparator (cs ++ c :: ds) = cs :: split isSeparator ds := by
  rw [Text.split_eq, List.splitOnP_append_cons _ _ hc, ← Text.split_eq, ← Text.split_eq, h.split_eq]
  rfl

theorem IsCell.of_subset {cs ds : List Char} (h : IsCell cs) (hsub : ds ⊆ cs) : IsCell ds :=
  fun c hc => h c (hsub hc)

theorem IsCell.rdropWhile {cs : List Char} (h : IsCell cs) : IsCell (cs.rdropWhile isBlank) :=
  h.of_subset (List.rdropWhile_prefix _ cs).subset

theorem IsCell.dropWhile {cs : List Char} (h : IsCell cs) : IsCell (cs.dropWhile isBlank) :=
  h.of_subset (List.dropWhile_suffix _).subset

/-- White space behind a line is white space behind its last cell. -/
theorem Joins.map_readCell (h : Joins cells line) (hcells : ∀ cell ∈ cells, IsCell cell) :
    (split isSeparator (line.rdropWhile isBlank)).map readCell = cells.map readCell := by
  induction h with
  | last cell =>
    have hcell := hcells cell (List.mem_singleton_self cell)
    rw [hcell.rdropWhile.split_eq, List.map_singleton, List.map_singleton,
      readCell_congr (trim_rdropWhile cell)]
  | cons cell hsep _ ih =>
    obtain ⟨hcell, hcells⟩ := List.forall_mem_cons.1 hcells
    rw [rdropWhile_append_cons (not_isBlank_of_joint hsep),
      hcell.split_append (isSeparator_of_joint hsep), List.map_cons, List.map_cons, ih hcells]

theorem Joins.map_readCell_trim (h : Joins cells line) (hcells : ∀ cell ∈ cells, IsCell cell) :
    (split isSeparator (trim line)).map readCell = cells.map readCell := by
  cases h with
  | last cell =>
    have hcell := hcells line (List.mem_singleton_self line)
    have htrim : IsCell (trim line) := hcell.dropWhile.rdropWhile
    rw [htrim.split_eq, List.map_singleton, List.map_singleton, readCell_congr (trim_trim line)]
  | cons cell hsep hrest =>
    obtain ⟨hcell, hcells⟩ := List.forall_mem_cons.1 hcells
    rw [trim_append_cons (not_isBlank_of_joint hsep),
      hcell.dropWhile.split_append (isSeparator_of_joint hsep), List.map_cons, List.map_cons,
      hrest.map_readCell hcells, readCell_congr (trim_dropWhile cell)]

end

theorem isLine_of_joins {rows : List (List (List Char))} {lines : List (List Char)}
    (h : List.Forall₂ Joins rows lines) (hcells : ∀ cells ∈ rows, ∀ cell ∈ cells, IsCell cell)
    (hlength : ∀ cells ∈ rows, 2 ≤ cells.length) : ∀ line ∈ lines, IsLine line := by
  induction h with
  | nil => exact List.forall_mem_nil _
  | cons hline _ ih =>
    obtain ⟨hcell, hcells⟩ := List.forall_mem_cons.1 hcells
    obtain ⟨hlen, hlength⟩ := List.forall_mem_cons.1 hlength
    exact List.forall_mem_cons.2 ⟨hline.isLine hcell hlen, ih hcells hlength⟩

/-- A heading and lines of joined cells are read as the rows that the cells make. -/
theorem readDelimitedChars_joins {header : List Char} {rows : List (List (List Char))}
    {lines : List (List Char)} (hheader : IsLine header) (hrows : rows ≠ [])
    (hcells : ∀ cells ∈ rows, ∀ cell ∈ cells, IsCell cell)
    (hjoins : List.Forall₂ Joins rows lines) (hlines : ∀ line ∈ lines, IsLine line)
    (labels : List String) :
    readDelimitedChars (['\n'].intercalate (header :: lines)) labels =
      .ok (rows.map fun cells => rowOfCells labels.length (cells.map readCell)) := by
  have hcontent := contentLines_intercalate (List.forall_mem_cons.2 ⟨hheader, hlines⟩)
  have hread : (lines.map trim).map (readLine labels.length) =
      rows.map fun cells => rowOfCells labels.length (cells.map readCell) := by
    clear hrows hlines hcontent
    induction hjoins with
    | nil => rfl
    | cons hline _ ih =>
      obtain ⟨hcell, hcells⟩ := List.forall_mem_cons.1 hcells
      rw [List.map_cons, List.map_cons, List.map_cons, ih hcells, readLine,
        hline.map_readCell_trim hcell]
  cases hjoins with
  | nil => exact absurd rfl hrows
  | cons _ _ =>
    rw [readDelimitedChars, hcontent]
    exact congrArg Except.ok hread

end Backprop.Dataset
