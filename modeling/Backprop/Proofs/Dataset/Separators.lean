import Backprop.Proofs.Dataset.Delimited
import Backprop.Proofs.Monad

namespace Backprop.Dataset

open Text

def Exchanges (c c' : Char) : Prop :=
  c = c' ∨ isSeparator c ∧ isSeparator c'

instance : DecidableRel Exchanges := fun c c' =>
  inferInstanceAs (Decidable (c = c' ∨ isSeparator c ∧ isSeparator c'))

/-- Where the part of a line that is read begins, and how long it is. -/
def extent (line : List Char) : Nat × Nat :=
  ((line.takeWhile isBlank).length, (trim line).length)

def lines (text : String) : List (List Char) :=
  split (· == '\n') text.toList

section

variable {c c' : Char} {cs cs' line line' : List Char}

theorem Exchanges.isNewline_eq (h : Exchanges c c') : (c == '\n') = (c' == '\n') := by
  have hseparator {c : Char} (hc : isSeparator c) : (c == '\n') = false := by
    rw [beq_eq_false_iff_ne]
    rintro rfl
    exact absurd hc (by decide)
  rcases h with rfl | ⟨hc, hc'⟩
  · rfl
  · rw [hseparator hc, hseparator hc']

/-- Of the separators only the tab is white space. -/
theorem isBlank_eq_of_exchanges (h : Exchanges c c') (htab : c = '\t' ↔ c' = '\t') :
    isBlank c = isBlank c' := by
  have hseparator {c : Char} (hc : isSeparator c) : isBlank c = decide (c = '\t') := by
    simp only [isSeparator, Bool.or_eq_true, decide_eq_true_eq] at hc
    rcases hc with (rfl | rfl) | rfl <;> decide
  rcases h with rfl | ⟨hc, hc'⟩
  · rfl
  · rw [hseparator hc, hseparator hc', decide_eq_decide]
    exact htab

theorem split_exchanges (h : List.Forall₂ Exchanges cs cs') :
    split isSeparator cs = split isSeparator cs' := by
  induction h with
  | nil => rfl
  | cons hc _ ih =>
    rcases hc with rfl | ⟨hc, hc'⟩
    · rw [split, split, ih]
    · rw [split, split, if_pos hc, if_pos hc', ih]

theorem trim_eq_extent (line : List Char) :
    trim line = (line.drop (extent line).1).take (extent line).2 := by
  have hdrop : line.drop (line.takeWhile isBlank).length = line.dropWhile isBlank := by
    have hline := List.takeWhile_append_dropWhile (p := isBlank) (l := line)
    exact (congrArg (List.drop _) hline).symm.trans List.drop_left
  have hprefix : trim line <+: line.dropWhile isBlank := List.rdropWhile_prefix _ _
  rw [extent, hdrop]
  exact List.prefix_iff_eq_take.1 hprefix

theorem trim_exchanges (h : List.Forall₂ Exchanges line line') (he : extent line = extent line') :
    List.Forall₂ Exchanges (trim line) (trim line') := by
  rw [trim_eq_extent, trim_eq_extent line', he]
  exact List.forall₂_take _ (List.forall₂_drop _ h)

/-- Only what is left of the lines is read, and only the cells that it is cut into. -/
theorem readDelimitedChars_exchanges
    (h : List.Forall₂ (List.Forall₂ Exchanges) ((split (· == '\n') cs).map trim)
      ((split (· == '\n') cs').map trim)) (labels : List String) :
    readDelimitedChars cs labels = readDelimitedChars cs' labels := by
  have hcontent : List.Forall₂ (List.Forall₂ Exchanges) (contentLines cs) (contentLines cs') := by
    refine List.rel_filter (fun line line' hline => ?_) h
    cases hline <;> rfl
  have hread {ls ls' : List (List Char)} (hls : List.Forall₂ (List.Forall₂ Exchanges) ls ls') :
      ls.map (readLine labels.length) = ls'.map (readLine labels.length) := by
    refine List.map_eq_map_iff_forall₂.2 (hls.imp fun line line' hline => ?_)
    rw [readLine, readLine, split_exchanges hline]
  rw [readDelimitedChars, readDelimitedChars]
  generalize contentLines cs = ls, contentLines cs' = ls' at hcontent ⊢
  cases hcontent with
  | nil => rfl
  | cons _ hrest =>
    cases hrest with
    | nil => rfl
    | cons hline hlines => exact congrArg Except.ok (hread (.cons hline hlines))

end

/-- Separators are interchangeable wherever the same part of each line is read. For commas and semicolons
that is everywhere. -/
theorem readDelimited_exchange {text text' : String}
    (h : List.Forall₂ Exchanges text.toList text'.toList) (labels : List String) :
    ((lines text).map extent = (lines text').map extent →
        readDelimited text labels = readDelimited text' labels) ∧
      (List.Forall₂ (fun c c' => c = '\t' ↔ c' = '\t') text.toList text'.toList →
        readDelimited text labels = readDelimited text' labels) := by
  rw [readDelimited, readDelimited]
  constructor
  · intro hextent
    apply readDelimitedChars_exchanges
    have hlines : List.Forall₂ (List.Forall₂ Exchanges) (lines text) (lines text') :=
      split_rel (fun _ _ hc => hc.isNewline_eq) h
    rw [List.forall₂_map_left_iff, List.forall₂_map_right_iff]
    exact (hlines.and (List.map_eq_map_iff_forall₂.1 hextent)).imp fun _ _ hline =>
      trim_exchanges hline.1 hline.2
  -- A tab that stays one is white space in both texts, and no other separator is.
  · intro htabs
    apply readDelimitedChars_exchanges
    have hlines := split_rel (fun _ _ hc => hc.1.isNewline_eq) (h.and htabs)
    rw [List.forall₂_map_left_iff, List.forall₂_map_right_iff]
    refine hlines.imp fun line line' hline => ?_
    have htrim := trim_rel (fun _ _ hc => isBlank_eq_of_exchanges hc.1 hc.2) hline
    exact htrim.imp fun _ _ hc => hc.1

theorem readDelimited_exchange_two_rows :
    let text := "x\tz;y\n 1\t\t3 \n\t2;5\n"
    let text' := "x,z\ty\n 1;\t3 \n\t2\t5\n"
    let text'' := "x\tz,y\n 1\t\t3 \n\t2,5\n"
    List.Forall₂ Exchanges text.toList text'.toList ∧
      (lines text).map extent = (lines text').map extent ∧
      readDelimited text ["x", "z"] = readDelimited text' ["x", "z"] ∧
      List.Forall₂ Exchanges text.toList text''.toList ∧
      List.Forall₂ (fun c c' => c = '\t' ↔ c' = '\t') text.toList text''.toList ∧
      readDelimited text ["x", "z"] = readDelimited text'' ["x", "z"] := by
  intro text text' text''
  have h : List.Forall₂ Exchanges text.toList text'.toList := by decide +kernel
  have hextent : (lines text).map extent = (lines text').map extent := by decide +kernel
  have h' : List.Forall₂ Exchanges text.toList text''.toList := by decide +kernel
  have htabs : List.Forall₂ (fun c c' => c = '\t' ↔ c' = '\t') text.toList text''.toList := by
    decide +kernel
  exact ⟨h, hextent, (readDelimited_exchange h _).1 hextent, h', htabs,
    (readDelimited_exchange h' _).2 htabs⟩

/-- At the end of a line a tab does not give an empty last cell, but a comma does. -/
theorem readDelimited_tab_at_end :
    List.Forall₂ Exchanges "x,y\n1,2\n3\t\n".toList "x,y\n1,2\n3,\n".toList ∧
      readDelimited "x,y\n1,2\n3\t\n" ["x"] = .ok [⟨[1.0], 2.0⟩, ⟨[], 3.0⟩] ∧
      readDelimited "x,y\n1,2\n3,\n" ["x"] = .ok [⟨[1.0], 2.0⟩, ⟨[3.0], 0.0⟩] ∧
      readDelimited "x,y\n1,2\n3\t\n" ["x"] ≠ readDelimited "x,y\n1,2\n3,\n" ["x"] := by
  have htab : readDelimited "x,y\n1,2\n3\t\n" ["x"] = .ok [⟨[1.0], 2.0⟩, ⟨[], 3.0⟩] := by rfl
  have hcomma : readDelimited "x,y\n1,2\n3,\n" ["x"] = .ok [⟨[1.0], 2.0⟩, ⟨[3.0], 0.0⟩] := by rfl
  refine ⟨by decide +kernel, htab, hcomma, ?_⟩
  rw [htab, hcomma]
  simp

end Backprop.Dataset
