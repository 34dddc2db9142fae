import Mathlib
import Backprop.Dataset.Delimited

namespace Backprop.Text

theorem split_eq (separates : Char → Bool) (cs : List Char) :
    split separates cs = cs.splitOnP separates := by
  induction cs with
  | nil => rw [split, List.splitOnP_nil]
  | cons c cs ih =>
    rw [split, ih, List.splitOnP_cons_eq_if_modifyHead]
    split
    · rfl
    · cases hs : cs.splitOnP separates with
      | nil => exact absurd hs (List.splitOnP_ne_nil _ _)
      | cons piece pieces => rfl

theorem rdropWhile_append_cons {p : Char → Bool} {c : Char} (hc : ¬p c) (front back : List Char) :
    (front ++ c :: back).rdropWhile p = front ++ c :: back.rdropWhile p := by
  have hreverse : (front ++ c :: back).reverse = back.reverse ++ c :: front.reverse := by
    simp
  rw [List.rdropWhile, List.rdropWhile, hreverse, List.dropWhile_append]
  split
  · next he =>
    rw [List.dropWhile_cons_of_neg hc, List.isEmpty_iff.1 he]
    simp
  · simp

theorem dropWhile_append_cons {p : Char → Bool} {c : Char} (hc : ¬p c) (front back : List Char) :
    (front ++ c :: back).dropWhile p = front.dropWhile p ++ c :: back := by
  rw [List.dropWhile_append, List.dropWhile_cons_of_neg hc]
  split
  · next he => rw [List.isEmpty_iff.1 he, List.nil_append]
  · rfl

theorem trim_append_cons {c : Char} (hc : ¬isBlank c) (front back : List Char) :
    trim (front ++ c :: back) = front.dropWhile isBlank ++ c :: back.rdropWhile isBlank := by
  rw [trim, dropWhile_append_cons hc]
  exact rdropWhile_append_cons hc _ _

theorem trim_ne_nil {cs : List Char} (h : ∃ c ∈ cs, ¬isBlank c) : trim cs ≠ [] := by
  obtain ⟨c, hmem, hc⟩ := h
  obtain ⟨front, back, rfl⟩ := List.append_of_mem hmem
  rw [trim_append_cons hc]
  exact List.append_ne_nil_of_right_ne_nil _ (List.cons_ne_nil _ _)

section

variable {blank : List Char} (hblank : ∀ c ∈ blank, isBlank c)

include hblank

theorem trim_blank_append (cs : List Char) : trim (blank ++ cs) = trim cs := by
  rw [trim, List.dropWhile_append_of_pos hblank, trim]

theorem trim_append_blank (cs : List Char) : trim (cs ++ blank) = trim cs := by
  have hreverse : ∀ c ∈ blank.reverse, isBlank c := by
    intro c hc
    exact hblank c (List.mem_reverse.1 hc)
  rw [trim, List.dropWhile_append]
  split
  · next he =>
    rw [List.dropWhile_eq_nil_iff.2 hblank, trim, List.isEmpty_iff.1 he]
  · rw [List.reverse_append, List.dropWhile_append_of_pos hreverse, trim]

end

theorem trim_eq_nil_iff {cs : List Char} : trim cs = [] ↔ ∀ c ∈ cs, isBlank c := by
  constructor
  · intro h
    by_contra hc
    exact trim_ne_nil (by simpa using hc) h
  · intro h
    rw [← List.append_nil cs, trim_blank_append h]
    rfl

theorem trim_dropWhile (cs : List Char) : trim (cs.dropWhile isBlank) = trim cs := by
  rw [trim, List.dropWhile_idempotent, trim]

theorem trim_rdropWhile (cs : List Char) : trim (cs.rdropWhile isBlank) = trim cs := by
  have hblank : ∀ c ∈ cs.rtakeWhile isBlank, isBlank c := fun _ hc => List.mem_rtakeWhile_imp hc
  have hcs := cs.rdropWhile_append_rtakeWhile (p := isBlank)
  rw [← trim_append_blank hblank, hcs]

theorem trim_trim (cs : List Char) : trim (trim cs) = trim cs :=
  (trim_rdropWhile _).trans (trim_dropWhile cs)

/-- A text is what is left of it between two stretches of white space. -/
theorem exists_trim (cs : List Char) : ∃ front back, cs = front ++ trim cs ++ back ∧
    (∀ c ∈ front, isBlank c) ∧ ∀ c ∈ back, isBlank c := by
  refine ⟨cs.takeWhile isBlank, (cs.dropWhile isBlank).rtakeWhile isBlank, ?_,
    fun _ hc => List.mem_takeWhile_imp hc, fun _ hc => List.mem_rtakeWhile_imp hc⟩
  have hright : trim cs ++ (cs.dropWhile isBlank).rtakeWhile isBlank = cs.dropWhile isBlank :=
    List.rdropWhile_append_rtakeWhile
  rw [List.append_assoc, hright, List.takeWhile_append_dropWhile]

section

variable {R : Char → Char → Prop} {p : Char → Bool} {cs cs' : List Char}

theorem dropWhile_rel (hp : ∀ c c', R c c' → p c = p c') (h : List.Forall₂ R cs cs') :
    List.Forall₂ R (cs.dropWhile p) (cs'.dropWhile p) := by
  induction h with
  | nil => exact .nil
  | cons hc hcs ih =>
    rw [List.dropWhile_cons, List.dropWhile_cons, hp _ _ hc]
    split
    · exact ih
    · exact .cons hc hcs

theorem trim_rel (hblank : ∀ c c', R c c' → isBlank c = isBlank c') (h : List.Forall₂ R cs cs') :
    List.Forall₂ R (trim cs) (trim cs') :=
  List.rel_reverse (dropWhile_rel hblank (List.rel_reverse (dropWhile_rel hblank h)))

theorem split_rel (hp : ∀ c c', R c c' → p c = p c') (h : List.Forall₂ R cs cs') :
    List.Forall₂ (List.Forall₂ R) (split p cs) (split p cs') := by
  induction h with
  | nil => exact .cons .nil .nil
  | @cons c c' cs cs' hc _ ih =>
    rw [split, split, hp c c' hc]
    generalize split p cs = pieces, split p cs' = pieces' at ih ⊢
    split
    · exact .cons .nil ih
    · cases ih with
      | nil => exact .cons (.cons hc .nil) .nil
      | cons hpiece hpieces => exact .cons (.cons hc hpiece) hpieces

end

end Backprop.Text
