import Backprop.Proofs.Dataset.Export

namespace Backprop.Dataset

open Text

inductive LineEnd
  | lf
  | crlf

def LineEnd.chars : LineEnd → List Char
  | .lf => ['\n']
  | .crlf => ['\r', '\n']

theorem LineEnd.isBlank_of_mem (ending : LineEnd) : ∀ c ∈ ending.chars, isBlank c := by
  cases ending with
  | lf => simp [chars, isBlank]
  | crlf => simp [chars, isBlank]

def AtLineStart (front : List Char) : Prop :=
  front = [] ∨ ∃ before, front = before ++ ['\n']

def AtLineEnd (back : List Char) : Prop :=
  back = [] ∨ ∃ (ending : LineEnd) (after : List Char), back = ending.chars ++ after

/-- One change in the layout of a text. -/
inductive Reformats : List Char → List Char → Prop
  /-- A blank line before any other line, or behind a text that ends in a line feed. -/
  | blankLine {front blank : List Char} (back : List Char) (ending : LineEnd) :
      AtLineStart front → (∀ c ∈ blank, isBlank c) →
      Reformats (front ++ back) (front ++ (blank ++ ending.chars ++ back))
  | lastLine {blank : List Char} (text : List Char) (ending : LineEnd) :
      (∀ c ∈ blank, isBlank c) → Reformats text (text ++ (ending.chars ++ blank))
  | indent {front spaces : List Char} (back : List Char) :
      AtLineStart front → (∀ c ∈ spaces, isBlank c) →
      Reformats (front ++ back) (front ++ (spaces ++ back))
  | trail {spaces back : List Char} (front : List Char) :
      AtLineEnd back → (∀ c ∈ spaces, isBlank c) →
      Reformats (front ++ back) (front ++ (spaces ++ back))
  | carriageReturn (front back : List Char) :
      Reformats (front ++ '\n' :: back) (front ++ '\r' :: '\n' :: back)

section

variable {front blank back cs ds : List Char}

theorem contentLines_append_lineEnd (front : List Char) (ending : LineEnd) (after : List Char) :
    contentLines (front ++ (ending.chars ++ after)) = contentLines front ++ contentLines after := by
  cases ending with
  | lf => exact contentLines_append front after
  | crlf =>
    have hfront : front ++ (LineEnd.crlf.chars ++ after) = (front ++ ['\r']) ++ '\n' :: after := by
      simp [LineEnd.chars]
    rw [hfront, contentLines_append, contentLines_append_singleton (by decide)]

theorem contentLines_insert_start (hfront : AtLineStart front) (hblank : ∀ c ∈ blank, isBlank c) :
    contentLines (front ++ (blank ++ back)) = contentLines (front ++ back) := by
  rcases hfront with rfl | ⟨before, rfl⟩
  · exact contentLines_blank_append hblank back
  · rw [← List.append_cons, ← List.append_cons, contentLines_append, contentLines_append,
      contentLines_blank_append hblank]

theorem contentLines_insert_end (hback : AtLineEnd back) (hblank : ∀ c ∈ blank, isBlank c) :
    contentLines (front ++ (blank ++ back)) = contentLines (front ++ back) := by
  rw [← List.append_assoc]
  rcases hback with rfl | ⟨ending, after, rfl⟩
  · rw [List.append_nil, List.append_nil, contentLines_append_blank hblank]
  · rw [contentLines_append_lineEnd, contentLines_append_lineEnd, contentLines_append_blank hblank]

/-- Every change puts white space where a line begins or ends. -/
theorem Reformats.contentLines_eq (h : Reformats cs ds) : contentLines ds = contentLines cs := by
  cases h with
  | blankLine back ending hfront hblank =>
    exact contentLines_insert_start hfront
      (List.forall_mem_append.2 ⟨hblank, ending.isBlank_of_mem⟩)
  | lastLine _ ending hblank =>
    exact contentLines_append_blank (List.forall_mem_append.2 ⟨ending.isBlank_of_mem, hblank⟩) _
  | indent back hfront hspaces => exact contentLines_insert_start hfront hspaces
  | trail front hback hspaces => exact contentLines_insert_end hback hspaces
  | carriageReturn front back =>
    have hreturn : ∀ c ∈ ['\r'], isBlank c := by simp [isBlank]
    exact contentLines_insert_end (.inr ⟨.lf, back, rfl⟩) hreturn

theorem contentLines_of_eqvGen (h : Relation.EqvGen Reformats cs ds) :
    contentLines ds = contentLines cs := by
  induction h with
  | rel _ _ h => exact h.contentLines_eq
  | refl => rfl
  | symm _ _ _ ih => exact ih.symm
  | trans _ _ _ _ _ ih ih' => exact ih'.trans ih

end

theorem contentLines_below {header : String} (h : IsLine header.toList) (text : String) :
    contentLines (header ++ "\n" ++ text).toList =
      trim header.toList :: contentLines text.toList := by
  have hchars : (header ++ "\n" ++ text).toList = header.toList ++ '\n' :: text.toList := by
    simp
  rw [hchars, contentLines_append, h.contentLines_eq, List.singleton_append]

theorem readDelimited_below {header : String} (h : IsLine header.toList) {text : String}
    (htext : ∃ c ∈ text.toList, ¬isBlank c) (labels : List String) :
    readDelimited (header ++ "\n" ++ text) labels =
      .ok ((contentLines text.toList).map (readLine labels.length)) := by
  rw [readDelimited]
  exact readDelimitedChars_of_contentLines (contentLines_below h text) (contentLines_ne_nil htext) labels

/-- Whether a table is loaded or read, its layout does not matter, and the rows of two tables below one
heading are those of the one and then those of the other. -/
theorem readDelimited_layout (text : String) (labels : List String) :
    load text .delimited labels = (readDelimited text labels).map .ofList ∧
      (∀ text' : String, Relation.EqvGen Reformats text.toList text'.toList →
        readDelimited text' labels = readDelimited text labels ∧
          load text' .delimited labels = load text .delimited labels) ∧
      ∀ header top bottom : String, IsLine header.toList → (∃ c ∈ top.toList, ¬isBlank c) →
        (∃ c ∈ bottom.toList, ¬isBlank c) →
        ∃ rows rows', readDelimited (header ++ "\n" ++ top) labels = .ok rows ∧
          readDelimited (header ++ "\n" ++ bottom) labels = .ok rows' ∧
          readDelimited (header ++ "\n" ++ top ++ "\n" ++ bottom) labels = .ok (rows ++ rows') := by
  refine ⟨load_delimited text labels, fun text' h => ?_,
    fun header top bottom hheader htop hbottom => ?_⟩
  · have hread : readDelimited text' labels = readDelimited text labels := by
      rw [readDelimited, readDelimited, readDelimitedChars, contentLines_of_eqvGen h]
      rfl
    rw [load_delimited, load_delimited, hread]
    exact ⟨rfl, rfl⟩
  · refine ⟨_, _, readDelimited_below hheader htop labels, readDelimited_below hheader hbottom labels, ?_⟩
    have hboth : (top ++ "\n" ++ bottom).toList = top.toList ++ '\n' :: bottom.toList := by
      simp
    have hcontent : ∃ c ∈ (top ++ "\n" ++ bottom).toList, ¬isBlank c := by
      obtain ⟨c, hc, hblank⟩ := htop
      rw [hboth]
      exact ⟨c, List.mem_append_left _ hc, hblank⟩
    have hread := readDelimited_below hheader hcontent labels
    rw [hboth, contentLines_append, List.map_append] at hread
    rw [← hread]
    simp only [String.append_assoc]

theorem readDelimited_layout_one_row :
    let text := "x\n1"
    let text' := "x\r\n\t\n 1 "
    Relation.EqvGen Reformats text.toList text'.toList ∧
      load text .delimited ["x"] = (readDelimited text ["x"]).map .ofList ∧
      readDelimited text' ["x"] = readDelimited text ["x"] ∧
      IsLine "x".toList ∧ (∃ c ∈ "1".toList, ¬isBlank c) ∧ (∃ c ∈ "\n2;3".toList, ¬isBlank c) ∧
      ∃ rows rows', readDelimited "x\n1" ["x"] = .ok rows ∧
        readDelimited "x\n\n2;3" ["x"] = .ok rows' ∧
        readDelimited "x\n1\n\n2;3" ["x"] = .ok (rows ++ rows') := by
  intro text text'
  have hspace : ∀ c ∈ [' '], isBlank c := by simp [isBlank]
  have htab : ∀ c ∈ ['\t'], isBlank c := by simp [isBlank]
  have htext : text.toList = ['x', '\n', '1'] := by decide +kernel
  have htext' : text'.toList = ['x', '\r', '\n', '\t', '\n', ' ', '1', ' '] := by decide +kernel
  have hsecond : AtLineStart ['x', '\r', '\n'] := .inr ⟨['x', '\r'], rfl⟩
  have hthird : AtLineStart ['x', '\r', '\n', '\t', '\n'] := .inr ⟨['x', '\r', '\n', '\t'], rfl⟩
  have hsteps : Relation.EqvGen Reformats text.toList text'.toList := by
    rw [htext, htext']
    apply Relation.EqvGen.trans _ _ _ (.rel _ _ (.carriageReturn ['x'] ['1']))
    apply Relation.EqvGen.trans _ _ _ (.rel _ _ (.blankLine ['1'] .lf hsecond htab))
    apply Relation.EqvGen.trans _ _ _ (.rel _ _ (.indent ['1'] hthird hspace))
    exact .rel _ _ (.trail ['x', '\r', '\n', '\t', '\n', ' ', '1'] (.inl rfl) hspace)
  have hheader : IsLine "x".toList := ⟨by decide, 'x', by decide, by decide⟩
  have htop : ∃ c ∈ "1".toList, ¬isBlank c := ⟨'1', by decide, by decide⟩
  have hbottom : ∃ c ∈ "\n2;3".toList, ¬isBlank c := ⟨'3', by decide, by decide⟩
  obtain ⟨hload, hlayout, hbelow⟩ := readDelimited_layout text ["x"]
  exact ⟨hsteps, hload, (hlayout text' hsteps).1, hheader, htop, hbottom,
    hbelow "x" "1" "\n2;3" hheader htop hbottom⟩

end Backprop.Dataset
