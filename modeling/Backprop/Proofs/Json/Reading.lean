import Backprop.Proofs.Json.Lexing

namespace Backprop.Json

theorem intercalate_cons {α : Type} (a : α) (x : List α) (xs : List (List α)) :
    [a].intercalate (x :: xs) = x ++ xs.flatMap (a :: ·) := by
  induction xs generalizing x with
  | nil => simp
  | cons y ys ih => rw [List.intercalate_cons_cons, ih, List.flatMap_cons, List.append_assoc]; rfl

namespace Document

variable {cs : List Char} {d : Document}

instance : Inhabited Document := ⟨.null⟩

/-- Wherever a value may stand, the tokens are read as `d`. -/
def Spelled (us : List Token) (d : Document) : Prop :=
  ∀ frames closable,
    us.foldlM Reading.step? ⟨frames, .value closable⟩ = Reading.deliver d frames

def Written (cs : List Char) (d : Document) : Prop :=
  ∃ us, Lexer.Cuts cs us ∧ Spelled us d

theorem Written.ofChars? (h : Written cs d) : ofChars? cs = some d := by
  obtain ⟨us, hcut, hs⟩ := h
  rw [Document.ofChars?, hcut.tokens?]
  change ofTokens? us = some d
  rw [ofTokens?, hs]
  rfl

theorem spelled_singleton {u : Token}
    (h : ∀ frames closable, Reading.step? ⟨frames, .value closable⟩ u = Reading.deliver d frames) :
    Spelled [u] d := by
  intro frames closable
  rw [List.foldlM_cons, h]
  exact bind_pure _

theorem written_null : Written "null".toList .null :=
  ⟨_, Lexer.cuts_null, spelled_singleton fun _ _ => rfl⟩

theorem written_true : Written "true".toList (.bool true) :=
  ⟨_, Lexer.cuts_true, spelled_singleton fun _ _ => rfl⟩

theorem written_false : Written "false".toList (.bool false) :=
  ⟨_, Lexer.cuts_false, spelled_singleton fun _ _ => rfl⟩

theorem written_numeral {n : Numeral} (h : n.WellFormed) : Written n.chars (.number n) :=
  ⟨_, Lexer.cuts_numeral h, spelled_singleton fun _ _ => rfl⟩

theorem written_quoted (s : String) : Written (Value.quoted s) (.text (some s)) :=
  ⟨_, Lexer.cuts_quoted s, spelled_singleton fun _ _ => rfl⟩

/-- What is read element by element, up to a closing bracket. -/
structure Container (α : Type) where
  /-- The container with some elements, last one first. -/
  frame : List α → Frame
  whole : List α → Document
  next : Bool → Expected
  bracket : Char
  closing : Token
  punctuation?_bracket : punctuation? bracket = some closing
  step?_comma : ∀ as frames,
    Reading.step? ⟨frame as :: frames, .separator⟩ .comma = some ⟨frame as :: frames, next false⟩
  step?_closing : ∀ as frames,
    Reading.step? ⟨frame as :: frames, .separator⟩ closing =
      Reading.deliver (whole as.reverse) frames
  step?_closing_nil : ∀ frames,
    Reading.step? ⟨frame [] :: frames, next true⟩ closing = Reading.deliver (whole []) frames

namespace Container

def items : Container Document where
  frame := .array
  whole := .array
  next := .value
  bracket := ']'
  closing := .closeArray
  punctuation?_bracket := rfl
  step?_comma _ _ := rfl
  step?_closing _ _ := rfl
  step?_closing_nil _ := rfl

def members : Container (Option String × Document) where
  frame := .object
  whole := .object
  next := .key
  bracket := '\x7d'
  closing := .closeObject
  punctuation?_bracket := rfl
  step?_comma _ _ := rfl
  step?_closing _ _ := rfl
  step?_closing_nil _ := rfl

variable {α : Type} (C : Container α)

def Element (cs : List Char) (a : α) : Prop :=
  ∃ us, Lexer.Cuts cs us ∧ ∀ as frames closable,
    us.foldlM Reading.step? ⟨C.frame as :: frames, C.next closable⟩ =
      some ⟨C.frame (a :: as) :: frames, .separator⟩

variable {ι : Type} {l : List ι} {text : ι → List Char} {element : ι → α}

theorem isBoundary_rest (l : List ι) (text : ι → List Char) :
    Lexer.IsBoundary ((l.map text).flatMap (',' :: ·) ++ [C.bracket]) := by
  cases l with
  | nil =>
    rintro _ ⟨⟩
    exact ⟨_, C.punctuation?_bracket⟩
  | cons i l =>
    rintro _ ⟨⟩
    exact ⟨.comma, rfl⟩

/-- Behind an element, the other ones and the bracket are still to come. -/
theorem exists_tokens_rest (h : ∀ i ∈ l, C.Element (text i) (element i)) :
    ∃ us, Lexer.Cuts ((l.map text).flatMap (',' :: ·) ++ [C.bracket]) us ∧ ∀ as frames,
      us.foldlM Reading.step? ⟨C.frame as :: frames, .separator⟩ =
        Reading.deliver (C.whole (as.reverse ++ l.map element)) frames := by
  induction l with
  | nil =>
    refine ⟨[C.closing], Lexer.cuts_nil.cons C.punctuation?_bracket, fun as frames => ?_⟩
    rw [List.foldlM_cons, C.step?_closing, List.map_nil, List.append_nil]
    exact bind_pure _
  | cons i l ih =>
    obtain ⟨hi, hl⟩ := List.forall_mem_cons.1 h
    obtain ⟨us, hcut, hread⟩ := hi
    obtain ⟨us', hcut', hread'⟩ := ih hl
    refine ⟨.comma :: (us ++ us'), ?_, fun as frames => ?_⟩
    · rw [List.map_cons, List.flatMap_cons, List.append_assoc]
      exact (hcut.append hcut' (C.isBoundary_rest l text)).cons rfl
    · have hrest := hread' (element i :: as) frames
      rw [List.reverse_cons, List.append_assoc] at hrest
      rw [List.foldlM_cons, C.step?_comma]
      change (us ++ us').foldlM Reading.step? _ = _
      rw [List.foldlM_append, hread]
      exact hrest

theorem exists_tokens (h : ∀ i ∈ l, C.Element (text i) (element i)) :
    ∃ us, Lexer.Cuts ([','].intercalate (l.map text) ++ [C.bracket]) us ∧ ∀ frames,
      us.foldlM Reading.step? ⟨C.frame [] :: frames, C.next true⟩ =
        Reading.deliver (C.whole (l.map element)) frames := by
  cases l with
  | nil =>
    refine ⟨[C.closing], Lexer.cuts_nil.cons C.punctuation?_bracket, fun frames => ?_⟩
    rw [List.foldlM_cons, C.step?_closing_nil]
    exact bind_pure _
  | cons i l =>
    obtain ⟨hi, hl⟩ := List.forall_mem_cons.1 h
    obtain ⟨us, hcut, hread⟩ := hi
    obtain ⟨us', hcut', hread'⟩ := C.exists_tokens_rest hl
    refine ⟨us ++ us', ?_, fun frames => ?_⟩
    · rw [List.map_cons, intercalate_cons, List.append_assoc]
      exact hcut.append hcut' (C.isBoundary_rest l text)
    · rw [List.foldlM_append, hread]
      exact hread' [element i] frames

end Container

theorem element_items (h : Written cs d) : Container.items.Element cs d := by
  obtain ⟨us, hcut, hs⟩ := h
  exact ⟨us, hcut, fun as frames closable => hs (.array as :: frames) closable⟩

theorem element_members (key : String) (h : Written cs d) :
    Container.members.Element (Value.quoted key ++ ':' :: cs) (some key, d) := by
  obtain ⟨us, hcut, hs⟩ := h
  refine ⟨[.text (some key)] ++ .colon :: us, ?_, fun as frames closable => ?_⟩
  · refine (Lexer.cuts_quoted key).append (hcut.cons rfl) ?_
    rintro _ ⟨⟩
    exact ⟨.colon, rfl⟩
  · exact hs (.member as (some key) :: frames) false

variable {ι : Type} {l : List ι} {text : ι → List Char}

theorem written_array {document : ι → Document} (h : ∀ i ∈ l, Written (text i) (document i)) :
    Written ('[' :: [','].intercalate (l.map text) ++ [']']) (.array (l.map document)) := by
  obtain ⟨us, hcut, hread⟩ := Container.items.exists_tokens fun i hi => element_items (h i hi)
  exact ⟨.openArray :: us, hcut.cons rfl, fun frames _ => hread frames⟩

theorem written_object {member : ι → Option String × Document}
    (h : ∀ i ∈ l, Container.members.Element (text i) (member i)) :
    Written ('\x7b' :: [','].intercalate (l.map text) ++ ['\x7d']) (.object (l.map member)) := by
  obtain ⟨us, hcut, hread⟩ := Container.members.exists_tokens h
  exact ⟨.openObject :: us, hcut.cons rfl, fun frames _ => hread frames⟩

end Document

end Backprop.Json
