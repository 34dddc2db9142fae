import Backprop.Json.Token

namespace Backprop.Json

/-- Numbers and strings are kept as they were written, because how much of a document has to make sense
depends on who reads it. -/
inductive Document
  | null
  | bool (b : Bool)
  | number (n : Numeral)
  | text (s : Option String)
  | array (items : List Document)
  | object (members : List (Option String × Document))

inductive Frame
  | array (items : List Document)
  | object (members : List (Option String × Document))
  | member (members : List (Option String × Document)) (key : Option String)

/-- What may come next. A container can be closed at once, but not after a comma. -/
inductive Expected
  | value (closable : Bool)
  | key (closable : Bool)
  | colon
  | separator
  | nothing (root : Document)

structure Reading where
  frames : List Frame
  expected : Expected

namespace Reading

def deliver (d : Document) : List Frame → Option Reading
  | [] => some ⟨[], .nothing d⟩
  | .array items :: frames => some ⟨.array (d :: items) :: frames, .separator⟩
  | .member members key :: frames => some ⟨.object ((key, d) :: members) :: frames, .separator⟩
  | .object _ :: _ => none

def close? (t : Token) : List Frame → Option Reading
  | .array items :: frames =>
    match t with
    | .closeArray => deliver (.array items.reverse) frames
    | _ => none
  | .object members :: frames =>
    match t with
    | .closeObject => deliver (.object members.reverse) frames
    | _ => none
  | _ => none

def step? (r : Reading) (t : Token) : Option Reading :=
  match r.expected with
  | .value closable =>
    match t with
    | .null => deliver .null r.frames
    | .bool b => deliver (.bool b) r.frames
    | .number n => deliver (.number n) r.frames
    | .text s => deliver (.text s) r.frames
    | .openArray => some ⟨.array [] :: r.frames, .value true⟩
    | .openObject => some ⟨.object [] :: r.frames, .key true⟩
    | t => if closable then close? t r.frames else none
  | .key closable =>
    match t, r.frames with
    | .text key, .object members :: frames => some ⟨.member members key :: frames, .colon⟩
    | t, frames => if closable then close? t frames else none
  | .colon =>
    match t with
    | .colon => some { r with expected := .value false }
    | _ => none
  | .separator =>
    match t, r.frames with
    | .comma, .array _ :: _ => some { r with expected := .value false }
    | .comma, .object _ :: _ => some { r with expected := .key false }
    | t, frames => close? t frames
  | .nothing _ => none

end Reading

namespace Document

def ofTokens? (ts : List Token) : Option Document := do
  match (← ts.foldlM Reading.step? ⟨[], .value false⟩).expected with
  | .nothing root => some root
  | _ => none

def ofChars? (cs : List Char) : Option Document := do
  ofTokens? (← tokens? cs)

def ofString? (s : String) : Option Document :=
  ofChars? s.toList

end Document

end Backprop.Json
