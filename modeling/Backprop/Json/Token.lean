import Backprop.Json.Number

namespace Backprop.Json

inductive Token
  | openArray
  | closeArray
  | openObject
  | closeObject
  | comma
  | colon
  | null
  | bool (b : Bool)
  | number (n : Numeral)
  /-- There is no text if an escape names half of a surrogate pair without its other half. -/
  | text (s : Option String)

inductive Piece
  | char (c : Char)
  | unit (n : Nat)

/-- The characters of a string, in which every surrogate must have its partner. -/
def decodePieces : List Piece → Option (List Char)
  | [] => some []
  | .char c :: rest => (decodePieces rest).map (c :: ·)
  | .unit n :: rest =>
    if 0xDC00 ≤ n && n ≤ 0xDFFF then none
    else if 0xD800 ≤ n && n ≤ 0xDBFF then
      match rest with
      | .unit m :: rest =>
        if 0xDC00 ≤ m && m ≤ 0xDFFF then
          let c := Char.ofNat (0x10000 + (n - 0xD800) * 0x400 + (m - 0xDC00))
          (decodePieces rest).map (c :: ·)
        else none
      | _ => none
    else (decodePieces rest).map (Char.ofNat n :: ·)

/-- What the characters read so far are part of. The parts of a token are kept last one first. -/
inductive Lexing
  | between
  | word (cs : List Char)
  | numeral (cs : List Char)
  | text (pieces : List Piece)
  | escape (pieces : List Piece)
  | hex (pieces : List Piece) (missing value : Nat)

structure Lexer where
  tokens : List Token
  state : Lexing

def isSpace (c : Char) : Bool :=
  c = ' ' || c = '\t' || c = '\n' || c = '\r'

def isNumeral (c : Char) : Bool :=
  c.isDigit || c = '-' || c = '+' || c = '.' || c = 'e' || c = 'E'

def punctuation? : Char → Option Token
  | '[' => some .openArray
  | ']' => some .closeArray
  | '\x7b' => some .openObject
  | '\x7d' => some .closeObject
  | ',' => some .comma
  | ':' => some .colon
  | _ => none

def word? (cs : List Char) : Option Token :=
  if cs = "null".toList then some .null
  else if cs = "true".toList then some (.bool true)
  else if cs = "false".toList then some (.bool false)
  else none

def escaped? : Char → Option Char
  | '"' => some '"'
  | '\\' => some '\\'
  | '/' => some '/'
  | 'b' => some '\x08'
  | 'f' => some '\x0c'
  | 'n' => some '\n'
  | 'r' => some '\r'
  | 't' => some '\t'
  | _ => none

def hexDigit? (c : Char) : Option Nat :=
  if '0' ≤ c && c ≤ '9' then some (c.toNat - '0'.toNat)
  else if 'a' ≤ c && c ≤ 'f' then some (c.toNat - 'a'.toNat + 10)
  else if 'A' ≤ c && c ≤ 'F' then some (c.toNat - 'A'.toNat + 10)
  else none

namespace Lexer

def finish? (l : Lexer) : Option (List Token) :=
  match l.state with
  | .between => some l.tokens
  | .word cs => (word? cs.reverse).map (· :: l.tokens)
  | .numeral cs => (Numeral.ofChars? cs.reverse).map fun n => .number n :: l.tokens
  | _ => none

def start? (tokens : List Token) (c : Char) : Option Lexer :=
  if isSpace c then some ⟨tokens, .between⟩
  else if c = '"' then some ⟨tokens, .text []⟩
  else if c.isDigit || c = '-' then some ⟨tokens, .numeral [c]⟩
  else if c.isLower then some ⟨tokens, .word [c]⟩
  else (punctuation? c).map fun t => ⟨t :: tokens, .between⟩

def step? (l : Lexer) (c : Char) : Option Lexer :=
  match l.state with
  | .between => start? l.tokens c
  | .word cs =>
    if c.isLower then some { l with state := .word (c :: cs) } else do start? (← l.finish?) c
  | .numeral cs =>
    if isNumeral c then some { l with state := .numeral (c :: cs) } else do start? (← l.finish?) c
  | .text pieces =>
    if c = '"' then
      some ⟨.text ((decodePieces pieces.reverse).map String.ofList) :: l.tokens, .between⟩
    else if c = '\\' then some { l with state := .escape pieces }
    else if c.toNat < 0x20 then none
    else some { l with state := .text (.char c :: pieces) }
  | .escape pieces =>
    if c = 'u' then some { l with state := .hex pieces 4 0 }
    else (escaped? c).map fun c => { l with state := .text (.char c :: pieces) }
  | .hex pieces missing value => do
    let value := 16 * value + (← hexDigit? c)
    if missing ≤ 1 then return { l with state := .text (.unit value :: pieces) }
    else return { l with state := .hex pieces (missing - 1) value }

end Lexer

def tokens? (cs : List Char) : Option (List Token) := do
  let l ← cs.foldlM Lexer.step? ⟨[], .between⟩
  return (← l.finish?).reverse

end Backprop.Json
