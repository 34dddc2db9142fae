import Backprop.Json.Document

namespace Backprop.Json

inductive Value
  | null
  | bool (b : Bool)
  | number (n : Number)
  | text (s : String)
  | array (items : List Value)
  | object (members : List (String × Value))

namespace Value

/-- Of several members with one key the last counts. -/
def member? (members : List (String × Value)) (key : String) : Option Value :=
  members.reverse.lookup key

/-- Refuses numbers that are too large, strings that are none, and more than `depth` containers
inside each other. -/
def ofDocument? : (depth : Nat) → Document → Option Value
  | _, .null => some .null
  | _, .bool b => some (.bool b)
  | _, .number n => n.number?.map .number
  | _, .text s => s.map .text
  | 0, .array _ | 0, .object _ => none
  | depth + 1, .array items => do return .array (← items.mapM (ofDocument? depth))
  | depth + 1, .object members => do
    return .object (← members.mapM fun (key, d) => do return (← key, ← ofDocument? depth d))

def maxDepth : Nat := 127

def ofString? (s : String) : Option Value :=
  (Document.ofString? s).bind (ofDocument? maxDepth)

def escapeChar (c : Char) : List Char :=
  match c with
  | '"' => ['\\', '"']
  | '\\' => ['\\', '\\']
  | '\x08' => ['\\', 'b']
  | '\x0c' => ['\\', 'f']
  | '\n' => ['\\', 'n']
  | '\r' => ['\\', 'r']
  | '\t' => ['\\', 't']
  | c =>
    if c.toNat < 0x20 then
      "\\u00".toList ++ [Nat.digitChar (c.toNat / 16), Nat.digitChar (c.toNat % 16)]
    else [c]

def quoted (s : String) : List Char :=
  '"' :: s.toList.flatMap escapeChar ++ ['"']

mutual

def chars : Value → List Char
  | .null => "null".toList
  | .bool true => "true".toList
  | .bool false => "false".toList
  | .number n => n.chars
  | .text s => quoted s
  | .array items => '[' :: [','].intercalate (itemChars items) ++ [']']
  | .object members => '\x7b' :: [','].intercalate (memberChars members) ++ ['\x7d']

def itemChars : List Value → List (List Char)
  | [] => []
  | v :: vs => chars v :: itemChars vs

def memberChars : List (String × Value) → List (List Char)
  | [] => []
  | (key, v) :: rest => (quoted key ++ ':' :: chars v) :: memberChars rest

end

def render (v : Value) : String :=
  String.ofList v.chars

end Value

end Backprop.Json
