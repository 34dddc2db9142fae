import Backprop.Json.Document

namespace Backprop.Json.Document

def text? : Document → Option String
  | .text s => s
  | _ => none

def bool? : Document → Option Bool
  | .bool b => some b
  | _ => none

def float? : Document → Option Float
  | .number n => n.number?.map Number.toFloat
  | _ => none

def whole? : Document → Option Int
  | .number n =>
    match n.number? with
    | some (.whole k) => some k
    | _ => none
  | _ => none

def nat? (d : Document) : Option Nat :=
  match d.whole? with
  | some (.ofNat n) => some n
  | _ => none

def list? {β : Type} (read? : Document → Option β) : Document → Option (List β)
  | .array items => items.mapM read?
  | _ => none

def members? {β : Type} (read? : Document → Option β) : Document → Option (List (String × β))
  | .object members => members.mapM fun (key, d) => do return (← key, ← read? d)
  | _ => none

def nullable? {β : Type} (read? : Document → Option β) : Document → Option (Option β)
  | .null => some none
  | d => (read? d).map some

/-- The fields of a record, under their names. A record is an object, in which each of the names
stands at most once, or an array of fields in order, from which some may be missing at the end. -/
def fields? (names : List String) : Document → Option (List (String × Document))
  | .object members => do
    let members ← members.mapM fun (key, d) => do return (← key, d)
    if names.all fun name => members.countP (·.1 == name) ≤ 1 then some members else none
  | .array items => if items.length ≤ names.length then some (names.zip items) else none
  | _ => none

def fieldOr? {β : Type} (default : β) (read? : Document → Option β) (field : Option Document) :
    Option β :=
  match field with
  | none => some default
  | some d => read? d

end Backprop.Json.Document
