import Backprop.Dataset.Basic
import Backprop.Decimal.Reader

namespace Backprop.Text

/-- The Unicode property `White_Space`. -/
def isBlank (c : Char) : Bool :=
  let n := c.toNat
  (0x09 ≤ n && n ≤ 0x0D) || n = 0x20 || n = 0x85 || n = 0xA0 || n = 0x1680 ||
    (0x2000 ≤ n && n ≤ 0x200A) || n = 0x2028 || n = 0x2029 || n = 0x202F || n = 0x205F || n = 0x3000

def trim (cs : List Char) : List Char :=
  ((cs.dropWhile isBlank).reverse.dropWhile isBlank).reverse

/-- The pieces between the characters that `separates` picks; there is one more of them than of
those characters. -/
def split (separates : Char → Bool) : List Char → List (List Char)
  | [] => [[]]
  | c :: cs =>
    if separates c then [] :: split separates cs
    else match split separates cs with
      | [] => [[c]]
      | piece :: pieces => (c :: piece) :: pieces

end Backprop.Text

namespace Backprop.Dataset

def readCell (cs : List Char) : Float :=
  match Decimal.read? (Text.trim cs) with
  | some x => if x.isFinite then x else 0.0
  | none => 0.0

def isSeparator (c : Char) : Bool :=
  c = ',' || c = '\t' || c = ';'

def contentLines (cs : List Char) : List (List Char) :=
  ((Text.split (· == '\n') cs).map Text.trim).filter fun line => !line.isEmpty

/-- The last cell is what is expected; of the others so many count as there are labels. -/
def rowOfCells (width : Nat) (cells : List Float) : Row Float :=
  { inputs := cells.dropLast.take width, expected := cells.getLast?.getD 0.0 }

def readLine (width : Nat) (line : List Char) : Row Float :=
  rowOfCells width ((Text.split isSeparator line).map readCell)

def readDelimitedChars (cs : List Char) (labels : List String) :
    Except (Failure Float) (List (Row Float)) :=
  match contentLines cs with
  | _ :: line :: lines => .ok ((line :: lines).map (readLine labels.length))
  | lines => .error (.unreadableDataset lines.length .noDataRow)

def readDelimited (text : String) (labels : List String) :
    Except (Failure Float) (List (Row Float)) :=
  readDelimitedChars text.toList labels

def expectedHeading : String := "expected"

def joined (cells : List (List Char)) : List Char :=
  [','].intercalate cells

def writeRow (width : Nat) (row : Row Float) : List Char :=
  joined ((List.range width).map (fun i => Decimal.plainChars (row.inputs[i]?.getD 0.0)) ++
    [Decimal.plainChars row.expected])

def writeDelimitedChars (rows : List (Row Float)) (labels : List String) :
    Except (Failure Float) (List Char) :=
  if rows.isEmpty then .error .emptyDataset
  else
    let heading := joined ((labels ++ [expectedHeading]).map String.toList)
    .ok (['\n'].intercalate (heading :: rows.map (writeRow labels.length)))

def writeDelimited (rows : List (Row Float)) (labels : List String) :
    Except (Failure Float) String := do
  return String.ofList (← writeDelimitedChars rows labels)

end Backprop.Dataset
