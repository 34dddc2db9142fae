import Backprop.Dataset.Basic
import Backprop.Dataset.Records

namespace Backprop

inductive ImportFormat
  | delimited
  | json
  deriving DecidableEq

def ImportFormat.name : ImportFormat → String
  | .delimited => "delimited"
  | .json => "json"

/-- The last component of a path; slashes and single dots at its end do not count. -/
def fileName? (path : List Char) : Option (List Char) :=
  let components := (Text.split (· == '/') path).reverse
  match components.dropWhile fun c => c.isEmpty || c = ['.'] with
  | [] => none
  | c :: _ => if c = ['.', '.'] then none else some c

/-- What follows the last dot of a file name, unless the dot starts it. -/
def extension? (name : List Char) : Option (List Char) :=
  match (Text.split (· == '.') name).reverse with
  | last :: stem :: rest => if rest.isEmpty && stem.isEmpty then none else some last
  | _ => none

def ImportFormat.ofPath (path : String) : ImportFormat :=
  match (fileName? path.toList).bind extension? with
  | some e => if e.map Char.toLower = "json".toList then .json else .delimited
  | none => .delimited

def Dataset.load (text : String) (format : ImportFormat) (labels : List String) :
    Except (Failure Float) (Dataset (Row Float)) := do
  let text := String.ofList (Text.trim text.toList)
  let rows ← match format with
    | .delimited => readDelimited text labels
    | .json => readRecords text labels
  return .ofList rows

end Backprop
