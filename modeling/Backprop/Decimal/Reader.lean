namespace Backprop.Decimal

def natOfDigits (ds : List Char) : Nat :=
  ds.foldl (fun n c => 10 * n + (c.toNat - '0'.toNat)) 0

def ofScientific (m : Nat) (e : Int) : Float :=
  Float.ofScientific m (e < 0) e.natAbs

def takeSign : List Char → Bool × List Char
  | '-' :: cs => (true, cs)
  | '+' :: cs => (false, cs)
  | cs => (false, cs)

def exponent? : List Char → Option Int
  | [] => some 0
  | c :: cs =>
    let (negative, ds) := takeSign cs
    if (c = 'e' || c = 'E') && !ds.isEmpty && ds.all Char.isDigit then
      some (if negative then -(natOfDigits ds : Int) else natOfDigits ds)
    else none

def magnitude? (cs : List Char) : Option Float :=
  let word := cs.map Char.toLower
  if word = "inf".toList || word = "infinity".toList then some (1.0 / 0.0)
  else if word = "nan".toList then some (0.0 / 0.0)
  else
    let (whole, rest) := cs.span Char.isDigit
    let (fraction, rest) := match rest with
      | '.' :: rest => rest.span Char.isDigit
      | _ => ([], rest)
    if whole.isEmpty && fraction.isEmpty then none
    else
      let digits := natOfDigits (whole ++ fraction)
      (exponent? rest).map fun e => ofScientific digits (e - fraction.length)

/-- The nearest double, or `none` if the text is no number. -/
def read? (cs : List Char) : Option Float :=
  let (negative, rest) := takeSign cs
  (magnitude? rest).map fun x => if negative then -x else x

end Backprop.Decimal
