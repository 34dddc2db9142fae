import Backprop.Decimal.Shortest

namespace Backprop

namespace Decimal

open Float.Model.UnpackedFloat (Sign)

def signed (sign : Sign) (text : List Char) : List Char :=
  match sign with
  | .negative => '-' :: text
  | .positive => text

def positional (d : Decimal) : List Char :=
  let ds := Nat.toDigits 10 d.digits
  if 0 ≤ d.place then ds ++ List.replicate d.place.toNat '0'
  else
    let behind := (-d.place).toNat
    let padded := List.replicate (behind + 1 - ds.length) '0' ++ ds
    let before := padded.length - behind
    padded.take before ++ '.' :: padded.drop before

def pointed (d : Decimal) : List Char :=
  match Nat.toDigits 10 d.digits with
  | [] => []
  | [c] => [c]
  | c :: cs => c :: '.' :: cs

def exponent (d : Decimal) : Int :=
  d.place + digitCount d.digits - 1

/-- The shortest positional form; a NaN has no sign. -/
def plainChars (x : Float) : List Char :=
  match x.toModel.unpack with
  | .notANumber => "NaN".toList
  | .infinity s => signed s "inf".toList
  | .zero s => signed s ['0']
  | .finite s m e _ => signed s (positional (shortest .up m e))

def plain (x : Float) : String :=
  String.ofList (plainChars x)

/-- Exactly `count` digits, of which there are at least two, and an exponent. -/
def scientific (count : Nat) (x : Float) : String :=
  String.ofList <| match x.toModel.unpack with
    | .zero s => signed s ("0.".toList ++ List.replicate (count - 1) '0' ++ "e0".toList)
    | .finite s m e _ =>
      let d := rounded .toEven count (m * Nat.pow 2 e.toNat) (Nat.pow 2 (-e).toNat)
      signed s (pointed d ++ 'e' :: (toString (exponent d)).toList)
    | _ => plainChars x

end Decimal

end Backprop
