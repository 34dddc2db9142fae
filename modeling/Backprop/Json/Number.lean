import Backprop.Decimal.Notation
import Backprop.Decimal.Reader

namespace Backprop.Json

inductive Number
  | whole (n : Int)
  | real (x : Float)
  deriving DecidableEq

structure Numeral where
  negative : Bool
  whole : List Char
  fraction : List Char
  exponent : Option (Bool × List Char)

namespace Numeral

def isWhole : List Char → Bool
  | [] => false
  | ['0'] => true
  | '0' :: _ => false
  | ds => ds.all Char.isDigit

def exponentPart? : List Char → Option (Option (Bool × List Char))
  | [] => some none
  | c :: cs =>
    let (negative, ds) := Decimal.takeSign cs
    if (c = 'e' || c = 'E') && !ds.isEmpty && ds.all Char.isDigit then some (some (negative, ds))
    else none

def ofChars? (cs : List Char) : Option Numeral := do
  let (negative, cs) := match cs with
    | '-' :: rest => (true, rest)
    | _ => (false, cs)
  let (whole, rest) := cs.span Char.isDigit
  let (fraction, rest) ← match rest with
    | '.' :: rest =>
      let (ds, rest) := rest.span Char.isDigit
      if ds.isEmpty then none else some (ds, rest)
    | _ => some ([], rest)
  let exponent ← exponentPart? rest
  if isWhole whole then some { negative, whole, fraction, exponent } else none

/-- The number `significand * 10 ^ exponent`, gathered from digits as long as they fit into 64 bits. The
rest of the way is done in the arithmetic of doubles, so that a long number may miss the nearest double by
a little. -/
structure Gathered where
  significand : Nat
  exponent : Int
  full : Bool

def Gathered.fits (g : Gathered) (digit : Char) : Bool :=
  !g.full && 10 * g.significand + (digit.toNat - '0'.toNat) < Nat.pow 2 64

def Gathered.append (g : Gathered) (digit : Char) : Gathered :=
  { g with significand := 10 * g.significand + (digit.toNat - '0'.toNat) }

def Gathered.addWhole (g : Gathered) (digit : Char) : Gathered :=
  if g.fits digit then g.append digit else { g with exponent := g.exponent + 1, full := true }

/-- A digit behind the point that does not fit is left out, with all after it. -/
def Gathered.addFraction (g : Gathered) (digit : Char) : Gathered :=
  if g.fits digit then { g.append digit with exponent := g.exponent - 1 }
  else { g with full := true }

def gatherWhole (ds : List Char) : Gathered :=
  ds.foldl .addWhole { significand := 0, exponent := 0, full := false }

def gatherFraction (g : Gathered) (ds : List Char) : Gathered :=
  ds.foldl .addFraction { g with full := false }

/-- `significand * 10 ^ e` in the arithmetic of doubles, or `none` if that is infinite. An exponent
out of reach is taken in two steps; a second division by `10 ^ 308` would leave nothing. -/
def scale? (significand : Nat) (e : Int) : Option Float :=
  let x := Float.ofNat significand
  let power (e : Int) := Decimal.ofScientific 1 e
  if 308 < e then if significand = 0 then some 0.0 else none
  else if 0 ≤ e then
    let y := x * power e
    if y.isInf then none else some y
  else if -308 ≤ e then some (x / power (-e))
  else if -616 ≤ e then some (x / power 308 / power (-e - 308))
  else some 0.0

def magnitude? (t : Numeral) : Option Float :=
  let g := gatherFraction (gatherWhole t.whole) t.fraction
  let e : Int := match t.exponent with
    | none => 0
    | some (true, ds) => -(Decimal.natOfDigits ds : Int)
    | some (false, ds) => Decimal.natOfDigits ds
  scale? g.significand (g.exponent + e)

def number? (t : Numeral) : Option Number :=
  let n := Decimal.natOfDigits t.whole
  let plain := t.fraction.isEmpty && t.exponent.isNone
  if plain && !t.negative && n < Nat.pow 2 64 then some (.whole n)
  else if plain && t.negative && 0 < n && n ≤ Nat.pow 2 63 then some (.whole (-n))
  else t.magnitude?.map fun x => .real (if t.negative then -x else x)

end Numeral

namespace Number

def toFloat : Number → Float
  | .whole n => if n < 0 then -Float.ofNat n.natAbs else Float.ofNat n.natAbs
  | .real x => x

/-- Whole numbers are marked by a point, and from `1e16` on and below `1e-5` there is an exponent
with a sign. What is not finite has no number. -/
def floatChars (x : Float) : List Char :=
  match x.toModel.unpack with
  | .zero s => Decimal.signed s "0.0".toList
  | .finite s m e _ =>
    let d := Decimal.shortest .toEven m e
    let exponent := d.exponent
    Decimal.signed s <|
      if -5 ≤ exponent && exponent < 16 then
        if 0 ≤ d.place then d.positional ++ ".0".toList else d.positional
      else
        let mark := if exponent < 0 then '-' else '+'
        d.pointed ++ 'e' :: mark :: Nat.toDigits 10 exponent.natAbs
  | _ => "null".toList

def chars : Number → List Char
  | .whole n => (toString n).toList
  | .real x => floatChars x

end Number

end Backprop.Json
