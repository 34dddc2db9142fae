namespace Backprop

/-- The number `digits * 10 ^ place`. -/
structure Decimal where
  digits : Nat
  place : Int
  deriving DecidableEq

inductive Decimal.Tie
  | up
  | toEven
  deriving DecidableEq

namespace Decimal

def roundDiv (tie : Tie) (num den : Nat) : Nat :=
  let q := num / den
  let twice := 2 * (num % den)
  if twice < den then q
  else if den < twice then q + 1
  else match tie with
    | .up => q + 1
    | .toEven => if q % 2 = 0 then q else q + 1

def digitCount (n : Nat) : Nat :=
  (Nat.toDigits 10 n).length

def leadingPlace (num den : Nat) : Int :=
  if den ≤ num then digitCount (num / den) - 1 else -digitCount ((den - 1) / num)

/-- What numerator and denominator are multiplied by to count in units of `10 ^ place`. -/
def unit (place : Int) : Nat × Nat :=
  (Nat.pow 10 (-place).toNat, Nat.pow 10 place.toNat)

/-- A carry out of all nines leaves a last digit of 0, which moves into the place. -/
def carried (d : Decimal) : Decimal :=
  if d.digits % 10 = 0 then ⟨d.digits / 10, d.place + 1⟩ else d

def rounded (tie : Tie) (count num den : Nat) : Decimal :=
  let place := leadingPlace num den - count + 1
  let (up, down) := unit place
  let digits := roundDiv tie (num * up) (den * down)
  if digits = Nat.pow 10 count then ⟨digits / 10, place + 1⟩ else ⟨digits, place⟩

structure Interval where
  low : Nat
  high : Nat
  den : Nat
  closed : Bool

def Interval.contains (i : Interval) (d : Decimal) : Bool :=
  let (up, down) := unit d.place
  let x := d.digits * i.den * down
  if i.closed then i.low * up ≤ x && x ≤ i.high * up else i.low * up < x && x < i.high * up

def Interval.neighbour? (i : Interval) (tie : Tie) (num : Nat) (place : Int) : Option Decimal :=
  let (up, down) := unit place
  let below := num * up / (i.den * down)
  match i.contains ⟨below, place⟩, i.contains ⟨below + 1, place⟩ with
  | true, true => some ⟨roundDiv tie (num * up) (i.den * down), place⟩
  | true, false => some ⟨below, place⟩
  | false, true => some ⟨below + 1, place⟩
  | false, false => none

/-- The reals that round to the double `m * 2 ^ e`. Below a power of two the doubles lie twice as
close, unless there are only subnormal ones. -/
def roundingInterval (m : Nat) (e : Int) : Interval :=
  let scale := Nat.pow 2 (e - 2).toNat
  let down := if m = Nat.pow 2 52 && -1074 < e then 1 else 2
  { low := (4 * m - down) * scale
    high := (4 * m + 2) * scale
    den := Nat.pow 2 (2 - e).toNat
    closed := m % 2 = 0 }

/-- The fewest digits that single out the double `m * 2 ^ e`, and the nearest such number.
Seventeen digits always do. -/
def shortest (tie : Tie) (m : Nat) (e : Int) : Decimal :=
  let i := roundingInterval m e
  let num := 4 * m * Nat.pow 2 (e - 2).toNat
  let top := leadingPlace num i.den
  let found := (List.range 16).findSome? fun (k : Nat) => i.neighbour? tie num (top - k)
  (found.getD (rounded tie 17 num i.den)).carried

end Decimal

end Backprop
