namespace Backprop.Decimal

open Float.Model.UnpackedFloat (Sign)

def roundWhole (x : Float) : Float :=
  match x.toModel.unpack with
  | .finite sign m e _ =>
    if 0 ≤ e then x
    else
      let places := (-e).toNat
      let n := Float.ofNat ((2 * m + Nat.pow 2 places) / Nat.pow 2 (places + 1))
      match sign with
      | .negative => -n
      | .positive => n
  | _ => x

/-- `r * b ^ n` by repeated squaring of `b`, every product rounded. The number of steps is bounded
by the first argument, for which `n` itself is enough. -/
def powTimes : Nat → Float → Float → Nat → Float
  | 0, r, _, _ => r
  | steps + 1, r, b, n =>
    let r := if n % 2 = 1 then r * b else r
    if n / 2 = 0 then r else powTimes steps r (b * b) (n / 2)

def powerOfTen (e : Int) : Float :=
  let p := powTimes e.natAbs 1.0 10.0 e.natAbs
  if e < 0 then 1.0 / p else p

/-- Rounds to `places` decimal places by way of the scaled number. One that is too large to be
scaled stays as it is. -/
def roundTo (x : Float) (places : Int) : Float :=
  let scale := powerOfTen places
  let scaled := x * scale
  if scaled.isFinite then roundWhole scaled / scale else x

end Backprop.Decimal
