import Backprop.Proofs.Double.Magnitude

namespace Float.Model.UnpackedFloat

variable {u v : UnpackedFloat}

theorem isFinite_of_mul (h : (mul .binary64 u v).isFinite) : v.isFinite := by
  cases v with
  | zero | finite => rfl
  | notANumber | infinity => cases u <;> exact h

theorem unpack_pack_of_not_isFinite (h : ¬u.isFinite) : (Model.pack u).unpack = u := by
  cases u with
  | zero | finite => exact absurd rfl h
  | notANumber => exact unpack_packedNaN
  | infinity s => exact Float.unpack_packedInfinity s

theorem isFinite_of_pack (h : (Model.pack u).unpack.isFinite) : u.isFinite := by
  by_contra hu
  rw [unpack_pack_of_not_isFinite hu] at h
  exact hu h

theorem unpack_pack_of_isFinite (hu : u.Canonical) (h : (Model.pack u).unpack.isFinite) :
    (Model.pack u).unpack = u := by
  cases u with
  | notANumber | infinity => exact unpack_pack_of_not_isFinite Bool.false_ne_true
  | zero => exact unpack_packedZero
  | finite s m e hm =>
    by_cases he : e ≤ 971
    · exact unpack_pack_finite hu he
    · rw [Float.unpack_pack_of_lt (Int.lt_of_not_ge he)] at h
      cases h

theorem Between.unpack_pack {lo hi : ℚ} (hu : u.Between lo hi)
    (h : (Model.pack u).unpack.isFinite) : (Float.ofModel (.pack u)).Within lo hi := by
  obtain ⟨hc, q, hq, hbounds⟩ := hu
  refine ⟨q, ?_, hbounds⟩
  rw [Float.magnitude?, unpack_pack_of_isFinite hc h, hq]

/-- The sign of a square is positive, also where the square is rounded to zero. -/
theorem mul_self_ne (hu : u.isFinite) : mul .binary64 u u ≠ .zero .negative := by
  intro h
  cases u with
  | notANumber | infinity => cases hu
  | zero s => cases s <;> cases h
  | finite s m e hm =>
    have hs : s * s = .positive := by cases s <;> rfl
    rw [mul, hs, roundWithAccuracy] at h
    dsimp only at h
    split at h <;> cases h

/-- Only where both are zeros does the sign of a zero have a part in a sum. -/
theorem zero_add_eq (hv : v ≠ .zero .negative) (s s' : Sign) :
    add .binary64 (.zero s) v = add .binary64 (.zero s') v := by
  cases v with
  | notANumber | infinity | finite => rfl
  | zero t =>
    cases t with
    | negative => exact absurd rfl hv
    | positive => cases s <;> cases s' <;> rfl

end Float.Model.UnpackedFloat

namespace Float

open Model Model.UnpackedFloat

variable {x y : Float}

theorem isFinite_of_mul (h : (x * y).isFinite) : y.isFinite :=
  UnpackedFloat.isFinite_of_mul (isFinite_of_pack h)

theorem negZero_add_mul_self (h : (x * x).isFinite) : -0.0 + x * x = 0.0 + x * x := by
  have hx := isFinite_of_mul h
  obtain ⟨_, hc, _⟩ := canonical_mul hx hx
  have hsquare : (x * x).toModel.unpack ≠ .zero .negative := by
    apply (unpack_pack_of_isFinite hc h).trans_ne
    exact mul_self_ne hx
  exact congrArg (fun u => ofModel (.pack u)) (zero_add_eq hsquare .negative .positive)

end Float
