import Backprop.Decimal.Rounding
import Backprop.Proofs.Double.Magnitude

namespace Backprop.Decimal

open Float.Model.UnpackedFloat

variable {x : Float}

theorem isFinite_roundWhole (h : x.isFinite) : (roundWhole x).isFinite := by
  rw [roundWhole]
  split
  · next s m e hm hu =>
    obtain ⟨⟨hlt, _, _⟩, _⟩ := unpack_finite hu
    split
    · exact h
    · dsimp only
      have hn : (2 * m + Nat.pow 2 (-e).toNat) / Nat.pow 2 ((-e).toNat + 1) ≤ 2 ^ 53 := by
        apply Nat.div_le_of_le_mul
        have hp : 1 ≤ 2 ^ (-e).toNat := Nat.one_le_two_pow
        change 2 * m + 2 ^ (-e).toNat ≤ 2 ^ ((-e).toNat + 1) * 2 ^ 53
        rw [pow_succ]
        nlinarith
      have hfinite := (Float.within_ofNat_two_pow hn (by norm_num)).isFinite
      cases s with
      | negative => exact Float.isFinite_neg.2 hfinite
      | positive => exact hfinite
  · exact h

theorem isNat_powerOfTen : ∀ k : Fin 9, (powerOfTen k.val).IsNat (10 ^ k.val) := by
  decide +kernel

theorem isFinite_roundTo {k : ℕ} (h : x.isFinite) (hk : k < 9) : (roundTo x k).isFinite := by
  rw [roundTo]
  split
  · next hs =>
    have hpow := (isNat_powerOfTen ⟨k, hk⟩).magnitude?
    refine Float.isFinite_div (isFinite_roundWhole hs) hpow ?_
    exact_mod_cast Nat.one_le_pow _ _ (by norm_num)
  · exact h

end Backprop.Decimal
