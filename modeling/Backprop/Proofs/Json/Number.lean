import Backprop.Json.Number
import Backprop.Proofs.Double.Magnitude

namespace Backprop.Json

open Float.Model.UnpackedFloat

namespace Numeral

variable {g : Gathered} {significand : ℕ} {e : ℤ} {x : Float}

theorem Gathered.significand_append_lt {c : Char} (h : g.fits c) :
    (g.append c).significand < 2 ^ 64 := by
  rw [fits, Bool.and_eq_true, decide_eq_true_eq] at h
  exact h.2

theorem significand_gatherWhole_lt (ds : List Char) : (gatherWhole ds).significand < 2 ^ 64 := by
  refine List.foldlRecOn (motive := fun g : Gathered => g.significand < 2 ^ 64) ds _ ?_ ?_
  · norm_num
  · intro g hg c _
    rw [Gathered.addWhole]
    split
    · next h => exact g.significand_append_lt h
    · exact hg

theorem significand_gatherFraction_lt (hg : g.significand < 2 ^ 64) (ds : List Char) :
    (gatherFraction g ds).significand < 2 ^ 64 := by
  refine List.foldlRecOn (motive := fun g : Gathered => g.significand < 2 ^ 64) ds _ hg ?_
  intro g hg c _
  rw [Gathered.addFraction]
  split
  · next h => exact g.significand_append_lt h
  · exact hg

theorem ten_pow_308_le : (10 : ℚ) ^ 308 ≤ 3 * 2 ^ 1022 := by
  have h : 10 ^ 308 ≤ 3 * 2 ^ 1022 := by decide +kernel
  exact_mod_cast h

/-- The powers of ten that numbers are scaled with are finite and at least 1. -/
theorem within_power (he : 0 ≤ e) (he' : e ≤ 308) :
    (Decimal.ofScientific 1 e).Within 1 (3 * 2 ^ 1022) := by
  obtain ⟨k, rfl⟩ := Int.eq_ofNat_of_zero_le he
  have hneg : decide ((k : ℤ) < 0) = false := decide_eq_false (by omega)
  rw [Decimal.ofScientific, hneg, Int.natAbs_natCast]
  apply Float.within_ofScientific
  · exact representable_two_pow 0
  · exact ⟨3, 1022, by norm_num, by norm_num, rfl⟩
  · have h : 3 * 2 ^ 1022 < 2 ^ 1024 := by decide +kernel
    exact_mod_cast h
  · rw [Nat.cast_one, one_mul]
    exact one_le_pow₀ (by norm_num)
  · rw [Nat.cast_one, one_mul]
    exact (pow_le_pow_right₀ (by norm_num) (by omega)).trans ten_pow_308_le

theorem isFinite_div_power (hx : x.isFinite) (he : 0 ≤ e) (he' : e ≤ 308) :
    (x / Decimal.ofScientific 1 e).isFinite := by
  obtain ⟨q, hq, hl, _⟩ := within_power he he'
  exact Float.isFinite_div hx hq hl

theorem isFinite_scale? (hs : significand < 2 ^ 64) (h : scale? significand e = some x) :
    x.isFinite := by
  have hx : (Float.ofNat significand).isFinite :=
    (Float.within_ofNat_two_pow hs.le (by norm_num)).isFinite
  rw [scale?] at h
  dsimp only at h
  split at h
  · split at h
    · cases h
      exact Float.isFinite_zero
    · cases h
  · split at h
    · next he =>
      split at h
      · cases h
      · next hinf =>
        cases h
        exact Float.isFinite_mul hx (within_power he (by omega)).isFinite hinf
    · split at h
      · cases h
        exact isFinite_div_power hx (by omega) (by omega)
      · split at h
        · cases h
          have hdiv := isFinite_div_power hx (by norm_num) le_rfl
          exact isFinite_div_power hdiv (by omega) (by omega)
        · cases h
          exact Float.isFinite_zero

theorem isFinite_ofNat {n : ℕ} (hn : n ≤ 2 ^ 64) : (Float.ofNat n).isFinite :=
  (Float.within_ofNat_two_pow hn (by norm_num)).isFinite

theorem isFinite_number? {t : Numeral} {n : Number} (h : t.number? = some n) :
    n.toFloat.isFinite := by
  rw [number?] at h
  split at h
  · next hn =>
    simp only [Bool.and_eq_true, decide_eq_true_eq] at hn
    cases h
    rw [Number.toFloat]
    rw [if_neg (by omega), Int.natAbs_natCast]
    exact isFinite_ofNat hn.2.le
  · split at h
    · next hn =>
      simp only [Bool.and_eq_true, decide_eq_true_eq] at hn
      cases h
      rw [Number.toFloat, if_pos (by omega), Int.natAbs_neg, Int.natAbs_natCast]
      exact Float.isFinite_neg.2 (isFinite_ofNat (hn.2.trans (by norm_num)))
    · obtain ⟨x, hx, rfl⟩ := Option.map_eq_some_iff.1 h
      have hfinite : x.isFinite :=
        isFinite_scale? (significand_gatherFraction_lt (significand_gatherWhole_lt _) _) hx
      dsimp only [Number.toFloat]
      split
      · exact Float.isFinite_neg.2 hfinite
      · exact hfinite

theorem whole_lt {t : Numeral} {n : ℕ} (h : t.number? = some (.whole n)) : n < 2 ^ 64 := by
  rw [number?] at h
  split at h
  · next hn =>
    simp only [Bool.and_eq_true, decide_eq_true_eq] at hn
    rw [Option.some.injEq, Number.whole.injEq, Int.natCast_inj] at h
    exact h ▸ hn.2
  · split at h
    · next hn =>
      simp only [Bool.and_eq_true, decide_eq_true_eq] at hn
      rw [Option.some.injEq, Number.whole.injEq] at h
      omega
    · obtain ⟨x, _, hx⟩ := Option.map_eq_some_iff.1 h
      cases hx

end Numeral

end Backprop.Json
