import Backprop.Proofs.Decimal.Rounding
import Backprop.Proofs.Double.Product
import Backprop.Proofs.Double.Scientific
import Backprop.Report

namespace Backprop.Decimal

open Float.Model Float.Model.UnpackedFloat

theorem isPositive_powerOfTen : ∀ k : Fin 9, (powerOfTen k.val).toModel.unpack.IsPositive := by
  decide +kernel

variable {x : Float} {s : Sign} {m n k : ℕ} {e f : ℤ} {hm : 0 < m} {hn : 0 < n} {v : ℚ}

theorem exists_unpack_powerOfTen (hk : k < 9) : ∃ (p : ℕ) (t : ℤ) (hp : 0 < p),
    (powerOfTen k).toModel.unpack = .finite .positive p t hp ∧ (p : ℚ) * 2 ^ t = 10 ^ k := by
  have hq := (isNat_powerOfTen ⟨k, hk⟩).magnitude?
  rw [Nat.cast_pow, Nat.cast_ofNat] at hq
  exact (isPositive_powerOfTen ⟨k, hk⟩).exists_finite hq

theorem mul_powerOfTen (hu : x.toModel.unpack = .finite s m e hm) (hbits : 2 ^ 52 ≤ m) (hk : k < 9)
    (hc : (finite s n f hn).Canonical) (h : Nearest n f (m * 2 ^ e * 10 ^ k)) :
    x * powerOfTen k = .ofModel (.pack (.finite s n f hn)) := by
  obtain ⟨p, t, hp, hpower, hvalue⟩ := exists_unpack_powerOfTen hk
  have hs : s * .positive = s := by cases s <;> rfl
  rw [← hvalue] at h
  rw [Float.mul_eq_pack hu hpower hbits hc h, hs]

theorem div_powerOfTen (hu : x.toModel.unpack = .finite s m e hm) (hk : k < 9)
    (hc : (finite s n f hn).Canonical) (h : Nearest n f (m * 2 ^ e / 10 ^ k)) :
    x / powerOfTen k = .ofModel (.pack (.finite s n f hn)) := by
  obtain ⟨p, t, hp, hpower, hvalue⟩ := exists_unpack_powerOfTen hk
  have hs : s / .positive = s := by cases s <;> rfl
  rw [← hvalue] at h
  rw [Float.div_eq_pack hu hpower hc h, hs]

section

variable (hx : x.isFinite) (hu : (x * powerOfTen k).toModel.unpack = .finite s n f hn) (hf : 0 ≤ f)

include hu hf

theorem roundTo_of_whole : roundTo x k = x * powerOfTen k / powerOfTen k := by
  have hfinite : (x * powerOfTen k).isFinite := congrArg UnpackedFloat.isFinite hu
  have hwhole : roundWhole (x * powerOfTen k) = x * powerOfTen k := by
    rw [roundWhole, hu]
    exact if_pos hf
  rw [roundTo, if_pos hfinite, hwhole]

include hx

theorem within_roundTo {lo hi : ℚ} (hk : k < 9) (hlo : Representable lo) (hhi : Representable hi)
    (hl : lo ≤ n * 2 ^ f / 10 ^ k) (hh : n * 2 ^ f / 10 ^ k ≤ hi) : (roundTo x k).Within lo hi := by
  have hfinite := isFinite_roundTo hx hk
  have hscaled : (x * powerOfTen k).toModel.unpack.magnitude? = some (n * 2 ^ f : ℚ) := by
    rw [hu]
    rfl
  have hpower := (isNat_powerOfTen ⟨k, hk⟩).magnitude?
  rw [Nat.cast_pow, Nat.cast_ofNat] at hpower
  rw [roundTo_of_whole hu hf] at hfinite ⊢
  exact (div_between hscaled hpower (by positivity) hlo hhi hl hh).unpack_pack hfinite

theorem exists_nearest_roundTo (hk : k < 9) (hq : (2 : ℚ) ^ (-1022 : ℤ) ≤ n * 2 ^ f / 10 ^ k) :
    ∃ (r : ℕ) (t : ℤ) (hr : 0 < r), (roundTo x k).toModel.unpack = .finite s r t hr ∧
      Nearest r t (n * 2 ^ f / 10 ^ k) := by
  have hfinite := isFinite_roundTo hx hk
  obtain ⟨r, t, hr, hc, _, h⟩ := exists_nearest s hq
  rw [roundTo_of_whole hu hf, div_powerOfTen hu hk hc h] at hfinite ⊢
  exact ⟨r, t, hr, unpack_pack_of_isFinite hc hfinite, h⟩

end

/-- Above the whole numbers that fit into a mantissa the unit is more than 1. -/
theorem exponent_pos (hn : n < 2 ^ 53) (h : v ≤ (n + 1 / 2) * 2 ^ f) (hv : 2 ^ 53 ≤ v) : 0 < f := by
  have hn : (n : ℚ) + 1 ≤ 2 ^ 53 := by exact_mod_cast hn
  by_contra hf
  have hunit : (2 : ℚ) ^ f ≤ 1 := zpow_le_one_of_nonpos₀ one_le_two (not_lt.1 hf)
  nlinarith

/-- Rounding the product to a mantissa moves it by no more than the scaled unit. -/
theorem abs_sub_le_unit {c : ℚ} (hc : 0 < c) (hm : m < 2 ^ 53) (hn : 2 ^ 52 ≤ n)
    (h : Nearest n f (m * 2 ^ e * c)) : |n * 2 ^ f / c - m * 2 ^ e| ≤ 2 ^ e := by
  have hunit : (0 : ℚ) < 2 ^ f := zpow_pos two_pos f
  have hscaled : (0 : ℚ) < 2 ^ e * c := mul_pos (zpow_pos two_pos e) hc
  have hm : (m : ℚ) + 1 ≤ 2 ^ 53 := by exact_mod_cast hm
  have hn : (2 : ℚ) ^ 52 ≤ n := by exact_mod_cast hn
  have hhalf := halfBelow_le n f
  have hlow := h.low
  have hhigh := h.high
  have hcoarse : 2 ^ f ≤ 2 * (2 ^ e * c) := by
    have hle : (2 ^ 52 - 1 / 2) * 2 ^ f ≤ (2 ^ 53 - 1) * (2 ^ e * c) := by
      calc (2 ^ 52 - 1 / 2) * (2 : ℚ) ^ f ≤ (n - halfBelow n f) * 2 ^ f := by gcongr
        _ ≤ m * (2 ^ e * c) := by rw [← mul_assoc]; exact hlow
        _ ≤ (2 ^ 53 - 1) * (2 ^ e * c) := by gcongr; linarith
    linarith
  have hsplit : n * 2 ^ f / c - m * 2 ^ e = (n * 2 ^ f - m * 2 ^ e * c) / c := by
    field_simp
  rw [hsplit, abs_div, abs_of_pos hc, div_le_iff₀ hc, abs_le]
  have hbelow : halfBelow n f * 2 ^ f ≤ 1 / 2 * 2 ^ f := by gcongr
  constructor <;> linarith

/-- The number comes back just where it is nearest to the quotient. -/
theorem roundTo_eq_self_iff (hu : x.toModel.unpack = .finite s m e hm)
    (hscaled : (x * powerOfTen k).toModel.unpack = .finite s n f hn) (hf : 0 ≤ f) (hk : k < 9)
    (hq : (2 : ℚ) ^ (-1022 : ℤ) ≤ n * 2 ^ f / 10 ^ k) :
    roundTo x k = x ↔ Nearest m e (n * 2 ^ f / 10 ^ k) := by
  have hfinite : x.isFinite := congrArg UnpackedFloat.isFinite hu
  obtain ⟨hc, he⟩ := unpack_finite hu
  constructor
  · intro h
    obtain ⟨r, t, hr, hunpack, hnear⟩ := exists_nearest_roundTo hfinite hscaled hf hk hq
    rw [h, hu] at hunpack
    cases hunpack
    exact hnear
  · intro h
    have hdiv := div_powerOfTen hscaled hk hc h
    rw [← roundTo_of_whole hscaled hf] at hdiv
    have hunpack := Float.unpack_of_eq_pack hdiv rfl hc he
    exact (Float.eq_of_unpack_eq hfinite (hu.trans hunpack.symm)).symm

theorem roundTo_of_overflow (hscaled : x * powerOfTen k = .ofModel (.pack (.finite s n f hn)))
    (hf : 971 < f) : roundTo x k = x := by
  have hunpack : (x * powerOfTen k).toModel.unpack = .infinity s := by
    rw [hscaled]
    exact Float.unpack_pack_of_lt hf
  have hfinite : ¬(x * powerOfTen k).isFinite := by
    change ¬(x * powerOfTen k).toModel.unpack.isFinite
    rw [hunpack]
    exact Bool.false_ne_true
  rw [roundTo, if_neg hfinite]

/-- Rounding the quotient does not pass over the neighbours of the number. -/
theorem abs_roundTo_sub_le_unit (hu : x.toModel.unpack = .finite s m e hm)
    (hscaled : (x * powerOfTen k).toModel.unpack = .finite s n f hn) (hf : 0 ≤ f) (hk : k < 9)
    (hq : (2 : ℚ) ^ (-1022 : ℤ) ≤ n * 2 ^ f / 10 ^ k)
    (hclose : |(n : ℚ) * 2 ^ f / 10 ^ k - m * 2 ^ e| ≤ 2 ^ e) :
    ∃ (r : ℕ) (t : ℤ) (hr : 0 < r), (roundTo x k).toModel.unpack = .finite s r t hr ∧
      |(r : ℚ) * 2 ^ t - m * 2 ^ e| ≤ 2 ^ e := by
  have hfinite : x.isFinite := congrArg UnpackedFloat.isFinite hu
  obtain ⟨⟨hlt, he, _⟩, _⟩ := unpack_finite hu
  obtain ⟨hlow, hhigh⟩ := abs_le.1 hclose
  have hbelow : Representable ((m - 1) * 2 ^ e) :=
    ⟨m - 1, e, by omega, he, by rw [Nat.cast_pred hm]⟩
  have habove : Representable ((m + 1) * 2 ^ e) := ⟨m + 1, e, hlt, he, by rw [Nat.cast_succ]⟩
  obtain ⟨r, t, hr, hunpack, _⟩ := exists_nearest_roundTo hfinite hscaled hf hk hq
  obtain ⟨_, hvalue, hlow, hhigh⟩ := within_roundTo hfinite hscaled hf hk hbelow habove
    (by linarith) (by linarith)
  rw [Float.magnitude?, hunpack] at hvalue
  cases hvalue
  exact ⟨r, t, hr, hunpack, abs_le.2 ⟨by linarith, by linarith⟩⟩

/-- A number with a unit above 1 is moved by at most one unit. It comes back as it was where the
product is too large for a double, and otherwise just where no double is nearer to the quotient of
the rounded product. -/
theorem roundTo_of_large (hu : x.toModel.unpack = .finite s m e hm)
    (hx : 2 ^ 53 ≤ (m : ℚ) * 2 ^ e) (hk : k < 9) :
    ∃ (n : ℕ) (f : ℤ) (hn : 0 < n), (finite s n f hn).Canonical ∧
      Nearest n f (m * 2 ^ e * 10 ^ k) ∧
      (roundTo x k = x ↔ 971 < f ∨ Nearest m e (n * 2 ^ f / 10 ^ k)) ∧
      ∃ (r : ℕ) (t : ℤ) (hr : 0 < r), (roundTo x k).toModel.unpack = .finite s r t hr ∧
        |(r : ℚ) * 2 ^ t - m * 2 ^ e| ≤ 2 ^ e := by
  obtain ⟨⟨hlt, _, hnormal⟩, _⟩ := unpack_finite hu
  have he : 0 < e := exponent_pos hlt (by gcongr; linarith) hx
  have hbits : 2 ^ 52 ≤ m := hnormal.resolve_right (by omega)
  have hsmall : (2 : ℚ) ^ (-1022 : ℤ) ≤ 1 := zpow_le_one_of_nonpos₀ one_le_two (by norm_num)
  have hproduct : (2 : ℚ) ^ 53 ≤ m * 2 ^ e * 10 ^ k :=
    hx.trans (le_mul_of_one_le_right (by positivity) (one_le_pow₀ (by norm_num)))
  obtain ⟨n, f, hn, hc, hge, hround⟩ := exists_nearest s
    (hsmall.trans ((one_le_pow₀ one_le_two).trans hproduct))
  have hscaled := mul_powerOfTen hu hbits hk hc hround
  refine ⟨n, f, hn, hc, hround, ?_⟩
  rcases lt_or_ge 971 f with hf | hf
  · have hself := roundTo_of_overflow hscaled hf
    refine ⟨iff_of_true hself (.inl hf), m, e, hm, by rw [hself, hu], ?_⟩
    rw [sub_self, abs_zero]
    positivity
  · have hunpack := Float.unpack_of_eq_pack hscaled rfl hc hf
    have hf₀ : 0 ≤ f := (exponent_pos hc.1 hround.high hproduct).le
    have hclose := abs_sub_le_unit (by positivity) hlt hge hround
    have hquotient : 1 ≤ n * 2 ^ f / (10 : ℚ) ^ k := by
      have hunit : (1 : ℚ) ≤ 2 ^ e := one_le_zpow₀ one_le_two he.le
      have hm : (2 : ℚ) ≤ m := by exact_mod_cast (by omega : 2 ≤ m)
      have hlow := (abs_le.1 hclose).1
      nlinarith
    have hq := hsmall.trans hquotient
    exact ⟨(roundTo_eq_self_iff hu hunpack hf₀ hk hq).trans (or_iff_right hf.not_gt).symm,
      abs_roundTo_sub_le_unit hu hunpack hf₀ hk hq hclose⟩

theorem roundTo_of_large_parameter :
    ∃ (r : ℕ) (t : ℤ) (hr : 0 < r),
      (roundTo 9444732965739302.0 Report.parameterPlaces).toModel.unpack =
        .finite .positive r t hr ∧ |(r : ℚ) * 2 ^ t - 9444732965739302| ≤ 2 := by
  have hu : (9444732965739302.0 : Float).toModel.unpack =
      .finite .positive 4722366482869651 1 (by norm_num) := by rfl
  obtain ⟨_, _, _, _, _, _, r, t, hr, h, hle⟩ :=
    roundTo_of_large (k := 6) hu (by norm_num) (by norm_num)
  norm_num at hle
  exact ⟨r, t, hr, h, hle⟩

/-- For each number of places that a report keeps there is a whole number that it moves. -/
theorem roundTo_of_large_moved :
    roundTo 9223372036854826.0 Report.elapsedPlaces = 9223372036854828.0 ∧
      roundTo 9444732965739302.0 Report.parameterPlaces = 9444732965739304.0 ∧
      roundTo 12089258196146296.0 Report.lossPlaces = 12089258196146298.0 ∧
      (9223372036854826.0 : Float) ≠ 9223372036854828.0 ∧
      (9444732965739302.0 : Float) ≠ 9444732965739304.0 ∧
      (12089258196146296.0 : Float) ≠ 12089258196146298.0 := by
  decide +kernel

end Backprop.Decimal
