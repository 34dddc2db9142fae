import Backprop.Proofs.Decimal.Shortest
import Backprop.Proofs.Json.Number

namespace Backprop.Json.Numeral

open Float.Model.UnpackedFloat

variable {significand m : ℕ} {e : ℤ}

theorem isSome_scale?_of_neg (he : e < 0) : (scale? significand e).isSome := by
  rw [scale?]
  dsimp only
  rw [if_neg (by omega), if_neg (by omega)]
  split
  · rfl
  · split <;> rfl

theorem two_pow_1024_lt : (2 : ℚ) ^ 1024 < 10 ^ 309 := by
  have h : 2 ^ 1024 < 10 ^ 309 := by decide +kernel
  exact_mod_cast h

def largest : ℚ :=
  (2 ^ 53 - 1) * 2 ^ 971

theorem largest_lt : largest < 2 ^ 1024 := by
  calc largest < 2 ^ 53 * 2 ^ 971 := by
        rw [largest]
        gcongr
        norm_num
    _ = 2 ^ 1024 := (pow_add 2 53 971).symm

theorem representable_largest : Representable largest :=
  ⟨2 ^ 53 - 1, 971, by norm_num, by norm_num, by norm_num [largest]⟩

theorem within_significand (hs : 0 < significand) (hs' : significand ≤ 10 ^ 17) :
    (Float.ofNat significand).Within 0 (significand * (1 + 1 / 2 ^ 52)) := by
  have hs'' : (significand : ℚ) ≤ 10 ^ 17 := by exact_mod_cast hs'
  have h := Float.within_ofScientific_near (m := significand) (k := 0) hs <| by
    calc (significand * 10 ^ 0 : ℚ) * (1 + 1 / 2 ^ 52) ≤ 10 ^ 17 * 10 ^ 0 * 2 :=
          mul_le_mul (by gcongr) (by norm_num) (by norm_num) (by norm_num)
      _ < 2 ^ 60 := by norm_num
      _ ≤ 2 ^ 1024 := pow_le_pow_right₀ one_le_two (by norm_num)
  rw [pow_zero, mul_one] at h
  exact h

theorem within_power_near {k : ℕ} (hk : k ≤ 308) :
    (Decimal.ofScientific 1 k).Within 0 (10 ^ k * (1 + 1 / 2 ^ 52)) := by
  have h := Float.within_ofScientific_near (m := 1) (k := k) one_pos <| by
    rw [Nat.cast_one, one_mul]
    calc (10 : ℚ) ^ k * (1 + 1 / 2 ^ 52) ≤ 10 ^ 308 * (1 + 1 / 2 ^ 52) := by
          gcongr
          norm_num
      _ ≤ 3 * 2 ^ 1022 * (1 + 1 / 2 ^ 52) :=
        mul_le_mul_of_nonneg_right ten_pow_308_le (by norm_num)
      _ = 3 * (1 + 1 / 2 ^ 52) * 2 ^ 1022 := mul_right_comm _ _ _
      _ < 2 ^ 2 * 2 ^ 1022 := mul_lt_mul_of_pos_right (by norm_num) (by positivity)
      _ = 2 ^ 1024 := (pow_add 2 2 1022).symm
  rw [Nat.cast_one, one_mul] at h
  rw [Decimal.ofScientific, decide_eq_false (by omega), Int.natAbs_natCast]
  exact h

/-- Two roundings cost less than four steps between the largest doubles. -/
theorem isSome_scale?_of_le (hs : 0 < significand) (hs' : significand ≤ 10 ^ 17) (he : 0 ≤ e)
    (h : (significand : ℚ) * 10 ^ e ≤ (2 ^ 53 - 5) * 2 ^ 971) :
    (scale? significand e).isSome := by
  obtain ⟨k, rfl⟩ := Int.eq_ofNat_of_zero_le he
  rw [zpow_natCast] at h
  have hs₁ : (1 : ℚ) ≤ significand := by exact_mod_cast hs
  have hk : k < 309 := by
    refine (pow_lt_pow_iff_right₀ (by norm_num : (1 : ℚ) < 10)).1 ?_
    refine lt_of_le_of_lt ?_ two_pow_1024_lt
    calc (10 : ℚ) ^ k ≤ significand * 10 ^ k := le_mul_of_one_le_left (by positivity) hs₁
      _ ≤ (2 ^ 53 - 5) * 2 ^ 971 := h
      _ ≤ 2 ^ 53 * 2 ^ 971 := mul_le_mul_of_nonneg_right (by norm_num) (by positivity)
      _ = 2 ^ 1024 := (pow_add 2 53 971).symm
  obtain ⟨p, hp, hp₀, hp₁⟩ := within_significand hs hs'
  obtain ⟨q, hq, hq₀, hq₁⟩ := within_power_near (show k ≤ 308 by omega)
  have hprod : p * q ≤ largest := by
    calc p * q ≤ significand * (1 + 1 / 2 ^ 52) * (10 ^ k * (1 + 1 / 2 ^ 52)) := by gcongr
      _ = significand * 10 ^ k * (1 + 1 / 2 ^ 52) ^ 2 := by ring
      _ ≤ (2 ^ 53 - 5) * 2 ^ 971 * (1 + 1 / 2 ^ 52) ^ 2 :=
        mul_le_mul_of_nonneg_right h (by positivity)
      _ = (2 ^ 53 - 5) * (1 + 1 / 2 ^ 52) ^ 2 * 2 ^ 971 := mul_right_comm _ _ _
      _ ≤ largest := mul_le_mul_of_nonneg_right (by norm_num) (by positivity)
  have hy := Float.within_mul hp hq representable_zero representable_largest largest_lt
    (mul_nonneg hp₀ hq₀) hprod
  rw [scale?]
  dsimp only
  rw [if_neg (by omega), if_pos (by omega), if_neg (Float.not_isInf hy.isFinite)]
  rfl

theorem isSome_scale?_shortest_top :
    ∀ j : Fin 5, (scale? (Decimal.shortest .toEven (2 ^ 53 - 5 + j) 971).digits
      (Decimal.shortest .toEven (2 ^ 53 - 5 + j) 971).place).isSome := by
  decide +kernel

theorem isSome_scale?_shortest (hm : 0 < m) (hm' : m < 2 ^ 53) (he : e ≤ 971) :
    (scale? (Decimal.shortest .toEven m e).digits (Decimal.shortest .toEven m e).place).isSome := by
  obtain ⟨hdigits, hpos, hvalue⟩ := Decimal.shortest_spec .toEven hm hm'.le e
  by_cases htop : 2 ^ 53 - 5 ≤ m ∧ e = 971
  · obtain ⟨hle, rfl⟩ := htop
    obtain ⟨j, rfl⟩ := Nat.exists_eq_add_of_le hle
    exact isSome_scale?_shortest_top ⟨j, by omega⟩
  rcases lt_or_ge (Decimal.shortest .toEven m e).place 0 with hneg | hplace
  · exact isSome_scale?_of_neg hneg
  refine isSome_scale?_of_le (Decimal.digits_pos_iff.2 hpos) hdigits hplace (hvalue.trans ?_)
  rcases lt_or_ge m (2 ^ 53 - 5) with hlt | hge
  · have hm'' : (m : ℚ) + 1 ≤ 2 ^ 53 - 5 := by
      have : ((m + 1 + 5 : ℕ) : ℚ) ≤ (2 ^ 53 : ℕ) := by exact_mod_cast (by omega)
      push_cast at this
      linarith
    calc ((m : ℚ) + 1) * 2 ^ e ≤ (2 ^ 53 - 5) * 2 ^ (971 : ℤ) :=
          mul_le_mul hm'' (zpow_le_zpow_right₀ one_le_two he) (by positivity) (by norm_num)
      _ = (2 ^ 53 - 5) * 2 ^ 971 := congrArg _ (zpow_natCast 2 971)
  · have hm'' : (m : ℚ) + 1 ≤ 2 ^ 53 := by exact_mod_cast hm'
    have he' : e ≤ 970 := by omega
    calc ((m : ℚ) + 1) * 2 ^ e ≤ 2 ^ 53 * 2 ^ (970 : ℤ) :=
          mul_le_mul hm'' (zpow_le_zpow_right₀ one_le_two he') (by positivity) (by norm_num)
      _ = 2 ^ 53 * 2 ^ 970 := congrArg _ (zpow_natCast 2 970)
      _ = 2 ^ 52 * 2 ^ 971 := by rw [← pow_add, ← pow_add]
      _ ≤ (2 ^ 53 - 5) * 2 ^ 971 := mul_le_mul_of_nonneg_right (by norm_num) (by positivity)

end Backprop.Json.Numeral
