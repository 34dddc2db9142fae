import Backprop.Proofs.Double.Magnitude
import Backprop.Proofs.Double.Nearest

namespace Float.Model.UnpackedFloat

open Format

variable {m n k : ℕ} {e f : ℤ} {s : Sign} {hn : 0 < n}

theorem round_nearest (hm : m ≠ 0) (hc : (finite s n f hn).Canonical)
    (h : Nearest n f (m * 2 ^ e)) : round binary64 s m e = .finite s n f hn := by
  obtain ⟨k, hround, he⟩ := round_spec s hm e
  rw [← shiftLeft_value m k] at h
  rw [hround]
  exact roundWithAccuracy_nearest (.of_exact _) he hc h

theorem mul_nearest {s₁ s₂ : Sign} {m₁ m₂ : ℕ} {e₁ e₂ : ℤ} {h₁ : 0 < m₁} {h₂ : 0 < m₂}
    (hbits : 52 ≤ (m₁ * m₂).log2 ∨ e₁ + e₂ ≤ -1074) (hc : (finite s n f hn).Canonical)
    (h : Nearest n f (m₁ * 2 ^ e₁ * (m₂ * 2 ^ e₂))) :
    mul binary64 (.finite s₁ m₁ e₁ h₁) (.finite s₂ m₂ e₂ h₂) = .finite (s₁ * s₂) n f hn := by
  obtain ⟨hvalue, he⟩ := mul_spec hbits
  rw [hvalue] at h
  exact roundWithAccuracy_nearest (.of_exact _) he hc h

theorem div_nearest {s₁ s₂ : Sign} {m₁ m₂ : ℕ} {e₁ e₂ : ℤ} {h₁ : 0 < m₁} {h₂ : 0 < m₂}
    (hc : (finite s n f hn).Canonical) (h : Nearest n f (m₁ * 2 ^ e₁ / (m₂ * 2 ^ e₂))) :
    div binary64 (.finite s₁ m₁ e₁ h₁) (.finite s₂ m₂ e₂ h₂) = .finite (s₁ / s₂) n f hn := by
  obtain ⟨k, t, hdiv, hvalue, ht⟩ := divCore_spec h₁ h₂ e₁ e₂
  rw [hvalue] at h
  rw [div, hdiv]
  exact roundWithAccuracy_nearest (.of_fraction _ h₂) ht hc h

/-- Every number that is rounded to a double is less than the least that is too large. -/
theorem Nearest.lt_two_pow {v : ℚ} (h : Nearest n f v) (hlt : n < 2 ^ 53) (hf : f ≤ 971) :
    v < 2 ^ 1024 := by
  have hn : (n : ℚ) + 1 ≤ 2 ^ 53 := by exact_mod_cast hlt
  calc v ≤ (n + 1 / 2) * 2 ^ f := h.high
    _ < 2 ^ 53 * 2 ^ f := by
      gcongr
      linarith
    _ = 2 ^ (53 + f) := by rw [zpow_add₀ two_ne_zero]; rfl
    _ ≤ 2 ^ (1024 : ℤ) := zpow_le_zpow_right₀ one_le_two (by omega)
    _ = 2 ^ 1024 := zpow_natCast ..

theorem Nearest.two_pow_le {v : ℚ} (h : Nearest n f v) (hn : 0 < n) (hf : -1074 ≤ f) :
    (2 : ℚ) ^ (-1075 : ℤ) ≤ v := by
  have hn : (1 : ℚ) ≤ n := by exact_mod_cast hn
  have hhalf := halfBelow_le n f
  calc (2 : ℚ) ^ (-1075 : ℤ) ≤ 2 ^ (f - 1) := zpow_le_zpow_right₀ one_le_two (by omega)
    _ = 1 / 2 * 2 ^ f := by rw [zpow_sub₀ two_ne_zero, zpow_one]; ring
    _ ≤ (n - halfBelow n f) * 2 ^ f := by
      gcongr
      linarith
    _ ≤ v := h.low

theorem ofScientific_nearest (hm : 0 < m) (hc : (finite .positive n f hn).Canonical)
    (hf : f ≤ 971) (h : Nearest n f (m * 10 ^ k)) :
    ofScientific binary64 m k = .finite .positive n f hn := by
  have hk := lt_of_mul_ten_pow_lt hm.ne' (h.lt_two_pow hc.1 hf)
  obtain ⟨hbits, hvalue⟩ := shiftLeft_mul_spec hm (n := 10 ^ k) (by positivity)
  rw [Nat.cast_pow, Nat.cast_ofNat] at hvalue
  rw [ofScientific_eq_mul hm (by omega)]
  apply mul_nearest (.inl hbits) hc
  rw [Nat.cast_pow, Nat.cast_ofNat, hvalue]
  exact h

theorem le_of_two_pow_le_div (h : (2 : ℚ) ^ (-1075 : ℤ) ≤ m / 10 ^ k) : k ≤ 2048 + m.log2 := by
  have hm : (m : ℚ) ≤ 2 ^ (m.log2 + 1) := by exact_mod_cast Nat.lt_log2_self.le
  have hk : (2 : ℚ) ^ k ≤ 10 ^ k := by
    gcongr
    norm_num
  have hle : (2 : ℚ) ^ (-1075 : ℤ) * 2 ^ k ≤ 2 ^ (m.log2 + 1) := by
    rw [le_div_iff₀ (by positivity)] at h
    calc (2 : ℚ) ^ (-1075 : ℤ) * 2 ^ k ≤ 2 ^ (-1075 : ℤ) * 10 ^ k := by gcongr
      _ ≤ 2 ^ (m.log2 + 1) := h.trans hm
  rw [← zpow_natCast, ← zpow_natCast, ← zpow_add₀ two_ne_zero,
    zpow_le_zpow_iff_right₀ one_lt_two] at hle
  push_cast at hle
  omega

theorem ofScientific_nearest_neg (hm : 0 < m) (hk : 0 < k)
    (hc : (finite .positive n f hn).Canonical) (h : Nearest n f (m / 10 ^ k)) :
    ofScientific binary64 m (-k) = .finite .positive n f hn := by
  have hk' := le_of_two_pow_le_div (h.two_pow_le hn hc.2.1)
  rw [ofScientific, dif_neg hm.ne', if_neg (by norm_num), if_neg (by norm_num; omega),
    if_neg (by omega)]
  simp only [neg_neg, Int.toNat_natCast]
  apply div_nearest hc
  rw [zpow_zero, mul_one, mul_one, Nat.cast_pow, Nat.cast_ofNat]
  exact h

/-- Whole numbers that fit into the mantissa have a double of their own. -/
theorem exists_canonical (hm : 0 < m) (hlt : m < 2 ^ 53) (s : Sign) :
    ∃ (n : ℕ) (f : ℤ) (hn : 0 < n), (finite s n f hn).Canonical ∧ 2 ^ 52 ≤ n ∧ f ≤ 0 ∧
      (m : ℚ) = n * 2 ^ f := by
  have hlog : m.log2 ≤ 52 := Nat.lt_succ_iff.1 ((Nat.log2_lt hm.ne').2 hlt)
  have hvalue := shiftLeft_value m (52 - m.log2) 0
  have hbits : (m <<< (52 - m.log2)).log2 = 52 := by
    rw [log2_shiftLeft hm.ne']
    omega
  have hpos : 0 < m <<< (52 - m.log2) := by
    rw [Nat.shiftLeft_eq]
    positivity
  obtain ⟨hge, hlt⟩ := (Nat.log2_eq_iff hpos.ne').1 hbits
  rw [zpow_zero, mul_one] at hvalue
  exact ⟨_, _, hpos, ⟨hlt, by omega, .inl hge⟩, hge, by omega, hvalue.symm⟩

def IsPositive : UnpackedFloat → Prop
  | .finite .positive _ _ _ => True
  | _ => False

instance (u : UnpackedFloat) : Decidable u.IsPositive := by
  unfold IsPositive
  split <;> infer_instance

theorem IsPositive.exists_finite {u : UnpackedFloat} {q : ℚ} (h : u.IsPositive)
    (hq : u.magnitude? = some q) :
    ∃ (m : ℕ) (e : ℤ) (hm : 0 < m), u = .finite .positive m e hm ∧ m * 2 ^ e = q := by
  rw [IsPositive.eq_def] at h
  split at h
  · next m e hm => exact ⟨m, e, hm, rfl, Option.some.inj hq⟩
  · exact h.elim

end Float.Model.UnpackedFloat

namespace Float

open Model Model.UnpackedFloat

variable {m n k : ℕ} {f : ℤ} {hn : 0 < n} {x : Float} {u : UnpackedFloat} {s : Sign}

theorem unpack_of_eq_pack (hx : x = ofModel (.pack u)) (hu : u = .finite s n f hn)
    (hc : (finite s n f hn).Canonical) (hf : f ≤ 971) : x.toModel.unpack = .finite s n f hn := by
  rw [hx, hu]
  exact unpack_pack_finite hc hf

section

variable {y : Float} {s₁ s₂ : Sign} {m₁ m₂ : ℕ} {e₁ e₂ : ℤ} {h₁ : 0 < m₁} {h₂ : 0 < m₂}
  (hx : x.toModel.unpack = .finite s₁ m₁ e₁ h₁) (hy : y.toModel.unpack = .finite s₂ m₂ e₂ h₂)

include hx hy

theorem mul_eq_pack (hbits : 2 ^ 52 ≤ m₁) (hc : (finite s n f hn).Canonical)
    (h : Nearest n f (m₁ * 2 ^ e₁ * (m₂ * 2 ^ e₂))) :
    x * y = ofModel (.pack (.finite (s₁ * s₂) n f hn)) := by
  have hlog : 52 ≤ (m₁ * m₂).log2 :=
    (Nat.le_log2 (by positivity)).2 (hbits.trans (Nat.le_mul_of_pos_right _ h₂))
  have hmul : UnpackedFloat.mul .binary64 x.toModel.unpack y.toModel.unpack =
      .finite (s₁ * s₂) n f hn := by
    rw [hx, hy]
    exact UnpackedFloat.mul_nearest (.inl hlog) hc h
  exact congrArg (fun u => ofModel (.pack u)) hmul

theorem div_eq_pack (hc : (finite s n f hn).Canonical)
    (h : Nearest n f (m₁ * 2 ^ e₁ / (m₂ * 2 ^ e₂))) :
    x / y = ofModel (.pack (.finite (s₁ / s₂) n f hn)) := by
  have hdiv : UnpackedFloat.div .binary64 x.toModel.unpack y.toModel.unpack =
      .finite (s₁ / s₂) n f hn := by
    rw [hx, hy]
    exact UnpackedFloat.div_nearest hc h
  exact congrArg (fun u => ofModel (.pack u)) hdiv

theorem mul_nearest (hbits : 2 ^ 52 ≤ m₁) (hc : (finite s n f hn).Canonical) (hf : f ≤ 971)
    (h : Nearest n f (m₁ * 2 ^ e₁ * (m₂ * 2 ^ e₂))) :
    (x * y).toModel.unpack = .finite (s₁ * s₂) n f hn :=
  unpack_of_eq_pack (mul_eq_pack hx hy hbits hc h) rfl hc hf

theorem div_nearest (hc : (finite s n f hn).Canonical) (hf : f ≤ 971)
    (h : Nearest n f (m₁ * 2 ^ e₁ / (m₂ * 2 ^ e₂))) :
    (x / y).toModel.unpack = .finite (s₁ / s₂) n f hn :=
  unpack_of_eq_pack (div_eq_pack hx hy hc h) rfl hc hf

end

theorem isPositive_exactlyRepresentablePowersOfTen :
    ∀ k : Fin 23, exactlyRepresentablePowersOfTen[k].toModel.unpack.IsPositive := by
  decide +kernel

theorem exists_unpack_powerOfTen (hk : k < 23) :
    ∃ (m : ℕ) (e : ℤ) (hm : 0 < m), exactlyRepresentablePowersOfTen[k].toModel.unpack =
      .finite .positive m e hm ∧ (m : ℚ) * 2 ^ e = 10 ^ k := by
  have hq := (isNat_exactlyRepresentablePowersOfTen ⟨k, hk⟩).magnitude?
  rw [Nat.cast_pow, Nat.cast_ofNat] at hq
  exact (isPositive_exactlyRepresentablePowersOfTen ⟨k, hk⟩).exists_finite hq

theorem exists_unpack_toFloat (hm : 0 < m) (hlt : m < 2 ^ 53) :
    ∃ (n : ℕ) (e : ℤ) (hn : 0 < n), m.toUInt64.toFloat.toModel.unpack = .finite .positive n e hn ∧
      2 ^ 52 ≤ n ∧ (n : ℚ) * 2 ^ e = m := by
  obtain ⟨n, e, hn, hc, hbits, he, hvalue⟩ := exists_canonical hm hlt .positive
  have hround : UnpackedFloat.ofNat .binary64 m.toUInt64.toNat = .finite .positive n e hn := by
    rw [Nat.toUInt64, UInt64.toNat_ofNat', Nat.mod_eq_of_lt (by omega), UnpackedFloat.ofNat,
      UnpackedFloat.ofInt, UnpackedFloat.normalize, Int.compare_eq_gt.2 (by exact_mod_cast hm)]
    apply round_nearest (by simpa using hm.ne') hc
    rw [Int.toNat_natCast, zpow_zero, mul_one, hvalue]
    exact nearest_self n e
  exact ⟨n, e, hn, unpack_of_eq_pack rfl hround hc (by omega), hbits, hvalue.symm⟩

theorem ofScientific_nearest (hm : 0 < m) (hc : (finite .positive n f hn).Canonical)
    (hf : f ≤ 971) (h : Nearest n f (m * 10 ^ k)) :
    (Float.ofScientific m false k).toModel.unpack = .finite .positive n f hn := by
  rw [Float.ofScientific]
  split
  · next hshort =>
    obtain ⟨m₁, e₁, h₁, hu₁, hbits, hv₁⟩ := exists_unpack_toFloat hm hshort.1
    obtain ⟨m₂, e₂, h₂, hu₂, hv₂⟩ := exists_unpack_powerOfTen (k := k) (by omega)
    rw [← hv₁, ← hv₂] at h
    exact mul_nearest hu₁ hu₂ hbits hc hf h
  · exact unpack_of_eq_pack rfl (UnpackedFloat.ofScientific_nearest hm hc hf h) hc hf

theorem ofScientific_nearest_neg (hm : 0 < m) (hk : 0 < k)
    (hc : (finite .positive n f hn).Canonical) (hf : f ≤ 971) (h : Nearest n f (m / 10 ^ k)) :
    (Float.ofScientific m true k).toModel.unpack = .finite .positive n f hn := by
  rw [Float.ofScientific]
  split
  · next hshort =>
    obtain ⟨m₁, e₁, h₁, hu₁, hbits, hv₁⟩ := exists_unpack_toFloat hm hshort.1
    obtain ⟨m₂, e₂, h₂, hu₂, hv₂⟩ := exists_unpack_powerOfTen (k := k) (by omega)
    rw [← hv₁, ← hv₂] at h
    exact div_nearest hu₁ hu₂ hc hf h
  · rw [Int.negOfNat_eq]
    exact unpack_of_eq_pack rfl (UnpackedFloat.ofScientific_nearest_neg hm hk hc h) hc hf

end Float
