import Backprop.Proofs.Double.Arithmetic

namespace Float

open Model Model.UnpackedFloat

variable {x y : Float} {p q lo hi : ℚ}

def magnitude? (x : Float) : Option ℚ :=
  x.toModel.unpack.magnitude?

def IsNat (x : Float) (n : ℕ) : Prop :=
  match x.toModel.unpack with
  | .finite _ m e _ => m * 2 ^ e.toNat = n * 2 ^ (-e).toNat
  | _ => False

instance (x : Float) (n : ℕ) : Decidable (x.IsNat n) := by
  unfold IsNat
  split <;> infer_instance

theorem IsNat.magnitude? {n : ℕ} (h : x.IsNat n) : x.magnitude? = some (n : ℚ) := by
  rw [IsNat] at h
  rw [Float.magnitude?]
  split at h
  · next m e _ hu =>
    rw [hu]
    refine congrArg some ?_
    obtain ⟨k, rfl | rfl⟩ := e.eq_nat_or_neg
    · rw [Int.toNat_natCast, Int.toNat_neg_natCast, pow_zero, mul_one] at h
      rw [zpow_natCast]
      exact_mod_cast h
    · rw [neg_neg, Int.toNat_natCast, Int.toNat_neg_natCast, pow_zero, mul_one] at h
      rw [zpow_neg, zpow_natCast, h]
      push_cast
      field_simp
  · exact h.elim

theorem isNat_exactlyRepresentablePowersOfTen :
    ∀ k : Fin 23, exactlyRepresentablePowersOfTen[k].IsNat (10 ^ k.val) := by
  decide +kernel

/-- A finite double whose absolute value lies between two bounds. -/
def Within (x : Float) (lo hi : ℚ) : Prop :=
  ∃ q, x.magnitude? = some q ∧ lo ≤ q ∧ q ≤ hi

theorem isFinite_iff : x.isFinite ↔ ∃ q, x.magnitude? = some q := by
  change x.toModel.unpack.isFinite ↔ _
  rw [Float.magnitude?]
  cases x.toModel.unpack <;> simp [UnpackedFloat.isFinite, UnpackedFloat.magnitude?]

theorem not_isInf (h : x.isFinite) : ¬ x.isInf := by
  change x.toModel.unpack.isFinite = true at h
  change ¬ x.toModel.unpack.isInf = true
  cases hu : x.toModel.unpack <;> rw [hu] at h <;> cases h <;> exact Bool.false_ne_true

theorem not_isFinite_iff : ¬x.isFinite ↔ x.isNaN ∨ x.isInf := by
  change ¬x.toModel.unpack.isFinite ↔ x.toModel.unpack.isNaN ∨ x.toModel.unpack.isInf
  cases x.toModel.unpack <;> simp [UnpackedFloat.isFinite, UnpackedFloat.isNaN, UnpackedFloat.isInf]

theorem Within.isFinite (h : x.Within lo hi) : x.isFinite := by
  obtain ⟨q, hq, _⟩ := h
  exact isFinite_iff.2 ⟨q, hq⟩

theorem magnitude_bounds (h : x.magnitude? = some q) :
    0 ≤ q ∧ q < 2 ^ 1024 ∧ Representable q := by
  rw [Float.magnitude?] at h
  cases hu : x.toModel.unpack with
  | notANumber | infinity =>
    rw [hu] at h
    cases h
  | zero =>
    rw [hu] at h
    cases h
    exact ⟨le_rfl, by positivity, representable_zero⟩
  | finite s m e hm =>
    rw [hu] at h
    cases h
    obtain ⟨⟨hlt, hle, _⟩, he⟩ := unpack_finite hu
    refine ⟨by positivity, ?_, m, e, hlt.le, hle, rfl⟩
    calc (m : ℚ) * 2 ^ e < 2 ^ 53 * 2 ^ e := by
          gcongr
          exact_mod_cast hlt
      _ = 2 ^ (53 + e) := by rw [zpow_add₀ two_ne_zero]; rfl
      _ ≤ 2 ^ (1024 : ℤ) := zpow_le_zpow_right₀ one_le_two (by omega)
      _ = 2 ^ 1024 := zpow_natCast ..

theorem unpack_pack {u : UnpackedFloat} (hu : u.Canonical) (hq : u.magnitude? = some q)
    (hmax : q < 2 ^ 1024) : (Model.pack u).unpack = u := by
  cases u with
  | notANumber | infinity => cases hq
  | zero => exact unpack_packedZero
  | finite s m e hm =>
    cases hq
    refine unpack_pack_finite hu ?_
    by_contra he
    obtain ⟨_, _, hn | rfl⟩ := hu
    · refine not_le.2 hmax ?_
      calc (2 : ℚ) ^ 1024 = 2 ^ 52 * 2 ^ (972 : ℕ) := (pow_add 2 52 972)
        _ = 2 ^ 52 * 2 ^ (972 : ℤ) := congrArg _ (zpow_natCast (2 : ℚ) 972).symm
        _ ≤ 2 ^ 52 * 2 ^ e := by
          gcongr
          · norm_num
          · omega
        _ ≤ m * 2 ^ e := by
          gcongr
          exact_mod_cast hn
    · omega

theorem within_pack {u : UnpackedFloat} (hu : u.Between lo hi) (hmax : hi < 2 ^ 1024) :
    (ofModel (.pack u)).Within lo hi := by
  obtain ⟨hc, q, hq, hl, hh⟩ := hu
  refine ⟨q, ?_, hl, hh⟩
  rw [Float.magnitude?, unpack_pack hc hq (hh.trans_lt hmax), hq]

theorem within_mul (hp : x.magnitude? = some p) (hq : y.magnitude? = some q)
    (hlo : Representable lo) (hhi : Representable hi) (hmax : hi < 2 ^ 1024) (hl : lo ≤ p * q)
    (hh : p * q ≤ hi) : (x * y).Within lo hi :=
  within_pack (mul_between (canonical_unpack _) (canonical_unpack _) hp hq hlo hhi hl hh) hmax

theorem within_div (hp : x.magnitude? = some p) (hq : y.magnitude? = some q) (hne : q ≠ 0)
    (hlo : Representable lo) (hhi : Representable hi) (hmax : hi < 2 ^ 1024) (hl : lo ≤ p / q)
    (hh : p / q ≤ hi) : (x / y).Within lo hi :=
  within_pack (div_between hp hq hne hlo hhi hl hh) hmax

theorem within_add (hp : x.magnitude? = some p) (hq : y.magnitude? = some q)
    (hhi : Representable hi) (hmax : hi < 2 ^ 1024) (hh : p + q ≤ hi) : (x + y).Within 0 hi :=
  within_pack (add_between (canonical_unpack _) (canonical_unpack _) hp hq hhi hh) hmax

theorem unpack_packedInfinity (s : Sign) :
    UnpackedFloat.unpack .binary64 (packedInfinity .binary64 s) = .infinity s := by
  cases s <;> rfl

theorem unpack_neg (x : Float) : (-x).toModel.unpack = x.toModel.unpack.neg := by
  change (Model.pack x.toModel.unpack.neg).unpack = _
  cases hu : x.toModel.unpack with
  | notANumber => exact unpack_packedNaN
  | infinity s => exact unpack_packedInfinity (-s)
  | zero s => exact unpack_packedZero
  | finite s m e hm =>
    obtain ⟨hc, he⟩ := unpack_finite hu
    exact @unpack_pack_finite (-s) _ _ hm hc he

theorem magnitude?_neg (x : Float) : (-x).magnitude? = x.magnitude? := by
  rw [Float.magnitude?, unpack_neg, Float.magnitude?]
  cases x.toModel.unpack <;> rfl

theorem isFinite_zero : (0.0 : Float).isFinite := by decide +kernel

theorem isFinite_neg : (-x).isFinite ↔ x.isFinite := by
  rw [isFinite_iff, isFinite_iff, magnitude?_neg]

theorem representable_natCast {n : ℕ} (hn : n ≤ 2 ^ 53) : Representable n :=
  ⟨n, 0, hn, by norm_num, by rw [zpow_zero, mul_one]⟩

theorem magnitude?_toFloat {n : ℕ} (hn : n < 2 ^ 53) :
    n.toUInt64.toFloat.magnitude? = some (n : ℚ) := by
  have hr := representable_natCast hn.le
  have hb : (UnpackedFloat.ofNat .binary64 n.toUInt64.toNat).Between n n := by
    rw [Nat.toUInt64, UInt64.toNat_ofNat', Nat.mod_eq_of_lt (by omega)]
    exact ofNat_between hr hr le_rfl le_rfl
  obtain ⟨q, hq, hl, hh⟩ := within_pack hb (by
    calc (n : ℚ) < 2 ^ 53 := by exact_mod_cast hn
      _ ≤ 2 ^ 1024 := pow_le_pow_right₀ one_le_two (by norm_num))
  rw [le_antisymm hh hl] at hq
  exact hq

theorem within_ofScientific {m k : ℕ} (hlo : Representable lo) (hhi : Representable hi)
    (hmax : hi < 2 ^ 1024) (hl : lo ≤ m * 10 ^ k) (hh : m * 10 ^ k ≤ hi) :
    (Float.ofScientific m false k).Within lo hi := by
  rw [Float.ofScientific]
  split
  · next h =>
    have hpow := (isNat_exactlyRepresentablePowersOfTen ⟨k, by omega⟩).magnitude?
    rw [Nat.cast_pow, Nat.cast_ofNat] at hpow
    exact within_mul (magnitude?_toFloat h.1) hpow hlo hhi hmax hl hh
  · exact within_pack (ofScientific_between hlo hhi hmax hl hh) hmax

theorem within_ofNat {n : ℕ} (hlo : Representable lo) (hhi : Representable hi)
    (hmax : hi < 2 ^ 1024) (hl : lo ≤ n) (hh : n ≤ hi) : (Float.ofNat n).Within lo hi := by
  have hn : (n : ℚ) * 10 ^ 0 = n := by rw [pow_zero, mul_one]
  exact within_ofScientific hlo hhi hmax (hl.trans_eq hn.symm) (hn.trans_le hh)

theorem within_ofNat_two_pow {n k : ℕ} (hn : n ≤ 2 ^ k) (hk : k < 1024) :
    (Float.ofNat n).Within 0 (2 ^ k) :=
  within_ofNat representable_zero (representable_two_pow k) (pow_lt_pow_right₀ one_lt_two hk)
    (Nat.cast_nonneg n) (by exact_mod_cast hn)

/-- What is rounded up is rounded by little. -/
theorem within_ofScientific_near {m k : ℕ} (hm : 0 < m)
    (hmax : (m * 10 ^ k : ℚ) * (1 + 1 / 2 ^ 52) < 2 ^ 1024) :
    (Float.ofScientific m false k).Within 0 (m * 10 ^ k * (1 + 1 / 2 ^ 52)) := by
  obtain ⟨c, hc, hge, hle⟩ := exists_representable_ge (n := m * 10 ^ k) (by positivity)
  push_cast at hge hle
  obtain ⟨q, hq, hq₀, hq₁⟩ := within_ofScientific representable_zero hc (hle.trans_lt hmax)
    (by positivity) hge
  exact ⟨q, hq, hq₀, hq₁.trans hle⟩

theorem unpack_pack_of_lt {s : Sign} {m : ℕ} {e : ℤ} {hm : 0 < m} (he : 971 < e) :
    (Model.pack (.finite s m e hm)).unpack = .infinity s := by
  have hpack : UnpackedFloat.pack .binary64 (.finite s m e hm) = packedInfinity .binary64 s := by
    rw [UnpackedFloat.pack]
    refine if_pos ?_
    norm_num [Format.exponentBias]
    omega
  exact (congrArg (UnpackedFloat.unpack .binary64) hpack).trans (unpack_packedInfinity s)

theorem isFinite_or_isInf_pack {u : UnpackedFloat} (hu : u.Canonical) (hq : u.magnitude? = some q) :
    (ofModel (.pack u)).isFinite ∨ (ofModel (.pack u)).isInf := by
  cases u with
  | notANumber | infinity => cases hq
  | zero => exact .inl (congrArg UnpackedFloat.isFinite unpack_packedZero)
  | finite s m e hm =>
    by_cases he : e ≤ 971
    · exact .inl (congrArg UnpackedFloat.isFinite (unpack_pack_finite hu he))
    · exact .inr (congrArg UnpackedFloat.isInf (unpack_pack_of_lt (Int.lt_of_not_ge he)))

theorem isFinite_div (hx : x.isFinite) (hq : y.magnitude? = some q) (h : 1 ≤ q) :
    (x / y).isFinite := by
  obtain ⟨p, hp⟩ := isFinite_iff.1 hx
  obtain ⟨hp₀, hmax, hp₁⟩ := magnitude_bounds hp
  have hq₀ : 0 < q := zero_lt_one.trans_le h
  exact (within_div hp hq hq₀.ne' representable_zero hp₁ hmax (div_nonneg hp₀ hq₀.le)
    (div_le_self hp₀ h)).isFinite

theorem canonical_mul (hx : x.isFinite) (hy : y.isFinite) :
    ∃ q, (UnpackedFloat.mul .binary64 x.toModel.unpack y.toModel.unpack).Canonical ∧
      (UnpackedFloat.mul .binary64 x.toModel.unpack y.toModel.unpack).magnitude? = some q := by
  obtain ⟨p, hp⟩ := isFinite_iff.1 hx
  obtain ⟨q, hq⟩ := isFinite_iff.1 hy
  obtain ⟨hp₀, hp₁, _⟩ := magnitude_bounds hp
  obtain ⟨hq₀, hq₁, _⟩ := magnitude_bounds hq
  have hhi : Representable (2 ^ 1024 * 2 ^ 1024) :=
    ⟨1, 2048, by norm_num, by norm_num, by rw [← pow_add, Nat.cast_one, one_mul]; rfl⟩
  obtain ⟨hc, r, hr, _⟩ := mul_between (canonical_unpack _) (canonical_unpack _) hp hq
    representable_zero hhi (by positivity)
    (mul_le_mul hp₁.le hq₁.le hq₀ (by positivity))
  exact ⟨r, hc, hr⟩

/-- A product of finite doubles is finite or infinite, but it is a number. -/
theorem isFinite_mul (hx : x.isFinite) (hy : y.isFinite) (h : ¬ (x * y).isInf) :
    (x * y).isFinite := by
  obtain ⟨q, hc, hq⟩ := canonical_mul hx hy
  exact (isFinite_or_isInf_pack hc hq).resolve_right h

end Float
