import Backprop.Proofs.Double.Packing

namespace Float.Model.UnpackedFloat

open Format

variable {m : ℕ} {e : ℤ} {s : Sign} {u v : UnpackedFloat} {p q lo hi : ℚ}

/-- A canonical form whose absolute value lies between two bounds. -/
def Between (u : UnpackedFloat) (lo hi : ℚ) : Prop :=
  u.Canonical ∧ ∃ q, u.magnitude? = some q ∧ lo ≤ q ∧ q ≤ hi

theorem between_zero (hl : lo ≤ 0) (hh : 0 ≤ hi) : (zero s).Between lo hi :=
  ⟨trivial, 0, rfl, hl, hh⟩

theorem log2_shiftLeft (hm : m ≠ 0) (k : ℕ) : (m <<< k).log2 = m.log2 + k := by
  have hne : m <<< k ≠ 0 := by
    rw [Nat.shiftLeft_eq]
    positivity
  refine (Nat.log2_eq_iff hne).2 ⟨?_, ?_⟩
  · rw [Nat.shiftLeft_eq, pow_add]
    exact Nat.mul_le_mul_right _ (Nat.log2_self_le hm)
  · rw [Nat.shiftLeft_eq, add_right_comm, pow_add _ _ k]
    exact Nat.mul_lt_mul_of_pos_right Nat.lt_log2_self (by positivity)

theorem shiftLeft_value (m k : ℕ) (e : ℤ) :
    ((m <<< k : ℕ) : ℚ) * 2 ^ (e - k) = m * 2 ^ e := by
  rw [Nat.shiftLeft_eq, zpow_sub₀ two_ne_zero, zpow_natCast]
  push_cast
  field_simp

/-- A number is rounded from where its last bit is no higher than the unit of rounding. -/
theorem round_spec (s : Sign) (hm : m ≠ 0) (e : ℤ) : ∃ k : ℕ,
    round binary64 s m e = roundWithAccuracy binary64 s (m <<< k) (e - k) .exact ∧
      e - k ≤ binary64.targetExponent (totalExponent (m <<< k) (e - k)) := by
  obtain ⟨k, hk⟩ : ∃ k, (e - binary64.targetExponent (totalExponent m e)).toNat = k := ⟨_, rfl⟩
  refine ⟨k, ?_, ?_⟩
  · rw [round, decreaseExponent, hk]
  · rw [targetExponent_eq] at hk
    rw [targetExponent_eq, log2_shiftLeft hm]
    omega

theorem round_between (s : Sign) (hm : m ≠ 0) (hlo : Representable lo) (hhi : Representable hi)
    (hl : lo ≤ m * 2 ^ e) (hh : m * 2 ^ e ≤ hi) : (round binary64 s m e).Between lo hi := by
  obtain ⟨k, hround, he⟩ := round_spec s hm e
  rw [← shiftLeft_value m k] at hl hh
  rw [hround]
  exact roundWithAccuracy_between s (.of_exact _) he hlo hhi hl hh

theorem normalize_between {z : ℤ} (hlo : Representable lo) (hhi : Representable hi)
    (hl : lo ≤ |(z : ℚ)| * 2 ^ e) (hh : |(z : ℚ)| * 2 ^ e ≤ hi) :
    (normalize binary64 z e s).Between lo hi := by
  rw [normalize]
  rcases lt_trichotomy z 0 with hz | rfl | hz
  · have habs : |(z : ℚ)| = ((-z).toNat : ℕ) := by
      rw [abs_of_neg (by exact_mod_cast hz)]
      exact_mod_cast (Int.toNat_of_nonneg (by omega)).symm
    rw [habs] at hl hh
    rw [Int.compare_eq_lt.2 hz]
    exact round_between .negative (by omega) hlo hhi hl hh
  · rw [Int.cast_zero, abs_zero, zero_mul] at hl hh
    exact between_zero hl hh
  · have habs : |(z : ℚ)| = (z.toNat : ℕ) := by
      rw [abs_of_pos (by exact_mod_cast hz)]
      exact_mod_cast (Int.toNat_of_nonneg (by omega)).symm
    rw [habs] at hl hh
    rw [Int.compare_eq_gt.2 hz]
    exact round_between .positive (by omega) hlo hhi hl hh

theorem ofNat_between {n : ℕ} (hlo : Representable lo) (hhi : Representable hi) (hl : lo ≤ n)
    (hh : n ≤ hi) : (ofNat binary64 n).Between lo hi := by
  have hn : |((n : ℤ) : ℚ)| * 2 ^ (0 : ℤ) = n := by simp
  refine normalize_between hlo hhi ?_ ?_
  · rwa [hn]
  · rwa [hn]

/-- A product has enough bits if one factor has them, or lies among the smallest units. -/
theorem mul_spec {m₁ m₂ : ℕ} {e₁ e₂ : ℤ} (hbits : 52 ≤ (m₁ * m₂).log2 ∨ e₁ + e₂ ≤ -1074) :
    (m₁ : ℚ) * 2 ^ e₁ * (m₂ * 2 ^ e₂) = (m₁ * m₂ : ℕ) * 2 ^ (e₁ + e₂) ∧
      e₁ + e₂ ≤ binary64.targetExponent (totalExponent (m₁ * m₂) (e₁ + e₂)) := by
  constructor
  · rw [zpow_add₀ two_ne_zero]
    push_cast
    ring
  · rw [targetExponent_eq]
    omega

theorem mul_finite_between {s₁ s₂ : Sign} {m₁ m₂ : ℕ} {e₁ e₂ : ℤ} {h₁ : 0 < m₁} {h₂ : 0 < m₂}
    (hbits : 52 ≤ (m₁ * m₂).log2 ∨ e₁ + e₂ ≤ -1074) (hlo : Representable lo)
    (hhi : Representable hi) (hl : lo ≤ m₁ * 2 ^ e₁ * (m₂ * 2 ^ e₂))
    (hh : m₁ * 2 ^ e₁ * (m₂ * 2 ^ e₂) ≤ hi) :
    (mul binary64 (.finite s₁ m₁ e₁ h₁) (.finite s₂ m₂ e₂ h₂)).Between lo hi := by
  obtain ⟨hvalue, he⟩ := mul_spec hbits
  rw [hvalue] at hl hh
  exact roundWithAccuracy_between _ (.of_exact _) he hlo hhi hl hh

theorem mul_between (hu : u.Canonical) (hv : v.Canonical) (hp : u.magnitude? = some p)
    (hq : v.magnitude? = some q) (hlo : Representable lo) (hhi : Representable hi)
    (hl : lo ≤ p * q) (hh : p * q ≤ hi) : (mul binary64 u v).Between lo hi := by
  cases u with
  | notANumber | infinity => cases hp
  | zero =>
    cases hp
    rw [zero_mul] at hl hh
    cases v with
    | notANumber | infinity => cases hq
    | zero | finite => exact between_zero hl hh
  | finite s₁ m₁ e₁ h₁ =>
    cases hp
    cases v with
    | notANumber | infinity => cases hq
    | zero =>
      cases hq
      rw [mul_zero] at hl hh
      exact between_zero hl hh
    | finite s₂ m₂ e₂ h₂ =>
      cases hq
      refine mul_finite_between ?_ hlo hhi hl hh
      have hne : m₁ * m₂ ≠ 0 := by positivity
      obtain ⟨_, _, hn₁⟩ := hu
      obtain ⟨_, _, hn₂⟩ := hv
      rw [Nat.le_log2 hne]
      rcases hn₁ with hn₁ | rfl
      · exact .inl (hn₁.trans (Nat.le_mul_of_pos_right _ h₂))
      · rcases hn₂ with hn₂ | rfl
        · exact .inl (hn₂.trans (Nat.le_mul_of_pos_left _ h₁))
        · exact .inr (by norm_num)

theorem divCore_spec {m₁ m₂ : ℕ} (h₁ : 0 < m₁) (h₂ : 0 < m₂) (e₁ e₂ : ℤ) : ∃ (k : ℕ) (t : ℤ),
    divCore binary64 m₁ e₁ m₂ e₂ =
        (m₁ <<< k / m₂, t, accuracyOfFraction (m₁ <<< k % m₂) m₂) ∧
      (m₁ : ℚ) * 2 ^ e₁ / (m₂ * 2 ^ e₂) = ((m₁ <<< k : ℕ) : ℚ) / m₂ * 2 ^ t ∧
      t ≤ binary64.targetExponent (totalExponent (m₁ <<< k / m₂) t) := by
  obtain ⟨t, ht⟩ : ∃ t, min (e₁ - e₂) (binary64.targetExponent (totalExponent m₁ e₁ -
    totalExponent m₂ e₂)) = t := ⟨_, rfl⟩
  obtain ⟨k, hk⟩ : ∃ k, (e₁ - e₂ - t).toNat = k := ⟨_, rfl⟩
  refine ⟨k, t, ?_, ?_, ?_⟩
  · rw [divCore, ht, hk]
  · have hv := shiftLeft_value m₁ k (e₁ - e₂)
    rw [show e₁ - e₂ - k = t by omega, zpow_sub₀ two_ne_zero] at hv
    have hm₂ : (m₂ : ℚ) ≠ 0 := by exact_mod_cast h₂.ne'
    field_simp at hv ⊢
    linarith
  · rw [targetExponent_binary64, totalExponent, totalExponent] at ht
    rw [targetExponent_eq]
    by_cases hmin : t ≤ -1074
    · omega
    -- Above the smallest exponent the dividend has been shifted far enough.
    have hbits : 2 ^ 52 * m₂ ≤ m₁ <<< k := by
      calc 2 ^ 52 * m₂ ≤ 2 ^ 52 * 2 ^ (m₂.log2 + 1) := by gcongr; exact Nat.lt_log2_self.le
        _ = 2 ^ (52 + (m₂.log2 + 1)) := (pow_add ..).symm
        _ ≤ 2 ^ (m₁ <<< k).log2 := by
          rw [log2_shiftLeft h₁.ne']
          exact Nat.pow_le_pow_right two_pos (by omega)
        _ ≤ m₁ <<< k := Nat.log2_self_le (by rw [Nat.shiftLeft_eq]; positivity)
    have hquot : 2 ^ 52 ≤ m₁ <<< k / m₂ := (Nat.le_div_iff_mul_le h₂).2 hbits
    have hlog := (Nat.le_log2 (by omega)).2 hquot
    omega

theorem div_between (hp : u.magnitude? = some p) (hq : v.magnitude? = some q) (hne : q ≠ 0)
    (hlo : Representable lo) (hhi : Representable hi) (hl : lo ≤ p / q) (hh : p / q ≤ hi) :
    (div binary64 u v).Between lo hi := by
  cases v with
  | notANumber | infinity => cases hq
  | zero =>
    cases hq
    exact absurd rfl hne
  | finite s₂ m₂ e₂ h₂ =>
    cases hq
    cases u with
    | notANumber | infinity => cases hp
    | zero =>
      cases hp
      rw [zero_div] at hl hh
      exact between_zero hl hh
    | finite s₁ m₁ e₁ h₁ =>
      cases hp
      obtain ⟨k, t, hdiv, hvalue, ht⟩ := divCore_spec h₁ h₂ e₁ e₂
      rw [hvalue] at hl hh
      rw [div, hdiv]
      exact roundWithAccuracy_between _ (.of_fraction _ h₂) ht hlo hhi hl hh

theorem abs_apply (s : Sign) (n : ℕ) : |((s.apply n : ℤ) : ℚ)| = n := by
  cases s <;> simp [Sign.apply]

theorem add_between (hu : u.Canonical) (hv : v.Canonical) (hp : u.magnitude? = some p)
    (hq : v.magnitude? = some q) (hhi : Representable hi) (hh : p + q ≤ hi) :
    (add binary64 u v).Between 0 hi := by
  cases u with
  | notANumber | infinity => cases hp
  | zero s₁ =>
    cases hp
    rw [zero_add] at hh
    cases v with
    | notANumber | infinity => cases hq
    | zero s₂ =>
      cases hq
      rw [add]
      split <;> exact between_zero le_rfl hh
    | finite s₂ m₂ e₂ h₂ =>
      cases hq
      exact ⟨hv, _, rfl, by positivity, hh⟩
  | finite s₁ m₁ e₁ h₁ =>
    cases hp
    cases v with
    | notANumber | infinity => cases hq
    | zero s₂ =>
      cases hq
      rw [add_zero] at hh
      exact ⟨hu, _, rfl, by positivity, hh⟩
    | finite s₂ m₂ e₂ h₂ =>
      cases hq
      obtain ⟨t, ht⟩ : ∃ t, min e₁ e₂ = t := ⟨_, rfl⟩
      obtain ⟨k₁, hk₁⟩ : ∃ k, (e₁ - t).toNat = k := ⟨_, rfl⟩
      obtain ⟨k₂, hk₂⟩ : ∃ k, (e₂ - t).toNat = k := ⟨_, rfl⟩
      have hv₁ := shiftLeft_value m₁ k₁ e₁
      have hv₂ := shiftLeft_value m₂ k₂ e₂
      rw [show e₁ - k₁ = t by omega] at hv₁
      rw [show e₂ - k₂ = t by omega] at hv₂
      rw [← hv₁, ← hv₂, ← add_mul] at hh
      rw [add, decreaseExponent, decreaseExponent, ht, hk₁, hk₂]
      refine normalize_between representable_zero hhi (by positivity) ?_
      refine le_trans (mul_le_mul_of_nonneg_right ?_ (by positivity)) hh
      rw [Int.cast_add]
      refine (abs_add_le _ _).trans ?_
      rw [abs_apply, abs_apply]

theorem lt_of_mul_ten_pow_lt {k : ℕ} (hm : m ≠ 0) (h : (m : ℚ) * 10 ^ k < 2 ^ 1024) :
    k < 1024 := by
  by_contra hk
  have hm' : (1 : ℚ) ≤ m := by exact_mod_cast Nat.one_le_iff_ne_zero.2 hm
  refine not_le.2 h ?_
  calc (2 : ℚ) ^ 1024 ≤ 2 ^ k := pow_le_pow_right₀ one_le_two (not_lt.1 hk)
    _ ≤ 10 ^ k := by gcongr; norm_num
    _ ≤ m * 10 ^ k := le_mul_of_one_le_left (by positivity) hm'

theorem le_log2_shiftLeft_mul {n k : ℕ} (hm : m ≠ 0) (hn : n ≠ 0) :
    k ≤ (m <<< k * n).log2 := by
  have hne : m <<< k ≠ 0 := by
    rw [Nat.shiftLeft_eq]
    positivity
  rw [Nat.le_log2 (Nat.mul_ne_zero hne hn)]
  calc 2 ^ k ≤ m * 2 ^ k := Nat.le_mul_of_pos_left _ (Nat.pos_of_ne_zero hm)
    _ = m <<< k := (Nat.shiftLeft_eq ..).symm
    _ ≤ m <<< k * n := Nat.le_mul_of_pos_right _ (Nat.pos_of_ne_zero hn)

/-- With a power of ten that is not too large, the digits are multiplied by it. -/
theorem ofScientific_eq_mul {k : ℕ} (hm : 0 < m) (hk : k ≤ 2048) :
    ofScientific binary64 m k = mul binary64
      (.finite .positive (m <<< 53) (-53) (by rw [Nat.shiftLeft_eq]; positivity))
      (.finite .positive (10 ^ k) 0 (by positivity)) := by
  rw [ofScientific, dif_neg hm.ne', if_neg (by norm_num; omega), if_neg (by norm_num; omega),
    if_pos (by omega)]
  rfl

/-- The digits are extended by more zeros than a mantissa has bits. -/
theorem shiftLeft_mul_spec {n : ℕ} (hm : 0 < m) (hn : 0 < n) :
    52 ≤ (m <<< 53 * n).log2 ∧ ((m <<< 53 : ℕ) : ℚ) * 2 ^ (-53 : ℤ) * (n * 2 ^ (0 : ℤ)) = m * n := by
  constructor
  · exact (Nat.le_succ 52).trans (le_log2_shiftLeft_mul hm.ne' hn.ne')
  · have hv := shiftLeft_value m 53 0
    rw [zpow_zero, mul_one] at hv
    rw [← hv, zpow_zero, mul_one]
    rfl

theorem ofScientific_between {k : ℕ} (hlo : Representable lo) (hhi : Representable hi)
    (hmax : hi < 2 ^ 1024) (hl : lo ≤ m * 10 ^ k) (hh : m * 10 ^ k ≤ hi) :
    (ofScientific binary64 m k).Between lo hi := by
  rcases Nat.eq_zero_or_pos m with hz | hm
  · rw [hz, Nat.cast_zero, zero_mul] at hl hh
    rw [ofScientific, dif_pos hz]
    exact between_zero hl hh
  · have hk := lt_of_mul_ten_pow_lt hm.ne' (hh.trans_lt hmax)
    obtain ⟨hbits, hvalue⟩ := shiftLeft_mul_spec hm (n := 10 ^ k) (by positivity)
    rw [Nat.cast_pow, Nat.cast_ofNat] at hvalue
    rw [ofScientific_eq_mul hm (by omega)]
    apply mul_finite_between (.inl hbits) hlo hhi
    · rw [Nat.cast_pow, Nat.cast_ofNat, hvalue]
      exact hl
    · rw [Nat.cast_pow, Nat.cast_ofNat, hvalue]
      exact hh

end Float.Model.UnpackedFloat
