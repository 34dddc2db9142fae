import Mathlib

namespace Float.Model

open Format

namespace UnpackedFloat

/-- What a mantissa and its residual bits tell of a number: its whole part, and whether there is
anything behind. -/
structure ExtendedMantissa.Truncates (em : ExtendedMantissa) (x : ℚ) : Prop where
  le : em.mantissa ≤ x
  lt : x < em.mantissa + 1
  lt_of_residue : em.roundBit ∨ em.stickyBit → em.mantissa < x

namespace ExtendedMantissa.Truncates

variable {em : ExtendedMantissa} {x : ℚ} {n : ℕ}

theorem of_exact (m : ℕ) : (ofMantissaAndAccuracy m .exact).Truncates m :=
  ⟨le_rfl, lt_add_one _, by simp [ofMantissaAndAccuracy]⟩

theorem of_fraction (num : ℕ) {den : ℕ} (hd : 0 < den) :
    (ofMantissaAndAccuracy (num / den) (accuracyOfFraction (num % den) den)).Truncates
      (num / den) := by
  have hm : (ofMantissaAndAccuracy (num / den)
      (accuracyOfFraction (num % den) den)).mantissa = num / den := by
    rw [accuracyOfFraction]
    split
    · rfl
    · cases compare (2 * (num % den)) den <;> rfl
  have hq : (0 : ℚ) < den := by exact_mod_cast hd
  refine ⟨?_, ?_, ?_⟩
  · rw [hm]
    exact Nat.cast_div_le
  · rw [hm, div_lt_iff₀ hq]
    exact_mod_cast Nat.lt_mul_of_div_lt (Nat.lt_succ_self _) hd
  · rw [hm, accuracyOfFraction]
    intro hr
    split at hr
    · simp [ofMantissaAndAccuracy] at hr
    · next hne =>
      rw [lt_div_iff₀ hq]
      have := Nat.div_add_mod num den
      exact_mod_cast (by rw [mul_comm]; omega : num / den * den < num)

theorem shiftRightOne (h : em.Truncates x) : em.shiftRightOne.Truncates (x / 2) := by
  have hdiv : (em.mantissa / 2 : ℕ) * 2 + (em.mantissa % 2 : ℕ) = em.mantissa :=
    Nat.div_add_mod' _ _
  have hmod := Nat.mod_lt em.mantissa two_pos
  have hcast : ((em.mantissa / 2 : ℕ) : ℚ) * 2 + (em.mantissa % 2 : ℕ) = em.mantissa := by
    exact_mod_cast hdiv
  have hle := h.le
  have hlt := h.lt
  have hone : ((em.mantissa % 2 : ℕ) : ℚ) ≤ 1 := by exact_mod_cast Nat.le_of_lt_succ hmod
  have hpos : (0 : ℚ) ≤ (em.mantissa % 2 : ℕ) := Nat.cast_nonneg _
  refine ⟨?_, ?_, ?_⟩
  · change ((em.mantissa / 2 : ℕ) : ℚ) ≤ x / 2
    linarith
  · change x / 2 < ((em.mantissa / 2 : ℕ) : ℚ) + 1
    linarith
  · intro hr
    change ((em.mantissa / 2 : ℕ) : ℚ) < x / 2
    rcases hr with hr | hr
    · have hodd : em.mantissa % 2 = 1 := by
        have hne : em.mantissa % 2 ≠ 0 := by simpa [ExtendedMantissa.shiftRightOne] using hr
        omega
      rw [hodd, Nat.cast_one] at hcast
      linarith
    · have := h.lt_of_residue (by simpa [ExtendedMantissa.shiftRightOne] using hr)
      linarith

theorem shiftRight (h : em.Truncates x) (k : ℕ) : (em >>> k).Truncates (x / 2 ^ k) := by
  induction k with
  | zero =>
    rw [pow_zero, div_one]
    exact h
  | succ k ih =>
    have := ih.shiftRightOne
    rwa [div_div, ← pow_succ] at this

theorem div_le (h : em.Truncates x) {k : ℕ} (hk : em.mantissa.log2 ≤ 52 + k) :
    x / 2 ^ k ≤ (2 ^ 53 : ℕ) := by
  have hbits : em.mantissa + 1 ≤ 2 ^ 53 * 2 ^ k := by
    rw [← pow_add]
    exact Nat.lt_log2_self.trans_le (Nat.pow_le_pow_right two_pos (by omega))
  rw [div_le_iff₀ (by positivity)]
  exact h.lt.le.trans (by exact_mod_cast hbits)

theorem le_div (h : em.Truncates x) {k : ℕ} (hk : em.mantissa.log2 = 52 + k) :
    (2 ^ 52 : ℕ) ≤ x / 2 ^ k := by
  have hm : em.mantissa ≠ 0 := by
    intro hz
    rw [hz, Nat.log2_zero] at hk
    omega
  have hbits : 2 ^ 52 * 2 ^ k ≤ em.mantissa := by
    rw [← pow_add, ← hk]
    exact Nat.log2_self_le hm
  rw [le_div_iff₀ (by positivity)]
  exact le_trans (by exact_mod_cast hbits) h.le

theorem le_roundedMantissa (h : em.Truncates x) (hn : n ≤ x) : n ≤ em.roundedMantissa := by
  have hm : n ≤ em.mantissa := by
    have hlt : (n : ℚ) < em.mantissa + 1 := hn.trans_lt h.lt
    exact Nat.lt_succ_iff.1 (by exact_mod_cast hlt)
  obtain ⟨m, r, s⟩ := em
  refine hm.trans ?_
  cases r <;> cases s <;> simp [roundedMantissa, accuracy, Accuracy.roundToNearestEven]

theorem roundedMantissa_le (h : em.Truncates x) (hn : x ≤ n) : em.roundedMantissa ≤ n := by
  have hm : em.mantissa ≤ n := by exact_mod_cast h.le.trans hn
  have hresidue (hr : em.roundBit ∨ em.stickyBit) : em.mantissa < n := by
    exact_mod_cast (h.lt_of_residue hr).trans_le hn
  obtain ⟨m, r, s⟩ := em
  cases r with
  | false =>
    cases s <;> exact hm
  | true =>
    have hlt : m < n := hresidue (.inl rfl)
    cases s with
    | false =>
      change m + m % 2 ≤ n
      omega
    | true => exact hlt

end ExtendedMantissa.Truncates

def magnitude? : UnpackedFloat → Option ℚ
  | .zero _ => some 0
  | .finite _ m e _ => some (m * 2 ^ e)
  | _ => none

/-- The one form in which a double is stored. -/
def Canonical : UnpackedFloat → Prop
  | .finite _ m e _ => m < 2 ^ 53 ∧ -1074 ≤ e ∧ (2 ^ 52 ≤ m ∨ e = -1074)
  | _ => True

/-- A number that some double has as its absolute value, were the exponent not bounded above. -/
def Representable (c : ℚ) : Prop :=
  ∃ (m : ℕ) (e : ℤ), m ≤ 2 ^ 53 ∧ -1074 ≤ e ∧ c = m * 2 ^ e

theorem representable_zero : Representable 0 :=
  ⟨0, 0, by norm_num⟩

theorem representable_two_pow (k : ℕ) : Representable (2 ^ k) :=
  ⟨1, k, by norm_num, by omega, by rw [Nat.cast_one, one_mul, zpow_natCast]⟩

theorem exists_representable_ge {n : ℕ} (hn : 0 < n) :
    ∃ c, Representable c ∧ n ≤ c ∧ c ≤ n * (1 + 1 / 2 ^ 52) := by
  have hpos : (0 : ℚ) < n := by exact_mod_cast hn
  rcases lt_or_ge n (2 ^ 53) with hlt | hge
  · refine ⟨n, ⟨n, 0, hlt.le, by norm_num, by rw [zpow_zero, mul_one]⟩, le_rfl, ?_⟩
    exact le_mul_of_one_le_right hpos.le (by norm_num)
  · obtain ⟨k, hk⟩ : ∃ k, n.log2 = 52 + k :=
      Nat.exists_eq_add_of_le <| (Nat.le_log2 hn.ne').2 <|
        (Nat.pow_le_pow_right two_pos (by omega)).trans hge
    have hlow : 2 ^ 52 * 2 ^ k ≤ n := by
      rw [← pow_add, ← hk]
      exact Nat.log2_self_le hn.ne'
    have hhigh : n < 2 ^ 53 * 2 ^ k := by
      have h := Nat.lt_log2_self (n := n)
      rwa [hk, add_right_comm, pow_add] at h
    have hq : n / 2 ^ k + 1 ≤ 2 ^ 53 := Nat.div_lt_of_lt_mul (by rwa [mul_comm] at hhigh)
    refine ⟨(n / 2 ^ k + 1 : ℕ) * 2 ^ k, ⟨_, k, hq, by omega, by rw [zpow_natCast]⟩, ?_, ?_⟩
    · exact_mod_cast (Nat.lt_div_mul_add (Nat.two_pow_pos k)).le.trans_eq (by ring)
    · have hle : (n / 2 ^ k + 1) * 2 ^ k ≤ n + 2 ^ k := by
        rw [add_mul, one_mul]
        exact Nat.add_le_add_right (Nat.div_mul_le_self n _) _
      have hle' : ((n / 2 ^ k + 1 : ℕ) : ℚ) * 2 ^ k ≤ n + 2 ^ k := by exact_mod_cast hle
      have hlow' : (2 : ℚ) ^ 52 * 2 ^ k ≤ n := by exact_mod_cast hlow
      linarith

theorem targetExponent_binary64 (total : ℤ) :
    binary64.targetExponent total = max (total - 53) (-1074) :=
  rfl

theorem targetExponent_eq (m : ℕ) (e : ℤ) :
    binary64.targetExponent (totalExponent m e) = max (m.log2 + e - 52) (-1074) := by
  rw [targetExponent_binary64, totalExponent]
  omega

theorem shiftToTargetExponent_of_lt {m : ℕ} {e : ℤ} (hm : m < 2 ^ 53) (he : -1074 ≤ e) :
    shiftToTargetExponent binary64 m e .exact = (⟨m, false, false⟩, e) := by
  have hlog : m.log2 ≤ 52 := by
    by_cases hz : m = 0
    · simp [hz]
    · exact Nat.lt_succ_iff.1 ((Nat.log2_lt hz).2 hm)
  have hk : (binary64.targetExponent (totalExponent m e) - e).toNat = 0 := by
    rw [targetExponent_eq]
    omega
  rw [shiftToTargetExponent, shiftToExponent, hk, Nat.cast_zero, add_zero]
  rfl

theorem shiftToTargetExponent_carry {e : ℤ} (he : -1074 ≤ e) :
    shiftToTargetExponent binary64 (2 ^ 53) e .exact = (⟨2 ^ 52, false, false⟩, e + 1) := by
  have hk : (binary64.targetExponent (totalExponent (2 ^ 53) e) - e).toNat = 1 := by
    rw [targetExponent_eq, Nat.log2_two_pow]
    omega
  rw [shiftToTargetExponent, shiftToExponent, hk]
  rfl

theorem roundWithAccuracy_of_shift (s : Sign) {m : ℕ} {e t : ℤ} {acc : Accuracy}
    {em : ExtendedMantissa} (hshift : shiftToTargetExponent binary64 m e acc = (em, t))
    (ht : -1074 ≤ t) (hup : em.roundedMantissa ≤ 2 ^ 53)
    (hdown : t = -1074 ∨ 2 ^ 52 ≤ em.roundedMantissa) :
    (roundWithAccuracy binary64 s m e acc).Canonical ∧
      (roundWithAccuracy binary64 s m e acc).magnitude? =
        some ((em.roundedMantissa : ℚ) * 2 ^ t) := by
  rw [roundWithAccuracy, hshift]
  dsimp only
  generalize em.roundedMantissa = r at *
  rcases hup.lt_or_eq with hr | rfl
  · rw [shiftToTargetExponent_of_lt hr ht]
    dsimp only
    split
    · next hz =>
      refine ⟨trivial, ?_⟩
      rw [magnitude?, hz, Nat.cast_zero, zero_mul]
    · exact ⟨⟨hr, ht, hdown.symm⟩, rfl⟩
  · rw [shiftToTargetExponent_carry ht]
    refine ⟨⟨by norm_num, by dsimp only; omega, .inl le_rfl⟩, ?_⟩
    refine congrArg some ?_
    rw [zpow_add₀ two_ne_zero, zpow_one]
    push_cast
    ring

/-- The number is counted in units of the target exponent, and the count has all bits, unless the units
are the smallest. -/
theorem shiftToTargetExponent_spec {m : ℕ} {e : ℤ} {acc : Accuracy} {x : ℚ}
    (hx : (ExtendedMantissa.ofMantissaAndAccuracy m acc).Truncates x)
    (he : e ≤ binary64.targetExponent (totalExponent m e)) :
    ∃ (k : ℕ) (t : ℤ), shiftToTargetExponent binary64 m e acc =
        (ExtendedMantissa.ofMantissaAndAccuracy m acc >>> k, t) ∧
      x * 2 ^ e = x / 2 ^ k * 2 ^ t ∧ -1074 ≤ t ∧ x / 2 ^ k ≤ (2 ^ 53 : ℕ) ∧
      (t = -1074 ∨ (2 ^ 52 : ℕ) ≤ x / 2 ^ k) := by
  obtain ⟨k, hk⟩ := Int.le.dest he
  rw [targetExponent_eq] at hk
  generalize ht : e + (k : ℤ) = t at hk
  have hmantissa : (ExtendedMantissa.ofMantissaAndAccuracy m acc).mantissa = m := by
    cases acc with
    | exact => rfl
    | inexact o => cases o <;> rfl
  have hshift : shiftToTargetExponent binary64 m e acc =
      (ExtendedMantissa.ofMantissaAndAccuracy m acc >>> k, t) := by
    rw [shiftToTargetExponent, shiftToExponent, targetExponent_eq, ← hk, ← ht,
      show (e + (k : ℤ) - e).toNat = k by omega]
  have hpow : x * 2 ^ e = x / 2 ^ k * 2 ^ t := by
    rw [← ht, zpow_add₀ two_ne_zero, zpow_natCast]
    field_simp
  have hdown : t = -1074 ∨ (2 ^ 52 : ℕ) ≤ x / 2 ^ k := by
    refine or_iff_not_imp_left.2 fun hne => hx.le_div ?_
    rw [hmantissa]
    omega
  exact ⟨k, t, hshift, hpow, by omega, hx.div_le (by rw [hmantissa]; omega), hdown⟩

/-- The rounded count is on the same side of every whole number as what it stands for. -/
theorem roundWithAccuracy_spec (s : Sign) {m : ℕ} {e : ℤ} {acc : Accuracy} {x : ℚ}
    (hx : (ExtendedMantissa.ofMantissaAndAccuracy m acc).Truncates x)
    (he : e ≤ binary64.targetExponent (totalExponent m e)) :
    ∃ (r : ℕ) (t : ℤ), -1074 ≤ t ∧ (roundWithAccuracy binary64 s m e acc).Canonical ∧
      (roundWithAccuracy binary64 s m e acc).magnitude? = some ((r : ℚ) * 2 ^ t) ∧
      (∀ n : ℕ, x * 2 ^ e ≤ (n : ℚ) * 2 ^ t → r ≤ n) ∧
      (∀ n : ℕ, (n : ℚ) * 2 ^ t ≤ x * 2 ^ e → n ≤ r) ∧
      (t = -1074 ∨ 2 ^ 52 * 2 ^ t ≤ x * 2 ^ e) := by
  obtain ⟨k, t, hshift, hpow, hte, hmax, hdown⟩ := shiftToTargetExponent_spec hx he
  have hw := hx.shiftRight k
  generalize ExtendedMantissa.ofMantissaAndAccuracy m acc >>> k = em at hshift hw
  have hunit : (0 : ℚ) < 2 ^ t := zpow_pos two_pos t
  obtain ⟨hcanonical, hvalue⟩ := roundWithAccuracy_of_shift s hshift hte
    (hw.roundedMantissa_le hmax) (hdown.imp_right hw.le_roundedMantissa)
  refine ⟨em.roundedMantissa, t, hte, hcanonical, hvalue, ?_⟩
  rw [hpow]
  refine ⟨?_, ?_, ?_⟩
  · exact fun n hn => hw.roundedMantissa_le (le_of_mul_le_mul_right hn hunit)
  · exact fun n hn => hw.le_roundedMantissa (le_of_mul_le_mul_right hn hunit)
  · refine hdown.imp_right fun h => ?_
    rw [Nat.cast_pow, Nat.cast_ofNat] at h
    exact mul_le_mul_of_nonneg_right h hunit.le

/-- Where a number that can be represented lies between the units of rounding, it is one of them. -/
theorem Representable.exists_count {c v : ℚ} {t : ℤ} (hc : Representable c)
    (hv : t = -1074 ∨ 2 ^ 52 * 2 ^ t ≤ v) :
    (∃ n : ℕ, c = n * 2 ^ t) ∨ c ≤ 2 ^ 52 * 2 ^ t ∧ 2 ^ 52 * 2 ^ t ≤ v := by
  obtain ⟨m, e, hm, he, rfl⟩ := hc
  rcases le_or_gt t e with hle | hlt
  · obtain ⟨k, rfl⟩ := Int.le.dest hle
    refine .inl ⟨m * 2 ^ k, ?_⟩
    rw [zpow_add₀ two_ne_zero, zpow_natCast]
    push_cast
    ring
  · refine .inr ⟨?_, hv.resolve_left (by omega)⟩
    have hm' : (m : ℚ) ≤ 2 ^ 53 := by exact_mod_cast hm
    calc (m : ℚ) * 2 ^ e ≤ 2 ^ 53 * 2 ^ e := by gcongr
      _ = 2 ^ 52 * 2 ^ (e + 1) := by
        rw [zpow_add₀ two_ne_zero, zpow_one]
        ring
      _ ≤ 2 ^ 52 * 2 ^ t := by
        gcongr
        · norm_num
        · omega

/-- Rounding never passes over a number that can be represented. -/
theorem roundWithAccuracy_between (s : Sign) {m : ℕ} {e : ℤ} {acc : Accuracy} {x lo hi : ℚ}
    (hx : (ExtendedMantissa.ofMantissaAndAccuracy m acc).Truncates x)
    (he : e ≤ binary64.targetExponent (totalExponent m e)) (hlo : Representable lo)
    (hhi : Representable hi) (hl : lo ≤ x * 2 ^ e) (hh : x * 2 ^ e ≤ hi) :
    (roundWithAccuracy binary64 s m e acc).Canonical ∧
      ∃ q, (roundWithAccuracy binary64 s m e acc).magnitude? = some q ∧ lo ≤ q ∧ q ≤ hi := by
  obtain ⟨r, t, _, hcanonical, hr, hle, hge, ht⟩ := roundWithAccuracy_spec s hx he
  have hunit : (0 : ℚ) < 2 ^ t := zpow_pos two_pos t
  refine ⟨hcanonical, _, hr, ?_, ?_⟩
  · rcases hlo.exists_count ht with ⟨n, rfl⟩ | ⟨hc, hv⟩
    · exact mul_le_mul_of_nonneg_right (by exact_mod_cast hge n hl) hunit.le
    · have hn := hge (2 ^ 52) (by exact_mod_cast hv)
      exact hc.trans (mul_le_mul_of_nonneg_right (by exact_mod_cast hn) hunit.le)
  · rcases hhi.exists_count ht with ⟨n, rfl⟩ | ⟨hc, hv⟩
    · exact mul_le_mul_of_nonneg_right (by exact_mod_cast hle n hh) hunit.le
    · have heq : hi = 2 ^ 52 * 2 ^ t := le_antisymm hc (hv.trans hh)
      have hn := hle (2 ^ 52) (by rw [heq] at hh; exact_mod_cast hh)
      rw [heq]
      exact mul_le_mul_of_nonneg_right (by exact_mod_cast hn) hunit.le

end UnpackedFloat

end Float.Model
