import Backprop.Proofs.Double.Arithmetic

namespace Float.Model.UnpackedFloat

open Format

def ExtendedMantissa.halves (em : ExtendedMantissa) : ℕ :=
  2 * em.mantissa + em.roundBit.toNat

/-- What a mantissa and its residual bits tell of a number: how many halves are in it, and whether
that is all of it. -/
structure ExtendedMantissa.Represents (em : ExtendedMantissa) (x : ℚ) : Prop where
  le : em.halves ≤ 2 * x
  lt : 2 * x < em.halves + 1
  sticky : em.stickyBit ↔ em.halves < 2 * x

namespace ExtendedMantissa.Represents

variable {em : ExtendedMantissa} {x : ℚ} {n : ℕ}

theorem of_exact (m : ℕ) : (ofMantissaAndAccuracy m .exact).Represents m := by
  have hhalves : (ofMantissaAndAccuracy m .exact).halves = 2 * m := rfl
  constructor <;> rw [hhalves] <;> push_cast
  · exact le_rfl
  · exact lt_add_one _
  · simp [ofMantissaAndAccuracy]

theorem of_fraction (num : ℕ) {den : ℕ} (hd : 0 < den) :
    (ofMantissaAndAccuracy (num / den) (accuracyOfFraction (num % den) den)).Represents
      (num / den) := by
  have hq : (0 : ℚ) < den := by exact_mod_cast hd
  have hx : (num / den : ℚ) = (num / den : ℕ) + (num % den : ℕ) / den := by
    have h := Nat.div_add_mod num den
    field_simp
    exact_mod_cast h.symm
  have hlt := Nat.mod_lt num hd
  rw [hx, accuracyOfFraction]
  generalize num % den = r at hlt
  generalize num / den = q
  have hone : (r : ℚ) / den < 1 := (div_lt_one hq).2 (by exact_mod_cast hlt)
  split
  · next hr =>
    rw [hr, Nat.cast_zero, zero_div, add_zero]
    exact of_exact q
  · next hr =>
    have hpos : (0 : ℚ) < r / den := div_pos (by exact_mod_cast Nat.pos_of_ne_zero hr) hq
    cases hc : compare (2 * r) den with
    | lt =>
      have hhalf : 2 * (r : ℚ) < den := by exact_mod_cast Nat.compare_eq_lt.1 hc
      have hhalf : 2 * ((r : ℚ) / den) < 1 := by rwa [← mul_div_assoc, div_lt_one hq]
      constructor <;> simp [halves, ofMantissaAndAccuracy] <;> linarith
    | eq =>
      have hhalf : 2 * (r : ℚ) = den := by exact_mod_cast Nat.compare_eq_eq.1 hc
      have hhalf : 2 * ((r : ℚ) / den) = 1 := by rw [← mul_div_assoc, hhalf, div_self hq.ne']
      constructor <;> simp [halves, ofMantissaAndAccuracy] <;> linarith
    | gt =>
      have hhalf : (den : ℚ) < 2 * r := by exact_mod_cast Nat.compare_eq_gt.1 hc
      have hhalf : 1 < 2 * ((r : ℚ) / den) := by rwa [← mul_div_assoc, one_lt_div hq]
      constructor <;> simp [halves, ofMantissaAndAccuracy] <;> linarith

theorem halves_shiftRightOne (em : ExtendedMantissa) : em.shiftRightOne.halves = em.mantissa := by
  have hdiv := Nat.div_add_mod em.mantissa 2
  rw [halves, ExtendedMantissa.shiftRightOne]
  rcases Nat.mod_two_eq_zero_or_one em.mantissa with hm | hm
  · simp only [hm, bne_self_eq_false, Bool.toNat_false]
    omega
  · simp only [hm]
    change 2 * (em.mantissa / 2) + 1 = em.mantissa
    omega

theorem shiftRightOne (h : em.Represents x) : em.shiftRightOne.Represents (x / 2) := by
  obtain ⟨m, r, s⟩ := em
  obtain ⟨hle, hlt, hsticky⟩ := h
  have hhalves := halves_shiftRightOne ⟨m, r, s⟩
  have hx : 2 * (x / 2) = x := by ring
  cases r with
  | false =>
    simp only [halves, Bool.toNat_false, add_zero] at hle hlt hsticky
    push_cast at hle hlt hsticky
    refine ⟨?_, ?_, ?_⟩ <;> rw [hhalves, hx]
    · linarith
    · linarith
    · simp only [ExtendedMantissa.shiftRightOne, Bool.false_or, hsticky]
      exact mul_lt_mul_iff_right₀ two_pos
  | true =>
    simp only [halves, Bool.toNat_true] at hle hlt hsticky
    push_cast at hle hlt hsticky
    refine ⟨?_, ?_, ?_⟩ <;> rw [hhalves, hx]
    · linarith
    · linarith
    · simp only [ExtendedMantissa.shiftRightOne, Bool.true_or, true_iff]
      linarith

theorem shiftRight (h : em.Represents x) (k : ℕ) : (em >>> k).Represents (x / 2 ^ k) := by
  induction k with
  | zero =>
    rw [pow_zero, div_one]
    exact h
  | succ k ih =>
    have := ih.shiftRightOne
    rwa [div_div, ← pow_succ] at this

theorem truncates (h : em.Represents x) : em.Truncates x := by
  obtain ⟨m, r, s⟩ := em
  obtain ⟨hle, hlt, hsticky⟩ := h
  cases r with
  | false =>
    simp only [halves, Bool.toNat_false, add_zero] at hle hlt hsticky
    push_cast at hle hlt hsticky
    refine ⟨by linarith, by linarith, fun hr => ?_⟩
    have hs := hsticky.1 (hr.resolve_left Bool.false_ne_true)
    linarith
  | true =>
    simp only [halves, Bool.toNat_true] at hle hlt
    push_cast at hle hlt
    exact ⟨by linarith, by linarith, fun _ => by linarith⟩

theorem roundedMantissa_eq (h : em.Represents x) (hlow : 2 * (n : ℚ) ≤ 2 * x + 1)
    (hhigh : 2 * x ≤ 2 * n + 1)
    (hodd : n % 2 = 1 → 2 * (n : ℚ) < 2 * x + 1 ∧ 2 * x < 2 * n + 1) : em.roundedMantissa = n := by
  obtain ⟨m, r, s⟩ := em
  obtain ⟨hle, hlt, hsticky⟩ := h
  cases r with
  | false =>
    simp only [halves, Bool.toNat_false, add_zero] at hle hlt hsticky
    have hup : 2 * (n : ℚ) < (2 * m : ℕ) + 1 + 1 := hlow.trans_lt (add_lt_add_left hlt 1)
    have hup : 2 * n < 2 * m + 1 + 1 := by exact_mod_cast hup
    have hdown : 2 * m ≤ 2 * n + 1 := by exact_mod_cast hle.trans hhigh
    have hm : m = n := by omega
    cases s <;> exact hm
  | true =>
    simp only [halves, Bool.toNat_true] at hle hlt hsticky
    have hdown : 2 * m + 1 ≤ 2 * n + 1 := by exact_mod_cast hle.trans hhigh
    cases s with
    | false =>
      have hx : 2 * x = (2 * m + 1 : ℕ) := le_antisymm (not_lt.1 (by simpa using hsticky)) hle
      rw [hx] at hlow hodd
      have hup : 2 * n ≤ 2 * m + 1 + 1 := by exact_mod_cast hlow
      have hodd : n % 2 = 1 → 2 * n < 2 * m + 1 + 1 ∧ 2 * m + 1 < 2 * n + 1 := by
        exact_mod_cast hodd
      change m + m % 2 = n
      omega
    | true =>
      have hx : ((2 * m + 1 : ℕ) : ℚ) < 2 * x := hsticky.1 rfl
      have hup : 2 * (n : ℚ) < (2 * m + 1 : ℕ) + 1 + 1 := hlow.trans_lt (add_lt_add_left hlt 1)
      have hup : 2 * n < 2 * m + 1 + 1 + 1 := by exact_mod_cast hup
      have hdown : 2 * m + 1 < 2 * n + 1 := by exact_mod_cast hx.trans_le hhigh
      change m + 1 = n
      omega

end ExtendedMantissa.Represents

theorem roundWithAccuracy_of_lt {s : Sign} {m n : ℕ} {e f : ℤ} {acc : Accuracy}
    {em : ExtendedMantissa} (hshift : shiftToTargetExponent binary64 m e acc = (em, f))
    (hf : -1074 ≤ f) (hr : em.roundedMantissa = n) (hn : 0 < n) (hlt : n < 2 ^ 53) :
    roundWithAccuracy binary64 s m e acc = .finite s n f hn := by
  rw [roundWithAccuracy, hshift]
  dsimp only
  rw [hr, shiftToTargetExponent_of_lt hlt hf]
  exact dif_neg hn.ne'

theorem roundWithAccuracy_of_carry {s : Sign} {m : ℕ} {e t : ℤ} {acc : Accuracy}
    {em : ExtendedMantissa} (hshift : shiftToTargetExponent binary64 m e acc = (em, t))
    (ht : -1074 ≤ t) (hr : em.roundedMantissa = 2 ^ 53) :
    roundWithAccuracy binary64 s m e acc = .finite s (2 ^ 52) (t + 1) (Nat.two_pow_pos 52) := by
  rw [roundWithAccuracy, hshift]
  dsimp only
  rw [hr, shiftToTargetExponent_carry ht]
  exact dif_neg (Nat.two_pow_pos 52).ne'

/-- Half of the way from a double to the next one below, in its own units. Below a power of two the
doubles lie twice as close, unless there are only subnormal ones. -/
def halfBelow (n : ℕ) (f : ℤ) : ℚ :=
  if n = 2 ^ 52 ∧ -1074 < f then 1 / 4 else 1 / 2

/-- No double is nearer to the number, and an even one wins a tie. -/
structure Nearest (n : ℕ) (f : ℤ) (v : ℚ) : Prop where
  low : (n - halfBelow n f) * 2 ^ f ≤ v
  high : v ≤ (n + 1 / 2) * 2 ^ f
  odd : n % 2 = 1 → (n - 1 / 2) * 2 ^ f < v ∧ v < (n + 1 / 2) * 2 ^ f

theorem halfBelow_le (n : ℕ) (f : ℤ) : halfBelow n f ≤ 1 / 2 := by
  rw [halfBelow]
  split
  · norm_num
  · exact le_rfl

theorem nearest_self (n : ℕ) (f : ℤ) : Nearest n f (n * 2 ^ f) := by
  have hunit : (0 : ℚ) < 2 ^ f := zpow_pos two_pos f
  have hhalf : 0 < halfBelow n f := by
    rw [halfBelow]
    split <;> norm_num
  refine ⟨?_, ?_, fun _ => ⟨?_, ?_⟩⟩
  · exact mul_le_mul_of_nonneg_right (by linarith) hunit.le
  · exact mul_le_mul_of_nonneg_right (by linarith) hunit.le
  · exact mul_lt_mul_of_pos_right (by linarith) hunit
  · exact mul_lt_mul_of_pos_right (by linarith) hunit

section

variable {s : Sign} {m n : ℕ} {e f t : ℤ} {acc : Accuracy} {x w v : ℚ}

theorem Nearest.roundedMantissa_eq {em : ExtendedMantissa} (h : Nearest n f (w * 2 ^ f))
    (hw : em.Represents w) : em.roundedMantissa = n := by
  have hunit : (0 : ℚ) < 2 ^ f := zpow_pos two_pos f
  have hlow := le_of_mul_le_mul_right h.low hunit
  have hhigh := le_of_mul_le_mul_right h.high hunit
  have hhalf := halfBelow_le n f
  apply hw.roundedMantissa_eq
  · linarith
  · linarith
  · intro hn
    obtain ⟨hlt, hgt⟩ := h.odd hn
    have hlt := lt_of_mul_lt_mul_right hlt hunit.le
    have hgt := lt_of_mul_lt_mul_right hgt hunit.le
    exact ⟨by linarith, by linarith⟩

theorem Nearest.le_exponent (h : Nearest n f (w * 2 ^ t)) (hn : n < 2 ^ 53) (hf : -1074 ≤ f)
    (hw : t = -1074 ∨ (2 ^ 52 : ℕ) ≤ w) : t ≤ f := by
  by_contra hlt
  have hunit : (0 : ℚ) < 2 ^ f := zpow_pos two_pos f
  have hpow : 2 * (2 : ℚ) ^ f ≤ 2 ^ t := by
    rw [← zpow_one_add₀ two_ne_zero]
    exact zpow_le_zpow_right₀ one_le_two (by omega)
  have hw := hw.resolve_left (by omega)
  have hn : (n : ℚ) + 1 ≤ 2 ^ 53 := by exact_mod_cast hn
  have hsmall : w * 2 ^ t < 2 ^ 53 * 2 ^ f :=
    h.high.trans_lt (mul_lt_mul_of_pos_right (by linarith) hunit)
  have hlarge : 2 ^ 53 * (2 : ℚ) ^ f ≤ w * 2 ^ t := by
    push_cast at hw
    calc 2 ^ 53 * (2 : ℚ) ^ f = 2 ^ 52 * (2 * 2 ^ f) := by ring
      _ ≤ w * 2 ^ t := mul_le_mul hw hpow (by positivity) (by linarith)
  exact not_lt.2 hlarge hsmall

/-- In smaller units than its own a number has too many bits, unless it is just below a power of
two. -/
theorem Nearest.carry (h : Nearest n f (w * 2 ^ t)) (hn : 2 ^ 52 ≤ n) (ht : -1074 ≤ t)
    (hlt : t < f) (hw : w ≤ (2 ^ 53 : ℕ)) : n = 2 ^ 52 ∧ f = t + 1 ∧ 2 ^ 53 ≤ w + 1 / 2 := by
  have hunit : (0 : ℚ) < 2 ^ t := zpow_pos two_pos t
  have hlow := h.low
  push_cast at hw
  obtain ⟨j, hj⟩ : ∃ j : ℕ, f = t + 1 + j := Int.le.dest hlt |>.imp fun _ hj => hj.symm
  have hpow : (2 : ℚ) ^ f = 2 * 2 ^ j * 2 ^ t := by
    rw [hj, zpow_add₀ two_ne_zero, zpow_add₀ two_ne_zero, zpow_one, zpow_natCast]
    ring
  rw [hpow, ← mul_assoc] at hlow
  have hlow := le_of_mul_le_mul_right hlow hunit
  have hj1 : (1 : ℚ) ≤ 2 ^ j := one_le_pow₀ one_le_two
  have hhalf := halfBelow_le n f
  -- Only below a power of two is the next double nearer than half of a unit.
  have hne : n = 2 ^ 52 := by
    by_contra hne
    have hn : (2 ^ 52 : ℚ) + 1 ≤ n := by exact_mod_cast lt_of_le_of_ne hn (Ne.symm hne)
    nlinarith
  have hquarter : halfBelow n f = 1 / 4 := if_pos ⟨hne, by omega⟩
  rw [hquarter, hne] at hlow
  push_cast at hlow
  have hj0 : j = 0 := by
    by_contra hj0
    have hj2 : (2 : ℚ) ≤ 2 ^ j := le_self_pow₀ one_le_two hj0
    nlinarith
  rw [hj0, pow_zero] at hlow
  exact ⟨hne, by omega, by linarith⟩

/-- What a double is nearest to is rounded to that double. -/
theorem roundWithAccuracy_nearest {hn : 0 < n}
    (hx : (ExtendedMantissa.ofMantissaAndAccuracy m acc).Represents x)
    (he : e ≤ binary64.targetExponent (totalExponent m e))
    (hc : (UnpackedFloat.finite s n f hn).Canonical) (h : Nearest n f (x * 2 ^ e)) :
    roundWithAccuracy binary64 s m e acc = .finite s n f hn := by
  obtain ⟨k, t, hshift, hpow, ht, hmax, hmin⟩ := shiftToTargetExponent_spec hx.truncates he
  obtain ⟨hlt, hf, hnormal⟩ := hc
  have hw := hx.shiftRight k
  rw [hpow] at h
  rcases (h.le_exponent hlt hf hmin).lt_or_eq with htf | rfl
  · obtain ⟨rfl, rfl, hhalf⟩ := h.carry (hnormal.resolve_right (by omega)) ht htf hmax
    apply roundWithAccuracy_of_carry hshift ht
    apply hw.roundedMantissa_eq
    · push_cast
      linarith
    · push_cast at hmax ⊢
      linarith
    · intro hodd
      exact absurd hodd (by norm_num)
  · exact roundWithAccuracy_of_lt hshift ht (h.roundedMantissa_eq hw) hn hlt

theorem exists_nearest_nat (hw : 0 ≤ w) : ∃ n : ℕ, (n - 1 / 2 : ℚ) ≤ w ∧ w ≤ n + 1 / 2 ∧
    (n % 2 = 1 → (n - 1 / 2 : ℚ) < w ∧ w < n + 1 / 2) := by
  obtain ⟨r, hr⟩ : ∃ r, ⌊w⌋₊ = r := ⟨_, rfl⟩
  have hle := Nat.floor_le hw
  have hlt := Nat.lt_floor_add_one w
  rw [hr] at hle hlt
  rcases lt_trichotomy w (r + 1 / 2) with hdown | hmid | hup
  · exact ⟨r, by linarith, hdown.le, fun _ => ⟨by linarith, hdown⟩⟩
  · rcases Nat.mod_two_eq_zero_or_one r with heven | hodd
    · exact ⟨r, by linarith, hmid.le, fun h => by omega⟩
    · exact ⟨r + 1, by push_cast; linarith, by push_cast; linarith, fun h => by omega⟩
  · refine ⟨r + 1, ?_, ?_, fun _ => ⟨?_, ?_⟩⟩ <;> push_cast <;> linarith

/-- In units of the last bit of its binade a number takes all bits of a mantissa. -/
theorem exists_binade (hv : (2 : ℚ) ^ (-1022 : ℤ) ≤ v) : ∃ (w : ℚ) (f : ℤ), v = w * 2 ^ f ∧
    -1074 ≤ f ∧ (2 ^ 52 : ℕ) ≤ w ∧ w < (2 ^ 53 : ℕ) := by
  have hpos : 0 < v := (zpow_pos two_pos _).trans_le hv
  obtain ⟨t, hlow, hhigh⟩ := exists_mem_Ico_zpow hpos (one_lt_two (α := ℚ))
  have ht : -1022 < t + 1 := (zpow_lt_zpow_iff_right₀ one_lt_two).1 (hv.trans_lt hhigh)
  obtain ⟨f, rfl⟩ : ∃ f, t = 52 + f := ⟨t - 52, by ring⟩
  have hunit : (0 : ℚ) < 2 ^ f := zpow_pos two_pos f
  rw [zpow_add₀ two_ne_zero] at hlow
  rw [add_right_comm, zpow_add₀ two_ne_zero] at hhigh
  refine ⟨v / 2 ^ f, f, by field_simp, by omega, ?_, ?_⟩
  · rw [le_div_iff₀ hunit]
    exact_mod_cast hlow
  · rw [div_lt_iff₀ hunit]
    exact_mod_cast hhigh

/-- Above the subnormal ones, some double is nearest to every number if the exponent is not bounded
above. -/
theorem exists_nearest (s : Sign) (hv : (2 : ℚ) ^ (-1022 : ℤ) ≤ v) :
    ∃ (n : ℕ) (f : ℤ) (hn : 0 < n), (finite s n f hn).Canonical ∧ 2 ^ 52 ≤ n ∧ Nearest n f v := by
  obtain ⟨w, f, rfl, hf, hlow, hhigh⟩ := exists_binade hv
  have hunit : (0 : ℚ) < 2 ^ f := zpow_pos two_pos f
  obtain ⟨n, hdown, hup, hodd⟩ := exists_nearest_nat ((Nat.cast_nonneg _).trans hlow)
  have hge : 2 ^ 52 ≤ n := by
    have hlt : ((2 ^ 52 : ℕ) : ℚ) < n + 1 := by linarith
    exact Nat.lt_succ_iff.1 (by exact_mod_cast hlt)
  have hle : n ≤ 2 ^ 53 := by
    have hlt : (n : ℚ) < (2 ^ 53 : ℕ) + 1 := by linarith
    exact Nat.lt_succ_iff.1 (by exact_mod_cast hlt)
  rcases hle.lt_or_eq with hlt | rfl
  · refine ⟨n, f, by omega, ⟨hlt, hf, .inl hge⟩, hge, ?_, ?_, fun h => ?_⟩
    · refine mul_le_mul_of_nonneg_right ?_ hunit.le
      rw [halfBelow]
      split
      · next h =>
        rw [h.1]
        exact (sub_le_self _ (by norm_num)).trans hlow
      · exact hdown
    · exact mul_le_mul_of_nonneg_right hup hunit.le
    · obtain ⟨hdown, hup⟩ := hodd h
      exact ⟨mul_lt_mul_of_pos_right hdown hunit, mul_lt_mul_of_pos_right hup hunit⟩
  · -- The power of two above has the larger unit, and below it the smaller one.
    refine ⟨2 ^ 52, f + 1, by norm_num, ⟨by norm_num, by omega, .inl le_rfl⟩, le_rfl, ?_, ?_,
      fun h => absurd h (by norm_num)⟩
    · rw [halfBelow, if_pos ⟨rfl, by omega⟩, zpow_add_one₀ two_ne_zero]
      push_cast at hdown ⊢
      linarith [mul_le_mul_of_nonneg_right hdown hunit.le]
    · rw [zpow_add_one₀ two_ne_zero]
      push_cast at hhigh ⊢
      linarith [mul_lt_mul_of_pos_right hhigh hunit]

end

end Float.Model.UnpackedFloat
