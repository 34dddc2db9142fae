import Mathlib
import Backprop.Decimal.Shortest

namespace Backprop

namespace Decimal

variable {tie : Tie} {num den count : ℕ} {place : ℤ} {d : Decimal} {i : Interval}

def value (d : Decimal) : ℚ :=
  d.digits * 10 ^ d.place

theorem lt_ten_pow_digitCount (n : ℕ) : n < 10 ^ digitCount n :=
  (Nat.length_toDigits_le_iff (by norm_num) Nat.length_toDigits_pos).1 le_rfl

theorem ten_pow_digitCount_le {n : ℕ} (hn : 0 < n) : 10 ^ (digitCount n - 1) ≤ n := by
  by_contra hlt
  have hpos : 0 < digitCount n := Nat.length_toDigits_pos
  rcases Nat.eq_zero_or_pos (digitCount n - 1) with hz | hk
  · rw [hz] at hlt
    omega
  · have := (Nat.length_toDigits_le_iff (by norm_num) hk).2 (not_le.1 hlt)
    change digitCount n ≤ _ at this
    omega

theorem leadingPlace_spec (hn : 0 < num) (hd : 0 < den) :
    (10 : ℚ) ^ leadingPlace num den ≤ num / den ∧
      (num / den : ℚ) < 10 ^ (leadingPlace num den + 1) := by
  have hd' : (0 : ℚ) < den := by exact_mod_cast hd
  rw [leadingPlace]
  split
  · next h =>
    have hq : 0 < num / den := Nat.div_pos h hd
    have hc : 0 < digitCount (num / den) := Nat.length_toDigits_pos
    obtain ⟨c, hc⟩ : ∃ c, digitCount (num / den) = c + 1 := ⟨_, (Nat.sub_add_cancel hc).symm⟩
    have hle := ten_pow_digitCount_le hq
    have hlt := lt_ten_pow_digitCount (num / den)
    rw [hc] at hle hlt ⊢
    rw [Nat.add_sub_cancel] at hle
    rw [Nat.cast_add_one, add_sub_cancel_right, zpow_natCast, ← Nat.cast_add_one, zpow_natCast]
    constructor
    · rw [le_div_iff₀ hd']
      exact_mod_cast (Nat.le_div_iff_mul_le hd).1 hle
    · rw [div_lt_iff₀ hd']
      exact_mod_cast (Nat.div_lt_iff_lt_mul hd).1 hlt
  · next h =>
    have hr : 0 < (den - 1) / num := Nat.div_pos (by omega) hn
    have hc : 0 < digitCount ((den - 1) / num) := Nat.length_toDigits_pos
    obtain ⟨c, hc⟩ : ∃ c, digitCount ((den - 1) / num) = c + 1 := ⟨_, (Nat.sub_add_cancel hc).symm⟩
    have hle := ten_pow_digitCount_le hr
    have hlt := lt_ten_pow_digitCount ((den - 1) / num)
    rw [hc] at hle hlt ⊢
    rw [Nat.add_sub_cancel] at hle
    have hle' := (Nat.le_div_iff_mul_le hn).1 hle
    have hlt' := (Nat.div_lt_iff_lt_mul hn).1 hlt
    constructor
    · rw [zpow_neg, zpow_natCast, le_div_iff₀ hd', inv_mul_le_iff₀ (by positivity)]
      exact_mod_cast (by omega : den ≤ 10 ^ (c + 1) * num)
    · rw [Nat.cast_add_one, neg_add_rev, neg_add_cancel_comm, zpow_neg, zpow_natCast,
        div_lt_iff₀ hd', lt_inv_mul_iff₀ (by positivity)]
      exact_mod_cast (by omega : 10 ^ c * num < den)

theorem unit_pos (place : ℤ) : 0 < (unit place).1 ∧ 0 < (unit place).2 :=
  ⟨Nat.pow_pos (by norm_num), Nat.pow_pos (by norm_num)⟩

theorem unit_spec (place : ℤ) : ((unit place).2 : ℚ) = 10 ^ place * (unit place).1 := by
  change ((10 ^ place.toNat : ℕ) : ℚ) = 10 ^ place * ((10 ^ (-place).toNat : ℕ) : ℚ)
  rcases le_total 0 place with h | h
  · obtain ⟨k, rfl⟩ := Int.eq_ofNat_of_zero_le h
    simp
  · obtain ⟨k, hk⟩ := Int.eq_ofNat_of_zero_le (neg_nonneg.2 h)
    obtain rfl : place = -(k : ℤ) := by omega
    simp

theorem Interval.contains_iff : i.contains d ↔
    if i.closed then (i.low : ℚ) ≤ d.value * i.den ∧ d.value * i.den ≤ i.high
    else (i.low : ℚ) < d.value * i.den ∧ d.value * i.den < i.high := by
  obtain ⟨hup, _⟩ := unit_pos d.place
  have hspec := unit_spec d.place
  rw [contains]
  generalize unit d.place = u at hup hspec ⊢
  obtain ⟨up, down⟩ := u
  dsimp only at hup hspec ⊢
  have hup' : (0 : ℚ) < up := by exact_mod_cast hup
  have hcast : ((d.digits * i.den * down : ℕ) : ℚ) = d.value * i.den * up := by
    push_cast
    rw [hspec, value]
    ring
  have hbelow (n : ℕ) : (n : ℚ) ≤ d.value * i.den ↔ n * up ≤ d.digits * i.den * down := by
    rw [← mul_le_mul_iff_left₀ hup', ← hcast]
    norm_cast
  have habove (n : ℕ) : d.value * i.den ≤ n ↔ d.digits * i.den * down ≤ n * up := by
    rw [← mul_le_mul_iff_left₀ hup', ← hcast]
    norm_cast
  split
  · simp only [Bool.and_eq_true, decide_eq_true_eq, hbelow, habove]
  · simp only [Bool.and_eq_true, decide_eq_true_eq, ← not_le, hbelow, habove]

theorem Interval.bounds_of_contains (h : i.contains d) :
    (i.low : ℚ) ≤ d.value * i.den ∧ d.value * i.den ≤ i.high := by
  rw [contains_iff] at h
  split at h
  · exact h
  · exact ⟨h.1.le, h.2.le⟩

theorem roundDiv_eq_or (tie : Tie) (num den : ℕ) :
    roundDiv tie num den = num / den ∨ roundDiv tie num den = num / den + 1 := by
  unfold roundDiv
  dsimp only
  split
  · exact .inl rfl
  · split
    · exact .inr rfl
    · cases tie with
      | up => exact .inr rfl
      | toEven =>
        dsimp only
        split
        · exact .inl rfl
        · exact .inr rfl

def units (num den : ℕ) (place : ℤ) : ℕ :=
  num * (unit place).1 / (den * (unit place).2)

theorem cast_units_le (num : ℕ) (hd : 0 < den) (place : ℤ) :
    (units num den place : ℚ) ≤ num / den / 10 ^ place := by
  obtain ⟨hup, hdown⟩ := unit_pos place
  have hup' : (0 : ℚ) < (unit place).1 := by exact_mod_cast hup
  have hd' : (0 : ℚ) < den := by exact_mod_cast hd
  have hten : (0 : ℚ) < 10 ^ place := by positivity
  refine Nat.cast_div_le.trans_eq ?_
  push_cast
  rw [unit_spec]
  field_simp

theorem le_units {n : ℕ} (hd : 0 < den) (h : (n : ℚ) ≤ num / den / 10 ^ place) :
    n ≤ units num den place := by
  obtain ⟨hup, hdown⟩ := unit_pos place
  have hd' : (0 : ℚ) < den := by exact_mod_cast hd
  have hten : (0 : ℚ) < 10 ^ place := by positivity
  rw [le_div_iff₀ hten, le_div_iff₀ hd'] at h
  refine (Nat.le_div_iff_mul_le (Nat.mul_pos hd hdown)).2 ?_
  have hle : (n : ℚ) * (den * (unit place).2) ≤ num * (unit place).1 := by
    rw [unit_spec]
    calc (n : ℚ) * (den * (10 ^ place * (unit place).1))
        = n * 10 ^ place * den * (unit place).1 := by ring
      _ ≤ num * (unit place).1 := by gcongr
  exact_mod_cast hle

/-- So many places behind the first digit, the units have so many digits more. -/
theorem units_leadingPlace (hn : 0 < num) (hd : 0 < den) (count : ℕ) :
    10 ^ count ≤ units num den (leadingPlace num den - count) ∧
      units num den (leadingPlace num den - count) < 10 ^ (count + 1) := by
  obtain ⟨hlow, hhigh⟩ := leadingPlace_spec hn hd
  obtain ⟨place, hp⟩ : ∃ place, leadingPlace num den - count = place := ⟨_, rfl⟩
  obtain hplace : leadingPlace num den = place + count := by omega
  have hten : (0 : ℚ) < 10 ^ place := by positivity
  rw [hp]
  rw [hplace, zpow_add₀ (by norm_num), zpow_natCast] at hlow
  rw [hplace, add_assoc, zpow_add₀ (by norm_num), ← Nat.cast_add_one, zpow_natCast] at hhigh
  constructor
  · refine le_units hd ?_
    rw [le_div_iff₀ hten, Nat.cast_pow, Nat.cast_ofNat, mul_comm]
    exact hlow
  · have hlt : (units num den place : ℚ) < 10 ^ (count + 1) := by
      refine (cast_units_le num hd place).trans_lt ?_
      rw [div_lt_iff₀ hten, mul_comm]
      exact hhigh
    exact_mod_cast hlt

theorem value_le {r : ℕ} (hd : 0 < den) (hr : r ≤ units num den place + 1) :
    (Decimal.mk r place).value ≤ num / den + 10 ^ place := by
  have hr' : (r : ℚ) ≤ num / den / 10 ^ place + 1 := by
    have hcast : (r : ℚ) ≤ units num den place + 1 := by exact_mod_cast hr
    exact hcast.trans (by gcongr; exact cast_units_le num hd place)
  calc (Decimal.mk r place).value ≤ (num / den / 10 ^ place + 1) * 10 ^ place := by
        rw [value]
        gcongr
    _ = num / den + 10 ^ place := by field_simp

theorem Interval.neighbour?_spec (h : i.neighbour? tie num place = some d) :
    i.contains d ∧ d.digits ≤ units num i.den place + 1 := by
  rw [neighbour?] at h
  rw [units]
  generalize unit place = u at h
  obtain ⟨up, down⟩ := u
  dsimp only at h
  split at h
  · next hbelow habove =>
    cases h
    rcases roundDiv_eq_or tie (num * up) (i.den * down) with hr | hr
    · rw [hr]
      exact ⟨hbelow, Nat.le_succ _⟩
    · rw [hr]
      exact ⟨habove, le_rfl⟩
  · next hbelow _ =>
    cases h
    exact ⟨hbelow, Nat.le_succ _⟩
  · next _ habove =>
    cases h
    exact ⟨habove, le_rfl⟩
  · cases h

theorem value_carried (d : Decimal) : d.carried.value = d.value := by
  rw [carried]
  split
  · next h =>
    have hdigits : (d.digits : ℚ) = 10 * (d.digits / 10 : ℕ) := by
      exact_mod_cast (Nat.mul_div_cancel' (Nat.dvd_of_mod_eq_zero h)).symm
    rw [value, value, hdigits, zpow_add₀ (by norm_num), zpow_one]
    ring
  · rfl

theorem digits_carried_le (d : Decimal) : d.carried.digits ≤ d.digits := by
  rw [carried]
  split
  · exact Nat.div_le_self _ _
  · rfl

theorem digits_pos_iff : 0 < d.digits ↔ 0 < d.value := by
  rw [value, mul_pos_iff_of_pos_right (by positivity), Nat.cast_pos]

def nearestUnits (tie : Tie) (num den : ℕ) (place : ℤ) : ℕ :=
  roundDiv tie (num * (unit place).1) (den * (unit place).2)

theorem nearestUnits_bounds (tie : Tie) (num den : ℕ) (place : ℤ) :
    units num den place ≤ nearestUnits tie num den place ∧
      nearestUnits tie num den place ≤ units num den place + 1 := by
  have hor := roundDiv_eq_or tie (num * (unit place).1) (den * (unit place).2)
  rw [nearestUnits, units]
  omega

theorem roundDiv_near (tie : Tie) (num : ℕ) {den : ℕ} (hd : 0 < den) :
    2 * num ≤ (2 * roundDiv tie num den + 1) * den ∧
      2 * roundDiv tie num den * den ≤ 2 * num + den := by
  have hdiv := Nat.div_add_mod num den
  have hlt := Nat.mod_lt num hd
  unfold roundDiv
  generalize num % den = r at hdiv hlt ⊢
  generalize num / den = q at hdiv ⊢
  have hdown (h : 2 * r ≤ den) : 2 * num ≤ (2 * q + 1) * den ∧ 2 * q * den ≤ 2 * num + den := by
    constructor <;> nlinarith
  have hup (h : den ≤ 2 * r) :
      2 * num ≤ (2 * (q + 1) + 1) * den ∧ 2 * (q + 1) * den ≤ 2 * num + den := by
    constructor <;> nlinarith
  dsimp only
  split
  · next h => exact hdown h.le
  · next hge =>
    split
    · next h => exact hup h.le
    · next hle =>
      cases tie with
      | up => exact hup (not_lt.1 hge)
      | toEven =>
        dsimp only
        split
        · exact hdown (not_lt.1 hle)
        · exact hup (not_lt.1 hge)

/-- A count that is rounded to the nearest is off by half a unit at most. -/
theorem value_nearestUnits (tie : Tie) (num : ℕ) (hd : 0 < den) (place : ℤ) :
    |(Decimal.mk (nearestUnits tie num den place) place).value - num / den| ≤ 10 ^ place / 2 := by
  obtain ⟨hup, hdown⟩ := unit_pos place
  have hspec := unit_spec place
  obtain ⟨hlow, hhigh⟩ := roundDiv_near tie (num * (unit place).1) (Nat.mul_pos hd hdown)
  rw [value, nearestUnits]
  generalize roundDiv tie (num * (unit place).1) (den * (unit place).2) = r at hlow hhigh ⊢
  generalize unit place = u at hup hspec hlow hhigh
  obtain ⟨up, down⟩ := u
  dsimp only at hup hspec hlow hhigh
  have hup : (0 : ℚ) < up := by exact_mod_cast hup
  have hd : (0 : ℚ) < den := by exact_mod_cast hd
  have hlow : 2 * (num * up : ℚ) ≤ (2 * r + 1) * (den * down) := by exact_mod_cast hlow
  have hhigh : 2 * (r : ℚ) * (den * down) ≤ 2 * (num * up) + den * down := by
    exact_mod_cast hhigh
  rw [hspec] at hlow hhigh
  have hlow : 2 * (num : ℚ) ≤ (2 * r + 1) * (den * 10 ^ place) := by
    apply le_of_mul_le_mul_right _ hup
    linarith
  have hhigh : 2 * (r : ℚ) * (den * 10 ^ place) ≤ 2 * num + den * 10 ^ place := by
    apply le_of_mul_le_mul_right _ hup
    linarith
  rw [abs_le, neg_le_sub_iff_le_add, sub_le_iff_le_add]
  constructor
  · rw [div_le_iff₀ hd]
    linarith
  · rw [← sub_le_iff_le_add', le_div_iff₀ hd]
    linarith

/-- Rounding counts the units of a place, and a carry does not change the value. -/
theorem rounded_eq (tie : Tie) (num den count : ℕ) :
    (rounded tie (count + 1) num den).digits ≤
        nearestUnits tie num den (leadingPlace num den - count) ∧
      (rounded tie (count + 1) num den).value = (Decimal.mk
        (nearestUnits tie num den (leadingPlace num den - count))
        (leadingPlace num den - count)).value := by
  have hplace : leadingPlace num den - (count + 1 : ℕ) + 1 = leadingPlace num den - count := by
    omega
  rw [rounded, hplace, nearestUnits]
  generalize leadingPlace num den - count = place
  generalize unit place = u
  obtain ⟨up, down⟩ := u
  dsimp only
  generalize roundDiv tie (num * up) (den * down) = r
  split
  · next hmax =>
    have hcarried : (Decimal.mk (r / 10) (place + 1)) = (Decimal.mk r place).carried := by
      have hz : r % 10 = 0 := by
        rw [hmax]
        change 10 ^ (count + 1) % 10 = 0
        rw [pow_succ, Nat.mul_mod_left]
      exact (if_pos hz).symm
    rw [hcarried]
    exact ⟨digits_carried_le _, value_carried _⟩
  · exact ⟨le_rfl, rfl⟩

/-- As many digits as were asked for, and the last of them is off by less than one. -/
theorem rounded_spec (tie : Tie) (hn : 0 < num) (hd : 0 < den) (count : ℕ) :
    (rounded tie (count + 1) num den).digits ≤ 10 ^ (count + 1) ∧
      0 < (rounded tie (count + 1) num den).value ∧
      (rounded tie (count + 1) num den).value ≤ num / den + num / den / 10 ^ count := by
  obtain ⟨hdigits, hvalue⟩ := rounded_eq tie num den count
  obtain ⟨hlow, hhigh⟩ := units_leadingPlace hn hd count
  rw [hvalue]
  generalize leadingPlace num den - count = place at hdigits hlow hhigh ⊢
  obtain ⟨hge, hle⟩ := nearestUnits_bounds tie num den place
  generalize nearestUnits tie num den place = r at hdigits hge hle ⊢
  have hpos : 0 < r := (Nat.pow_pos (by norm_num)).trans_le (hlow.trans hge)
  refine ⟨by omega, digits_pos_iff.1 hpos, (value_le hd hle).trans ?_⟩
  have hunits : ((10 ^ count : ℕ) : ℚ) ≤ num / den / 10 ^ place :=
    (Nat.cast_le.2 hlow).trans (cast_units_le num hd place)
  gcongr
  rw [le_div_iff₀ (by positivity)] at hunits ⊢
  rw [mul_comm]
  exact_mod_cast hunits

theorem two_pow_toNat_div (e : ℤ) :
    ((2 ^ e.toNat : ℕ) : ℚ) / (2 ^ (-e).toNat : ℕ) = 2 ^ e := by
  obtain ⟨k, rfl | rfl⟩ := e.eq_nat_or_neg
  · simp
  · simp

theorem roundingInterval_low_pos {m : ℕ} (hm : 0 < m) (e : ℤ) : 0 < (roundingInterval m e).low := by
  rw [roundingInterval]
  refine Nat.mul_pos ?_ (Nat.pow_pos (by norm_num))
  split <;> omega

/-- Bounds of the rounding interval count in quarters of the distance to the next double. -/
theorem quarters_div_den (n m : ℕ) (e : ℤ) :
    ((n * Nat.pow 2 (e - 2).toNat : ℕ) : ℚ) / (roundingInterval m e).den = n / 4 * 2 ^ e := by
  have h := two_pow_toNat_div (e - 2)
  rw [neg_sub, zpow_sub₀ two_ne_zero] at h
  change ((n * 2 ^ (e - 2).toNat : ℕ) : ℚ) / (2 ^ (2 - e).toNat : ℕ) = _
  rw [Nat.cast_mul, mul_div_assoc, h]
  ring

theorem roundingInterval_high_le (m : ℕ) (e : ℤ) :
    ((roundingInterval m e).high : ℚ) / (roundingInterval m e).den ≤ (m + 1) * 2 ^ e := by
  change (((4 * m + 2) * Nat.pow 2 (e - 2).toNat : ℕ) : ℚ) / _ ≤ _
  rw [quarters_div_den]
  gcongr
  push_cast
  linarith

/-- A neighbour among the first sixteen places has few digits, and it keeps to the interval. -/
theorem Interval.neighbour?_leadingPlace {k : ℕ} (hn : 0 < num) (hd : 0 < i.den) (hl : 0 < i.low)
    (hk : k < 16) (h : i.neighbour? tie num (leadingPlace num i.den - k) = some d) :
    d.digits ≤ 10 ^ 17 ∧ 0 < d.value ∧ d.value ≤ i.high / i.den := by
  have hd' : (0 : ℚ) < i.den := by exact_mod_cast hd
  have hl' : (0 : ℚ) < i.low := by exact_mod_cast hl
  obtain ⟨hcontains, hdigits⟩ := neighbour?_spec h
  obtain ⟨hlow, hhigh⟩ := bounds_of_contains hcontains
  obtain ⟨_, hlt⟩ := units_leadingPlace hn hd k
  refine ⟨?_, pos_of_mul_pos_left (hl'.trans_le hlow) hd'.le, (le_div_iff₀ hd').2 hhigh⟩
  have hpow : 10 ^ (k + 1) ≤ 10 ^ 16 := Nat.pow_le_pow_right (by norm_num) hk
  omega

/-- The digits of a double are not all 0 and few, and they stay below the next double. -/
theorem shortest_spec (tie : Tie) {m : ℕ} (hm : 0 < m) (hm' : m ≤ 2 ^ 53) (e : ℤ) :
    (shortest tie m e).digits ≤ 10 ^ 17 ∧ 0 < (shortest tie m e).value ∧
      (shortest tie m e).value ≤ (m + 1) * 2 ^ e := by
  have hden : 0 < (roundingInterval m e).den := Nat.pow_pos (by norm_num)
  have hnum : 0 < 4 * m * Nat.pow 2 (e - 2).toNat :=
    Nat.mul_pos (by omega) (Nat.pow_pos (by norm_num))
  have hlow := roundingInterval_low_pos hm e
  have hhigh := roundingInterval_high_le m e
  have hx := quarters_div_den (4 * m) m e
  rw [shortest]
  generalize roundingInterval m e = i at hden hlow hhigh hx ⊢
  generalize 4 * m * Nat.pow 2 (e - 2).toNat = num at hnum hx ⊢
  rw [value_carried]
  generalize hd : Option.getD _ _ = d
  suffices h : d.digits ≤ 10 ^ 17 ∧ 0 < d.value ∧ d.value ≤ (m + 1) * 2 ^ e from
    ⟨(digits_carried_le d).trans h.1, h.2⟩
  cases hfound : (List.range 16).findSome? fun k : ℕ =>
      i.neighbour? tie num (leadingPlace num i.den - k) with
  | some d' =>
    rw [hfound] at hd
    obtain rfl : d' = d := hd
    obtain ⟨k, hk, hk'⟩ := List.exists_of_findSome?_eq_some hfound
    obtain ⟨hdigits, hpos, hvalue⟩ :=
      Interval.neighbour?_leadingPlace hnum hden hlow (List.mem_range.1 hk) hk'
    exact ⟨hdigits, hpos, hvalue.trans hhigh⟩
  | none =>
    rw [hfound] at hd
    obtain rfl : rounded tie 17 num i.den = d := hd
    obtain ⟨hdigits, hpos, hvalue⟩ := rounded_spec tie hnum hden 16
    refine ⟨hdigits, hpos, hvalue.trans ?_⟩
    have hx' : (num : ℚ) / i.den = m * 2 ^ e := by
      rw [hx]
      push_cast
      ring
    have hm'' : (m : ℚ) ≤ 10 ^ 16 := by exact_mod_cast hm'.trans (by norm_num)
    rw [hx', add_one_mul]
    gcongr
    rw [div_le_iff₀ (by positivity), mul_comm]
    gcongr

end Decimal

end Backprop
