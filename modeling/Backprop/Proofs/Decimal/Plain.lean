import Backprop.Proofs.Decimal.Notation
import Backprop.Proofs.Decimal.Shortest
import Backprop.Proofs.Double.Scientific

namespace Backprop.Decimal

open Float.Model.UnpackedFloat

section

variable {m : ℕ} {e : ℤ} {d : Decimal} {tie : Tie} {v : ℚ}

theorem roundingInterval_low (hm : 0 < m) (e : ℤ) :
    ((roundingInterval m e).low : ℚ) / (roundingInterval m e).den =
      (m - halfBelow m e) * 2 ^ e := by
  change (((4 * m - if m = Nat.pow 2 52 && -1074 < e then 1 else 2) * Nat.pow 2 (e - 2).toNat : ℕ)
    : ℚ) / _ = _
  rw [quarters_div_den, halfBelow]
  by_cases h : m = 2 ^ 52 ∧ -1074 < e
  · rw [if_pos h, if_pos (by simpa using h), Nat.cast_sub (by omega)]
    push_cast
    ring
  · rw [if_neg h, if_neg (by simpa using h), Nat.cast_sub (by omega)]
    push_cast
    ring

theorem roundingInterval_high (m : ℕ) (e : ℤ) :
    ((roundingInterval m e).high : ℚ) / (roundingInterval m e).den = (m + 1 / 2) * 2 ^ e := by
  change (((4 * m + 2) * Nat.pow 2 (e - 2).toNat : ℕ) : ℚ) / _ = _
  rw [quarters_div_den]
  push_cast
  ring

/-- The rounding interval holds what is nearest to its double. -/
theorem nearest_of_contains (hm : 0 < m) (h : (roundingInterval m e).contains d) :
    Nearest m e d.value := by
  have hden : (0 : ℚ) < (roundingInterval m e).den := by
    exact_mod_cast Nat.pow_pos (n := (2 - e).toNat) two_pos
  have hclosed : (roundingInterval m e).closed = decide (m % 2 = 0) := rfl
  obtain ⟨hlow, hhigh⟩ := Interval.bounds_of_contains h
  rw [← div_le_iff₀ hden, roundingInterval_low hm] at hlow
  rw [← le_div_iff₀ hden, roundingInterval_high] at hhigh
  refine ⟨hlow, hhigh, fun hodd => ?_⟩
  rw [Interval.contains_iff, hclosed, if_neg (by simp [hodd]), ← div_lt_iff₀ hden,
    ← lt_div_iff₀ hden, roundingInterval_low hm, roundingInterval_high] at h
  rwa [halfBelow, if_neg (by omega)] at h

theorem nearest_of_near (h : |v - m * 2 ^ e| < halfBelow m e * 2 ^ e) : Nearest m e v := by
  obtain ⟨hlow, hhigh⟩ := abs_lt.1 h
  have hunit : (0 : ℚ) < 2 ^ e := zpow_pos two_pos e
  have hhalf := mul_le_mul_of_nonneg_right (halfBelow_le m e) hunit.le
  refine ⟨?_, ?_, fun _ => ⟨?_, ?_⟩⟩ <;> linarith

/-- Seventeen digits are near enough. -/
theorem nearest_rounded (tie : Tie) {num den : ℕ} (hn : 0 < num) (hd : 0 < den)
    (hx : (num : ℚ) / den = m * 2 ^ e) (hlt : m < 2 ^ 53) :
    Nearest m e (rounded tie 17 num den).value := by
  obtain ⟨_, hvalue⟩ := rounded_eq tie num den 16
  obtain ⟨hplace, _⟩ := leadingPlace_spec hn hd
  have hnear := value_nearestUnits tie num hd (leadingPlace num den - 16)
  have hunit : (0 : ℚ) < 2 ^ e := zpow_pos two_pos e
  have hten : (10 : ℚ) ^ (leadingPlace num den - 16) / 2 =
      10 ^ leadingPlace num den / (2 * 10 ^ 16) := by
    rw [zpow_sub₀ (by norm_num)]
    norm_num
    ring
  rw [hx] at hplace hnear
  apply nearest_of_near
  rw [hvalue]
  apply hnear.trans_lt
  rw [hten, div_lt_iff₀ (by norm_num)]
  apply hplace.trans_lt
  rw [mul_right_comm]
  apply mul_lt_mul_of_pos_right _ hunit
  rw [halfBelow]
  split
  · next h =>
    rw [h.1]
    norm_num
  · have hm : (m : ℚ) < 2 ^ 53 := by exact_mod_cast hlt
    apply hm.trans
    norm_num

theorem nearest_shortest (tie : Tie) (hm : 0 < m) (hlt : m < 2 ^ 53) (e : ℤ) :
    Nearest m e (shortest tie m e).value := by
  have hden : 0 < (roundingInterval m e).den := Nat.pow_pos (by norm_num)
  have hnum : 0 < 4 * m * Nat.pow 2 (e - 2).toNat :=
    Nat.mul_pos (by omega) (Nat.pow_pos (by norm_num))
  have hx := quarters_div_den (4 * m) m e
  have hfour : ((4 * m : ℕ) : ℚ) / 4 = m := by
    push_cast
    ring
  rw [hfour] at hx
  rw [shortest, value_carried]
  cases hfound : (List.range 16).findSome? fun k : ℕ =>
      (roundingInterval m e).neighbour? tie (4 * m * Nat.pow 2 (e - 2).toNat)
        (leadingPlace (4 * m * Nat.pow 2 (e - 2).toNat) (roundingInterval m e).den - k) with
  | some d =>
    obtain ⟨k, _, hk⟩ := List.exists_of_findSome?_eq_some hfound
    obtain ⟨hcontains, _⟩ := Interval.neighbour?_spec hk
    exact nearest_of_contains hm hcontains
  | none => exact nearest_rounded tie hnum hden hx hlt

end

section

variable {c x : Char} {cs fraction : List Char}

theorem toLower_of_isDigit (h : c.isDigit) : c.toLower = c := by
  have hle : c.val ≤ '9'.val := by
    rw [Char.isDigit, Bool.and_eq_true, decide_eq_true_eq, decide_eq_true_eq] at h
    exact h.2
  rw [Char.toLower, dif_neg]
  intro hup
  exact absurd (UInt32.le_trans hup.1 hle) (by decide)

theorem map_toLower_ne (hx : ¬x.isDigit) (hc : c.isDigit) (cs xs : List Char) :
    (c :: cs).map Char.toLower ≠ x :: xs := by
  rw [List.map_cons, toLower_of_isDigit hc]
  intro he
  obtain ⟨rfl, _⟩ := List.cons.inj he
  exact hx hc

theorem takeSign_of_isDigit (h : c.isDigit) (cs : List Char) :
    takeSign (c :: cs) = (false, c :: cs) := by
  rw [takeSign.eq_def]
  split
  · next he =>
    cases he
    cases h
  · next he =>
    cases he
    cases h
  · rfl

theorem magnitude?_of_isDigit (h : c.isDigit) (cs : List Char) : magnitude? (c :: cs) =
    let (whole, rest) := (c :: cs).span Char.isDigit
    let (fraction, rest) := match rest with
      | '.' :: rest => rest.span Char.isDigit
      | _ => ([], rest)
    if whole.isEmpty && fraction.isEmpty then none
    else (exponent? rest).map fun e =>
      ofScientific (natOfDigits (whole ++ fraction)) (e - fraction.length) := by
  have hinf : (c :: cs).map Char.toLower ≠ "inf".toList :=
    map_toLower_ne (x := 'i') (by decide) h cs "nf".toList
  have hinfinity : (c :: cs).map Char.toLower ≠ "infinity".toList :=
    map_toLower_ne (x := 'i') (by decide) h cs "nfinity".toList
  have hnan : (c :: cs).map Char.toLower ≠ "nan".toList :=
    map_toLower_ne (x := 'n') (by decide) h cs "an".toList
  rw [magnitude?]
  simp only [hinf, hinfinity, hnan, decide_false, Bool.or_false, if_false]
  rfl

theorem magnitude?_whole (h : ∀ x ∈ c :: cs, x.isDigit) :
    magnitude? (c :: cs) = some (ofScientific (natOfDigits (c :: cs)) 0) := by
  have htake : (c :: cs).takeWhile Char.isDigit = c :: cs := List.takeWhile_eq_self_iff.2 h
  have hdrop : (c :: cs).dropWhile Char.isDigit = [] := List.dropWhile_eq_nil_iff.2 h
  rw [magnitude?_of_isDigit (h c List.mem_cons_self), List.span_eq_takeWhile_dropWhile, htake,
    hdrop]
  simp [exponent?]

theorem magnitude?_point (h : ∀ x ∈ c :: cs, x.isDigit) (hf : ∀ x ∈ fraction, x.isDigit) :
    magnitude? (c :: cs ++ '.' :: fraction) =
      some (ofScientific (natOfDigits (c :: cs ++ fraction)) (-fraction.length)) := by
  have hpoint : ∀ x ∈ ('.' :: fraction).head?, ¬x.isDigit := by
    rintro _ ⟨⟩
    decide
  obtain ⟨htake, hdrop⟩ := takeWhile_isDigit h hpoint
  have htake' : fraction.takeWhile Char.isDigit = fraction := List.takeWhile_eq_self_iff.2 hf
  have hdrop' : fraction.dropWhile Char.isDigit = [] := List.dropWhile_eq_nil_iff.2 hf
  rw [List.cons_append] at htake hdrop ⊢
  rw [magnitude?_of_isDigit (h c List.mem_cons_self), List.span_eq_takeWhile_dropWhile, htake,
    hdrop]
  simp [htake', hdrop', exponent?]

end

section

variable {d : Decimal} {n : ℕ} {f : ℤ} {hn : 0 < n}

theorem ofScientific_neg (m k : ℕ) :
    ofScientific m (-(k + 1 : ℕ)) = Float.ofScientific m true (k + 1) := by
  rw [ofScientific, decide_eq_true (by omega), Int.natAbs_neg, Int.natAbs_natCast]

/-- The digits of a decimal are read as the double that it is nearest to. -/
theorem exists_magnitude?_positional (hd : 0 < d.digits)
    (hc : (finite .positive n f hn).Canonical) (hf : f ≤ 971) (h : Nearest n f d.value) :
    ∃ y, magnitude? d.positional = some y ∧ y.toModel.unpack = .finite .positive n f hn := by
  rw [value] at h
  rcases lt_or_ge d.place 0 with hneg | hnonneg
  · obtain ⟨k, hk⟩ := Int.eq_negSucc_of_lt_zero hneg
    obtain ⟨c, cs, fraction, hpositional, hlength, hwhole, hfraction, _, hvalue⟩ :=
      positional_of_neg (hk.trans (Int.negSucc_eq k))
    rw [hk, zpow_negSucc, ← div_eq_mul_inv] at h
    rw [hpositional]
    refine ⟨_, magnitude?_point hwhole hfraction, ?_⟩
    rw [hvalue, hlength, ofScientific_neg]
    exact Float.ofScientific_nearest_neg hd (Nat.succ_pos k) hc hf h
  · obtain ⟨k, hk⟩ := Int.eq_ofNat_of_zero_le hnonneg
    obtain ⟨c, cs, hpositional, hwhole, _, hvalue⟩ := positional_of_nonneg hk
    rw [hk, zpow_natCast] at h
    rw [hpositional]
    refine ⟨_, magnitude?_whole hwhole, ?_⟩
    rw [hvalue]
    apply Float.ofScientific_nearest (k := 0) (by positivity) hc hf
    rw [pow_zero, mul_one]
    exact_mod_cast h

theorem read?_positional (d : Decimal) : read? d.positional = magnitude? d.positional := by
  obtain ⟨c, cs, hpositional, hc, _⟩ := exists_positional d
  rw [hpositional, read?, takeSign_of_isDigit hc]
  simp

theorem read?_minus (cs : List Char) : read? ('-' :: cs) = (magnitude? cs).map (-·) :=
  rfl

/-- A finite double survives being written and read, down to the sign of zero. -/
theorem read?_plainChars {x : Float} (h : x.isFinite) : read? (plainChars x) = some x := by
  cases hu : x.toModel.unpack with
  | notANumber | infinity =>
    change x.toModel.unpack.isFinite = true at h
    rw [hu] at h
    cases h
  | zero s =>
    rw [plainChars, hu]
    cases s with
    | positive =>
      have hzero : (0.0 : Float).toModel.unpack = .zero .positive := by rfl
      rw [Float.eq_of_unpack_eq h (hu.trans hzero.symm)]
      rfl
    | negative =>
      have hzero : (-0.0 : Float).toModel.unpack = .zero .negative := by rfl
      rw [Float.eq_of_unpack_eq h (hu.trans hzero.symm)]
      rfl
  | finite s m e hm =>
    obtain ⟨hcanonical, he⟩ := unpack_finite hu
    have hlt := hcanonical.1
    obtain ⟨_, hpos, _⟩ := shortest_spec .up hm hlt.le e
    obtain ⟨y, hy, huy⟩ := exists_magnitude?_positional (digits_pos_iff.2 hpos) hcanonical he
      (nearest_shortest .up hm hlt e)
    rw [plainChars, hu]
    cases s with
    | positive =>
      change read? (shortest .up m e).positional = some x
      rw [read?_positional, hy, Float.eq_of_unpack_eq h (hu.trans huy.symm)]
    | negative =>
      have hneg : x.toModel.unpack = (-y).toModel.unpack := by
        rw [Float.unpack_neg, huy, hu]
        rfl
      change read? ('-' :: (shortest .up m e).positional) = some x
      rw [read?_minus, hy, Float.eq_of_unpack_eq h hneg]
      rfl

end

end Backprop.Decimal
