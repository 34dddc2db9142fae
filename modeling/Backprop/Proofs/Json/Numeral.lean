import Backprop.Proofs.Decimal.Notation
import Backprop.Proofs.Json.Scale

namespace Backprop.Json

namespace Numeral

variable {t : Numeral} {ds rest : List Char}

def exponentChars : Option (Bool × List Char) → List Char
  | none => []
  | some (negative, ds) => 'e' :: (if negative then '-' else '+') :: ds

def fractionChars : List Char → List Char
  | [] => []
  | ds => '.' :: ds

def chars (t : Numeral) : List Char :=
  (if t.negative then ['-'] else []) ++
    (t.whole ++ (fractionChars t.fraction ++ exponentChars t.exponent))

structure WellFormed (t : Numeral) : Prop where
  whole : isWhole t.whole
  fraction : ∀ c ∈ t.fraction, c.isDigit
  exponent : ∀ p ∈ t.exponent, p.2 ≠ [] ∧ ∀ c ∈ p.2, c.isDigit

theorem isWhole_cons {c : Char} (hd : ∀ x ∈ c :: ds, x.isDigit) (hc : c = '0' → ds = []) :
    isWhole (c :: ds) := by
  rw [isWhole.eq_def]
  split
  · next h => cases h
  · rfl
  · next hne h =>
    cases h
    rw [hc rfl] at hne
    exact absurd rfl hne
  · exact List.all_eq_true.2 hd

theorem exists_cons_of_isWhole (h : isWhole ds) :
    ∃ c cs, ds = c :: cs ∧ ∀ x ∈ c :: cs, x.isDigit := by
  rw [isWhole.eq_def] at h
  split at h
  · cases h
  · exact ⟨'0', [], rfl, by simp⟩
  · cases h
  · next hne _ _ =>
    cases ds with
    | nil => exact absurd rfl hne
    | cons c cs => exact ⟨c, cs, rfl, List.all_eq_true.1 h⟩

theorem exponentPart?_exponentChars {exponent : Option (Bool × List Char)}
    (h : ∀ p ∈ exponent, p.2 ≠ [] ∧ ∀ c ∈ p.2, c.isDigit) :
    exponentPart? (exponentChars exponent) = some exponent := by
  cases exponent with
  | none => rfl
  | some p =>
    obtain ⟨negative, ds⟩ := p
    obtain ⟨hne, hd⟩ := h _ rfl
    have hsign : Decimal.takeSign ((if negative then '-' else '+') :: ds) = (negative, ds) := by
      cases negative <;> rfl
    have hds : ds.all Char.isDigit := List.all_eq_true.2 hd
    rw [exponentChars, exponentPart?, hsign]
    simp [hne, hds]

theorem not_isDigit_head_exponentChars (exponent : Option (Bool × List Char)) :
    ∀ c ∈ (exponentChars exponent).head?, ¬ c.isDigit := by
  cases exponent with
  | none => nofun
  | some p =>
    rintro _ ⟨⟩
    decide

theorem not_isDigit_head_fractionChars (fraction : List Char)
    (exponent : Option (Bool × List Char)) :
    ∀ c ∈ (fractionChars fraction ++ exponentChars exponent).head?, ¬ c.isDigit := by
  cases fraction with
  | nil => exact not_isDigit_head_exponentChars exponent
  | cons c cs =>
    rintro _ ⟨⟩
    decide

theorem ofChars?_chars (h : t.WellFormed) : ofChars? t.chars = some t := by
  obtain ⟨negative, whole, fraction, exponent⟩ := t
  obtain ⟨hw, hf, he⟩ := h
  dsimp only at hw hf he
  obtain ⟨c, cs, rfl, hd⟩ := exists_cons_of_isWhole hw
  have hminus (rest : List Char) :
      c :: cs ++ (fractionChars fraction ++ exponentChars exponent) = '-' :: rest → False := by
    intro h
    rw [(List.cons.inj h).1] at hd
    exact absurd (hd '-' List.mem_cons_self) (by decide)
  obtain ⟨htw, hdw⟩ := Decimal.takeWhile_isDigit hd (not_isDigit_head_fractionChars fraction exponent)
  obtain ⟨htf, hdf⟩ := Decimal.takeWhile_isDigit hf (not_isDigit_head_exponentChars exponent)
  have hexponent := exponentPart?_exponentChars he
  cases negative
  case' true =>
    change ofChars? ('-' :: (c :: cs ++ (fractionChars fraction ++ exponentChars exponent))) = _
    rw [ofChars?, List.span_eq_takeWhile_dropWhile, htw, hdw]
  case' false =>
    change ofChars? (c :: cs ++ (fractionChars fraction ++ exponentChars exponent)) = _
    rw [ofChars?.eq_2 _ hminus, List.span_eq_takeWhile_dropWhile, htw, hdw]
  all_goals
    cases fraction with
    | nil =>
      cases exponent with
      | none => simp [fractionChars, exponentChars, exponentPart?, hw]
      | some p =>
        rw [exponentChars] at hexponent
        simp [fractionChars, exponentChars, hexponent, hw]
    | cons d ds =>
      rw [List.cons_append] at htf hdf
      simp [fractionChars, htf, hdf, hexponent, hw]

theorem le_ofDigitChars (n : ℕ) (ds : List Char) : n ≤ Nat.ofDigitChars 10 ds n := by
  rw [Nat.ofDigitChars_eq_ofDigitChars_zero]
  exact (Nat.le_mul_of_pos_left n (Nat.pow_pos (by norm_num))).trans (Nat.le_add_right _ _)

theorem foldl_addWhole {n : ℕ} {e : ℤ} (h : Nat.ofDigitChars 10 ds n < 2 ^ 64) :
    ds.foldl Gathered.addWhole ⟨n, e, false⟩ = ⟨Nat.ofDigitChars 10 ds n, e, false⟩ := by
  induction ds generalizing n with
  | nil => rfl
  | cons c cs ih =>
    rw [Nat.ofDigitChars_cons] at h ⊢
    have hfits : (Gathered.mk n e false).fits c := by
      have hle := (le_ofDigitChars _ cs).trans_lt h
      simpa [Gathered.fits] using hle
    rw [List.foldl_cons, Gathered.addWhole, if_pos hfits]
    exact ih h

theorem foldl_addFraction {n : ℕ} {e : ℤ} (h : Nat.ofDigitChars 10 ds n < 2 ^ 64) :
    ds.foldl Gathered.addFraction ⟨n, e, false⟩ =
      ⟨Nat.ofDigitChars 10 ds n, e - ds.length, false⟩ := by
  induction ds generalizing n e with
  | nil => simp
  | cons c cs ih =>
    rw [Nat.ofDigitChars_cons] at h ⊢
    have hfits : (Gathered.mk n e false).fits c := by
      have hle := (le_ofDigitChars _ cs).trans_lt h
      simpa [Gathered.fits] using hle
    rw [List.foldl_cons, Gathered.addFraction, if_pos hfits]
    refine (ih h).trans ?_
    rw [List.length_cons, Nat.cast_add_one, sub_sub, add_comm 1 (cs.length : ℤ)]

/-- If all digits fit, none is lost. -/
theorem gather_eq {whole fraction : List Char}
    (h : Nat.ofDigitChars 10 (whole ++ fraction) 0 < 2 ^ 64) :
    gatherFraction (gatherWhole whole) fraction =
      ⟨Nat.ofDigitChars 10 (whole ++ fraction) 0, -fraction.length, false⟩ := by
  rw [Nat.ofDigitChars_append] at h ⊢
  have hwhole := foldl_addWhole (e := 0) ((le_ofDigitChars _ fraction).trans_lt h)
  rw [gatherWhole, hwhole, gatherFraction, foldl_addFraction h, zero_sub]

def exponentValue : Option (Bool × List Char) → ℤ
  | none => 0
  | some (true, ds) => -(Decimal.natOfDigits ds : ℤ)
  | some (false, ds) => Decimal.natOfDigits ds

/-- A numeral that is not plain, and of which all digits fit, is a number if it can be scaled. -/
theorem exists_number? {n : ℕ} (hn : Nat.ofDigitChars 10 (t.whole ++ t.fraction) 0 = n)
    (hfits : n < 2 ^ 64) (hplain : t.fraction ≠ [] ∨ t.exponent.isSome)
    (h : (scale? n (exponentValue t.exponent - t.fraction.length)).isSome) :
    ∃ x, t.number? = some (.real x) := by
  have hfalse : (t.fraction.isEmpty && t.exponent.isNone) = false := by
    rcases hplain with hf | he
    · simp [hf]
    · simp [Option.isNone_eq_false_iff.2 he]
  have hmagnitude : t.magnitude?.isSome := by
    have hg := gather_eq (hn ▸ hfits)
    rw [magnitude?, hg, hn]
    rw [sub_eq_neg_add] at h
    exact h
  obtain ⟨x, hx⟩ := Option.isSome_iff_exists.1 hmagnitude
  refine ⟨if t.negative then -x else x, ?_⟩
  rw [number?]
  simp only [hfalse, Bool.false_and]
  rw [if_neg Bool.false_ne_true, if_neg Bool.false_ne_true, hx]
  rfl

end Numeral

open Numeral

variable {n : ℕ}

namespace Number

variable {d : Decimal} (negative : Bool)

/-- The text of a numeral that stands for a double. -/
def Reads (cs : List Char) : Prop :=
  ∃ (t : Numeral) (x : Float), t.WellFormed ∧ t.chars = cs ∧ t.number? = some (.real x)

theorem reads_whole (hd : 0 < d.digits) (hplace : 0 ≤ d.place)
    (hexp : d.exponent < 16) :
    Reads ((if negative then ['-'] else []) ++ (d.positional ++ ".0".toList)) := by
  obtain ⟨k, hk⟩ := Int.eq_ofNat_of_zero_le hplace
  obtain ⟨c, cs, hpositional, hdigits, hzero, hvalue⟩ := Decimal.positional_of_nonneg hk
  have hvalue' : Nat.ofDigitChars 10 (c :: cs ++ ['0']) 0 = d.digits * 10 ^ (k + 1) := by
    change Nat.ofDigitChars 10 (c :: cs) 0 = d.digits * 10 ^ k at hvalue
    rw [Nat.ofDigitChars_append, hvalue, pow_succ', ← mul_left_comm]
    simp [Nat.ofDigitChars_cons]
  have hfits : d.digits * 10 ^ (k + 1) < 2 ^ 64 := by
    have hlt := Decimal.lt_ten_pow_digitCount d.digits
    rw [Decimal.exponent, hk] at hexp
    calc d.digits * 10 ^ (k + 1) < 10 ^ Decimal.digitCount d.digits * 10 ^ (k + 1) := by gcongr
      _ = 10 ^ (Decimal.digitCount d.digits + (k + 1)) := (pow_add ..).symm
      _ ≤ 10 ^ 17 := Nat.pow_le_pow_right (by norm_num) (by omega)
      _ < 2 ^ 64 := by norm_num
  obtain ⟨x, hx⟩ := exists_number? (t := ⟨negative, c :: cs, ['0'], none⟩) hvalue' hfits
    (.inl (List.cons_ne_nil _ _)) (isSome_scale?_of_neg (by norm_num [exponentValue]))
  refine ⟨_, x, ⟨?_, by simp, by rintro _ ⟨⟩⟩, ?_, hx⟩
  · exact isWhole_cons hdigits fun hc => absurd (hzero hc) hd.ne'
  · rw [hpositional]
    simp [Numeral.chars, fractionChars, exponentChars]

theorem reads_point (hd : d.digits ≤ 10 ^ 17) (hplace : d.place < 0) :
    Reads ((if negative then ['-'] else []) ++ d.positional) := by
  obtain ⟨k, hk⟩ := Int.eq_negSucc_of_lt_zero hplace
  obtain ⟨c, cs, fraction, hpositional, hlength, hwhole, hfraction, hzero, hvalue⟩ :=
    Decimal.positional_of_neg (hk.trans (Int.negSucc_eq k))
  obtain ⟨f, fs, rfl⟩ := List.exists_cons_of_length_eq_add_one hlength
  have hneg : exponentValue none - (f :: fs).length < 0 := by
    rw [exponentValue]
    omega
  obtain ⟨x, hx⟩ := exists_number? (t := ⟨negative, c :: cs, f :: fs, none⟩) hvalue
    (hd.trans_lt (by norm_num)) (.inl (List.cons_ne_nil _ _)) (isSome_scale?_of_neg hneg)
  refine ⟨_, x, ⟨isWhole_cons hwhole hzero, hfraction, by rintro _ ⟨⟩⟩, ?_, hx⟩
  rw [hpositional, Numeral.chars, exponentChars, List.append_nil]
  rfl

theorem reads_exponent (hd : d.digits ≤ 10 ^ 17)
    (hscale : (scale? d.digits d.place).isSome) :
    Reads ((if negative then ['-'] else []) ++ (d.pointed ++
      'e' :: (if d.exponent < 0 then '-' else '+') :: Nat.toDigits 10 d.exponent.natAbs)) := by
  obtain ⟨c, cs, hds, hdigits, _⟩ := Decimal.exists_toDigits_cons d.digits
  have hvalue : Nat.ofDigitChars 10 ([c] ++ cs) 0 = d.digits := by
    rw [List.singleton_append, ← hds, Nat.ofDigitChars_ten_toDigits]
  have hexp : exponentValue (some (decide (d.exponent < 0), Nat.toDigits 10 d.exponent.natAbs)) =
      d.exponent := by
    by_cases h : d.exponent < 0
    · rw [decide_eq_true h, exponentValue, Decimal.natOfDigits_toDigits]
      omega
    · rw [decide_eq_false h, exponentValue, Decimal.natOfDigits_toDigits]
      omega
  have hplace : d.exponent - cs.length = d.place := by
    rw [Decimal.exponent, Decimal.digitCount, hds, List.length_cons]
    omega
  obtain ⟨x, hx⟩ := exists_number? (t := ⟨negative, [c], cs,
    some (decide (d.exponent < 0), Nat.toDigits 10 d.exponent.natAbs)⟩) hvalue
    (hd.trans_lt (by norm_num)) (.inr rfl) (by rwa [hexp, hplace])
  refine ⟨_, x, ⟨?_, ?_, ?_⟩, ?_, hx⟩
  · exact isWhole_cons (List.forall_mem_singleton.2 (hdigits c List.mem_cons_self)) fun _ => rfl
  · exact fun x hx => hdigits x (List.mem_cons_of_mem c hx)
  · rintro _ ⟨⟩
    exact ⟨Nat.toDigits_ne_nil, fun _ => Decimal.isDigit_of_mem_toDigits⟩
  · rw [Decimal.pointed, hds]
    cases cs <;> simp [Numeral.chars, fractionChars, exponentChars]

theorem reads_floatChars {x : Float} (h : x.isFinite) : Reads (floatChars x) := by
  change x.toModel.unpack.isFinite = true at h
  rw [floatChars]
  cases hu : x.toModel.unpack with
  | notANumber | infinity =>
    rw [hu] at h
    cases h
  | zero s =>
    have hzero (negative : Bool) : Reads ((if negative then ['-'] else []) ++ "0.0".toList) := by
      obtain ⟨x, hx⟩ := exists_number? (t := ⟨negative, ['0'], ['0'], none⟩) (n := 0) rfl
        (by norm_num) (.inl (List.cons_ne_nil _ _))
        (isSome_scale?_of_neg (by norm_num [exponentValue]))
      exact ⟨_, x, ⟨rfl, by simp, by rintro _ ⟨⟩⟩, rfl, hx⟩
    cases s with
    | negative => exact hzero true
    | positive => exact hzero false
  | finite s m e hm =>
    obtain ⟨⟨hm', _, _⟩, he⟩ := Float.Model.UnpackedFloat.unpack_finite hu
    obtain ⟨hdigits, hpos, _⟩ := Decimal.shortest_spec .toEven hm hm'.le e
    have hscale := isSome_scale?_shortest hm hm' he
    dsimp only
    generalize Decimal.shortest .toEven m e = d at hdigits hpos hscale ⊢
    rw [← Decimal.digits_pos_iff] at hpos
    have hd (negative : Bool) : Reads ((if negative then ['-'] else []) ++
        if -5 ≤ d.exponent && d.exponent < 16 then
          if 0 ≤ d.place then d.positional ++ ".0".toList else d.positional
        else d.pointed ++ 'e' :: (if d.exponent < 0 then '-' else '+') ::
          Nat.toDigits 10 d.exponent.natAbs) := by
      by_cases hexp : (-5 ≤ d.exponent && d.exponent < 16) = true
      · have hlt : d.exponent < 16 := by simpa using (Bool.and_eq_true_iff.1 hexp).2
        rw [if_pos hexp]
        by_cases hplace : 0 ≤ d.place
        · rw [if_pos hplace]
          exact reads_whole negative hpos hplace hlt
        · rw [if_neg hplace]
          exact reads_point negative hdigits (not_le.1 hplace)
      · rw [if_neg hexp]
        exact reads_exponent negative hdigits hscale
    cases s with
    | negative => exact hd true
    | positive => exact hd false

theorem exists_numeral_whole (hn : n < 2 ^ 64) :
    ∃ t : Numeral, t.WellFormed ∧ t.chars = (whole n).chars ∧ t.number? = some (.whole n) := by
  refine ⟨⟨false, Nat.toDigits 10 n, [], none⟩, ⟨?_, nofun, by rintro _ ⟨⟩⟩, ?_, ?_⟩
  · obtain ⟨c, cs, hds, hdigits, hzero⟩ := Decimal.exists_toDigits_cons n
    rw [hds]
    refine isWhole_cons hdigits fun hc => ?_
    rw [hzero hc] at hds
    exact (List.cons.inj hds).2.symm
  · change [] ++ (Nat.toDigits 10 n ++ ([] ++ [])) = (toString n).toList
    simp
  · rw [number?]
    simp only [Decimal.natOfDigits_toDigits]
    rw [if_pos]
    simpa using hn

end Number

end Backprop.Json
