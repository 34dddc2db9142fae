import Mathlib
import Backprop.Decimal.Notation
import Backprop.Decimal.Reader

namespace Backprop.Decimal

variable {d : Decimal} {ds rest : List Char} {c : Char} {n k : ℕ}

theorem isDigit_of_mem_toDigits (hc : c ∈ Nat.toDigits 10 n) : c.isDigit :=
  Nat.isDigit_of_mem_toDigits (by norm_num) (by norm_num) hc

theorem isDigit_of_mem_replicate (hc : c ∈ List.replicate n '0') : c.isDigit := by
  rw [List.eq_of_mem_replicate hc]
  rfl

theorem takeWhile_isDigit (hds : ∀ c ∈ ds, c.isDigit) (hrest : ∀ c ∈ rest.head?, ¬ c.isDigit) :
    (ds ++ rest).takeWhile Char.isDigit = ds ∧ (ds ++ rest).dropWhile Char.isDigit = rest := by
  rw [List.takeWhile_append_of_pos hds, List.dropWhile_append_of_pos hds]
  cases rest with
  | nil => simp
  | cons c cs =>
    have hc := hrest c rfl
    rw [List.takeWhile_cons_of_neg hc, List.dropWhile_cons_of_neg hc, List.append_nil]
    exact ⟨rfl, rfl⟩

theorem natOfDigits_toDigits (n : ℕ) : natOfDigits (Nat.toDigits 10 n) = n :=
  Nat.ofDigitChars_ten_toDigits

theorem exists_toDigits_cons (n : ℕ) : ∃ c cs, Nat.toDigits 10 n = c :: cs ∧
    (∀ x ∈ c :: cs, x.isDigit) ∧ (c = '0' → n = 0) := by
  suffices h : ∃ c cs, Nat.toDigits 10 n = c :: cs ∧ (c = '0' → n = 0) by
    obtain ⟨c, cs, hcs, hzero⟩ := h
    exact ⟨c, cs, hcs, fun x hx => isDigit_of_mem_toDigits (hcs ▸ hx), hzero⟩
  induction n using Nat.strong_induction_on with
  | _ n ih =>
    rw [Nat.toDigits_eq_if (by norm_num)]
    split
    · exact ⟨_, [], rfl, Nat.digitChar_eq_zero.1⟩
    · next h =>
      obtain ⟨c, cs, hcs, hzero⟩ := ih (n / 10) (by omega)
      exact ⟨c, cs ++ [(n % 10).digitChar], by rw [hcs]; rfl, fun hc => by
        have := hzero hc
        omega⟩

theorem positional_of_nonneg (hk : d.place = k) : ∃ c cs, d.positional = c :: cs ∧
    (∀ x ∈ c :: cs, x.isDigit) ∧ (c = '0' → d.digits = 0) ∧
      natOfDigits (c :: cs) = d.digits * 10 ^ k := by
  obtain ⟨c, cs, hds, hdigits, hzero⟩ := exists_toDigits_cons d.digits
  refine ⟨c, cs ++ List.replicate k '0', ?_, ?_, hzero, ?_⟩
  · rw [positional, hk, if_pos (Int.natCast_nonneg k), Int.toNat_natCast, hds, List.cons_append]
  · intro x hx
    rw [← List.cons_append] at hx
    exact (List.mem_append.1 hx).elim (hdigits x) isDigit_of_mem_replicate
  · change Nat.ofDigitChars 10 (c :: cs ++ List.replicate k '0') 0 = _
    rw [← hds, Nat.ofDigitChars_append, Nat.ofDigitChars_ten_toDigits,
      Nat.ofDigitChars_replicate_zero, mul_comm]

/-- With zeros in front as far as the point needs them, no zero stands in front of another digit. -/
theorem eq_nil_of_take_padded {behind : ℕ} {cs padded : List Char} (hb : 0 < behind)
    (hp : List.replicate (behind + 1 - (Nat.toDigits 10 n).length) '0' ++ Nat.toDigits 10 n =
      padded)
    (hcs : padded.take (padded.length - behind) = '0' :: cs) : cs = [] := by
  have hlength : padded.length =
      behind + 1 - (Nat.toDigits 10 n).length + (Nat.toDigits 10 n).length := by
    rw [← hp, List.length_append, List.length_replicate]
  have hbefore := congrArg List.length hcs
  rw [List.length_take, List.length_cons] at hbefore
  by_cases hle : (Nat.toDigits 10 n).length ≤ behind
  · apply List.eq_nil_of_length_eq_zero
    omega
  · obtain ⟨c, ds, hds, _, hzero⟩ := exists_toDigits_cons n
    obtain ⟨j, hj⟩ : ∃ j, padded.length - behind = j + 1 := ⟨padded.length - behind - 1, by omega⟩
    rw [Nat.sub_eq_zero_of_le (by omega), List.replicate_zero, List.nil_append, hds] at hp
    rw [hj, ← hp, List.take_succ_cons] at hcs
    rw [hzero (List.cons.inj hcs).1] at hle
    exact absurd hb hle

/-- With a point there are as many digits behind it as the place asks for, and before it a single
zero or what the number starts with. -/
theorem positional_of_neg (hk : d.place = -(k + 1 : ℕ)) : ∃ c cs fraction,
    d.positional = c :: cs ++ '.' :: fraction ∧ fraction.length = k + 1 ∧
      (∀ x ∈ c :: cs, x.isDigit) ∧ (∀ x ∈ fraction, x.isDigit) ∧ (c = '0' → cs = []) ∧
        natOfDigits (c :: cs ++ fraction) = d.digits := by
  have hbehind : (-d.place).toNat = k + 1 := by omega
  obtain ⟨padded, hp⟩ : ∃ padded,
      List.replicate (k + 1 + 1 - (Nat.toDigits 10 d.digits).length) '0' ++
        Nat.toDigits 10 d.digits = padded := ⟨_, rfl⟩
  have hlength : k + 1 < padded.length := by
    rw [← hp, List.length_append, List.length_replicate]
    omega
  have hdigits : ∀ x ∈ padded, x.isDigit := by
    intro x hx
    rw [← hp] at hx
    exact (List.mem_append.1 hx).elim isDigit_of_mem_replicate isDigit_of_mem_toDigits
  have hvalue : Nat.ofDigitChars 10 padded 0 = d.digits := by
    rw [← hp, Nat.ofDigitChars_append, Nat.ofDigitChars_replicate_zero, mul_zero,
      Nat.ofDigitChars_ten_toDigits]
  obtain ⟨c, cs, hcs⟩ : ∃ c cs, padded.take (padded.length - (k + 1)) = c :: cs := by
    apply List.exists_cons_of_ne_nil
    rw [← List.length_pos_iff, List.length_take]
    omega
  refine ⟨c, cs, padded.drop (padded.length - (k + 1)), ?_, ?_, ?_, ?_, ?_, ?_⟩
  · rw [positional, if_neg (by omega), hbehind]
    dsimp only
    rw [hp, hcs]
  · rw [List.length_drop]
    omega
  · intro x hx
    rw [← hcs] at hx
    exact hdigits x (List.mem_of_mem_take hx)
  · intro x hx
    exact hdigits x (List.mem_of_mem_drop hx)
  · rintro rfl
    exact eq_nil_of_take_padded (Nat.succ_pos k) hp hcs
  · rw [← hcs, List.take_append_drop]
    exact hvalue

/-- What the text of a number is made of, and where it starts. -/
theorem exists_positional (d : Decimal) : ∃ c cs, d.positional = c :: cs ∧ c.isDigit ∧
    ∀ x ∈ c :: cs, x.isDigit ∨ x = '.' := by
  rcases lt_or_ge d.place 0 with hneg | hnonneg
  · obtain ⟨k, hk⟩ := Int.eq_negSucc_of_lt_zero hneg
    obtain ⟨c, cs, fraction, hpositional, _, hwhole, hfraction, _⟩ :=
      positional_of_neg (hk.trans (Int.negSucc_eq k))
    refine ⟨c, cs ++ '.' :: fraction, hpositional, hwhole c List.mem_cons_self, ?_⟩
    intro x hx
    rw [← List.cons_append] at hx
    rcases List.mem_append.1 hx with hx | hx
    · exact .inl (hwhole x hx)
    · rcases List.mem_cons.1 hx with rfl | hx
      · exact .inr rfl
      · exact .inl (hfraction x hx)
  · obtain ⟨k, hk⟩ := Int.eq_ofNat_of_zero_le hnonneg
    obtain ⟨c, cs, hpositional, hwhole, _⟩ := positional_of_nonneg hk
    exact ⟨c, cs, hpositional, hwhole c List.mem_cons_self, fun x hx => .inl (hwhole x hx)⟩

end Backprop.Decimal
