import Backprop.Proofs.Double.Rounding

namespace Float.Model

open Format

namespace UnpackedFloat

theorem toNat_append {v w : ℕ} (a : BitVec v) (b : BitVec w) :
    (a ++ b).toNat = a.toNat * 2 ^ w + b.toNat := by
  rw [BitVec.toNat_append, ← Nat.shiftLeft_add_eq_or_of_lt b.isLt, Nat.shiftLeft_eq]

theorem toNat_implicit_append (f : BitVec 52) : (1#1 ++ f).toNat = 2 ^ 52 + f.toNat := by
  rw [toNat_append]
  rfl

theorem unpack_finite {b : BitVec 64} {s : Sign} {m : ℕ} {e : ℤ} {hm : 0 < m}
    (h : unpack binary64 b = .finite s m e hm) :
    (finite s m e hm).Canonical ∧ e ≤ 971 := by
  rw [unpack] at h
  have hf : (@unpackMantissa binary64 b).toNat < 2 ^ 52 :=
    (@unpackMantissa binary64 b).isLt
  have hx : (@unpackExponent binary64 b).toNat < 2 ^ 11 :=
    (@unpackExponent binary64 b).isLt
  generalize @unpackExponent binary64 b = x at h hx
  dsimp only at h
  split at h
  · split at h <;> cases h
  · next hinf =>
    have hne : x.toNat ≠ 2047 := fun hx => hinf (BitVec.eq_of_toNat_eq hx)
    split at h
    · next hz =>
      split at h
      · cases h
      · cases h
        rw [hz]
        refine ⟨⟨by omega, ?_, .inr ?_⟩, ?_⟩ <;> decide
    · next hz =>
      have hpos : x.toNat ≠ 0 := fun hx => hz (BitVec.eq_of_toNat_eq hx)
      cases h
      simp only [Canonical, toNat_implicit_append]
      norm_num [exponentBias]
      omega

theorem canonical_unpack (b : BitVec 64) : (unpack binary64 b).Canonical := by
  cases h : unpack binary64 b with
  | finite s m e hm => exact (unpack_finite h).1
  | zero | infinity | notANumber => trivial

theorem ofNat_ne {w x : ℕ} {b : BitVec w} (hx : x < 2 ^ w) (h : b.toNat ≠ x) :
    BitVec.ofNat w x ≠ b := by
  rintro rfl
  rw [BitVec.toNat_ofNat, Nat.mod_eq_of_lt hx] at h
  exact h rfl

theorem unpack_pack_finite {s : Sign} {m : ℕ} {e : ℤ} {hm : 0 < m}
    (hc : (finite s m e hm).Canonical) (he : e ≤ 971) :
    unpack binary64 (pack binary64 (.finite s m e hm)) = .finite s m e hm := by
  obtain ⟨hlt, hle, hn⟩ := hc
  obtain ⟨x, hx⟩ : ∃ x : ℕ, (x : ℤ) = e + 1075 := ⟨(e + 1075).toNat, by omega⟩
  have hbias : (e + (binary64.exponentBias : ℤ) + (52 : ℕ)).toNat = x := by
    norm_num [exponentBias]
    omega
  have hx' : (BitVec.ofNat 11 x).toNat = x := by
    rw [BitVec.toNat_ofNat, Nat.mod_eq_of_lt (by omega)]
  rw [pack, hbias, if_neg (by norm_num; omega)]
  by_cases hnormal : 2 ^ 52 ≤ m
  · have hlog : m.log2 = 52 := (Nat.log2_eq_iff hm.ne').2 ⟨hnormal, hlt⟩
    have hf : (1#1 ++ BitVec.ofNat 52 m).toNat = m := by
      rw [toNat_implicit_append, BitVec.toNat_ofNat]
      omega
    have hinf : BitVec.ofNat 11 x ≠ -1#11 := by
      apply ofNat_ne (by omega)
      change 2047 ≠ x
      omega
    have hzero : BitVec.ofNat 11 x ≠ 0#11 := by
      apply ofNat_ne (by omega)
      change 0 ≠ x
      omega
    rw [if_pos (by rw [hlog]; rfl), unpack]
    simp only [unpackMantissa_packComponents, unpackExponent_packComponents,
      unpackSign_packComponents, Sign.ofBitVec_toBitVec, if_neg hinf, if_neg hzero, hf, hx']
    congr 1
    norm_num [exponentBias]
    omega
  · have hlog : m.log2 < 52 := (Nat.log2_lt hm.ne').2 (by omega)
    obtain rfl : e = -1074 := hn.resolve_left hnormal
    have hf : (BitVec.ofNat 52 m).toNat = m := by
      rw [BitVec.toNat_ofNat, Nat.mod_eq_of_lt (by omega)]
    have hzero : BitVec.ofNat 52 m ≠ 0#52 := ofNat_ne (by omega) hm.ne
    have hinf : (0#11 : BitVec 11) ≠ -1#11 := by decide
    rw [if_neg (by simp only [mantissaBits]; omega), unpack]
    simp only [unpackMantissa_packComponents, unpackExponent_packComponents,
      unpackSign_packComponents, Sign.ofBitVec_toBitVec, if_neg hinf, if_true, dif_neg hzero, hf]
    congr 1

/-- The bits of a double are its three parts. -/
theorem packComponents_unpack (b : BitVec 64) :
    packComponents binary64 (Sign.ofBitVec (@unpackSign binary64 b)) (@unpackExponent binary64 b)
      (@unpackMantissa binary64 b) = b := by
  have hsign : (Sign.ofBitVec (@unpackSign binary64 b)).toBitVec = @unpackSign binary64 b := by
    generalize @unpackSign binary64 b = s
    revert s
    decide
  have hs : (@unpackSign binary64 b).toNat = b.toNat / 2 ^ 63 % 2 := by
    simp [unpackSign, Nat.shiftRight_eq_div_pow]
  have hx : (@unpackExponent binary64 b).toNat = b.toNat / 2 ^ 52 % 2 ^ 11 := by
    simp [unpackExponent, Nat.shiftRight_eq_div_pow]
  have hm : (@unpackMantissa binary64 b).toNat = b.toNat % 2 ^ 52 := by
    simp [unpackMantissa]
  apply BitVec.eq_of_toNat_eq
  have hb := b.isLt
  rw [packComponents, hsign, toNat_append, toNat_append, hs, hx, hm]
  change (b.toNat / 2 ^ 63 % 2 * 2 ^ 11 + b.toNat / 2 ^ 52 % 2 ^ 11) * 2 ^ 52 + b.toNat % 2 ^ 52 =
    b.toNat
  omega

theorem unpack_finite_inv {b : BitVec 64} {s : Sign} {m : ℕ} {e : ℤ} {hm : 0 < m}
    (h : unpack binary64 b = .finite s m e hm) :
    Sign.ofBitVec (@unpackSign binary64 b) = s ∧ (@unpackMantissa binary64 b).toNat = m % 2 ^ 52 ∧
      (@unpackExponent binary64 b).toNat = if 2 ^ 52 ≤ m then (e + 1075).toNat else 0 := by
  rw [unpack] at h
  have hf : (@unpackMantissa binary64 b).toNat < 2 ^ 52 := (@unpackMantissa binary64 b).isLt
  generalize @unpackExponent binary64 b = x at h
  dsimp only at h
  split at h
  · split at h <;> cases h
  · split at h
    · next hz =>
      split at h
      · cases h
      · cases h
        refine ⟨rfl, (Nat.mod_eq_of_lt hf).symm, ?_⟩
        rw [if_neg (by omega), hz]
        rfl
    · cases h
      rw [toNat_implicit_append]
      refine ⟨rfl, by omega, ?_⟩
      rw [if_pos (by omega)]
      norm_num [exponentBias]

theorem unpack_zero_inv {b : BitVec 64} {s : Sign} (h : unpack binary64 b = .zero s) :
    Sign.ofBitVec (@unpackSign binary64 b) = s ∧ @unpackMantissa binary64 b = 0 ∧
      @unpackExponent binary64 b = 0 := by
  rw [unpack] at h
  generalize @unpackExponent binary64 b = x at h ⊢
  dsimp only at h
  split at h
  · split at h <;> cases h
  · split at h
    · next hz =>
      split at h
      · next hm =>
        cases h
        exact ⟨rfl, hm, hz⟩
      · cases h
    · cases h

/-- A finite double is determined by what it is unpacked to. -/
theorem eq_of_unpack_eq {b b' : BitVec 64} (hf : (unpack binary64 b).isFinite)
    (h : unpack binary64 b = unpack binary64 b') : b = b' := by
  rw [← packComponents_unpack b, ← packComponents_unpack b']
  cases hu : unpack binary64 b with
  | notANumber | infinity =>
    rw [hu] at hf
    cases hf
  | zero s =>
    obtain ⟨hs, hm, hx⟩ := unpack_zero_inv hu
    obtain ⟨hs', hm', hx'⟩ := unpack_zero_inv (h.symm.trans hu)
    rw [hs, hm, hx, hs', hm', hx']
  | finite s m e hpos =>
    obtain ⟨hs, hm, hx⟩ := unpack_finite_inv hu
    obtain ⟨hs', hm', hx'⟩ := unpack_finite_inv (h.symm.trans hu)
    rw [hs, hs', BitVec.eq_of_toNat_eq (hm.trans hm'.symm),
      BitVec.eq_of_toNat_eq (hx.trans hx'.symm)]

end UnpackedFloat

end Float.Model

theorem Float.eq_of_unpack_eq {x y : Float} (hf : x.isFinite)
    (h : x.toModel.unpack = y.toModel.unpack) : x = y := by
  have hbits := Float.Model.UnpackedFloat.eq_of_unpack_eq hf h
  obtain ⟨⟨bits, _⟩⟩ := x
  obtain ⟨⟨bits', _⟩⟩ := y
  obtain rfl : bits = bits' := UInt64.toBitVec_inj.1 hbits
  rfl
