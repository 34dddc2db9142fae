import Backprop.Proofs.Double.Product

namespace Float.Model.UnpackedFloat

variable {u v : UnpackedFloat} {f : Format}

theorem compare_eq_none_iff : UnpackedFloat.compare u v = none ↔ u.isNaN ∨ v.isNaN := by
  cases u with
  | notANumber => exact iff_of_true rfl (.inl rfl)
  | infinity s => cases v <;> cases s <;> simp [UnpackedFloat.compare, isNaN]
  | zero s =>
    cases v with
    | notANumber | zero => simp [UnpackedFloat.compare, isNaN]
    | infinity s' | finite s' => cases s' <;> simp [UnpackedFloat.compare, isNaN]
  | finite s =>
    cases v with
    | notANumber => cases s <;> simp [UnpackedFloat.compare, isNaN]
    | infinity s' | finite s' => cases s <;> cases s' <;> simp [UnpackedFloat.compare, isNaN]
    | zero => cases s <;> simp [UnpackedFloat.compare, isNaN]

theorem compare_swap (u v : UnpackedFloat) :
    UnpackedFloat.compare v u = (UnpackedFloat.compare u v).map .swap := by
  have hpair (e e' : ℤ) (m m' : ℕ) : (compare e' e).then (compare m' m) =
      ((compare e e').then (compare m m')).swap := by
    rw [Ordering.swap_then, Int.compare_swap, Nat.compare_swap]
  cases u with
  | notANumber => cases v <;> rfl
  | infinity s =>
    cases v with
    | infinity s' => cases s <;> cases s' <;> rfl
    | _ => cases s <;> rfl
  | zero s =>
    cases v with
    | infinity s' | finite s' => cases s' <;> rfl
    | _ => rfl
  | finite s =>
    cases v with
    | notANumber => cases s <;> rfl
    | infinity s' => cases s' <;> rfl
    | zero => cases s <;> rfl
    | finite s' m' e' =>
      cases s <;> cases s'
      · exact congrArg (fun o => some (Ordering.swap o)) (hpair ..)
      · rfl
      · rfl
      · exact congrArg some (hpair ..)

theorem le_iff_not_lt (hu : ¬u.isNaN) (hv : ¬v.isNaN) : u.le v ↔ ¬v.lt u := by
  cases ho : UnpackedFloat.compare u v with
  | none => exact absurd (compare_eq_none_iff.1 ho) (not_or.2 ⟨hu, hv⟩)
  | some o =>
    rw [UnpackedFloat.le, UnpackedFloat.lt, compare_swap u v, ho]
    cases o <;> decide

theorem not_le_of_isNaN (h : u.isNaN ∨ v.isNaN) : ¬u.le v := by
  rw [UnpackedFloat.le, compare_eq_none_iff.2 h]
  exact Bool.false_ne_true

theorem not_lt_of_isNaN (h : u.isNaN ∨ v.isNaN) : ¬u.lt v := by
  rw [UnpackedFloat.lt, compare_eq_none_iff.2 h]
  exact Bool.false_ne_true

theorem sub_eq_add_neg (f : Format) (u v : UnpackedFloat) : sub f u v = add f u v.neg := by
  have happly (s : Sign) (n : ℕ) : (-s).apply n = -s.apply n := by
    cases s
    · exact (neg_neg _).symm
    · rfl
  cases u with
  | notANumber => rfl
  | infinity | zero => cases v <;> rfl
  | finite s m e hm =>
    cases v with
    | notANumber | infinity | zero => rfl
    | finite s' m' e' hm' =>
      simp only [sub, neg, add, happly]
      rfl

section Sub

variable (h : ¬(u.isFinite ∧ v.isFinite))

include h

theorem not_isFinite_sub : ¬(sub f u v).isFinite := by
  cases u with
  | notANumber => exact Bool.false_ne_true
  | infinity s =>
    cases v with
    | infinity s' => cases s <;> cases s' <;> exact Bool.false_ne_true
    | _ => exact Bool.false_ne_true
  | zero | finite =>
    cases v with
    | notANumber | infinity => exact Bool.false_ne_true
    | zero | finite => exact absurd ⟨rfl, rfl⟩ h

theorem isNaN_sub_iff : (sub f u v).isNaN ↔
    u.isNaN ∨ v.isNaN ∨ u.isInf ∧ UnpackedFloat.compare u v = some .eq := by
  cases u with
  | notANumber => exact iff_of_true rfl (.inl rfl)
  | infinity s =>
    cases v with
    | notANumber => exact iff_of_true rfl (.inr (.inl rfl))
    | infinity s' =>
      cases s <;> cases s'
      · exact iff_of_true rfl (.inr (.inr ⟨rfl, rfl⟩))
      · exact iff_of_false Bool.false_ne_true (by decide)
      · exact iff_of_false Bool.false_ne_true (by decide)
      · exact iff_of_true rfl (.inr (.inr ⟨rfl, rfl⟩))
    | zero | finite => cases s <;> simp [sub, isNaN, UnpackedFloat.compare]
  | zero | finite =>
    cases v with
    | notANumber | infinity => simp [sub, isNaN, isInf]
    | zero | finite => exact absurd ⟨rfl, rfl⟩ h

end Sub

theorem exists_sub_eq_zero (h : UnpackedFloat.compare u v = some .eq) (hu : u.isFinite) :
    ∃ s, sub f u v = .zero s := by
  have hself (s : Sign) (m : ℕ) (e : ℤ) (hm hm' : 0 < m) :
      sub f (.finite s m e hm) (.finite s m e hm') = .zero .positive := by
    simp [sub, normalize]
  have hsame {e e' : ℤ} {m m' : ℕ} (h : (compare e e').then (compare m m') = .eq) :
      e = e' ∧ m = m' := by
    rw [Ordering.then_eq_eq] at h
    exact ⟨Int.compare_eq_eq.1 h.1, Nat.compare_eq_eq.1 h.2⟩
  cases u with
  | notANumber | infinity => cases hu
  | zero s =>
    cases v with
    | zero s' => cases s <;> cases s' <;> exact ⟨_, rfl⟩
    | notANumber => cases h
    | infinity s' | finite s' => cases s' <;> cases h
  | finite s m e hm =>
    cases v with
    | notANumber => cases h
    | zero => cases s <;> cases h
    | infinity s' => cases s <;> cases s' <;> cases h
    | finite s' m' e' hm' =>
      cases s <;> cases s'
      · obtain ⟨rfl, rfl⟩ := hsame (Ordering.swap_eq_eq.1 (Option.some.inj h))
        exact ⟨_, hself ..⟩
      · cases h
      · cases h
      · obtain ⟨rfl, rfl⟩ := hsame (Option.some.inj h)
        exact ⟨_, hself ..⟩

end Float.Model.UnpackedFloat

namespace Float

open Model Model.UnpackedFloat

variable {x y : Float}

theorem le_iff : x ≤ y ↔ x.toModel.unpack.le y.toModel.unpack :=
  decide_eq_true_iff

theorem lt_iff : x < y ↔ x.toModel.unpack.lt y.toModel.unpack :=
  decide_eq_true_iff

theorem beq_iff : x == y ↔ UnpackedFloat.compare x.toModel.unpack y.toModel.unpack = some .eq := by
  change (UnpackedFloat.compare x.toModel.unpack y.toModel.unpack == some .eq) = true ↔ _
  exact beq_iff_eq

theorem le_iff_not_lt (hx : ¬x.isNaN) (hy : ¬y.isNaN) : x ≤ y ↔ ¬y < x := by
  rw [le_iff, lt_iff]
  exact UnpackedFloat.le_iff_not_lt hx hy

theorem not_le_of_isNaN (h : x.isNaN ∨ y.isNaN) : ¬x ≤ y := by
  rw [le_iff]
  exact UnpackedFloat.not_le_of_isNaN h

theorem not_lt_of_isNaN (h : x.isNaN ∨ y.isNaN) : ¬x < y := by
  rw [lt_iff]
  exact UnpackedFloat.not_lt_of_isNaN h

theorem not_beq_of_isNaN (h : x.isNaN ∨ y.isNaN) : ¬x == y := by
  rw [beq_iff, compare_eq_none_iff.2 h]
  exact nofun

theorem not_isNaN_of_isFinite (h : x.isFinite) : ¬x.isNaN := by
  intro hx
  exact not_isFinite_iff.2 (.inl hx) h

theorem not_isNaN_of_isInf (h : x.isInf) : ¬x.isNaN := by
  change x.toModel.unpack.isInf = true at h
  change ¬x.toModel.unpack.isNaN = true
  cases hu : x.toModel.unpack with
  | infinity => exact Bool.false_ne_true
  | _ =>
    rw [hu] at h
    cases h

theorem not_isNaN_pack {u : UnpackedFloat} {q : ℚ} (hu : u.Canonical)
    (hq : u.magnitude? = some q) : ¬(ofModel (.pack u)).isNaN := by
  rcases isFinite_or_isInf_pack hu hq with h | h
  · exact not_isNaN_of_isFinite h
  · exact not_isNaN_of_isInf h

theorem not_isNaN_add (hx : x.isFinite) (hy : y.isFinite) : ¬(x + y).isNaN := by
  obtain ⟨p, hp⟩ := isFinite_iff.1 hx
  obtain ⟨q, hq⟩ := isFinite_iff.1 hy
  obtain ⟨_, hp₁, _⟩ := magnitude_bounds hp
  obtain ⟨_, hq₁, _⟩ := magnitude_bounds hq
  have hsum : p + q ≤ 2 ^ 1025 := by
    rw [pow_succ, mul_two]
    exact add_le_add hp₁.le hq₁.le
  obtain ⟨hc, r, hr, _⟩ :=
    add_between (canonical_unpack _) (canonical_unpack _) hp hq (representable_two_pow 1025) hsum
  exact not_isNaN_pack hc hr

/-- A difference of finite doubles may be too large, but it is a number. -/
theorem not_isNaN_sub (hx : x.isFinite) (hy : y.isFinite) : ¬(x - y).isNaN := by
  have hneg : x - y = x + -y := by
    change ofModel (.pack (UnpackedFloat.sub .binary64 x.toModel.unpack y.toModel.unpack)) =
      ofModel (.pack (UnpackedFloat.add .binary64 x.toModel.unpack (-y).toModel.unpack))
    rw [unpack_neg, UnpackedFloat.sub_eq_add_neg]
  rw [hneg]
  exact not_isNaN_add hx (isFinite_neg.2 hy)

theorem unpack_abs (x : Float) : x.abs.toModel.unpack = x.toModel.unpack.abs := by
  change (Model.pack x.toModel.unpack.abs).unpack = _
  cases hu : x.toModel.unpack with
  | notANumber => exact unpack_packedNaN
  | infinity s => exact unpack_packedInfinity .positive
  | zero s => exact unpack_packedZero
  | finite s m e hm =>
    obtain ⟨hc, he⟩ := unpack_finite hu
    exact @unpack_pack_finite .positive _ _ hm hc he

theorem isNaN_abs (x : Float) : x.abs.isNaN = x.isNaN := by
  change x.abs.toModel.unpack.isNaN = x.toModel.unpack.isNaN
  rw [unpack_abs]
  cases x.toModel.unpack <;> rfl

/-- Numbers have a difference, infinities that are equal apart. -/
theorem isNaN_sub_iff : (x - y).isNaN ↔ x.isNaN ∨ y.isNaN ∨ x.isInf ∧ x == y := by
  by_cases hfinite : x.isFinite ∧ y.isFinite
  · refine iff_of_false (not_isNaN_sub hfinite.1 hfinite.2) ?_
    rintro (hx | hy | ⟨hx, _⟩)
    · exact not_isNaN_of_isFinite hfinite.1 hx
    · exact not_isNaN_of_isFinite hfinite.2 hy
    · exact not_isInf hfinite.1 hx
  · have hunpack : (x - y).toModel.unpack =
        UnpackedFloat.sub .binary64 x.toModel.unpack y.toModel.unpack :=
      unpack_pack_of_not_isFinite (not_isFinite_sub hfinite)
    change (x - y).toModel.unpack.isNaN ↔ _
    rw [hunpack, beq_iff]
    exact UnpackedFloat.isNaN_sub_iff hfinite

theorem abs_sub_of_beq (h : x == y) (hx : x.isFinite) : (x - y).abs = 0.0 := by
  obtain ⟨s, hs⟩ := exists_sub_eq_zero (f := .binary64) (beq_iff.1 h) hx
  have hsub : (x - y).toModel.unpack = .zero s := by
    change (Model.pack (UnpackedFloat.sub .binary64 x.toModel.unpack y.toModel.unpack)).unpack = _
    rw [hs]
    exact unpack_packedZero
  have habs : (x - y).abs = ofModel (.pack (.zero .positive)) :=
    congrArg (fun u => ofModel (.pack (UnpackedFloat.abs u))) hsub
  rw [habs]
  decide +kernel

theorem isNaN_mul (hx : x.isNaN) (y : Float) : (x * y).isNaN := by
  change x.toModel.unpack.isNaN = true at hx
  change (Model.pack
    (UnpackedFloat.mul .binary64 x.toModel.unpack y.toModel.unpack)).unpack.isNaN = true
  cases hu : x.toModel.unpack with
  | notANumber => exact congrArg UnpackedFloat.isNaN unpack_packedNaN
  | _ =>
    rw [hu] at hx
    cases hx

/-- A product with a finite factor that is not a zero is a number if the other factor is one. -/
theorem not_isNaN_mul {s : Sign} {m : ℕ} {e : ℤ} {hm : 0 < m} (hx : ¬x.isNaN)
    (hy : y.toModel.unpack = .finite s m e hm) : ¬(x * y).isNaN := by
  have hfinite : y.isFinite := congrArg UnpackedFloat.isFinite hy
  cases hu : x.toModel.unpack with
  | notANumber => exact absurd (congrArg UnpackedFloat.isNaN hu) hx
  | infinity s' =>
    apply not_isNaN_of_isInf
    change (Model.pack
      (UnpackedFloat.mul .binary64 x.toModel.unpack y.toModel.unpack)).unpack.isInf = true
    rw [hu, hy]
    exact congrArg UnpackedFloat.isInf (unpack_packedInfinity (s' * s))
  | zero | finite =>
    obtain ⟨q, hc, hq⟩ := canonical_mul (congrArg UnpackedFloat.isFinite hu) hfinite
    exact not_isNaN_pack hc hq

end Float
