import Backprop.Near
import Backprop.Proofs.Double.Comparison

namespace Backprop

section Scan

variable {α : Type} [OrderedScalar α] {tolerance : α} {actual expected : List α}

def apart (tolerance x y : α) : Bool :=
  OrderedScalar.exceeds (OrderedScalar.abs (x - y)) tolerance

theorem firstApart?_cons (tolerance : α) (start : Nat) (x y : α) (xs ys : List α) :
    firstApart? tolerance start (x :: xs) (y :: ys) =
      if apart tolerance x y then some start else firstApart? tolerance (start + 1) xs ys :=
  rfl

theorem firstApart?_eq_findIdx? (tolerance : α) (start : Nat) (xs ys : List α) :
    firstApart? tolerance start xs ys =
      ((xs.zip ys).findIdx? fun p => apart tolerance p.1 p.2).map (· + start) := by
  induction xs generalizing start ys with
  | nil => rfl
  | cons x xs ih =>
    cases ys with
    | nil => rfl
    | cons y ys =>
      rw [firstApart?_cons, List.zip_cons_cons, List.findIdx?_cons, ih]
      dsimp only
      split
      · rw [Option.map_some, Nat.zero_add]
      · rw [Option.map_map]
        congr 1
        funext i
        exact (Nat.succ_add_eq_add_succ i start).symm

theorem firstApart?_eq_none_iff : firstApart? tolerance 0 actual expected = none ↔
    ∀ (i : Nat) (x y : α), actual[i]? = some x → expected[i]? = some y → ¬apart tolerance x y := by
  rw [firstApart?_eq_findIdx?, Option.map_eq_none_iff, List.findIdx?_eq_none_iff]
  simp only [List.mem_iff_getElem?, List.getElem?_zip_eq_some, Prod.forall, Bool.not_eq_true]
  exact ⟨fun h i x y hx hy => h x y ⟨i, hx, hy⟩, fun h x y ⟨i, hx, hy⟩ => h i x y hx hy⟩

theorem firstApart?_eq_some_iff {i : Nat} : firstApart? tolerance 0 actual expected = some i ↔
    (∃ x y, actual[i]? = some x ∧ expected[i]? = some y ∧ apart tolerance x y) ∧
      ∀ j < i, ∀ x y, actual[j]? = some x → expected[j]? = some y → ¬apart tolerance x y := by
  have hpair {j : Nat} {x y : α} (hx : actual[j]? = some x) (hy : expected[j]? = some y) :
      ∃ h : j < (actual.zip expected).length, (actual.zip expected)[j] = (x, y) :=
    List.getElem?_eq_some_iff.1 (List.getElem?_zip_eq_some.2 ⟨hx, hy⟩)
  rw [firstApart?_eq_findIdx?]
  simp only [Nat.add_zero, Option.map_id']
  rw [List.findIdx?_eq_some_iff_getElem]
  constructor
  · rintro ⟨hi, hp, hbefore⟩
    obtain ⟨hx, hy⟩ := List.getElem?_zip_eq_some.1 (List.getElem?_eq_getElem hi)
    refine ⟨⟨_, _, hx, hy, hp⟩, fun j hj x y hx hy => ?_⟩
    obtain ⟨_, he⟩ := hpair hx hy
    simpa only [he] using hbefore j hj
  · rintro ⟨⟨x, y, hx, hy, hp⟩, hbefore⟩
    obtain ⟨hi, he⟩ := hpair hx hy
    refine ⟨hi, by simpa only [he] using hp, fun j hj => ?_⟩
    obtain ⟨hx, hy⟩ :=
      List.getElem?_zip_eq_some.1 (List.getElem?_eq_getElem (Nat.lt_trans hj hi))
    exact hbefore j hj _ _ hx hy

theorem checkNear_of_length_ne (h : actual.length ≠ expected.length) (tolerance : α) :
    checkNear actual expected tolerance = .error (.lengths actual.length expected.length) :=
  if_pos h

theorem checkNear_of_length_eq (h : actual.length = expected.length) (tolerance : α) :
    checkNear actual expected tolerance = match firstApart? tolerance 0 actual expected with
      | some i => .error (.value i)
      | none => .ok () :=
  if_neg (not_not_intro h)

theorem checkNear_eq_ok_iff : checkNear actual expected tolerance = .ok () ↔
    actual.length = expected.length ∧ ∀ (i : Nat) (x y : α),
      actual[i]? = some x → expected[i]? = some y → ¬apart tolerance x y := by
  rw [← firstApart?_eq_none_iff]
  by_cases hlength : actual.length = expected.length
  · rw [checkNear_of_length_eq hlength]
    cases firstApart? tolerance 0 actual expected <;> simp [hlength]
  · simp [checkNear_of_length_ne hlength, hlength]

theorem checkNear_eq_value_iff {i : Nat} :
    checkNear actual expected tolerance = .error (.value i) ↔ actual.length = expected.length ∧
      (∃ x y, actual[i]? = some x ∧ expected[i]? = some y ∧ apart tolerance x y) ∧
        ∀ j < i, ∀ x y, actual[j]? = some x → expected[j]? = some y → ¬apart tolerance x y := by
  rw [← firstApart?_eq_some_iff]
  by_cases hlength : actual.length = expected.length
  · rw [checkNear_of_length_eq hlength]
    cases firstApart? tolerance 0 actual expected <;> simp [hlength]
  · simp [checkNear_of_length_ne hlength, hlength]

theorem checkNear_eq_lengths_iff {m n : Nat} :
    checkNear actual expected tolerance = .error (.lengths m n) ↔
      actual.length = m ∧ expected.length = n ∧ m ≠ n := by
  by_cases hlength : actual.length = expected.length
  · rw [checkNear_of_length_eq hlength]
    cases firstApart? tolerance 0 actual expected <;> simp [hlength] <;> omega
  · simp [checkNear_of_length_ne hlength]
    omega

end Scan

/-- What the tolerance allows: values that are equal, and values that lie no further apart. -/
def Near (tolerance x y : Float) : Prop :=
  x == y ∨ (x - y).abs ≤ tolerance

variable {tolerance x y : Float}

theorem apart_iff : apart tolerance x y ↔ tolerance < (x - y).abs :=
  decide_eq_true_iff

theorem not_near_of_isNaN (h : x.isNaN ∨ y.isNaN) : ¬Near tolerance x y := by
  rintro (heq | hle)
  · exact Float.not_beq_of_isNaN h heq
  · have hn : (x - y).isNaN := Float.isNaN_sub_iff.2 (h.imp_right .inl)
    exact Float.not_le_of_isNaN (.inl ((Float.isNaN_abs _).trans hn)) hle

/-- Infinities that are equal have no difference; that is why they are not apart. -/
theorem not_apart_iff (ht : 0.0 ≤ tolerance) :
    ¬apart tolerance x y ↔ x.isNaN ∨ y.isNaN ∨ Near tolerance x y := by
  have ht' : ¬tolerance.isNaN := fun h => Float.not_le_of_isNaN (.inr h) ht
  have habs := Float.isNaN_abs (x - y)
  rw [apart_iff]
  by_cases hn : (x - y).isNaN
  · refine iff_of_true (Float.not_lt_of_isNaN (.inr (habs.trans hn))) ?_
    obtain hx | hy | ⟨_, heq⟩ := Float.isNaN_sub_iff.1 hn
    · exact .inl hx
    · exact .inr (.inl hy)
    · exact .inr (.inr (.inl heq))
  · have hn' := mt Float.isNaN_sub_iff.2 hn
    push Not at hn'
    obtain ⟨hx, hy, hinf⟩ := hn'
    rw [or_iff_right hx, or_iff_right hy, Near, ← Float.le_iff_not_lt (habs ▸ hn) ht']
    refine (or_iff_right_of_imp fun heq => ?_).symm
    have hfinite : x.isFinite := by
      by_contra h
      exact (Float.not_isFinite_iff.1 h).elim hx fun h => hinf h heq
    rw [Float.abs_sub_of_beq heq hfinite]
    exact ht

/-- The check succeeds if the lists are of one length and the values at each index are near each
other, unless one of them is not a number: such a pair is accepted although it is not near. Otherwise
it fails for the lengths, or for the first pair that is further apart. -/
theorem checkNear_accepts (ht : 0.0 ≤ tolerance) (actual expected : List Float) :
    (checkNear actual expected tolerance = .ok () ↔ actual.length = expected.length ∧
        ∀ (i : Nat) (x y : Float), actual[i]? = some x → expected[i]? = some y →
          x.isNaN ∨ y.isNaN ∨ Near tolerance x y) ∧
      (∀ x y : Float, x.isNaN ∨ y.isNaN → ¬Near tolerance x y) ∧
      (∀ m n, checkNear actual expected tolerance = .error (.lengths m n) ↔
        actual.length = m ∧ expected.length = n ∧ m ≠ n) ∧
      ∀ i, checkNear actual expected tolerance = .error (.value i) ↔
        actual.length = expected.length ∧
          (∃ x y, actual[i]? = some x ∧ expected[i]? = some y ∧ tolerance < (x - y).abs) ∧
          ∀ j < i, ∀ x y, actual[j]? = some x → expected[j]? = some y →
            x.isNaN ∨ y.isNaN ∨ Near tolerance x y := by
  refine ⟨?accepted, fun x y => not_near_of_isNaN, fun m n => checkNear_eq_lengths_iff, ?rejected⟩
  case accepted =>
    rw [checkNear_eq_ok_iff]
    simp only [not_apart_iff ht]
  case rejected =>
    intro i
    rw [checkNear_eq_value_iff]
    simp only [not_apart_iff ht]
    simp only [apart_iff]

theorem checkNear_accepts_infinity :
    let actual : List Float := [1.0, 1.0 / 0.0, 2.5]
    let expected : List Float := [1.0, 1.0 / 0.0, 3.0]
    (0.0 : Float) ≤ 0.5 ∧ checkNear actual expected (0.5 : Float) = .ok () ∧ Near 0.5 2.5 3.0 := by
  intro actual expected
  have ht : (0.0 : Float) ≤ 0.5 := by decide +kernel
  have hok : checkNear actual expected (0.5 : Float) = .ok () := by decide +kernel
  obtain ⟨hiff, _⟩ := checkNear_accepts ht actual expected
  obtain ⟨_, hpairs⟩ := hiff.1 hok
  obtain hx | hy | hnear := hpairs 2 2.5 3.0 rfl rfl
  · exact absurd hx (by decide +kernel)
  · exact absurd hy (by decide +kernel)
  · exact ⟨ht, hok, hnear⟩

/-- A NaN is accepted where 1 was expected. -/
theorem checkNear_accepts_nan :
    checkNear [0.0 / 0.0] [1.0] (0.5 : Float) = .ok () ∧ ¬Near 0.5 (0.0 / 0.0) 1.0 := by
  constructor
  · decide +kernel
  · exact not_near_of_isNaN (.inl (by decide +kernel))

end Backprop
