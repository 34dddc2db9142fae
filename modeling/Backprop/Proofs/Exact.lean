import Mathlib
import Backprop.Scalar

namespace Backprop

open TrivSqZeroExt

/-- A field in which every number counts as finite. Activations and their slopes are arbitrary. -/
class ExactScalar (K : Type) extends Scalar K, Field K where
  sumStart_eq : sumStart = 0
  isFinite_eq (x : K) : isFinite x = true

/-- An ordered field in which, besides, `linear` is the identity. -/
class ExactOrderedScalar (K : Type) extends OrderedScalar K, ExactScalar K, LinearOrder K,
    IsStrictOrderedRing K where
  abs_eq (x : K) : abs x = max x (-x)
  larger_eq (x y : K) : larger x y = max x y
  exceeds_eq (x y : K) : exceeds x y = decide (y < x)
  activate_linear (x : K) : activate .linear x = x
  slope_linear (x y : K) : slope .linear x y = 1

/-- Rational arithmetic. Sigmoid and tanh have no rational values; `x / (1 + |x|)` stands for both. -/
instance : ExactOrderedScalar ℚ where
  __ := (inferInstance : Field ℚ)
  __ := (inferInstance : LinearOrder ℚ)
  __ := (inferInstance : IsStrictOrderedRing ℚ)
  sumStart := 0
  isFinite _ := true
  isNegative x := x < 0
  activate
    | .linear, x => x
    | .relu, x => max x 0
    | _, x => x / (1 + |x|)
  slope
    | .linear, _, _ => 1
    | .relu, x, _ => if 0 < x then 1 else 0
    | _, x, _ => 1 / ((1 + |x|) * (1 + |x|))
  abs x := |x|
  larger := max
  exceeds x y := y < x
  thousandth := 1 / 1000
  sumStart_eq := rfl
  isFinite_eq _ := rfl
  abs_eq _ := rfl
  larger_eq _ _ := rfl
  exceeds_eq _ _ := rfl
  activate_linear _ := rfl
  slope_linear _ _ := rfl

variable {K : Type} [ExactScalar K]

theorem Scalar.sum_eq (xs : List K) : Scalar.sum xs = xs.sum := by
  rw [List.sum_eq_foldl, Scalar.sum, ExactScalar.sumStart_eq]

/-- No test for emptiness is needed where a division by 0 gives 0. -/
theorem Scalar.mean_eq (xs : List K) : Scalar.mean xs = xs.sum / xs.length := by
  rw [Scalar.mean, Scalar.sum_eq]
  cases xs with
  | nil => simp
  | cons x xs => rfl

instance : Scalar (DualNumber K) where
  div x y := x * y⁻¹
  sumStart := 0
  isFinite _ := true
  isNegative x := Scalar.isNegative x.fst
  activate f x :=
    inl (Scalar.activate f x.fst) +
      inr (Scalar.slope f x.fst (Scalar.activate f x.fst) * x.snd)
  slope f x y := inl (Scalar.slope f x.fst y.fst)

namespace Dual

theorem fst_activate (f : Activation) (x : DualNumber K) :
    (Scalar.activate f x).fst = Scalar.activate f x.fst := by
  simp [Scalar.activate]

theorem snd_activate (f : Activation) (x : DualNumber K) :
    (Scalar.activate f x).snd = Scalar.slope f x.fst (Scalar.activate f x.fst) * x.snd := by
  simp [Scalar.activate]

theorem sum_eq (xs : List (DualNumber K)) : Scalar.sum xs = xs.sum := by
  rw [List.sum_eq_foldl]
  rfl

theorem fst_sum (xs : List (DualNumber K)) : (Scalar.sum xs).fst = (xs.map fst).sum := by
  rw [sum_eq]
  exact map_list_sum (fstHom K K K) xs

theorem snd_sum (xs : List (DualNumber K)) : (Scalar.sum xs).snd = (xs.map snd).sum := by
  rw [sum_eq]
  exact map_list_sum (sndHom K K) xs

theorem fst_div (x : DualNumber K) (n : Nat) : (x / (n : DualNumber K)).fst = x.fst / n := by
  change (x * (n : DualNumber K)⁻¹).fst = _
  rw [fst_mul, fst_inv, fst_natCast, div_eq_mul_inv]

theorem snd_div (x : DualNumber K) (n : Nat) : (x / (n : DualNumber K)).snd = x.snd / n := by
  change (x * (n : DualNumber K)⁻¹).snd = _
  simp [div_eq_mul_inv, mul_comm]

theorem mean_eq (xs : List (DualNumber K)) :
    Scalar.mean xs = Scalar.sum xs / (xs.length : DualNumber K) := by
  cases xs with
  | nil =>
    change 0 = Scalar.sum [] / ((0 : Nat) : DualNumber K)
    apply TrivSqZeroExt.ext
    · rw [fst_div, Nat.cast_zero, div_zero, fst_zero]
    · rw [snd_div, Nat.cast_zero, div_zero, snd_zero]
  | cons x xs => rfl

theorem fst_mean (xs : List (DualNumber K)) :
    (Scalar.mean xs).fst = Scalar.mean (xs.map fst) := by
  rw [mean_eq, fst_div, fst_sum, Scalar.mean_eq, List.length_map]

theorem snd_mean (xs : List (DualNumber K)) :
    (Scalar.mean xs).snd = Scalar.mean (xs.map snd) := by
  rw [mean_eq, snd_div, snd_sum, Scalar.mean_eq, List.length_map]

end Dual

end Backprop
