import Mathlib
import Backprop.Proofs.Interpreter

namespace Backprop

/-- A commutative ring in which `linear` is the identity. -/
class LinearScalar (A : Type) extends Scalar A, CommRing A where
  sumStart_eq : sumStart = 0
  activate_linear (x : A) : activate .linear x = x

theorem LinearScalar.sum_eq {A : Type} [LinearScalar A] (xs : List A) : Scalar.sum xs = xs.sum := by
  rw [List.sum_eq_foldl, Scalar.sum, LinearScalar.sumStart_eq]

/-- `base + slope * θ`, for a parameter `θ` that is not fixed yet. -/
structure Line (K : Type) where
  base : K
  slope : K

namespace Line

variable {K A : Type} [CommRing K] [CommRing A] (f : K →+* A) (z : A)

def eval (l : Line K) : A :=
  f l.base + f l.slope * z

def constant (x : K) : Line K :=
  ⟨x, 0⟩

def moving : Line K :=
  ⟨0, 1⟩

def scale (l : Line K) (x : K) : Line K :=
  ⟨l.base * x, l.slope * x⟩

def sum (ls : List (Line K)) : Line K :=
  ⟨(ls.map (·.base)).sum, (ls.map (·.slope)).sum⟩

@[simp]
theorem eval_constant (x : K) : (constant x).eval f z = f x := by
  simp [eval, constant]

@[simp]
theorem eval_moving : (moving : Line K).eval f z = z := by
  simp [eval, moving]

@[simp]
theorem eval_scale (l : Line K) (x : K) : (l.scale x).eval f z = l.eval f z * f x := by
  simp only [eval, scale, map_mul]
  ring

@[simp]
theorem eval_sum (ls : List (Line K)) : (sum ls).eval f z = (ls.map (·.eval f z)).sum := by
  induction ls with
  | nil => simp [eval, sum]
  | cons l ls ih =>
    rw [List.map_cons, List.sum_cons, ← ih]
    simp only [eval, sum, List.map_cons, List.sum_cons, map_add]
    ring

end Line

namespace Graph

variable {K : Type}

def Linear (g : Graph K) : Prop :=
  ∀ i, (g.node i).kind = .neuron ∨ (g.node i).kind = .activation → (g.node i).activation = .linear

instance (g : Graph K) : Decidable g.Linear :=
  inferInstanceAs (Decidable (∀ _, _ → _))

variable [CommRing K] {g : Graph K} {n : Nat} {lines : Vector (Option (Line K)) n} {l : Line K}

def Flat (lines : Vector (Option (Line K)) n) : Prop :=
  AllKnown (·.slope = 0) lines

def incomingLine (g : Graph K) (lines : Vector (Option (Line K)) g.size) (i : Fin g.size) :
    Line K :=
  .sum ((g.incoming.get i).filterMap lines.get)

theorem Flat.incomingLine {lines : Vector (Option (Line K)) g.size} (h : Flat lines)
    (i : Fin g.size) : (g.incomingLine lines i).slope = 0 := by
  apply List.sum_eq_zero
  intro x hx
  obtain ⟨l, hl, rfl⟩ := List.mem_map.1 hx
  exact h.of_mem hl

variable {A : Type} [LinearScalar A] {f : K →+* A} {z : A}

theorem incomingSum_lines (lines : Vector (Option (Line K)) g.size) (i : Fin g.size) :
    g.incomingSum (lines.map (·.map (·.eval f z))) i = (g.incomingLine lines i).eval f z := by
  rw [incomingSum, incomingLine, Line.eval_sum, filterMap_get_map]
  split
  · next h => rw [h, List.sum_nil]
  · rw [LinearScalar.sum_eq]

def parameterLine (env : Env K g.size) (p i : Fin g.size) : Line K :=
  if i = p then .moving else .constant (env.parameter i)

theorem parameter_vary (env : Env K g.size) (p i : Fin g.size) :
    (env.vary f p z).parameter i = (parameterLine env p i).eval f z := by
  rw [parameterLine, Env.vary]
  simp only [Fin.val_inj]
  split <;> simp

theorem parameterLine_slope (env : Env K g.size) {p i : Fin g.size} (h : i ≠ p) :
    (parameterLine env p i).slope = 0 := by
  rw [parameterLine, if_neg h]
  rfl

/-- The value of a node is affine unless it multiplies two values that depend on the parameter. It is
constant as long as the parameter's node has not been evaluated. -/
theorem exists_nodeValue_eq (hg : g.Linear) (env : Env K g.size) (p : Fin g.size)
    {lines : Vector (Option (Line K)) g.size} {i : Fin g.size} (hp : i = p → Flat lines) :
    ∃ l : Line K, (i ≠ p → Flat lines → l.slope = 0) ∧
      ∀ {A : Type} [LinearScalar A] (f : K →+* A) (z : A),
        g.nodeValue (env.vary f p z) (lines.map (·.map (·.eval f z))) i = l.eval f z := by
  unfold nodeValue
  cases hk : (g.node i).kind with
  | input => exact ⟨.constant (env.input i), fun _ _ => rfl, fun f z => (Line.eval_constant ..).symm⟩
  | bias =>
    exact ⟨parameterLine env p i, fun h _ => parameterLine_slope env h,
      fun f z => parameter_vary env p i⟩
  | weight =>
    by_cases hd : g.hasDeclaredInputs.get i
    · simp only [hd, if_true, incomingSum_lines]
      by_cases hi : i = p
      -- The only product with the parameter: what comes in is constant.
      · have hs := (hp hi).incomingLine (g := g) i
        refine ⟨⟨0, (g.incomingLine lines i).base⟩, fun h => absurd hi h, ?_⟩
        intro A _ f z
        rw [parameter_vary, parameterLine, if_pos hi]
        simp [Line.eval, hs, Line.moving]
      · refine ⟨(g.incomingLine lines i).scale (env.parameter i), ?_, ?_⟩
        · intro _ hl
          rw [Line.scale, hl.incomingLine, zero_mul]
        · intro A _ f z
          rw [parameter_vary, parameterLine, if_neg hi, Line.eval_constant, Line.eval_scale]
    · simp only [hd]
      exact ⟨parameterLine env p i, fun h _ => parameterLine_slope env h,
        fun f z => parameter_vary env p i⟩
  | neuron | activation =>
    have ha := hg i (by simp [hk])
    refine ⟨g.incomingLine lines i, fun _ hl => hl.incomingLine i, ?_⟩
    intro A _ f z
    simp only [ha, LinearScalar.activate_linear, incomingSum_lines]
  | output =>
    exact ⟨g.incomingLine lines i, fun _ hl => hl.incomingLine i, fun f z => incomingSum_lines lines i⟩

theorem exists_valuesAfter_eq (hg : g.Linear) (env : Env K g.size) (p : Fin g.size)
    {is : List (Fin g.size)} (hn : is.Nodup) {lines : Vector (Option (Line K)) g.size}
    (hp : p ∈ is → Flat lines) :
    ∃ lines' : Vector (Option (Line K)) g.size,
      ∀ {A : Type} [LinearScalar A] (f : K →+* A) (z : A),
        g.valuesAfter (env.vary f p z) is (lines.map (·.map (·.eval f z))) =
          lines'.map (·.map (·.eval f z)) := by
  induction is generalizing lines with
  | nil => exact ⟨lines, fun f z => rfl⟩
  | cons i is ih =>
    -- The node of `p` comes once: until then all lines are flat, and afterwards nothing reads `p`.
    obtain ⟨hi, hn⟩ := List.nodup_cons.1 hn
    obtain ⟨l, hl, hv⟩ := exists_nodeValue_eq hg env p fun he => hp (he ▸ List.mem_cons_self)
    have hp' (hm : p ∈ is) : Flat (place lines i l) := by
      have hflat := hp (List.mem_cons_of_mem i hm)
      exact hflat.place i (hl (fun he => hi (he ▸ hm)) hflat)
    obtain ⟨lines', hvs⟩ := ih hn hp'
    refine ⟨lines', ?_⟩
    intro A _ f z
    rw [valuesAfter, hv, ← hvs, map_place]

/-- The prediction is affine in each parameter: one line gives it in every ring in which activations
are linear. -/
theorem exists_prediction_eq (hg : g.Linear) (hn : g.order.Nodup) (env : Env K g.size)
    (p : Fin g.size) :
    ∃ l : Line K, ∀ {A : Type} [LinearScalar A] (f : K →+* A) (z : A),
      g.prediction (env.vary f p z) = l.eval f z := by
  obtain ⟨lines, hv⟩ := exists_valuesAfter_eq hg env p hn fun _ => allKnown_replicate _ _
  simp only [Vector.map_replicate, Option.map_none] at hv
  cases ho : g.output with
  | none => exact ⟨.constant 0, fun f z => by simp [prediction, ho]⟩
  | some o =>
    refine ⟨(lines.get o).getD (.constant 0), ?_⟩
    intro A _ f z
    rw [prediction, ho, values, hv, Option.bind_some, Vector.get_map]
    cases lines.get o with
    | none => simp
    | some l => rfl

end Graph

end Backprop
