import Backprop.Proofs.Decimal.Rounding
import Backprop.Proofs.Monad
import Backprop.Proofs.Parameter
import Backprop.Report

namespace Backprop.Report

variable {g : Graph Float} {store : ParameterStore Float} {history : List Float} {epochs : ℕ}
  {elapsed : Float} {device : String}

def weightOf (g : Graph Float) (p : Parameter Float) : TrainedWeight :=
  { id := ((g.node? p.node).map (·.id)).getD "", value := Decimal.roundTo p.value parameterPlaces }

theorem trainedWeight_eq {p : Parameter Float} {node : Node Float}
    (hn : g.node? p.node = some node) : trainedWeight g p = .ok (weightOf g p) := by
  rw [trainedWeight, weightOf, hn]
  rfl

/-- The report on a store that fits the graph. -/
def of (g : Graph Float) (store : ParameterStore Float) (history : List Float) (epochs : Nat)
    (elapsed : Float) (device : String) : Report where
  trainedWeights := store.params.toList.map (weightOf g)
  lossHistory := history.map (Decimal.roundTo · lossPlaces)
  finalLoss := (history.map (Decimal.roundTo · lossPlaces)).getLast?.getD 0.0
  epochs := epochs
  elapsed := Decimal.roundTo elapsed elapsedPlaces
  device := device

theorem new_eq (hs : store.Fits g) (history : List Float) (epochs : Nat) (elapsed : Float)
    (device : String) :
    Report.new g store history epochs elapsed device =
      .ok (of g store history epochs elapsed device) := by
  have hweights : ∀ p ∈ store.params.toList, trainedWeight g p = .ok (weightOf g p) := by
    intro p hp
    obtain ⟨node, hn⟩ := hs.exists_node? (Array.mem_toList_iff.1 hp)
    exact trainedWeight_eq hn
  rw [Report.new, List.mapM_eq_pure_map hweights]
  rfl

theorem map_weightOf (g : Graph Float) (store : ParameterStore Float) :
    store.params.toList.map (weightOf g) = (store.named g).map fun w =>
      { id := w.1.getD "", value := Decimal.roundTo w.2 parameterPlaces } := by
  rw [ParameterStore.named, List.map_map]
  rfl

open Float.Model.UnpackedFloat (representable_zero representable_two_pow)

theorem isFinite_seconds {nanos : ℕ} (h : nanos < 2 ^ 64 * 10 ^ 9) : (seconds nanos).isFinite := by
  have hbillion : (1e9 : Float).IsNat (10 ^ 9) := by decide +kernel
  obtain ⟨whole, hw, _, hwhole⟩ :=
    Float.within_ofNat_two_pow (n := nanos / 1000000000) (k := 64) (by omega) (by norm_num)
  obtain ⟨part, hp, hpart, hpart'⟩ :=
    Float.within_ofNat_two_pow (n := nanos % 1000000000) (k := 30) (by omega) (by norm_num)
  have hone : (1 : ℚ) ≤ (10 ^ 9 : ℕ) := by norm_num
  obtain ⟨rest, hr, _, hrest⟩ := Float.within_div hp hbillion.magnitude? (by norm_num)
    representable_zero (representable_two_pow 30) (pow_lt_pow_right₀ one_lt_two (by norm_num))
    (div_nonneg hpart (by norm_num)) ((div_le_self hpart hone).trans hpart')
  have hsum : whole + rest ≤ 2 ^ 65 := by
    linarith
  exact (Float.within_add hw hr (representable_two_pow 65)
    (pow_lt_pow_right₀ one_lt_two (by norm_num)) hsum).isFinite

structure Finite (r : Report) : Prop where
  weights : ∀ w ∈ r.trainedWeights, w.value.isFinite
  history : ∀ x ∈ r.lossHistory, x.isFinite
  finalLoss : r.finalLoss.isFinite
  elapsed : r.elapsed.isFinite

theorem finite_of (hv : ∀ x ∈ store.values, x.isFinite) (hh : ∀ x ∈ history, x.isFinite)
    (he : elapsed.isFinite) : (of g store history epochs elapsed device).Finite := by
  have hhistory : ∀ x ∈ history.map (Decimal.roundTo · lossPlaces), x.isFinite := by
    rw [List.forall_mem_map]
    exact fun x hx => Decimal.isFinite_roundTo (k := 8) (hh x hx) (by norm_num)
  refine ⟨?_, hhistory, ?_, Decimal.isFinite_roundTo (k := 3) he (by norm_num)⟩
  · change ∀ w ∈ store.params.toList.map (weightOf g), w.value.isFinite
    rw [List.forall_mem_map]
    intro p hp
    exact Decimal.isFinite_roundTo (k := 6) (hv _ (List.mem_map_of_mem hp)) (by norm_num)
  · change ((history.map (Decimal.roundTo · lossPlaces)).getLast?.getD 0.0).isFinite
    cases hl : (history.map (Decimal.roundTo · lossPlaces)).getLast? with
    | none => decide +kernel
    | some x => exact hhistory x (List.mem_of_getLast? hl)

end Backprop.Report
