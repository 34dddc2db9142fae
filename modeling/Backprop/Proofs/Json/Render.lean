import Backprop.Proofs.Monad
import Backprop.Proofs.Json.Number
import Backprop.Proofs.Json.Reading

namespace Backprop.Json

namespace Number

variable {n : Number} {x : Float}

def Writable : Number → Prop
  | .whole n => 0 ≤ n ∧ n < 2 ^ 64
  | .real x => x.isFinite

/-- What the text of a number is read as. -/
def reread (n : Number) : Number :=
  ((Numeral.ofChars? n.chars).bind Numeral.number?).getD n

theorem reread_eq {t : Numeral} {k : Number} (ht : t.WellFormed) (hc : t.chars = n.chars)
    (hk : t.number? = some k) : n.reread = k := by
  rw [reread, ← hc, Numeral.ofChars?_chars ht, Option.bind_some, hk, Option.getD_some]

theorem exists_numeral (h : n.Writable) :
    ∃ t : Numeral, t.WellFormed ∧ t.chars = n.chars ∧ t.number? = some n.reread := by
  suffices h : ∃ (t : Numeral) (k : Number),
      t.WellFormed ∧ t.chars = n.chars ∧ t.number? = some k by
    obtain ⟨t, k, ht, hc, hk⟩ := h
    exact ⟨t, ht, hc, by rw [reread_eq ht hc hk, hk]⟩
  cases n with
  | whole n =>
    obtain ⟨k, rfl⟩ := Int.eq_ofNat_of_zero_le h.1
    obtain ⟨t, ht, hc, hk⟩ := exists_numeral_whole (n := k) (by exact_mod_cast h.2)
    exact ⟨t, _, ht, hc, hk⟩
  | real x =>
    obtain ⟨t, y, ht, hc, hk⟩ := reads_floatChars h
    exact ⟨t, _, ht, hc, hk⟩

theorem reread_whole {n : ℕ} (hn : n < 2 ^ 64) : (whole n).reread = whole n := by
  obtain ⟨t, ht, hc, hk⟩ := exists_numeral_whole hn
  exact reread_eq ht hc hk

def rereadReal (x : Float) : Float :=
  (real x).reread.toFloat

theorem reread_real (h : x.isFinite) :
    (real x).reread = real (rereadReal x) ∧ (rereadReal x).isFinite := by
  obtain ⟨t, y, ht, hc, hk⟩ := reads_floatChars h
  have hy := Numeral.isFinite_number? hk
  have hr : (real x).reread = real y := reread_eq ht hc hk
  rw [rereadReal, hr]
  exact ⟨rfl, hy⟩

end Number

namespace Value

variable {v : Value} {depth : ℕ}

/-- Values that can be read again: all numbers are writable, and no more than `depth` containers
stand inside each other. -/
def Writable : (depth : ℕ) → Value → Prop
  | _, .null | _, .bool _ | _, .text _ => True
  | _, .number n => n.Writable
  | 0, .array _ | 0, .object _ => False
  | depth + 1, .array items => ∀ v ∈ items, Writable depth v
  | depth + 1, .object members => ∀ m ∈ members, Writable depth m.2

def reread : (depth : ℕ) → Value → Value
  | _, .number n => .number n.reread
  | depth + 1, .array items => .array (items.map (reread depth))
  | depth + 1, .object members => .object (members.map fun m => (m.1, reread depth m.2))
  | _, v => v

theorem itemChars_eq (items : List Value) : itemChars items = items.map chars := by
  induction items with
  | nil => rfl
  | cons v vs ih => rw [itemChars, ih, List.map_cons]

theorem memberChars_eq (members : List (String × Value)) :
    memberChars members = members.map fun m => quoted m.1 ++ ':' :: m.2.chars := by
  induction members with
  | nil => rfl
  | cons m ms ih => rw [memberChars, ih, List.map_cons]

theorem exists_document (h : v.Writable depth) :
    ∃ d, Document.Written v.chars d ∧ ofDocument? depth d = some (v.reread depth) := by
  induction depth, v using Writable.induct with
  | case1 depth => exact ⟨_, Document.written_null, by cases depth <;> rfl⟩
  | case2 depth b =>
    cases b with
    | true => exact ⟨_, Document.written_true, by cases depth <;> rfl⟩
    | false => exact ⟨_, Document.written_false, by cases depth <;> rfl⟩
  | case3 depth s => exact ⟨_, Document.written_quoted s, by cases depth <;> rfl⟩
  | case4 depth n =>
    rw [Writable] at h
    obtain ⟨t, ht, hc, hn⟩ := Number.exists_numeral h
    refine ⟨.number t, ?_, by rw [ofDocument?, hn, reread]; rfl⟩
    rw [chars, ← hc]
    exact Document.written_numeral ht
  | case5 | case6 =>
    rw [Writable] at h
    exact h.elim
  | case7 depth items ih =>
    rw [Writable] at h
    choose! document hd using fun v hv => ih v (h v hv)
    refine ⟨.array (items.map document), ?_, ?_⟩
    · rw [chars, itemChars_eq]
      exact Document.written_array fun v hv => (hd v hv).1
    · have hitems := List.mapM_eq_pure_map fun v hv => (hd v hv).2
      rw [ofDocument?, List.mapM_map]
      change ((items.mapM fun v => ofDocument? depth (document v)) >>= _) = _
      rw [hitems, reread]
      rfl
  | case8 depth members ih =>
    rw [Writable] at h
    choose! document hd using fun m hm => ih m (h m hm)
    refine ⟨.object (members.map fun m => (some m.1, document m)), ?_, ?_⟩
    · rw [chars, memberChars_eq]
      exact Document.written_object fun m hm => Document.element_members m.1 (hd m hm).1
    · have hmember : ∀ m ∈ members, (do return (m.1, ← ofDocument? depth (document m))) =
          some (m.1, m.2.reread depth) := by
        intro m hm
        rw [(hd m hm).2]
        rfl
      have hmembers := List.mapM_eq_pure_map hmember
      rw [ofDocument?, List.mapM_map]
      change ((members.mapM fun m => do return (m.1, ← ofDocument? depth (document m))) >>= _) = _
      rw [hmembers, reread]
      rfl

theorem ofString?_render (h : v.Writable maxDepth) :
    ofString? v.render = some (v.reread maxDepth) := by
  obtain ⟨d, hd, hv⟩ := exists_document h
  rw [ofString?, render, Document.ofString?, String.toList_ofList, hd.ofChars?]
  exact hv

end Value

end Backprop.Json
