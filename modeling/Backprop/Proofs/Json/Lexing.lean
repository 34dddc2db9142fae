import Backprop.Json.Value
import Backprop.Proofs.Json.Numeral

namespace Backprop.Json

variable {ts us us' : List Token} {t : Token} {c : Char} {cs cs' rest : List Char} {s : String}

namespace Lexer

/-- The tokens in the end, if `cs` is still to come and those before it are `ts`. -/
def remaining (cs : List Char) (ts : List Token) : Option (List Token) :=
  (cs.foldlM step? ⟨ts, .between⟩).bind finish?

def IsBoundary (rest : List Char) : Prop :=
  ∀ c ∈ rest.head?, ∃ t, punctuation? c = some t

/-- Before a boundary, `cs` is cut into `us`. -/
def Cuts (cs : List Char) (us : List Token) : Prop :=
  ∀ ts rest, IsBoundary rest → remaining (cs ++ rest) ts = remaining rest (us.reverse ++ ts)

theorem tokens?_eq (cs : List Char) : tokens? cs = (remaining cs []).map List.reverse := by
  rw [tokens?, remaining]
  cases cs.foldlM step? ⟨[], .between⟩ with
  | none => rfl
  | some l => cases hf : l.finish? <;> simp [hf]

theorem Cuts.tokens? (h : Cuts cs us) : tokens? cs = some us := by
  have h := h [] [] nofun
  rw [List.append_nil, List.append_nil] at h
  rw [tokens?_eq, h]
  simp [remaining, finish?]

theorem Cuts.append (h : Cuts cs us) (h' : Cuts cs' us') (hb : IsBoundary cs') :
    Cuts (cs ++ cs') (us ++ us') := by
  intro ts rest hr
  have hboundary : IsBoundary (cs' ++ rest) := by
    cases cs' with
    | nil => exact hr
    | cons c cs => exact hb
  rw [List.append_assoc, h ts _ hboundary, h' _ rest hr, List.reverse_append, List.append_assoc]

theorem punctuation_class (h : punctuation? c = some t) :
    isSpace c = false ∧ c ≠ '"' ∧ isNumeral c = false ∧ c.isLower = false := by
  rw [punctuation?.eq_def] at h
  split at h
  · decide
  · decide
  · decide
  · decide
  · decide
  · decide
  · cases h

theorem start?_punctuation (h : punctuation? c = some t) :
    start? ts c = some ⟨t :: ts, .between⟩ := by
  obtain ⟨hs, hq, hn, hl⟩ := punctuation_class h
  have hd : (c.isDigit || decide (c = '-')) = false := by
    rw [isNumeral] at hn
    simp_all
  rw [start?, hs, hd, hl, h, if_neg Bool.false_ne_true, if_neg hq, if_neg Bool.false_ne_true,
    if_neg Bool.false_ne_true]
  rfl

theorem Cuts.cons (ht : punctuation? c = some t) (h : Cuts cs us) : Cuts (c :: cs) (t :: us) := by
  intro ts rest hr
  have hstep : step? ⟨ts, .between⟩ c = some ⟨t :: ts, .between⟩ := start?_punctuation ht
  have h := h (t :: ts) rest hr
  rw [remaining] at h
  rw [List.cons_append, remaining, List.foldlM_cons, hstep, List.reverse_cons, List.append_assoc]
  exact h

theorem cuts_nil : Cuts [] [] :=
  fun _ _ _ => rfl

/-- A token is cut off if the lexer can finish it at the end and goes on behind it at a boundary. -/
theorem cuts_of_step? (h : ∀ ts, ∃ l, cs.foldlM step? ⟨ts, .between⟩ = some l ∧
    l.finish? = some (t :: ts) ∧
    ∀ c u, punctuation? c = some u → l.step? c = start? (t :: ts) c) : Cuts cs [t] := by
  intro ts rest hr
  obtain ⟨l, hl, hf, hs⟩ := h ts
  rw [remaining, List.foldlM_append, hl]
  cases rest with
  | nil => exact hf
  | cons c rest =>
    obtain ⟨u, hu⟩ := hr c rfl
    change ((l.step? c >>= rest.foldlM step?).bind finish?) = _
    rw [hs c u hu]
    rfl

theorem cuts_of_between (h : ∀ ts, cs.foldlM step? ⟨ts, .between⟩ = some ⟨t :: ts, .between⟩) :
    Cuts cs [t] :=
  cuts_of_step? fun ts => ⟨_, h ts, rfl, fun _ _ _ => rfl⟩

theorem cuts_of_word {w : List Char} (hw : word? w.reverse = some t)
    (h : ∀ ts, cs.foldlM step? ⟨ts, .between⟩ = some ⟨ts, .word w⟩) : Cuts cs [t] := by
  refine cuts_of_step? fun ts => ?_
  have hf : finish? ⟨ts, .word w⟩ = some (t :: ts) := by
    simp only [finish?, hw]
    rfl
  refine ⟨_, h ts, hf, fun c u hu => ?_⟩
  obtain ⟨_, _, _, hl⟩ := punctuation_class hu
  simp only [step?, hl, hf]
  rfl

theorem cuts_null : Cuts "null".toList [.null] :=
  cuts_of_word rfl fun _ => rfl

theorem cuts_true : Cuts "true".toList [.bool true] :=
  cuts_of_word rfl fun _ => rfl

theorem cuts_false : Cuts "false".toList [.bool false] :=
  cuts_of_word rfl fun _ => rfl

theorem foldlM_numeral {acc : List Char} (h : ∀ c ∈ cs, isNumeral c) :
    cs.foldlM step? ⟨ts, .numeral acc⟩ = some ⟨ts, .numeral (cs.reverse ++ acc)⟩ := by
  induction cs generalizing acc with
  | nil => rfl
  | cons c cs ih =>
    obtain ⟨hc, hcs⟩ := List.forall_mem_cons.1 h
    have hstep : step? ⟨ts, .numeral acc⟩ c = some ⟨ts, .numeral (c :: acc)⟩ := by
      simp only [step?]
      rw [if_pos hc]
    rw [List.foldlM_cons, hstep, List.reverse_cons, List.append_assoc]
    exact ih hcs

theorem start?_numeral (h : c.isDigit ∨ c = '-') : start? ts c = some ⟨ts, .numeral [c]⟩ := by
  have hd : (c.isDigit || decide (c = '-')) = true := by simpa using h
  have hs : isSpace c = false := by
    rcases h with h | rfl
    · rw [Bool.eq_false_iff]
      intro hs
      simp only [isSpace, Bool.or_eq_true, decide_eq_true_eq] at hs
      rcases hs with ((rfl | rfl) | rfl) | rfl <;> exact absurd h (by decide)
    · rfl
  have hq : c ≠ '"' := by
    rintro rfl
    exact absurd hd (by decide)
  rw [start?, hs, if_neg Bool.false_ne_true, if_neg hq, if_pos hd]

theorem isNumeral_of_isDigit (h : c.isDigit) : isNumeral c := by
  simp [isNumeral, h]

theorem isNumeral_exponentChars {exponent : Option (Bool × List Char)}
    (h : ∀ p ∈ exponent, p.2 ≠ [] ∧ ∀ c ∈ p.2, c.isDigit) :
    ∀ c ∈ Numeral.exponentChars exponent, isNumeral c := by
  cases exponent with
  | none => nofun
  | some p =>
    obtain ⟨negative, ds⟩ := p
    obtain ⟨_, hd⟩ := h _ rfl
    intro c hc
    rw [Numeral.exponentChars, List.mem_cons, List.mem_cons] at hc
    rcases hc with rfl | rfl | hc
    · rfl
    · cases negative <;> rfl
    · exact isNumeral_of_isDigit (hd c hc)

theorem isNumeral_fractionChars {ds : List Char} (h : ∀ c ∈ ds, c.isDigit) :
    ∀ c ∈ Numeral.fractionChars ds, isNumeral c := by
  cases ds with
  | nil => nofun
  | cons d ds =>
    intro c hc
    rcases List.mem_cons.1 hc with rfl | hc
    · rfl
    · exact isNumeral_of_isDigit (h c hc)

theorem exists_chars_cons {n : Numeral} (h : n.WellFormed) :
    ∃ c cs, n.chars = c :: cs ∧ (c.isDigit ∨ c = '-') ∧ ∀ x ∈ cs, isNumeral x := by
  obtain ⟨negative, whole, fraction, exponent⟩ := n
  obtain ⟨hw, hf, he⟩ := h
  obtain ⟨d, ds, rfl, hd⟩ := Numeral.exists_cons_of_isWhole hw
  have htail : ∀ x ∈ d :: ds ++ (Numeral.fractionChars fraction ++ Numeral.exponentChars exponent),
      isNumeral x := by
    intro x hx
    rw [List.mem_append, List.mem_append] at hx
    rcases hx with hx | hx | hx
    · exact isNumeral_of_isDigit (hd x hx)
    · exact isNumeral_fractionChars hf x hx
    · exact isNumeral_exponentChars he x hx
  cases negative with
  | true => exact ⟨'-', _, rfl, .inr rfl, htail⟩
  | false =>
    have hfirst := hd d List.mem_cons_self
    exact ⟨d, _, rfl, .inl hfirst, fun x hx => htail x (List.mem_cons_of_mem d hx)⟩

theorem cuts_numeral {n : Numeral} (h : n.WellFormed) : Cuts n.chars [.number n] := by
  refine cuts_of_step? fun ts => ?_
  obtain ⟨c, cs, hcs, hc, hn⟩ := exists_chars_cons h
  have hread := Numeral.ofChars?_chars h
  rw [hcs] at hread ⊢
  have hf : finish? ⟨ts, .numeral (cs.reverse ++ [c])⟩ = some (.number n :: ts) := by
    simp only [finish?, List.reverse_append, List.reverse_reverse, List.reverse_singleton,
      List.singleton_append, hread]
    rfl
  refine ⟨⟨ts, .numeral (cs.reverse ++ [c])⟩, ?_, hf, fun c u hu => ?_⟩
  · have hstep : step? ⟨ts, .between⟩ c = some ⟨ts, .numeral [c]⟩ := start?_numeral hc
    rw [List.foldlM_cons, hstep]
    exact foldlM_numeral hn
  · obtain ⟨_, _, hnum, _⟩ := punctuation_class hu
    simp only [step?, hnum, hf]
    rfl

theorem hexDigit?_digitChar {k : ℕ} (hk : k < 16) : hexDigit? (Nat.digitChar k) = some k := by
  have h : ∀ k : Fin 16, hexDigit? (Nat.digitChar k) = some k.val := by decide
  exact h ⟨k, hk⟩

theorem step?_hex {ps : List Piece} {missing value k : ℕ} (hk : k < 16) (hm : 1 < missing) :
    step? ⟨ts, .hex ps missing value⟩ k.digitChar =
      some ⟨ts, .hex ps (missing - 1) (16 * value + k)⟩ := by
  simp only [step?, hexDigit?_digitChar hk, not_le.2 hm]
  rfl

theorem step?_hex_one {ps : List Piece} {value k : ℕ} (hk : k < 16) :
    step? ⟨ts, .hex ps 1 value⟩ k.digitChar = some ⟨ts, .text (.unit (16 * value + k) :: ps)⟩ := by
  simp only [step?, hexDigit?_digitChar hk]
  rfl

theorem foldlM_unit {n : ℕ} (hn : n < 0x20) (ps : List Piece) :
    ("\\u00".toList ++ [(n / 16).digitChar, (n % 16).digitChar]).foldlM step? ⟨ts, .text ps⟩ =
      some ⟨ts, .text (.unit n :: ps)⟩ := by
  have hhigh : step? ⟨ts, .hex ps 2 0⟩ (n / 16).digitChar = some ⟨ts, .hex ps 1 (n / 16)⟩ := by
    rw [step?_hex (by omega) (by norm_num), Nat.mul_zero, Nat.zero_add]
  have hlow : step? ⟨ts, .hex ps 1 (n / 16)⟩ (n % 16).digitChar =
      some ⟨ts, .text (.unit n :: ps)⟩ := by
    rw [step?_hex_one (Nat.mod_lt n (by norm_num)), Nat.div_add_mod]
  change ([(n / 16).digitChar, (n % 16).digitChar].foldlM step? ⟨ts, .hex ps 2 0⟩) = _
  rw [List.foldlM_cons, hhigh]
  change (step? ⟨ts, .hex ps 1 (n / 16)⟩ (n % 16).digitChar >>= [].foldlM step?) = _
  rw [hlow]
  rfl

theorem decodePieces_unit {n : ℕ} (hn : n < 0x20) (ps : List Piece) :
    decodePieces (.unit n :: ps) = (decodePieces ps).map (Char.ofNat n :: ·) := by
  rw [decodePieces.eq_def]
  have hlow : ¬ 0xDC00 ≤ n := by omega
  have hhigh : ¬ 0xD800 ≤ n := by omega
  simp [hlow, hhigh]

/-- A character of a string becomes one piece, by itself or by its number. -/
theorem exists_piece (c : Char) :
    ∃ p, (∀ ts ps, (Value.escapeChar c).foldlM step? ⟨ts, .text ps⟩ = some ⟨ts, .text (p :: ps)⟩) ∧
      ∀ ps, decodePieces (p :: ps) = (decodePieces ps).map (c :: ·) := by
  rw [Value.escapeChar.eq_def]
  split
  case h_8 hquote hbackslash _ _ _ _ _ =>
    by_cases hc : c.toNat < 0x20
    · refine ⟨.unit c.toNat, fun ts ps => ?_, fun ps => ?_⟩
      · rw [if_pos hc]
        exact foldlM_unit hc ps
      · rw [decodePieces_unit hc, Char.ofNat_toNat]
    · refine ⟨.char c, fun ts ps => ?_, fun ps => rfl⟩
      rw [if_neg hc, List.foldlM_cons]
      simp only [step?]
      rw [if_neg hquote, if_neg hbackslash, if_neg hc]
      rfl
  all_goals exact ⟨.char _, fun ts ps => rfl, fun ps => rfl⟩

theorem exists_pieces (cs : List Char) :
    ∃ qs, (∀ ts ps, (cs.flatMap Value.escapeChar).foldlM step? ⟨ts, .text ps⟩ =
        some ⟨ts, .text (qs.reverse ++ ps)⟩) ∧ decodePieces qs = some cs := by
  induction cs with
  | nil => exact ⟨[], fun _ _ => rfl, rfl⟩
  | cons c cs ih =>
    obtain ⟨p, hp, hd⟩ := exists_piece c
    obtain ⟨qs, hqs, hds⟩ := ih
    refine ⟨p :: qs, fun ts ps => ?_, ?_⟩
    · rw [List.flatMap_cons, List.foldlM_append, hp, List.reverse_cons, List.append_assoc]
      exact hqs ts (p :: ps)
    · rw [hd, hds]
      rfl

theorem cuts_quoted (s : String) : Cuts (Value.quoted s) [.text (some s)] := by
  refine cuts_of_between fun ts => ?_
  obtain ⟨qs, hqs, hd⟩ := exists_pieces s.toList
  have hclose : step? ⟨ts, .text (qs.reverse ++ [])⟩ '"' =
      some ⟨.text (some s) :: ts, .between⟩ := by
    have hs : (decodePieces (qs.reverse ++ []).reverse).map String.ofList = some s := by
      rw [List.append_nil, List.reverse_reverse, hd]
      exact congrArg some String.ofList_toList
    simp only [step?, hs]
    rfl
  have hopen : step? ⟨ts, .between⟩ '"' = some ⟨ts, .text []⟩ := rfl
  rw [Value.quoted, List.cons_append, List.foldlM_cons, hopen]
  change ((s.toList.flatMap Value.escapeChar ++ ['"']).foldlM step? ⟨ts, .text []⟩) = _
  rw [List.foldlM_append, hqs]
  change (step? ⟨ts, .text (qs.reverse ++ [])⟩ '"' >>= [].foldlM step?) = _
  rw [hclose]
  rfl

end Lexer

end Backprop.Json
