import Mathlib

namespace List

variable {α β : Type} [BEq α] [LawfulBEq α] {key : α}

section Pairs

variable {pairs pairs' : List (α × β)} {v : β}

theorem lookup_eq_some_iff_mem (h : (pairs.map (·.1)).Nodup) :
    pairs.lookup key = some v ↔ (key, v) ∈ pairs := by
  rw [lookup_eq_some_iff]
  constructor
  · rintro ⟨front, back, rfl, _⟩
    exact mem_append_right _ mem_cons_self
  · intro hmem
    obtain ⟨front, back, rfl⟩ := append_of_mem hmem
    refine ⟨front, back, rfl, fun p hp => bne_iff_ne.2 ?_⟩
    rintro rfl
    rw [map_append, map_cons, nodup_middle, nodup_cons, mem_append] at h
    exact h.1 (.inl (mem_map.2 ⟨p, hp, rfl⟩))

theorem lookup_perm (h : (pairs.map (·.1)).Nodup) (hp : pairs.Perm pairs') :
    pairs.lookup key = pairs'.lookup key := by
  have h' : (pairs'.map (·.1)).Nodup := (hp.map _).nodup_iff.1 h
  apply Option.ext
  intro v
  rw [lookup_eq_some_iff_mem h, lookup_eq_some_iff_mem h', hp.mem_iff]

end Pairs

variable {keys : List α} {values : List β} {k : Nat}

omit [LawfulBEq α] in
theorem idxOf?_append (xs ys : List α) (x : α) :
    (xs ++ ys).idxOf? x = (xs.idxOf? x).or ((ys.idxOf? x).map (· + xs.length)) :=
  findIdx?_append

theorem lookup_zip (keys : List α) (values : List β) (key : α) :
    (keys.zip values).lookup key = (keys.idxOf? key).bind fun i => values[i]? := by
  induction keys generalizing values with
  | nil => rfl
  | cons x keys ih =>
    cases values with
    | nil => simp
    | cons v values =>
      rw [zip_cons_cons, lookup_cons, idxOf?_cons]
      by_cases hx : x = key
      · simp [hx]
      · have hne : (key == x) = false := beq_false_of_ne (Ne.symm hx)
        have hne' : (x == key) = false := beq_false_of_ne hx
        simp [hne, hne', ih, Option.bind_map]

/-- A key that is put in with its value is not found if it is another key, or if it stands further to
the front already. -/
theorem lookup_zip_insertIdx {x : α} (h : key = x → x ∈ keys.take k) (values : List β) (v : β) :
    ((keys.insertIdx k x).zip (values.insertIdx k v)).lookup key =
      (keys.zip values).lookup key := by
  induction k generalizing keys values with
  | zero =>
    have hne : (key == x) = false := beq_false_of_ne fun hx => not_mem_nil (h hx)
    simp [lookup_cons, hne]
  | succ k ih =>
    cases keys with
    | nil => simp
    | cons y keys =>
      cases values with
      | nil => simp
      | cons w values =>
        rw [insertIdx_succ_cons, insertIdx_succ_cons, zip_cons_cons, zip_cons_cons, lookup_cons,
          lookup_cons]
        by_cases hy : key = y
        · simp [hy]
        · have hkeys : key = x → x ∈ keys.take k := by
            rintro rfl
            rw [take_succ_cons, mem_cons] at h
            exact (h rfl).resolve_left hy
          simp [ih hkeys]

end List
