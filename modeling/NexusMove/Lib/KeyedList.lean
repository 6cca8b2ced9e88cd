import Mathlib.Data.List.Nodup

/-!
# Lists with one entry a key

A list whose entries have keys, kept so that no key occurs twice: a new entry takes the place
of the one with its key, or goes to the end.

* `KeyedList.upsert` — the operation.
* `KeyedList.mem_upsertAll` — what a list holds after some of them: the last entry of a key.
-/

namespace KeyedList

variable {α κ : Type} [DecidableEq κ] {key : α → κ} {l xs : List α} {x e : α}

/-- Puts `x` in the place of the first entry with its key, or at the end. -/
def upsert (key : α → κ) (x : α) : List α → List α
  | [] => [x]
  | y :: l => if key y = key x then x :: l else y :: upsert key x l

theorem map_upsert_of_mem (h : key x ∈ l.map key) : (upsert key x l).map key = l.map key := by
  induction l with
  | nil => cases h
  | cons y l ih =>
    rw [upsert]
    split_ifs with hy
    · rw [List.map_cons, List.map_cons, hy]
    · have hrest : key x ∈ l.map key := by
        rcases List.mem_cons.mp h with heq | hrest
        · exact absurd heq.symm hy
        · exact hrest
      rw [List.map_cons, List.map_cons, ih hrest]

theorem upsert_of_not_mem (h : key x ∉ l.map key) : upsert key x l = l ++ [x] := by
  induction l with
  | nil => rfl
  | cons y l ih =>
    rw [List.map_cons] at h
    have hy : key y ≠ key x := (List.ne_of_not_mem_cons h).symm
    rw [upsert, if_neg hy, ih (List.not_mem_of_not_mem_cons h), List.cons_append]

/-- No key occurs twice afterwards. -/
theorem nodup_upsert (h : (l.map key).Nodup) : ((upsert key x l).map key).Nodup := by
  by_cases hmem : key x ∈ l.map key
  · rwa [map_upsert_of_mem hmem]
  · rw [upsert_of_not_mem hmem, List.map_append]
    refine List.nodup_append.mpr ⟨h, List.nodup_singleton _, ?_⟩
    intro k hk k' hk' heq
    obtain rfl : k' = key x := List.mem_singleton.mp hk'
    exact hmem (heq ▸ hk)

/-- The new entry, and the others that do not have its key. -/
theorem mem_upsert (h : (l.map key).Nodup) :
    e ∈ upsert key x l ↔ e = x ∨ e ∈ l ∧ key e ≠ key x := by
  induction l with
  | nil => simp [upsert]
  | cons y l ih =>
    obtain ⟨hy, hl⟩ := List.nodup_cons.mp h
    rw [upsert]
    split_ifs with heq
    · -- the entries after the one replaced have other keys
      have hother : ∀ e ∈ l, key e ≠ key x := by
        intro e he hkey
        exact hy (heq.trans hkey.symm ▸ List.mem_map_of_mem he)
      rw [List.mem_cons, List.mem_cons]
      constructor
      · rintro (rfl | he)
        · exact .inl rfl
        · exact .inr ⟨.inr he, hother e he⟩
      · rintro (rfl | ⟨rfl | he, hkey⟩)
        · exact .inl rfl
        · exact absurd heq hkey
        · exact .inr he
    · rw [List.mem_cons, ih hl, List.mem_cons]
      constructor
      · rintro (rfl | rfl | ⟨he, hkey⟩)
        · exact .inr ⟨.inl rfl, heq⟩
        · exact .inl rfl
        · exact .inr ⟨.inr he, hkey⟩
      · rintro (rfl | ⟨rfl | he, hkey⟩)
        · exact .inr (.inl rfl)
        · exact .inl rfl
        · exact .inr (.inr ⟨he, hkey⟩)

/-- One after the other. -/
def upsertAll (key : α → κ) (l xs : List α) : List α := xs.foldl (fun l x => upsert key x l) l

/-- The last entry of a key. -/
def lastWith (key : α → κ) (k : κ) (xs : List α) : Option α :=
  (xs.filter fun x => key x = k).getLast?

theorem lastWith_cons (k : κ) (x : α) (xs : List α) :
    lastWith key k (x :: xs) = (lastWith key k xs).or (if key x = k then some x else none) := by
  unfold lastWith
  by_cases hk : key x = k
  · rw [List.filter_cons_of_pos (by simpa using hk), List.getLast?_cons, if_pos hk]
    cases (xs.filter fun x => key x = k).getLast? <;> rfl
  · rw [List.filter_cons_of_neg (by simpa using hk), if_neg hk, Option.or_none]

theorem nodup_upsertAll (h : (l.map key).Nodup) : ((upsertAll key l xs).map key).Nodup := by
  induction xs generalizing l with
  | nil => exact h
  | cons x xs ih => exact ih (nodup_upsert h)

/-- **What a list holds.** Of each key the last entry that was put in, or the one from the start. -/
theorem mem_upsertAll (h : (l.map key).Nodup) :
    e ∈ upsertAll key l xs ↔
      lastWith key (key e) xs = some e ∨ lastWith key (key e) xs = none ∧ e ∈ l := by
  -- by induction on what is put in, whatever the list was before
  induction xs generalizing l with
  | nil => simp [upsertAll, lastWith]
  | cons x xs ih =>
    have hstep : upsertAll key l (x :: xs) = upsertAll key (upsert key x l) xs := rfl
    rw [hstep, ih (nodup_upsert h), mem_upsert h, lastWith_cons]
    cases hlast : lastWith key (key e) xs with
    | some y => simp
    | none =>
      -- no later entry has the key, so `x` counts if it has it
      by_cases hkey : key x = key e
      · -- only `x` has the key
        simp [hkey, eq_comm]
      · have hne : e ≠ x := fun heq => hkey (by rw [heq])
        simp [hkey, hne, Ne.symm hkey]

end KeyedList
