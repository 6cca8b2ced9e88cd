import NexusMove.Lib.KeyedList

/-!
# Bags

A bag keeps how often each of its elements is in it, and nothing of what is not in it.

* `Bag.add`, `Bag.remove` — the two operations; an element that is not there cannot be removed.
* `Bag.count_add`, `Bag.count_of_remove`, `Bag.remove_eq_none` — what they do to the counts.
-/

/-- The elements with their numbers, each element once and no number zero. -/
structure Bag (κ : Type) where
  entries : List (κ × Nat)
  keys : (entries.map Prod.fst).Nodup
  pos : ∀ e ∈ entries, 0 < e.2

namespace Bag

variable {κ : Type} [DecidableEq κ] {b b' : Bag κ} {x y : κ} {n : Nat}

def empty : Bag κ where
  entries := []
  keys := List.nodup_nil
  pos := by simp

/-- How often `x` is in the bag. -/
def count (b : Bag κ) (x : κ) : Nat := ((b.entries.find? fun e => e.1 = x).map Prod.snd).getD 0

/-- The bag in which `x` is `n` times. -/
def put (b : Bag κ) (x : κ) (n : Nat) (hn : 0 < n) : Bag κ where
  entries := KeyedList.upsert Prod.fst (x, n) b.entries
  keys := KeyedList.nodup_upsert b.keys
  pos e he := by
    rcases (KeyedList.mem_upsert b.keys).mp he with rfl | ⟨he, -⟩
    · exact hn
    · exact b.pos e he

/-- The bag without `x`. -/
def drop (b : Bag κ) (x : κ) : Bag κ where
  entries := b.entries.filter fun e => e.1 ≠ x
  keys := (List.filter_sublist.map Prod.fst).nodup b.keys
  pos e he := b.pos e (List.mem_filter.mp he).1

def add (b : Bag κ) (x : κ) : Bag κ := b.put x (b.count x + 1) (Nat.succ_pos _)

/-- One less of `x`; the entry goes with the last one. -/
def remove (b : Bag κ) (x : κ) : Option (Bag κ) :=
  if h : 1 < b.count x then some (b.put x (b.count x - 1) (by omega))
  else if b.count x = 1 then some (b.drop x)
  else none

/-! ## Counts -/

theorem count_of_mem (h : (x, n) ∈ b.entries) : b.count x = n := by
  cases hfind : b.entries.find? fun e => e.1 = x with
  | none =>
    have hne := List.find?_eq_none.mp hfind _ h
    simp at hne
  | some e =>
    have hkey : e.1 = x := by simpa using List.find?_some hfind
    have heq : e = (x, n) :=
      List.inj_on_of_nodup_map b.keys (List.mem_of_find?_eq_some hfind) h hkey
    rw [count, hfind, heq]
    rfl

theorem count_of_not_mem (h : ∀ n, (x, n) ∉ b.entries) : b.count x = 0 := by
  cases hfind : b.entries.find? fun e => e.1 = x with
  | none =>
    rw [count, hfind]
    rfl
  | some e =>
    obtain ⟨y, n⟩ := e
    obtain rfl : y = x := by simpa using List.find?_some hfind
    exact absurd (List.mem_of_find?_eq_some hfind) (h n)

/-- Two bags count alike where they have the same entries. -/
theorem count_congr (h : ∀ n, (y, n) ∈ b'.entries ↔ (y, n) ∈ b.entries) :
    b'.count y = b.count y := by
  by_cases hmem : ∃ n, (y, n) ∈ b.entries
  · obtain ⟨n, hn⟩ := hmem
    rw [count_of_mem hn, count_of_mem ((h n).mpr hn)]
  · have hnone : ∀ n, (y, n) ∉ b.entries := fun n hn => hmem ⟨n, hn⟩
    rw [count_of_not_mem hnone, count_of_not_mem fun n hn => hnone n ((h n).mp hn)]

@[simp] theorem count_empty : (empty : Bag κ).count x = 0 := rfl

@[simp] theorem count_put_self (hn : 0 < n) : (b.put x n hn).count x = n :=
  count_of_mem ((KeyedList.mem_upsert b.keys).mpr (.inl rfl))

theorem count_put_of_ne (hn : 0 < n) (h : y ≠ x) : (b.put x n hn).count y = b.count y := by
  apply count_congr
  intro k
  show (y, k) ∈ KeyedList.upsert Prod.fst (x, n) b.entries ↔ _
  rw [KeyedList.mem_upsert b.keys]
  constructor
  · rintro (heq | ⟨hk, -⟩)
    · exact absurd (Prod.mk.inj heq).1 h
    · exact hk
  · exact fun hk => .inr ⟨hk, h⟩

theorem mem_drop : (y, n) ∈ (b.drop x).entries ↔ (y, n) ∈ b.entries ∧ y ≠ x := by
  show (y, n) ∈ b.entries.filter _ ↔ _
  rw [List.mem_filter]
  simp

@[simp] theorem count_drop_self : (b.drop x).count x = 0 :=
  count_of_not_mem fun _ h => (mem_drop.mp h).2 rfl

theorem count_drop_of_ne (h : y ≠ x) : (b.drop x).count y = b.count y :=
  count_congr fun _ => mem_drop.trans (and_iff_left h)

@[simp] theorem count_add : (b.add x).count y = if y = x then b.count y + 1 else b.count y := by
  by_cases h : y = x
  · rw [if_pos h, h]
    exact count_put_self _
  · rw [if_neg h]
    exact count_put_of_ne _ h

/-- Only what is not there cannot be taken out. -/
theorem remove_eq_none : b.remove x = none ↔ b.count x = 0 := by
  unfold remove
  split
  · simp
    omega
  · split
    · simp
      omega
    · simp
      omega

/-- Taking out is the opposite of adding. -/
theorem count_of_remove (h : b.remove x = some b') :
    b'.count y = if y = x then b.count y - 1 else b.count y := by
  unfold remove at h
  split at h
  · obtain rfl := Option.some.inj h
    by_cases hy : y = x
    · rw [if_pos hy, hy]
      exact count_put_self _
    · rw [if_neg hy]
      exact count_put_of_ne _ hy
  · split at h
    · rename_i hone
      obtain rfl := Option.some.inj h
      by_cases hy : y = x
      · rw [if_pos hy, hy, count_drop_self, hone]
      · rw [if_neg hy, count_drop_of_ne hy]
    · cases h

end Bag
