import Mathlib.Data.List.Basic
import Mathlib.Data.List.Range

/-!
# Numbered logs

A log of entries, each carrying the key of its stream and a number. The log has no
gaps if every stream is numbered from zero in the order of the log; an entry keeps
it so if its number is the length of its stream.

* `numbers` — the numbers of one stream, in order.
* `GapFree.append` — one more entry.
-/

namespace NumberedLog

variable {κ : Type} [DecidableEq κ]

def numbers (log : List (κ × Nat)) (k : κ) : List Nat :=
  (log.filter fun entry => entry.1 = k).map Prod.snd

def count (log : List (κ × Nat)) (k : κ) : Nat := (numbers log k).length

/-- Every stream is numbered `0, 1, 2, …`. -/
def GapFree (log : List (κ × Nat)) : Prop := ∀ k, numbers log k = List.range (count log k)

variable {log : List (κ × Nat)} {k j : κ} {n : Nat}

theorem numbers_append_self : numbers (log ++ [(k, n)]) k = numbers log k ++ [n] := by
  simp [numbers]

theorem numbers_append_of_ne (h : j ≠ k) : numbers (log ++ [(j, n)]) k = numbers log k := by
  simp [numbers, h]

theorem count_append_self : count (log ++ [(k, n)]) k = count log k + 1 := by
  rw [count, numbers_append_self, List.length_append]
  rfl

theorem count_append_of_ne (h : j ≠ k) : count (log ++ [(j, n)]) k = count log k := by
  rw [count, numbers_append_of_ne h, count]

theorem gapFree_nil : GapFree ([] : List (κ × Nat)) := fun _ => rfl

/-- **One more entry.** A log without gaps stays so when an entry is numbered by the length of its
stream. -/
theorem GapFree.append (h : GapFree log) (hn : n = count log k) : GapFree (log ++ [(k, n)]) := by
  intro j
  by_cases hj : k = j
  · subst hj
    rw [numbers_append_self, count_append_self, List.range_succ, h k, hn]
  · rw [numbers_append_of_ne hj, count_append_of_ne hj, h j]

end NumberedLog
