import Mathlib.Logic.Basic

/-!
# Capped arithmetic

Numbers that stop at a bound instead of growing past it. A sum or a product of capped
numbers, capped again, is the exact sum or product, capped once: where along the way
the bound was reached makes no difference. A value that is folded up by capped
additions is therefore the cap of one exact total.

* `Saturating.cap_add_cap`, `Saturating.cap_mul_cap` — inner caps can be dropped.
* `Saturating.total` — the exact total of a list.
* `Saturating.foldl_cap` — capped additions, one after another, cap the total once.
-/

namespace Saturating

variable {bound : Nat}

/-- `n`, or the bound where `n` is above it. -/
def cap (bound n : Nat) : Nat := min n bound

theorem cap_le (n : Nat) : cap bound n ≤ bound := Nat.min_le_right n bound

theorem cap_of_le {n : Nat} (h : n ≤ bound) : cap bound n = n := Nat.min_eq_left h

theorem cap_mono {m n : Nat} (h : m ≤ n) : cap bound m ≤ cap bound n := by
  unfold cap
  omega

theorem cap_cap_add (m n : Nat) : cap bound (cap bound m + n) = cap bound (m + n) := by
  unfold cap
  omega

theorem cap_add_cap (m n : Nat) : cap bound (m + cap bound n) = cap bound (m + n) := by
  unfold cap
  omega

/-- A sum of three, capped after every addition. -/
theorem cap_add_add (l m n : Nat) :
    cap bound (cap bound (l + cap bound m) + cap bound n) = cap bound (l + m + n) := by
  rw [cap_add_cap (cap bound (l + cap bound m)) n, cap_add_cap l m, cap_cap_add (l + m) n]

theorem cap_mul_cap (k n : Nat) : cap bound (k * cap bound n) = cap bound (k * n) := by
  by_cases hn : n ≤ bound
  · rw [cap_of_le hn]
  · have hcap : cap bound n = bound := Nat.min_eq_right (by omega)
    rw [hcap]
    -- above the bound, a factor of at least one keeps the product there
    cases k with
    | zero => rw [Nat.zero_mul, Nat.zero_mul]
    | succ k =>
      have hbound : bound ≤ (k + 1) * bound := Nat.le_mul_of_pos_left bound (Nat.succ_pos k)
      have hproduct : (k + 1) * bound ≤ (k + 1) * n := Nat.mul_le_mul_left _ (by omega)
      unfold cap
      omega

/-- Which capped numbers a limit below the bound lets through. -/
theorem cap_le_iff {n limit : Nat} (h : limit < bound) : cap bound n ≤ limit ↔ n ≤ limit := by
  unfold cap
  omega

section Total

variable {α : Type} (size : α → Nat)

def total : List α → Nat
  | [] => 0
  | a :: as => size a + total as

@[simp] theorem total_nil : total size [] = 0 := rfl

@[simp] theorem total_cons (a : α) (as : List α) : total size (a :: as) = size a + total size as :=
  rfl

@[simp] theorem total_append (as bs : List α) :
    total size (as ++ bs) = total size as + total size bs := by
  induction as with
  | nil => simp
  | cons a as ih => rw [List.cons_append, total_cons, total_cons, ih, Nat.add_assoc]

variable {size}

theorem le_total_of_mem {a : α} {as : List α} (h : a ∈ as) : size a ≤ total size as := by
  induction h with
  | head as => exact Nat.le_add_right _ _
  | tail b _ ih => exact Nat.le_trans ih (Nat.le_add_left _ _)

/-- **Folding.** Capped additions, one after another, cap the total once. `val` reads a state of the
fold as a number, which each step caps. -/
theorem foldl_cap {β : Type} (val : β → Nat) {step : β → α → β} {s : β}
    (hstep : ∀ t a, val (step t a) = cap bound (val t + size a)) (hs : val s ≤ bound)
    (as : List α) : val (as.foldl step s) = cap bound (val s + total size as) := by
  induction as generalizing s with
  | nil => rw [List.foldl_nil, total_nil, Nat.add_zero, cap_of_le hs]
  | cons a as ih =>
    have hnext : val (step s a) ≤ bound := by
      rw [hstep]
      exact cap_le _
    rw [List.foldl_cons, ih hnext, hstep, cap_cap_add, total_cons, Nat.add_assoc]

end Total

end Saturating
