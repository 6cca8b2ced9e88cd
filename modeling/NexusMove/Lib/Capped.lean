import Mathlib.Algebra.Order.Monoid.Unbundled.MinMax
import Mathlib.Algebra.Order.Monoid.WithTop
import NexusMove.Lib.Saturating

/-!
# Numbers up to a bound

The natural numbers up to a bound, with an addition that stops there, as machine
integers have one (`saturating_add`). They are an ordered monoid, so what Mathlib knows of
maxima and sums holds of them: a maximum of sums may be moved by a summand as a whole.
-/

/-- The numbers up to `bound`. -/
structure Capped (bound : Nat) where
  val : Nat
  le : val ≤ bound
deriving DecidableEq

namespace Capped

variable {bound : Nat}

@[ext] theorem ext {a b : Capped bound} (h : a.val = b.val) : a = b := by
  cases a
  cases b
  congr

/-- The number, or the bound where the number is above it. -/
def of (bound n : Nat) : Capped bound := ⟨Saturating.cap bound n, Saturating.cap_le n⟩

instance : Zero (Capped bound) := ⟨of bound 0⟩
instance : Add (Capped bound) := ⟨fun a b => of bound (a.val + b.val)⟩

instance : LE (Capped bound) := ⟨fun a b => a.val ≤ b.val⟩
instance : LT (Capped bound) := ⟨fun a b => a.val < b.val⟩
instance : DecidableLE (Capped bound) := fun a b => inferInstanceAs (Decidable (a.val ≤ b.val))
instance : DecidableLT (Capped bound) := fun a b => inferInstanceAs (Decidable (a.val < b.val))

theorem val_add (a b : Capped bound) : (a + b).val = Saturating.cap bound (a.val + b.val) := rfl

theorem val_zero : (0 : Capped bound).val = 0 := Nat.zero_min bound

theorem le_iff {a b : Capped bound} : a ≤ b ↔ a.val ≤ b.val := Iff.rfl

instance : LinearOrder (Capped bound) where
  le_refl a := Nat.le_refl a.val
  le_trans _ _ _ h h' := Nat.le_trans h h'
  lt_iff_le_not_ge a b := by
    show a.val < b.val ↔ a.val ≤ b.val ∧ ¬ b.val ≤ a.val
    omega
  le_antisymm _ _ h h' := ext (Nat.le_antisymm h h')
  le_total a b := Nat.le_total a.val b.val
  toDecidableLE := inferInstance
  toDecidableEq := inferInstance
  toDecidableLT := inferInstance

instance : AddCommMonoid (Capped bound) where
  add_assoc a b c := by
    apply ext
    show Saturating.cap bound (Saturating.cap bound (a.val + b.val) + c.val)
      = Saturating.cap bound (a.val + Saturating.cap bound (b.val + c.val))
    rw [Saturating.cap_cap_add, Saturating.cap_add_cap, Nat.add_assoc]
  zero_add a := by
    apply ext
    rw [val_add, val_zero, Nat.zero_add, Saturating.cap_of_le a.le]
  add_zero a := by
    apply ext
    rw [val_add, val_zero, Nat.add_zero, Saturating.cap_of_le a.le]
  add_comm a b := by
    apply ext
    rw [val_add, val_add, Nat.add_comm]
  nsmul := nsmulRec

instance : IsOrderedAddMonoid (Capped bound) where
  add_le_add_left a b h c := by
    rw [le_iff, val_add, val_add]
    exact Saturating.cap_mono (Nat.add_le_add_right h c.val)

/-- A summand may be taken from both sides as long as the greater side is below the bound. -/
theorem le_of_add_le_add {a b c : Capped bound} (hroom : b.val + c.val < bound)
    (h : a + c ≤ b + c) : a ≤ b := by
  rw [le_iff, val_add, val_add] at h
  rw [le_iff]
  unfold Saturating.cap at h
  omega

end Capped
