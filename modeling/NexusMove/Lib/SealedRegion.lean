import Mathlib.Logic.Function.Basic

/-!
# Sealed regions of a heap

A heap is a row of numbered cells, each with a list of values. A value holds other
cells in two ways: it owns a cell, or it borrows one under a tag. A region is
sealed if its cells own nothing but cells of the region, and whoever stands
outside holds a cell of the region only as a borrower under the region's own tag.

An operation that never uses a borrow under that tag cannot touch the region: it
writes outside, allocates, or borrows on from what it holds, and each of these
keeps the seal and every cell inside.

* `Region.Sealed.write`, `Region.Sealed.alloc` — the two ways a heap changes.
* `Region.Admits.reborrow` — a part of what is borrowed, borrowed under the same tag.
* `Region.sealed_fresh` — cells that were allocated together are a sealed region.
-/

/-- How a value holds a cell. -/
inductive Hold (τ : Type) where
  | owns (cell : Nat)
  | borrows (cell : Nat) (tag : τ)

def Hold.cell {τ : Type} : Hold τ → Nat
  | owns c => c
  | borrows c _ => c

/-- Cells that are allocated in order, and hold lists of values. -/
structure Heap (V : Type) where
  next : Nat
  cell : Nat → List V

namespace Heap

variable {V : Type} (H : Heap V)

def empty : Heap V where
  next := 0
  cell _ := []

def write (c : Nat) (vs : List V) : Heap V := { H with cell := Function.update H.cell c vs }

def alloc (vs : List V) : Heap V where
  next := H.next + 1
  cell := Function.update H.cell H.next vs

@[simp] theorem next_write (c : Nat) (vs : List V) : (H.write c vs).next = H.next := rfl

@[simp] theorem next_alloc (vs : List V) : (H.alloc vs).next = H.next + 1 := rfl

@[simp] theorem cell_write_self (c : Nat) (vs : List V) : (H.write c vs).cell c = vs :=
  Function.update_self ..

theorem cell_write_of_ne {c d : Nat} (h : d ≠ c) (vs : List V) :
    (H.write c vs).cell d = H.cell d :=
  Function.update_of_ne h ..

@[simp] theorem cell_alloc_self (vs : List V) : (H.alloc vs).cell H.next = vs :=
  Function.update_self ..

theorem cell_alloc_of_ne {d : Nat} (h : d ≠ H.next) (vs : List V) :
    (H.alloc vs).cell d = H.cell d :=
  Function.update_of_ne h ..

end Heap

/-- Some cells of a heap, and the tag under which they are lent. -/
structure Region (τ : Type) where
  cells : Nat → Prop
  tag : τ

namespace Region

variable {V τ : Type} (holds : V → List (Hold τ)) (R : Region τ)

/-- What may be held outside of the region in a heap of `n` cells. -/
def Admits (n : Nat) (h : Hold τ) : Prop :=
  h.cell < n ∧ (R.cells h.cell → h = .borrows h.cell R.tag)

/-- A value that may stand outside of the region. -/
def Outside (n : Nat) (v : V) : Prop := ∀ h ∈ holds v, R.Admits n h

/-- A value that may stand inside: it owns cells of the region and holds nothing else. -/
def Inside (v : V) : Prop := ∀ h ∈ holds v, ∃ d, R.cells d ∧ h = .owns d

/-- The region is allocated and closed, and nothing outside of it holds a cell of it, save under its
own tag. -/
structure Sealed (H : Heap V) : Prop where
  allocated : ∀ c, R.cells c → c < H.next
  inside : ∀ c, R.cells c → ∀ v ∈ H.cell c, R.Inside holds v
  outside : ∀ c, ¬ R.cells c → ∀ v ∈ H.cell c, R.Outside holds H.next v

variable {holds R} {H : Heap V}

/-! ## What is held -/

/-- What a smaller heap admits, a larger one does. -/
theorem Admits.mono {n m : Nat} (hnm : n ≤ m) {h : Hold τ} (hh : R.Admits n h) : R.Admits m h :=
  ⟨Nat.lt_of_lt_of_le hh.1 hnm, hh.2⟩

theorem Outside.mono {n m : Nat} (hnm : n ≤ m) {v : V} (hv : R.Outside holds n v) :
    R.Outside holds m v :=
  fun h hh => (hv h hh).mono hnm

/-- Who owns a cell from outside of the region owns none of the region. -/
theorem Admits.not_mem {n c : Nat} (h : R.Admits n (.owns c)) : ¬ R.cells c := by
  intro hc
  have hborrow := h.2 hc
  cases hborrow

theorem admits_owns {n c : Nat} (hlt : c < n) (hc : ¬ R.cells c) : R.Admits n (.owns c) :=
  ⟨hlt, fun h => absurd h hc⟩

theorem admits_borrows {n c : Nat} {t : τ} (hlt : c < n) (ht : R.cells c → t = R.tag) :
    R.Admits n (.borrows c t) := by
  refine ⟨hlt, fun hc => ?_⟩
  rw [ht hc]
  rfl

/-- A borrow of a cell of the region is under the region's tag. -/
theorem Admits.tag_eq {n c : Nat} {t : τ} (h : R.Admits n (.borrows c t)) (hc : R.cells c) :
    t = R.tag :=
  (Hold.borrows.inj (h.2 hc)).2

/-- The holds of a value outside that is a single hold. -/
theorem outside_of_holds_singleton {n : Nat} {v : V} {h : Hold τ} (hv : holds v = [h])
    (hh : R.Admits n h) : R.Outside holds n v := by
  intro h' hmem
  rw [hv, List.mem_singleton] at hmem
  rw [hmem]
  exact hh

theorem outside_of_holds_nil {n : Nat} {v : V} (hv : holds v = []) : R.Outside holds n v := by
  intro h hmem
  rw [hv] at hmem
  cases hmem

theorem inside_of_holds_nil {v : V} (hv : holds v = []) : R.Inside holds v := by
  intro h hmem
  rw [hv] at hmem
  cases hmem

/-! ## What keeps the seal -/

/-- **Borrowing on.** Who borrows a cell may borrow what its values own, under the same tag. -/
theorem Admits.reborrow (hR : R.Sealed holds H) {c d : Nat} {t : τ} {v : V}
    (hc : R.Admits H.next (.borrows c t)) (hv : v ∈ H.cell c) (hd : .owns d ∈ holds v) :
    R.Admits H.next (.borrows d t) := by
  by_cases hin : R.cells c
  · obtain ⟨d', hd', heq⟩ := hR.inside c hin v hv _ hd
    obtain rfl := Hold.owns.inj heq
    exact admits_borrows (hR.allocated d hd') fun _ => hc.tag_eq hin
  · have hadm : R.Admits H.next (.owns d) := hR.outside c hin v hv _ hd
    exact admits_borrows hadm.1 fun h => absurd h hadm.not_mem

/-- **Writing.** A cell outside may be given any values that may stand outside. -/
theorem Sealed.write (hR : R.Sealed holds H) {c : Nat} (hc : ¬ R.cells c) {vs : List V}
    (hvs : ∀ v ∈ vs, R.Outside holds H.next v) : R.Sealed holds (H.write c vs) where
  allocated := hR.allocated
  inside d hd v hv := by
    have hne : d ≠ c := fun h => hc (h ▸ hd)
    rw [H.cell_write_of_ne hne] at hv
    exact hR.inside d hd v hv
  outside d hd v hv := by
    by_cases hdc : d = c
    · rw [hdc, H.cell_write_self] at hv
      exact hvs v hv
    · rw [H.cell_write_of_ne hdc] at hv
      exact hR.outside d hd v hv

/-- **Allocating.** A new cell is outside of every region there was. -/
theorem Sealed.not_mem_next (hR : R.Sealed holds H) : ¬ R.cells H.next :=
  fun h => Nat.lt_irrefl _ (hR.allocated _ h)

/-- A new cell lies outside of the region. -/
theorem Sealed.alloc (hR : R.Sealed holds H) {vs : List V}
    (hvs : ∀ v ∈ vs, R.Outside holds H.next v) : R.Sealed holds (H.alloc vs) where
  allocated c hc := Nat.lt_succ_of_lt (hR.allocated c hc)
  inside d hd v hv := by
    have hne : d ≠ H.next := fun h => hR.not_mem_next (h ▸ hd)
    rw [H.cell_alloc_of_ne hne] at hv
    exact hR.inside d hd v hv
  outside d hd v hv := by
    by_cases hdn : d = H.next
    · rw [hdn, H.cell_alloc_self] at hv
      exact (hvs v hv).mono (Nat.le_succ _)
    · rw [H.cell_alloc_of_ne hdn] at hv
      exact (hR.outside d hd v hv).mono (Nat.le_succ _)

/-! ## What stays the same -/

variable (R) in
/-- The second heap is the first one inside of the region. -/
def SameInside (H H' : Heap V) : Prop := ∀ c, R.cells c → H'.cell c = H.cell c

theorem SameInside.refl (H : Heap V) : R.SameInside H H := fun _ _ => rfl

theorem SameInside.trans {H₁ H₂ H₃ : Heap V} (h₁ : R.SameInside H₁ H₂)
    (h₂ : R.SameInside H₂ H₃) : R.SameInside H₁ H₃ :=
  fun c hc => (h₂ c hc).trans (h₁ c hc)

/-- A write outside of the region leaves its cells alone. -/
theorem sameInside_write {c : Nat} (hc : ¬ R.cells c) (vs : List V) :
    R.SameInside H (H.write c vs) := by
  intro d hd
  have hne : d ≠ c := fun h => hc (h ▸ hd)
  exact H.cell_write_of_ne hne vs

theorem Sealed.sameInside_alloc (hR : R.Sealed holds H) (vs : List V) :
    R.SameInside H (H.alloc vs) := by
  intro d hd
  have hne : d ≠ H.next := fun h => hR.not_mem_next (h ▸ hd)
  exact H.cell_alloc_of_ne hne vs

/-! ## New regions -/

/-- Nothing in a heap holds a cell that is still to come. -/
theorem outside_of_bounded {n m : Nat} {v : V} (hv : ∀ h ∈ holds v, h.cell < n)
    (hR : ∀ c, R.cells c → n ≤ c) (hnm : n ≤ m) : R.Outside holds m v := by
  intro h hh
  have hlt := hv h hh
  refine ⟨by omega, fun hc => ?_⟩
  have := hR _ hc
  omega

/-- **A new region.** The cells a heap has got, if they own each other and hold nothing else, are
a sealed region under any tag: all that was there before holds older cells. -/
theorem sealed_fresh {H' : Heap V} (hnext : H.next ≤ H'.next)
    (hR : ∀ c, R.cells c ↔ H.next ≤ c ∧ c < H'.next)
    (hold : ∀ c, ∀ v ∈ H.cell c, ∀ h ∈ holds v, h.cell < H.next)
    (hsame : ∀ c, ¬ R.cells c → H'.cell c = H.cell c)
    (hnew : ∀ c, R.cells c → ∀ v ∈ H'.cell c, R.Inside holds v) : R.Sealed holds H' where
  allocated c hc := ((hR c).mp hc).2
  inside := hnew
  outside c hc v hv := by
    rw [hsame c hc] at hv
    exact outside_of_bounded (hold c v hv) (fun c hc => ((hR c).mp hc).1) hnext

end Region
