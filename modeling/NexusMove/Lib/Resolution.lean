import Mathlib.Data.List.Flatten

/-!
# Values with references

A value may have references in it that stand for something else. Two ways to resolve them
may take different values to one. Where they do, the values have the same form, and the
references, in order, are all that can differ.

* `Resolution.Formal` — what is left of a value when its references are resolved is its form.
* `Resolution.Formal.list` — lists of such values, reference by reference.
-/

namespace Resolution

variable {α β ι : Type}

/-- Values that resolve to one value have as many references, and are the same if these are. -/
structure Formal (m n : α → β) (refs : α → List ι) : Prop where
  length_eq : ∀ a b, m a = n b → (refs a).length = (refs b).length
  eq_of_refs : ∀ a b, m a = n b → refs a = refs b → a = b

/-- **Lists.** The references of a list are cut where those of its elements end. -/
theorem Formal.list {m n : α → β} {refs : α → List ι} (h : Formal m n refs) :
    Formal (List.map m) (List.map n) (List.flatMap refs) where
  length_eq := by
    intro as bs hmap
    induction as generalizing bs with
    | nil =>
      obtain rfl : bs = [] := List.map_eq_nil_iff.mp hmap.symm
      rfl
    | cons a as ih =>
      cases bs with
      | nil => cases hmap
      | cons b bs =>
        obtain ⟨hab, htail⟩ := List.cons.inj hmap
        rw [List.flatMap_cons, List.flatMap_cons, List.length_append, List.length_append,
          h.length_eq a b hab, ih bs htail]
  eq_of_refs := by
    intro as bs hmap hrefs
    induction as generalizing bs with
    | nil => exact (List.map_eq_nil_iff.mp hmap.symm).symm
    | cons a as ih =>
      cases bs with
      | nil => cases hmap
      | cons b bs =>
        obtain ⟨hab, htail⟩ := List.cons.inj hmap
        rw [List.flatMap_cons, List.flatMap_cons] at hrefs
        obtain ⟨hhead, hrest⟩ := List.append_inj hrefs (h.length_eq a b hab)
        rw [h.eq_of_refs a b hab hhead, ih bs htail hrest]

end Resolution
