import NexusMove.Lib.PrefixCode

/-!
# Codes whose encodings begin with a mark

An encoding in such a code begins with a unit that starts encodings, and no other unit of it does.
A concatenation of encodings can then be cut at every unit that starts one, wherever it was found,
and what is found of one concatenation in another is found between encodings.

* `MarkedCode` — prefix codes with marks.
* `MarkedCode.boundary_iff` — the places to cut are those between encodings.
* `MarkedCode.exists_slice` — what is between two of these is a concatenation of encodings.
* `MarkedCode.occurrence` — an occurrence of encodings is one of the encoded values.
-/

structure MarkedCode {α β : Type} (isStart : β → Prop) (enc : α → List β) : Prop where
  prefixCode : PrefixCode (fun _ => True) enc
  starts : ∀ a, ∃ b bs, enc a = b :: bs ∧ isStart b ∧ ∀ c ∈ bs, ¬ isStart c

/-- The end of `s`, or a place where a unit starts an encoding. -/
def Boundary {β : Type} (isStart : β → Prop) (s : List β) (i : Nat) : Prop :=
  i = s.length ∨ ∃ b, s[i]? = some b ∧ isStart b

/-- The encoding that a place in a concatenation belongs to, and the place in it. -/
theorem flatMap_place {α β : Type} (enc : α → List β) (as : List α) {i : Nat}
    (h : i < (as.flatMap enc).length) :
    ∃ pre a post j, as = pre ++ a :: post ∧ j < (enc a).length
      ∧ i = (pre.flatMap enc).length + j := by
  induction as generalizing i with
  | nil => cases h
  | cons a as ih =>
    rw [List.flatMap_cons, List.length_append] at h
    by_cases hfirst : i < (enc a).length
    · refine ⟨[], a, as, i, rfl, hfirst, ?_⟩
      show i = 0 + i
      omega
    · have hrest : i - (enc a).length < (as.flatMap enc).length := by omega
      obtain ⟨pre, b, post, j, hsplit, hj, hi⟩ := ih hrest
      refine ⟨a :: pre, b, post, j, ?_, hj, ?_⟩
      · rw [hsplit, List.cons_append]
      · rw [List.flatMap_cons, List.length_append]
        omega

namespace MarkedCode

variable {α β : Type} {isStart : β → Prop} {enc : α → List β}

/-- Only the first unit of an encoding starts one. -/
theorem start_iff (h : MarkedCode isStart enc) (a : α) {j : Nat} {b : β}
    (hb : (enc a)[j]? = some b) : isStart b ↔ j = 0 := by
  obtain ⟨first, rest, hcons, hfirst, hrest⟩ := h.starts a
  rw [hcons] at hb
  cases j with
  | zero =>
    obtain rfl : first = b := Option.some.inj hb
    exact iff_of_true hfirst rfl
  | succ j =>
    have hmem : b ∈ rest := List.mem_of_getElem? hb
    exact iff_of_false (hrest b hmem) (Nat.succ_ne_zero j)

/-- **Places to cut.** A concatenation can be cut between two encodings, and nowhere else. -/
theorem boundary_iff (h : MarkedCode isStart enc) {as : List α} {i : Nat} :
    Boundary isStart (as.flatMap enc) i ↔
      ∃ pre post, as = pre ++ post ∧ i = (pre.flatMap enc).length := by
  apply Iff.intro
  · rintro (hend | ⟨b, hb, hstart⟩)
    · exact ⟨as, [], (List.append_nil as).symm, hend⟩
    · -- the unit is the first one of the encoding that it belongs to
      have hlt : i < (as.flatMap enc).length := (List.getElem?_eq_some_iff.mp hb).1
      obtain ⟨pre, a, post, j, hsplit, hj, hi⟩ := flatMap_place enc as hlt
      have hunit : (enc a)[j]? = some b := by
        rw [hsplit, List.flatMap_append, hi, List.getElem?_append_right (by omega),
          Nat.add_sub_cancel_left, List.flatMap_cons, List.getElem?_append_left hj] at hb
        exact hb
      have hzero : j = 0 := (h.start_iff a hunit).mp hstart
      refine ⟨pre, a :: post, hsplit, ?_⟩
      omega
  · rintro ⟨pre, post, rfl, rfl⟩
    rw [List.flatMap_append]
    cases post with
    | nil =>
      left
      rw [List.flatMap_nil, List.append_nil]
    | cons a post =>
      right
      obtain ⟨b, bs, hcons, hstart, -⟩ := h.starts a
      refine ⟨b, ?_, hstart⟩
      rw [List.getElem?_append_right (Nat.le_refl _), Nat.sub_self, List.flatMap_cons, hcons]
      rfl

/-- **Slices.** What is between two places to cut is a concatenation of encodings. -/
theorem exists_slice (h : MarkedCode isStart enc) {as : List α} {i j : Nat}
    (hi : Boundary isStart (as.flatMap enc) i) (hj : Boundary isStart (as.flatMap enc) j)
    (hij : i ≤ j) : ∃ mid : List α, ((as.flatMap enc).drop i).take (j - i) = mid.flatMap enc := by
  obtain ⟨pre, post, hsplit, rfl⟩ := h.boundary_iff.mp hi
  obtain ⟨pre', post', hsplit', rfl⟩ := h.boundary_iff.mp hj
  rcases List.append_eq_append_iff.mp (hsplit.symm.trans hsplit') with
    ⟨mid, hpre, hpost⟩ | ⟨mid, hpre, hpost⟩
  · refine ⟨mid, ?_⟩
    rw [hsplit, hpost, hpre, List.flatMap_append, List.flatMap_append, List.flatMap_append,
      List.drop_left, List.length_append, Nat.add_sub_cancel_left, List.take_left]
  · -- the second place is not before the first, so nothing is between them
    have hsame : (pre'.flatMap enc).length - (pre.flatMap enc).length = 0 := by
      rw [hpre, List.flatMap_append, List.length_append]
      omega
    refine ⟨[], ?_⟩
    rw [hsame, List.take_zero]
    rfl

/-- Encodings that a concatenation begins with are the first ones of it. -/
theorem exists_append (h : MarkedCode isStart enc) {as ds : List α} {x : List β}
    (heq : as.flatMap enc = ds.flatMap enc ++ x) :
    ∃ rest, as = ds ++ rest ∧ x = rest.flatMap enc := by
  induction ds generalizing as with
  | nil => exact ⟨as, rfl, heq.symm⟩
  | cons d ds ih =>
    cases as with
    | nil =>
      obtain ⟨b, bs, hcons, -, -⟩ := h.starts d
      rw [List.flatMap_cons, hcons] at heq
      cases heq
    | cons a as =>
      rw [List.flatMap_cons, List.flatMap_cons, List.append_assoc] at heq
      obtain ⟨rfl, htail⟩ := h.prefixCode trivial trivial heq
      obtain ⟨rest, hsplit, hx⟩ := ih htail
      exact ⟨rest, by rw [hsplit, List.cons_append], hx⟩

/-- **Occurrences.** Where some encodings are found in a concatenation, it is as encodings. -/
theorem occurrence (h : MarkedCode isStart enc) {as ds : List α} {pre post : List β}
    (hne : ds ≠ []) (heq : as.flatMap enc = pre ++ ds.flatMap enc ++ post) :
    ∃ as₁ as₂, as = as₁ ++ ds ++ as₂ ∧ pre = as₁.flatMap enc ∧ post = as₂.flatMap enc := by
  -- the first unit found starts an encoding, so what is before it can be cut off
  have hcut : Boundary isStart (as.flatMap enc) pre.length := by
    obtain ⟨d, ds', rfl⟩ := List.exists_cons_of_ne_nil hne
    obtain ⟨b, bs, hcons, hstart, -⟩ := h.starts d
    right
    refine ⟨b, ?_, hstart⟩
    rw [heq, List.append_assoc, List.getElem?_append_right (Nat.le_refl _), Nat.sub_self,
      List.flatMap_cons, hcons]
    rfl
  obtain ⟨as₁, rest, hsplit, hlength⟩ := h.boundary_iff.mp hcut
  rw [hsplit, List.flatMap_append, List.append_assoc] at heq
  obtain ⟨hpre, hrest⟩ := List.append_inj heq hlength.symm
  obtain ⟨as₂, hds, hpost⟩ := h.exists_append hrest
  refine ⟨as₁, as₂, ?_, hpre.symm, hpost⟩
  rw [hsplit, hds, List.append_assoc]

end MarkedCode
