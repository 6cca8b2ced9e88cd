import NexusMove.Lib.Bytes

/-!
# Prefix codes

An encoding without a decoder: what an encoding followed by anything says about
the encoded value. Concatenations of encodings are then read back by counting
them, or by where the input ends.

* `PrefixCode` — encodings followed by anything determine the value.
* `PrefixCode.flatMap` — a concatenation of a known number of encodings.
* `PrefixCode.flatMap_of_delimited`, `PrefixCode.flatMap_injective` — a concatenation
  up to something else, or up to the end of the input.
* `prefixCode_withLength`, `append_cons_inj_of_delimited` — byte strings with
  their length in front, and strings that end at the first foreign symbol.
-/

/-- The encodings of values with `P`, followed by anything, determine the value and the rest. -/
def PrefixCode {α β : Type} (P : α → Prop) (enc : α → List β) : Prop :=
  ∀ ⦃a b : α⦄ ⦃x y : List β⦄, P a → P b → enc a ++ x = enc b ++ y → a = b ∧ x = y

namespace PrefixCode

variable {α β : Type} {P : α → Prop} {enc : α → List β}

theorem injective (h : PrefixCode P enc) {a b : α} (ha : P a) (hb : P b) (heq : enc a = enc b) :
    a = b :=
  (h (x := []) (y := []) ha hb (by rw [heq])).1

/-- The first of several encodings. -/
theorem flatMap_cons_inj (h : PrefixCode P enc) {a b : α} {as bs : List α} {x y : List β} (ha : P a)
    (hb : P b) (heq : (a :: as).flatMap enc ++ x = (b :: bs).flatMap enc ++ y) :
    a = b ∧ as.flatMap enc ++ x = bs.flatMap enc ++ y := by
  rw [List.flatMap_cons, List.flatMap_cons, List.append_assoc, List.append_assoc] at heq
  exact h ha hb heq

/-- **Counted concatenation.** As many encodings, followed by anything, are of the same values. -/
theorem flatMap (h : PrefixCode P enc) {as bs : List α} {x y : List β} (ha : ∀ a ∈ as, P a)
    (hb : ∀ b ∈ bs, P b) (hlen : as.length = bs.length)
    (heq : as.flatMap enc ++ x = bs.flatMap enc ++ y) : as = bs ∧ x = y := by
  induction as generalizing bs with
  | nil =>
    obtain rfl : bs = [] := List.eq_nil_of_length_eq_zero hlen.symm
    exact ⟨rfl, heq⟩
  | cons a as ih =>
    cases bs with
    | nil => cases hlen
    | cons b bs =>
      rw [List.forall_mem_cons] at ha hb
      obtain ⟨rfl, htail⟩ := h.flatMap_cons_inj ha.1 hb.1 heq
      have hlen' : as.length = bs.length := Nat.succ.inj hlen
      obtain ⟨rfl, hrest⟩ := ih ha.2 hb.2 hlen' htail
      exact ⟨rfl, hrest⟩

/-- **Delimited concatenation.** Encodings followed by something no encoding begins. -/
theorem flatMap_of_delimited (h : PrefixCode P enc) {as bs : List α} {x y : List β}
    (ha : ∀ a ∈ as, P a) (hb : ∀ b ∈ bs, P b) (hx : ∀ b, P b → ¬ enc b <+: x)
    (hy : ∀ a, P a → ¬ enc a <+: y) (heq : as.flatMap enc ++ x = bs.flatMap enc ++ y) :
    as = bs ∧ x = y := by
  induction as generalizing bs with
  | nil =>
    cases bs with
    | nil => exact ⟨rfl, heq⟩
    | cons b bs =>
      -- one list goes on where the other has ended: an encoding would begin what follows it
      simp only [List.flatMap_nil, List.nil_append, List.flatMap_cons, List.append_assoc] at heq
      exact absurd (heq ▸ List.prefix_append _ _) (hx b (hb b List.mem_cons_self))
  | cons a as ih =>
    cases bs with
    | nil =>
      simp only [List.flatMap_nil, List.nil_append, List.flatMap_cons, List.append_assoc] at heq
      exact absurd (heq ▸ List.prefix_append _ _) (hy a (ha a List.mem_cons_self))
    | cons b bs =>
      rw [List.forall_mem_cons] at ha hb
      obtain ⟨rfl, htail⟩ := h.flatMap_cons_inj ha.1 hb.1 heq
      obtain ⟨rfl, hrest⟩ := ih ha.2 hb.2 htail
      exact ⟨rfl, hrest⟩

/-- **Whole concatenation.** Encodings that take up the whole input are of the same values. -/
theorem flatMap_injective (h : PrefixCode P enc) (hne : ∀ a, P a → enc a ≠ []) {as bs : List α}
    (ha : ∀ a ∈ as, P a) (hb : ∀ b ∈ bs, P b) (heq : as.flatMap enc = bs.flatMap enc) :
    as = bs :=
  have hnil : ∀ a, P a → ¬ enc a <+: [] := fun a ha hp => hne a ha (List.prefix_nil.mp hp)
  (h.flatMap_of_delimited (x := []) (y := []) ha hb hnil hnil (by simpa using heq)).1

end PrefixCode

theorem leBytes_append_inj {k m n : Nat} {x y : Bytes} (hm : m < 256 ^ k) (hn : n < 256 ^ k)
    (h : leBytes k m ++ x = leBytes k n ++ y) : m = n ∧ x = y := by
  obtain ⟨hle, hrest⟩ := List.append_inj h (by simp)
  exact ⟨leBytes_inj hm hn hle, hrest⟩

theorem prefixCode_withLength (k : Nat) :
    PrefixCode (fun bs : Bytes => bs.length < 256 ^ k) fun bs => leBytes k bs.length ++ bs := by
  intro a b x y ha hb h
  simp only [List.append_assoc] at h
  obtain ⟨hlen, h⟩ := leBytes_append_inj ha hb h
  exact List.append_inj h hlen

/-- Strings over one set of symbols that a symbol outside it ends. -/
theorem append_cons_inj_of_delimited {β : Type} {p : β → Prop} {s t x y : List β} {b c : β}
    (hs : ∀ d ∈ s, p d) (ht : ∀ d ∈ t, p d) (hb : ¬ p b) (hc : ¬ p c)
    (h : s ++ b :: x = t ++ c :: y) : s = t ∧ b = c ∧ x = y := by
  induction s generalizing t with
  | nil =>
    cases t with
    | nil => simpa using h
    | cons d t =>
      -- the foreign symbol of one string would be a symbol of the other
      obtain ⟨rfl, -⟩ : b = d ∧ x = t ++ c :: y := by simpa using h
      exact absurd (ht b List.mem_cons_self) hb
  | cons d s ih =>
    cases t with
    | nil =>
      obtain ⟨rfl, -⟩ : d = c ∧ s ++ b :: x = y := by simpa using h
      exact absurd (hs d List.mem_cons_self) hc
    | cons e t =>
      obtain ⟨rfl, htail⟩ : d = e ∧ s ++ b :: x = t ++ c :: y := by simpa using h
      obtain ⟨rfl, hbc⟩ := ih (fun a ha => hs a (List.mem_cons_of_mem _ ha))
        (fun a ha => ht a (List.mem_cons_of_mem _ ha)) htail
      exact ⟨rfl, hbc⟩
