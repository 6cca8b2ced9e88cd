import Mathlib.Data.List.DropRight

/-!
# Text by lines

The string operations that a hand-written line reader is made of: trimming at both ends,
cutting at a separator, and splitting at line ends; and searching one text for another. A text is
a list over any alphabet.

* `Text.trim_append` — what is trimmed away does not matter.
* `Text.splitOnce_append` — cutting at the first separator.
* `Text.filterMap_lines` — a reader of lines reads the lines that a text was joined from.
* `Text.find?_eq_some_iff`, `Text.firstIndex_spec` — the search finds the first occurrence.
-/

namespace Text

variable {α β : Type}

/-! ## Trimming -/

/-- `str::trim_matches`. -/
def trim (p : α → Bool) (l : List α) : List α := (l.dropWhile p).rdropWhile p

section Trim

variable {p : α → Bool} {l pre post : List α}

theorem rdropWhile_append_of_pos (hpost : ∀ a ∈ post, p a) :
    (l ++ post).rdropWhile p = l.rdropWhile p := by
  rw [List.rdropWhile, List.reverse_append, List.dropWhile_append_of_pos, List.rdropWhile]
  simpa using hpost

/-- What is trimmed away does not matter. -/
theorem trim_append (hpre : pre.all p = true) (hpost : post.all p = true) :
    trim p (pre ++ l ++ post) = trim p l := by
  rw [List.all_eq_true] at hpre hpost
  unfold trim
  rw [List.append_assoc, List.dropWhile_append_of_pos hpre, List.dropWhile_append]
  split_ifs with hempty
  · -- nothing is left of the middle
    rw [List.isEmpty_iff.mp hempty, List.dropWhile_eq_nil_iff.mpr hpost]
  · exact rdropWhile_append_of_pos hpost

/-- Nothing is trimmed off between two symbols that stay. -/
theorem trim_of_ends {a b : α} (ha : p a = false) (hb : p b = false) :
    trim p (a :: l ++ [b]) = a :: l ++ [b] := by
  rw [trim, List.cons_append, List.dropWhile_cons_of_neg (by simp [ha]), ← List.cons_append,
    List.rdropWhile_concat_neg _ _ _ (by simp [hb])]

/-- Nothing is trimmed where no character is one to trim. -/
theorem trim_of_forall (h : ∀ a ∈ l, p a = false) : trim p l = l := by
  have hdrop : l.dropWhile p = l := by
    rw [List.dropWhile_eq_self_iff]
    intro hl
    simp [h _ (List.getElem_mem hl)]
  rw [trim, hdrop, List.rdropWhile_eq_self_iff]
  intro hl
  simp [h _ (List.getLast_mem hl)]

theorem mem_of_mem_trim {a : α} (h : a ∈ trim p l) : a ∈ l := by
  have hdrop : a ∈ l.dropWhile p := (List.rdropWhile_prefix p _).subset h
  exact (List.dropWhile_suffix p).subset hdrop

end Trim

/-! ## Cutting at a separator -/

section Separator

variable [DecidableEq α] {a : α} {l rest : List α}

/-- What stands before the first `a`, or everything: the first part that `str::split` yields. -/
def before (a : α) (l : List α) : List α := l.takeWhile (· ≠ a)

theorem not_mem_before (a : α) (l : List α) : a ∉ before a l := by
  intro h
  simpa using List.mem_takeWhile_imp h

theorem before_of_not_mem (h : a ∉ l) : before a l = l := by
  refine List.takeWhile_eq_self_iff.mpr fun b hb => ?_
  simpa using ne_of_mem_of_not_mem hb h

/-- The part before the first separator. -/
theorem before_append (h : a ∉ l) : before a (l ++ a :: rest) = l := by
  have hl : ∀ b ∈ l, decide (b ≠ a) = true := fun b hb => by simpa using ne_of_mem_of_not_mem hb h
  rw [before, List.takeWhile_append_of_pos hl, List.takeWhile_cons_of_neg (by simp),
    List.append_nil]

theorem before_append_of_mem (h : a ∈ l) (rest : List α) : before a (l ++ rest) = before a l := by
  obtain ⟨pre, post, rfl, hpre⟩ := List.eq_append_cons_of_mem h
  rw [List.append_assoc, List.cons_append, before_append hpre, before_append hpre]

/-- `str::split_once`. -/
def splitOnce (a : α) : List α → Option (List α × List α)
  | [] => none
  | b :: l =>
    if b = a then some ([], l)
    else (splitOnce a l).map fun parts => (b :: parts.1, parts.2)

/-- A separator that is not in the first part splits after it. -/
theorem splitOnce_append (h : a ∉ l) : splitOnce a (l ++ a :: rest) = some (l, rest) := by
  induction l with
  | nil => simp [splitOnce]
  | cons b l ih =>
    have hb : b ≠ a := (List.ne_of_not_mem_cons h).symm
    rw [List.cons_append, splitOnce, if_neg hb, ih (List.not_mem_of_not_mem_cons h)]
    rfl

/-- The two parts and the separator make the text. -/
theorem of_splitOnce {left right : List α} (h : splitOnce a l = some (left, right)) :
    l = left ++ a :: right := by
  induction l generalizing left with
  | nil => cases h
  | cons b l ih =>
    rw [splitOnce] at h
    split_ifs at h with hb
    · obtain ⟨rfl, rfl⟩ := Prod.mk.inj (Option.some.inj h)
      rw [hb, List.nil_append]
    · obtain ⟨parts, hparts, heq⟩ := Option.map_eq_some_iff.mp h
      obtain ⟨rfl, rfl⟩ := Prod.mk.inj heq
      rw [ih hparts, List.cons_append]

theorem mem_of_splitOnce {left right : List α} {b : α} (h : splitOnce a l = some (left, right))
    (hb : b ∈ right) : b ∈ l := by
  rw [of_splitOnce h]
  exact List.mem_append_right left (List.mem_cons_of_mem a hb)

/-- `str::rsplit_once`. -/
def rsplitOnce (a : α) (l : List α) : Option (List α × List α) :=
  (splitOnce a l.reverse).map fun parts => (parts.2.reverse, parts.1.reverse)

/-- Splitting from the back: the separator is not in the second part. -/
theorem rsplitOnce_append (h : a ∉ rest) : rsplitOnce a (l ++ a :: rest) = some (l, rest) := by
  have hreverse : (l ++ a :: rest).reverse = rest.reverse ++ a :: l.reverse := by simp
  have hnone : a ∉ rest.reverse := by simpa using h
  rw [rsplitOnce, hreverse, splitOnce_append hnone]
  simp

theorem of_rsplitOnce {left right : List α} (h : rsplitOnce a l = some (left, right)) :
    l = left ++ a :: right := by
  obtain ⟨parts, hparts, heq⟩ := Option.map_eq_some_iff.mp h
  obtain ⟨rfl, rfl⟩ := Prod.mk.inj heq
  rw [← List.reverse_reverse l, of_splitOnce hparts]
  simp

end Separator

/-! ## Lines -/

section Lines

variable [DecidableEq α]

/-- The pieces of a text, each with the `nl` that ends it: `str::split_inclusive`. -/
def splitInclusive (nl : α) : List α → List (List α)
  | [] => []
  | a :: l =>
    if a = nl then [a] :: splitInclusive nl l
    else
      match splitInclusive nl l with
      | [] => [[a]]
      | piece :: pieces => (a :: piece) :: pieces

def stripSuffix (a : α) (l : List α) : Option (List α) :=
  if l.getLast? = some a then some l.dropLast else none

/-- A piece without its line end, which may be `nl` or `cr` and `nl`. -/
def lineOf (nl cr : α) (piece : List α) : List α :=
  match stripSuffix nl piece with
  | none => piece
  | some line => (stripSuffix cr line).getD line

/-- `str::lines`. -/
def lines (nl cr : α) (l : List α) : List (List α) := (splitInclusive nl l).map (lineOf nl cr)

variable {nl cr : α} {l rest : List α}

/-- The first piece ends with the first separator. -/
theorem splitInclusive_append (h : nl ∉ l) :
    splitInclusive nl (l ++ nl :: rest) = (l ++ [nl]) :: splitInclusive nl rest := by
  induction l with
  | nil => simp [splitInclusive]
  | cons a l ih =>
    have ha : a ≠ nl := (List.ne_of_not_mem_cons h).symm
    rw [List.cons_append, splitInclusive, if_neg ha, ih (List.not_mem_of_not_mem_cons h)]
    rfl

theorem splitInclusive_of_not_mem (h : nl ∉ l) (hne : l ≠ []) : splitInclusive nl l = [l] := by
  induction l with
  | nil => exact absurd rfl hne
  | cons a l ih =>
    have ha : a ≠ nl := (List.ne_of_not_mem_cons h).symm
    rw [splitInclusive, if_neg ha]
    by_cases hempty : l = []
    · rw [hempty]
      rfl
    · rw [ih (List.not_mem_of_not_mem_cons h) hempty]

@[simp] theorem stripSuffix_concat (a : α) (l : List α) : stripSuffix a (l ++ [a]) = some l := by
  simp [stripSuffix]

theorem lineOf_of_not_mem (h : nl ∉ l) : lineOf nl cr l = l := by
  have hlast : l.getLast? ≠ some nl := fun hlast => h (List.mem_of_getLast? hlast)
  rw [lineOf, stripSuffix, if_neg hlast]

variable {f : List α → Option β}

/-- A reader for which a final `cr` makes no difference. -/
theorem read_lineOf (hcr : ∀ l, f (l ++ [cr]) = f l) (l : List α) :
    f (lineOf nl cr (l ++ [nl])) = f l := by
  rw [lineOf, stripSuffix_concat]
  by_cases hlast : l.getLast? = some cr
  · obtain ⟨line, rfl⟩ := List.getLast?_eq_some_iff.mp hlast
    rw [hcr]
    simp
  · have hkeep : stripSuffix cr l = none := if_neg hlast
    show f ((stripSuffix cr l).getD l) = f l
    rw [hkeep]
    rfl

/-- **Reading lines.** A reader of lines that skips empty ones, and for which a final `cr` makes no
difference, reads from a text the lines that the text was joined from. -/
theorem filterMap_lines (hcr : ∀ l, f (l ++ [cr]) = f l) (hempty : f [] = none) (ls : List (List α))
    (hls : ∀ l ∈ ls, nl ∉ l) :
    (lines nl cr ([nl].intercalate ls)).filterMap f = ls.filterMap f := by
  induction ls with
  | nil => rfl
  | cons l ls ih =>
    obtain ⟨hl, hrest⟩ := List.forall_mem_cons.mp hls
    -- the last line has no `nl` behind it, and is no piece at all if it is empty
    cases ls with
    | nil =>
      by_cases hnil : l = []
      · simp [hnil, lines, splitInclusive, hempty]
      · have hsingle : [nl].intercalate [l] = l := by simp
        rw [hsingle, lines, splitInclusive_of_not_mem hl hnil, List.map_singleton,
          lineOf_of_not_mem hl]
    | cons l' ls =>
      have hjoin : [nl].intercalate (l :: l' :: ls) = l ++ nl :: [nl].intercalate (l' :: ls) := by
        simp [List.intercalate]
      rw [hjoin, lines, splitInclusive_append hl, List.map_cons, List.filterMap_cons,
        read_lineOf hcr, List.filterMap_cons]
      rw [lines] at ih
      rw [ih hrest]

end Lines

/-! ## Searching -/

section Searching

/-- `r` occurs in `l`, `i` symbols in. -/
def OccursAt (r l : List α) (i : Nat) : Prop := ∃ pre post, l = pre ++ r ++ post ∧ pre.length = i

variable {r l : List α} {i : Nat}

/-- An occurrence is a window of the right length that holds the text. -/
theorem occursAt_iff : OccursAt r l i ↔ i + r.length ≤ l.length ∧ (l.drop i).take r.length = r := by
  apply Iff.intro
  · rintro ⟨pre, post, rfl, rfl⟩
    refine ⟨?_, ?_⟩
    · rw [List.length_append, List.length_append]
      exact Nat.le_add_right _ _
    · rw [List.append_assoc, List.drop_left, List.take_left]
  · rintro ⟨hle, htake⟩
    have hrest : r ++ (l.drop i).drop r.length = l.drop i := by
      have hsplit := List.take_append_drop r.length (l.drop i)
      rw [htake] at hsplit
      exact hsplit
    refine ⟨l.take i, (l.drop i).drop r.length, ?_, List.length_take_of_le (by omega)⟩
    rw [List.append_assoc, hrest, List.take_append_drop]

theorem OccursAt.add_length_le (h : OccursAt r l i) : i + r.length ≤ l.length :=
  (occursAt_iff.mp h).1

theorem occursAt_nil (l : List α) : OccursAt [] l 0 := ⟨[], l, rfl, rfl⟩

/-- The first place where `r` occurs in `l`. -/
def FirstAt (r l : List α) (i : Nat) : Prop := OccursAt r l i ∧ ∀ j < i, ¬ OccursAt r l j

/-- `slice::windows`, for a positive `size`: the pieces of `size` symbols, from left to right. -/
def windows (size : Nat) (l : List α) : List (List α) :=
  (List.range (l.length + 1 - size)).map fun i => (l.drop i).take size

/-- Where there is a window, it is `r` just if `r` occurs there. -/
theorem windows_eq_iff (h : i < (windows r.length l).length) :
    (windows r.length l)[i] = r ↔ OccursAt r l i := by
  have hi : i < l.length + 1 - r.length := by simpa [windows] using h
  rw [occursAt_iff]
  simp only [windows, List.getElem_map, List.getElem_range]
  apply Iff.intro
  · intro htake
    exact ⟨by omega, htake⟩
  · exact And.right

theorem OccursAt.lt_length_windows (h : OccursAt r l i) : i < (windows r.length l).length := by
  have hle := h.add_length_le
  rw [windows, List.length_map, List.length_range]
  omega

variable [DecidableEq α]

/-- The position of the first window that is `r`. -/
def find? (r l : List α) : Option Nat := (windows r.length l).findIdx? fun w => w = r

/-- **Search.** What is found is the first occurrence. -/
theorem find?_eq_some_iff : find? r l = some i ↔ FirstAt r l i := by
  rw [find?, List.findIdx?_eq_some_iff_getElem]
  apply Iff.intro
  · rintro ⟨hi, hfound, hfirst⟩
    refine ⟨(windows_eq_iff hi).mp (of_decide_eq_true hfound), fun j hji hj => ?_⟩
    exact hfirst j hji (decide_eq_true ((windows_eq_iff (by omega)).mpr hj))
  · rintro ⟨hoccurs, hfirst⟩
    refine ⟨hoccurs.lt_length_windows, ?_, fun j hji hj => ?_⟩
    · exact decide_eq_true ((windows_eq_iff _).mpr hoccurs)
    · exact hfirst j hji ((windows_eq_iff _).mp (of_decide_eq_true hj))

theorem find?_eq_none_iff : find? r l = none ↔ ∀ i, ¬ OccursAt r l i := by
  rw [find?, List.findIdx?_eq_none_iff]
  apply Iff.intro
  · intro h i hi
    have hlt := hi.lt_length_windows
    have hne := h _ (List.getElem_mem hlt)
    exact of_decide_eq_false hne ((windows_eq_iff hlt).mpr hi)
  · intro h w hw
    obtain ⟨i, hlt, rfl⟩ := List.mem_iff_getElem.mp hw
    exact decide_eq_false fun heq => h i ((windows_eq_iff hlt).mp heq)

theorem find?_nil (l : List α) : find? [] l = some 0 :=
  find?_eq_some_iff.mpr ⟨occursAt_nil l, fun j hj => absurd hj (Nat.not_lt_zero j)⟩

/-- The first place where `r` occurs in `l`, or the length of `l`. -/
def firstIndex (r l : List α) : Nat := (find? r l).getD l.length

theorem firstIndex_nil (l : List α) : firstIndex [] l = 0 := by
  rw [firstIndex, find?_nil, Option.getD_some]

/-- **First index.** It is that of the first occurrence, or there is none. -/
theorem firstIndex_spec (r l : List α) :
    FirstAt r l (firstIndex r l) ∨ firstIndex r l = l.length ∧ ∀ i, ¬ OccursAt r l i := by
  rw [firstIndex]
  cases hfind : find? r l with
  | some i => exact .inl (find?_eq_some_iff.mp hfind)
  | none => exact .inr ⟨rfl, find?_eq_none_iff.mp hfind⟩

theorem firstIndex_le (r l : List α) : firstIndex r l ≤ l.length := by
  rcases firstIndex_spec r l with hfirst | ⟨hlength, -⟩
  · have := hfirst.1.add_length_le
    omega
  · exact Nat.le_of_eq hlength

/-- If `r` occurs at all, it does so at the first index. -/
theorem OccursAt.firstIndex (h : OccursAt r l i) : OccursAt r l (firstIndex r l) := by
  rcases firstIndex_spec r l with hfirst | ⟨-, hnone⟩
  · exact hfirst.1
  · exact absurd h (hnone i)

end Searching

end Text
