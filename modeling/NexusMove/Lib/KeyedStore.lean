import Mathlib.Logic.Function.Basic

/-!
# Keyed stores and write lists

A store maps keys to optional values. A transaction's effect is a list of
writes, each setting (`some`) or deleting (`none`) one key, applied in list
order. What a key holds afterwards is decided by the last write of that key.

* `KeyedStore.applyAll_apply` — reading after a write list.
* `KeyedStore.applyAll_frame` — keys no write mentions keep their value.
* `KeyedStore.lastWrite_eq_some_iff` — the last write, as a position in the list.
-/

/-- A store: every key holds a value or nothing. -/
abbrev KeyedStore (κ ν : Type) := κ → Option ν

namespace KeyedStore

variable {κ ν : Type} [DecidableEq κ]

def empty : KeyedStore κ ν := fun _ => none

def write (s : KeyedStore κ ν) (w : κ × Option ν) : KeyedStore κ ν :=
  Function.update s w.1 w.2

theorem write_of_ne {s : KeyedStore κ ν} {w : κ × Option ν} {k : κ} (h : k ≠ w.1) :
    s.write w k = s k :=
  Function.update_of_ne h ..

def applyAll (s : KeyedStore κ ν) (ws : List (κ × Option ν)) : KeyedStore κ ν :=
  ws.foldl write s

@[simp] theorem applyAll_nil (s : KeyedStore κ ν) : s.applyAll [] = s := rfl

@[simp] theorem applyAll_cons (s : KeyedStore κ ν) (w : κ × Option ν) (ws : List (κ × Option ν)) :
    s.applyAll (w :: ws) = (s.write w).applyAll ws := rfl

theorem applyAll_append (s : KeyedStore κ ν) (ws us : List (κ × Option ν)) :
    s.applyAll (ws ++ us) = (s.applyAll ws).applyAll us :=
  List.foldl_append

/-! ## The last write of a key -/

/-- The value the last write of `k` gives it, if `k` is written at all. -/
def lastWrite : List (κ × Option ν) → κ → Option (Option ν)
  | [], _ => none
  | w :: ws, k => (lastWrite ws k).or (if k = w.1 then some w.2 else none)

/-- **Reading after writing.** A written key holds what its last write says, any other key
what it held before. -/
theorem applyAll_apply (s : KeyedStore κ ν) (ws : List (κ × Option ν)) (k : κ) :
    s.applyAll ws k = (lastWrite ws k).getD (s k) := by
  induction ws generalizing s with
  | nil => rfl
  | cons w ws ih =>
    rw [applyAll_cons, ih, lastWrite]
    cases lastWrite ws k with
    | some v => rfl
    | none =>
      by_cases hk : k = w.1
      · simp [write, hk]
      · simp [write, hk]

theorem lastWrite_append (ws us : List (κ × Option ν)) (k : κ) :
    lastWrite (ws ++ us) k = (lastWrite us k).or (lastWrite ws k) := by
  induction ws with
  | nil => simp [lastWrite]
  | cons w ws ih => simp only [List.cons_append, lastWrite, ih, Option.or_assoc]

theorem lastWrite_eq_none_iff {ws : List (κ × Option ν)} {k : κ} :
    lastWrite ws k = none ↔ ∀ w ∈ ws, w.1 ≠ k := by
  induction ws with
  | nil => simp [lastWrite]
  | cons w ws ih =>
    simp only [lastWrite, Option.or_eq_none_iff, ih, List.forall_mem_cons]
    constructor
    · rintro ⟨hws, hw⟩
      exact ⟨fun h => by simp [h] at hw, hws⟩
    · rintro ⟨hw, hws⟩
      exact ⟨hws, if_neg (Ne.symm hw)⟩

theorem lastWrite_eq_some_iff {ws : List (κ × Option ν)} {k : κ} {v : Option ν} :
    lastWrite ws k = some v ↔
      ∃ pre post, ws = pre ++ (k, v) :: post ∧ ∀ w ∈ post, w.1 ≠ k := by
  constructor
  · intro h
    induction ws with
    | nil => simp [lastWrite] at h
    | cons w ws ih =>
      cases hws : lastWrite ws k with
      | some u =>
        -- a later write of the key decides
        obtain rfl : u = v := by simpa [lastWrite, hws] using h
        obtain ⟨pre, post, rfl, hpost⟩ := ih hws
        exact ⟨w :: pre, post, rfl, hpost⟩
      | none =>
        obtain ⟨rfl, rfl⟩ : k = w.1 ∧ w.2 = v := by simpa [lastWrite, hws] using h
        exact ⟨[], ws, rfl, lastWrite_eq_none_iff.mp hws⟩
  · rintro ⟨pre, post, rfl, hpost⟩
    rw [lastWrite_append, lastWrite, lastWrite_eq_none_iff.mpr hpost]
    simp

theorem mem_of_lastWrite {ws : List (κ × Option ν)} {k : κ} {v : Option ν}
    (h : lastWrite ws k = some v) : (k, v) ∈ ws := by
  obtain ⟨pre, post, rfl, -⟩ := lastWrite_eq_some_iff.mp h
  exact List.mem_append_right pre List.mem_cons_self

/-- A key that is always given one value ends up with it. -/
theorem lastWrite_of_mem {ws : List (κ × Option ν)} {k : κ} {v : Option ν} (h : (k, v) ∈ ws)
    (huniq : ∀ v', (k, v') ∈ ws → v' = v) : lastWrite ws k = some v := by
  cases hlast : lastWrite ws k with
  | none => exact absurd rfl (lastWrite_eq_none_iff.mp hlast (k, v) h)
  | some u =>
    have hu : u = v := huniq u (mem_of_lastWrite hlast)
    rw [hu]

/-- Renaming the keys of a write list. -/
theorem lastWrite_map {μ : Type} [DecidableEq μ] {f : κ → μ} (hf : Function.Injective f)
    (ws : List (κ × Option ν)) (k : κ) :
    lastWrite (ws.map fun w => (f w.1, w.2)) (f k) = lastWrite ws k := by
  induction ws with
  | nil => rfl
  | cons w ws ih => simp only [List.map_cons, lastWrite, ih, hf.eq_iff]

/-- **Frame.** A key that no write mentions keeps its value. -/
theorem applyAll_frame {s : KeyedStore κ ν} {ws : List (κ × Option ν)} {k : κ}
    (h : ∀ w ∈ ws, w.1 ≠ k) : s.applyAll ws k = s k := by
  rw [applyAll_apply, lastWrite_eq_none_iff.mpr h, Option.getD_none]

end KeyedStore
