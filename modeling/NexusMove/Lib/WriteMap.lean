import Mathlib.Data.Finmap
import NexusMove.Lib.KeyedStore

/-!
# Write maps

The second form of a transaction's effect: a finite map from keys to the values
written under them, without an order and with one entry a key. A map represents a
write list if it holds the last write of every key; the two then do the same to
every store.

* `WriteMap.Represents` — the map holds what the list writes last.
* `WriteMap.Represents.foldl_insert` — a map filled in list order represents the list.
* `WriteMap.represents_entriesAt` — so does a list of the map's entries, in any order.
* `WriteMap.Represents.applyAll_eq` — both give one store.
-/

/-- Keys with the value written under each, `none` for a deletion. -/
abbrev WriteMap (κ ν : Type) := Finmap fun _ : κ => Option ν

namespace KeyedStore

variable {κ ν : Type} [DecidableEq κ]

def applyMap (s : KeyedStore κ ν) (m : WriteMap κ ν) : KeyedStore κ ν :=
  fun k => (m.lookup k).getD (s k)

theorem applyMap_of_lookup_none {s : KeyedStore κ ν} {m : WriteMap κ ν} {k : κ}
    (h : m.lookup k = none) : s.applyMap m k = s k := by
  rw [applyMap, h, Option.getD_none]

end KeyedStore

namespace WriteMap

open KeyedStore

variable {κ ν : Type} [DecidableEq κ]

def Represents (m : WriteMap κ ν) (ws : List (κ × Option ν)) : Prop :=
  ∀ k, m.lookup k = lastWrite ws k

variable {m : WriteMap κ ν} {ws : List (κ × Option ν)}

theorem represents_empty : Represents (∅ : WriteMap κ ν) [] := by
  intro k
  simp [lastWrite]

/-- One more write, at the end of the list and into the map. -/
theorem Represents.insert (h : Represents m ws) (k : κ) (v : Option ν) :
    Represents (m.insert k v) (ws ++ [(k, v)]) := by
  intro k'
  rw [lastWrite_append]
  by_cases hk : k' = k
  · subst hk
    simp [lastWrite]
  · rw [Finmap.lookup_insert_of_ne m hk, h k']
    simp [lastWrite, hk]

/-- **Filling a map.** A map that takes the writes of a list in list order represents the list. -/
theorem Represents.foldl_insert (h : Represents m ws) (us : List (κ × Option ν)) :
    Represents (us.foldl (fun m w => m.insert w.1 w.2) m) (ws ++ us) := by
  induction us generalizing m ws with
  | nil => simpa using h
  | cons u us ih =>
    have hnext := ih (h.insert u.1 u.2)
    rw [List.append_assoc] at hnext
    exact hnext

/-- The entries of a map at the given keys, in their order. -/
def entriesAt (m : WriteMap κ ν) (ks : List κ) : List (κ × Option ν) :=
  ks.filterMap fun k => (m.lookup k).map fun v => (k, v)

theorem entriesAt_cons_of_lookup {k : κ} {v : Option ν} (h : m.lookup k = some v) (ks : List κ) :
    m.entriesAt (k :: ks) = (k, v) :: m.entriesAt ks := by
  simp [entriesAt, h]

theorem entriesAt_cons_of_none {k : κ} (h : m.lookup k = none) (ks : List κ) :
    m.entriesAt (k :: ks) = m.entriesAt ks := by
  simp [entriesAt, h]

theorem lastWrite_entriesAt (m : WriteMap κ ν) (ks : List κ) (k : κ) :
    lastWrite (m.entriesAt ks) k = if k ∈ ks then m.lookup k else none := by
  induction ks with
  | nil => rfl
  | cons j ks ih =>
    by_cases hk : k = j
    · subst hk
      cases hlookup : m.lookup k with
      | none =>
        rw [entriesAt_cons_of_none hlookup, ih, hlookup]
        simp
      | some v =>
        rw [entriesAt_cons_of_lookup hlookup, lastWrite, ih, hlookup]
        -- a second entry of the key would say the same
        by_cases hmem : k ∈ ks
        · simp [hmem]
        · simp [hmem]
    · cases hlookup : m.lookup j with
      | none =>
        rw [entriesAt_cons_of_none hlookup, ih]
        simp [hk]
      | some v =>
        rw [entriesAt_cons_of_lookup hlookup, lastWrite, ih]
        simp [hk]

/-- **Listing a map.** A list of entries that misses no key is represented by the map. -/
theorem represents_entriesAt {ks : List κ} (hks : ∀ k ∈ m, k ∈ ks) :
    Represents m (m.entriesAt ks) := by
  intro k
  rw [lastWrite_entriesAt]
  by_cases hk : k ∈ m
  · rw [if_pos (hks k hk)]
  · rw [Finmap.lookup_eq_none.mpr hk, ite_self]

/-! ## What a represented list does -/

/-- **One effect.** A list and a map that represents it give the same store. -/
theorem Represents.applyAll_eq (h : Represents m ws) (s : KeyedStore κ ν) :
    s.applyAll ws = s.applyMap m := by
  funext k
  rw [applyAll_apply, applyMap, h k]

/-- The keys of the map are the keys the list writes. -/
theorem Represents.mem_iff (h : Represents m ws) {k : κ} : k ∈ m ↔ ∃ w ∈ ws, w.1 = k := by
  rw [← Finmap.lookup_isSome, h k]
  cases hlast : lastWrite ws k with
  | none =>
    have hnone := lastWrite_eq_none_iff.mp hlast
    simp only [Option.isSome_none, Bool.false_eq_true, false_iff, not_exists, not_and]
    exact hnone
  | some v =>
    simp only [Option.isSome_some, true_iff]
    exact ⟨(k, v), mem_of_lastWrite hlast, rfl⟩

end WriteMap
