import NexusMove.Core.LanguageStorage
import NexusMove.Lib.KeyedStore

/-!
# Storage keys and state views

The key space of an account (`state.rs`): six fixed keys, one key per published
module, and one key per resource, the serialized struct tag of the resource.
Resource keys have no prefix of their own, so their being apart from the others
is a fact about serialization.

* `resourceKey_ne_moduleCodeKey`, `resourceKey_not_mem_fixedKeys` — resources
  stay clear of code and of the fixed keys.
* `moduleCodeKey_injective`, `moduleCodeKey_not_mem_fixedKeys` — so do modules.
* `storage_key_spaces` — all of it together.
-/

namespace NexusMove

def balanceKey : Bytes := "balance".utf8
def moduleCodeLegacyKey : Bytes := "code".utf8
def moduleCodeHashKey : Bytes := "code_hash".utf8
def moduleDeployerKey : Bytes := "deployer".utf8
def moduleCountKey : Bytes := "module_count".utf8
def moduleMetadataKey : Bytes := "package_metadata".utf8

/-- The keys of an account that do not depend on a name. -/
def fixedKeys : List Bytes :=
  [balanceKey, moduleCodeLegacyKey, moduleCodeHashKey, moduleDeployerKey, moduleCountKey,
    moduleMetadataKey]

/-- What every key of a named module starts with. -/
def moduleCodePrefix : Bytes := "code::".utf8

/-- `module_code_key`: the key of one named module. -/
def moduleCodeKey (moduleName : String) : Bytes := moduleCodePrefix ++ moduleName.utf8

/-- The key under which `changeset_to_nexus` writes a resource. A tag that does not serialize
gets the empty key. -/
def resourceKey (t : StructTag) : Bytes := t.toBcs.getD []

/-! ## The key spaces are apart -/

theorem moduleCodeKey_injective : Function.Injective moduleCodeKey := by
  intro m n h
  exact utf8_injective (List.append_cancel_left h)

@[simp] theorem moduleCodeKey_inj {m n : String} : moduleCodeKey m = moduleCodeKey n ↔ m = n :=
  moduleCodeKey_injective.eq_iff

theorem take_moduleCodeKey (n : String) : (moduleCodeKey n).take 6 = moduleCodePrefix := by
  have hlen : moduleCodePrefix.length = 6 := by decide
  rw [moduleCodeKey, ← hlen, List.take_left]

/-- The key of a named module is none of the fixed ones, by its prefix. -/
theorem moduleCodeKey_not_mem_fixedKeys (n : String) : moduleCodeKey n ∉ fixedKeys := by
  intro h
  have hprefix : ∀ k ∈ fixedKeys, k.take 6 ≠ moduleCodePrefix := by decide
  exact hprefix _ h (take_moduleCodeKey n)

/-- No fixed key is longer than `package_metadata`. -/
theorem length_le_of_mem_fixedKeys {k : Bytes} (h : k ∈ fixedKeys) : k.length ≤ 16 := by
  have hall : ∀ k ∈ fixedKeys, k.length ≤ 16 := by decide
  exact hall k h

/-- Every byte of a module key is above 11, the largest variant index of a type tag. -/
theorem lt_of_mem_moduleCodeKey {n : Identifier} (hn : n.IsValid) {b : UInt8}
    (hb : b ∈ moduleCodeKey n.name) : 11 < b := by
  rcases List.mem_append.mp hb with hb | hb
  · have hprefix : moduleCodePrefix.all (11 < ·) = true := by decide
    exact of_decide_eq_true (List.all_eq_true.mp hprefix b hb)
  · exact UInt8.lt_of_lt_of_le (by decide) (hn.le_of_mem hb)

/-- A tag starts with an address and a short length, where a module key has a letter. -/
theorem toBcs_ne_moduleCodeKey (t : StructTag) {n : Identifier} (hn : n.IsValid) :
    t.toBcs ≠ some (moduleCodeKey n.name) := by
  intro h
  obtain ⟨b, hb, hle⟩ := t.exists_small_of_toBcs h
  exact absurd (lt_of_mem_moduleCodeKey hn hb) (UInt8.not_lt.mpr hle)

/-- A tag is longer than every fixed key. -/
theorem toBcs_ne_fixedKey (t : StructTag) {k : Bytes} (hk : k ∈ fixedKeys) :
    t.toBcs ≠ some k := by
  intro h
  have := t.le_length_toBcs h
  have := length_le_of_mem_fixedKeys hk
  omega

/-- A resource is written under its serialized tag or, when there is none, under no key of
another kind: the empty key. -/
theorem resourceKey_ne_moduleCodeKey (t : StructTag) {n : Identifier} (hn : n.IsValid) :
    resourceKey t ≠ moduleCodeKey n.name := by
  intro h
  cases hk : t.toBcs with
  | some k => exact toBcs_ne_moduleCodeKey t hn (by rw [hk, ← h, resourceKey, hk]; rfl)
  | none =>
    rw [resourceKey, hk, Option.getD_none] at h
    have htake := take_moduleCodeKey n.name
    rw [← h] at htake
    exact absurd htake (by decide)

theorem resourceKey_not_mem_fixedKeys (t : StructTag) : resourceKey t ∉ fixedKeys := by
  intro h
  cases hk : t.toBcs with
  | some k =>
    rw [resourceKey, hk, Option.getD_some] at h
    exact toBcs_ne_fixedKey t h hk
  | none =>
    rw [resourceKey, hk, Option.getD_none] at h
    exact absurd h (by decide)

/-! ## Stores -/

/-- The chain state: every account has a flat key space. -/
abbrev Store := KeyedStore (AccountAddress × Bytes) Bytes

/-- **Storage key spaces never collide.** Serialized struct tags, per-module keys and fixed keys
are pairwise apart, and tags and module names are determined by their keys. So writing a
resource changes nothing else of the account: no module, no fixed key, no other resource. -/
theorem storage_key_spaces (s t : StructTag) (m n : Identifier) (hm : m.IsValid) (hn : n.IsValid) :
    t.toBcs ≠ some (moduleCodeKey n.name)
    ∧ (∀ k ∈ fixedKeys, t.toBcs ≠ some k)
    ∧ (∀ k ∈ fixedKeys, moduleCodeKey n.name ≠ k)
    ∧ (∀ k, s.toBcs = some k → t.toBcs = some k → s = t)
    ∧ (moduleCodeKey m.name = moduleCodeKey n.name → m = n)
    ∧ (∀ (σ : Store) (a : AccountAddress) (k : Bytes) (v : Option Bytes), t.toBcs = some k →
        σ.write ((a, k), v) (a, moduleCodeKey n.name) = σ (a, moduleCodeKey n.name)
        ∧ (∀ f ∈ fixedKeys, σ.write ((a, k), v) (a, f) = σ (a, f))
        ∧ (∀ k', s.toBcs = some k' → s ≠ t → σ.write ((a, k), v) (a, k') = σ (a, k'))) := by
  have hinj : ∀ k, s.toBcs = some k → t.toBcs = some k → s = t := fun k hs ht =>
    StructTag.toBcs_injective hs ht
  refine ⟨toBcs_ne_moduleCodeKey t hn, fun k hk => toBcs_ne_fixedKey t hk, ?_, hinj, ?_, ?_⟩
  · intro k hk h
    exact moduleCodeKey_not_mem_fixedKeys n.name (h ▸ hk)
  · intro h
    obtain ⟨m⟩ := m
    obtain ⟨n⟩ := n
    exact congrArg _ (moduleCodeKey_injective h)
  · -- a write under the tag's key leaves every key that differs from it alone
    intro σ a k v hk
    have hframe : ∀ k', k' ≠ k → σ.write ((a, k), v) (a, k') = σ (a, k') := by
      intro k' hne
      exact KeyedStore.write_of_ne (by simpa using hne)
    refine ⟨hframe _ ?_, fun f hf => hframe f ?_, fun k' hk' hne => hframe k' ?_⟩
    · rintro rfl
      exact toBcs_ne_moduleCodeKey t hn hk
    · rintro rfl
      exact toBcs_ne_fixedKey t hf hk
    · rintro rfl
      exact hne (hinj _ hk' hk)

def sampleTag : StructTag where
  address := .ofTail [2] (by decide)
  module := ⟨"coin"⟩
  name := ⟨"Coin"⟩
  typeArgs := [.u64]

/-- The resource `Coin<u64>` is not stored where the code of `coin` is. -/
theorem storage_key_spaces_sampleTag : sampleTag.toBcs ≠ some (moduleCodeKey "coin") :=
  (storage_key_spaces sampleTag sampleTag ⟨"coin"⟩ ⟨"coin"⟩ (by decide) (by decide)).1

end NexusMove
