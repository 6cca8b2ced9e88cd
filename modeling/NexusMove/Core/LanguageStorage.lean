import NexusMove.Core.Types
import NexusMove.Lib.Codec

/-!
# Type tags and their serialization

`TypeTag`, `StructTag` and `FunctionTag` of `move-core-types`, with their binary
canonical serialization. A tag nested inside another one is serialized by
`safe_serialize`, which counts the nesting and refuses the ninth level, so the
codec of a tag is built by recursion on the number of levels left.

* `typeTagCodec` — the codec of a type tag with a given number of levels left.
* `StructTag.toBcs` — the serialization of a struct tag, the key of a resource.
* `StructTag.toBcs_injective` — the key determines the tag.
* `StructTag.le_length_toBcs`, `StructTag.exists_small_of_toBcs` — what every
  such key looks like: long, and with a byte no identifier character has.
-/

namespace NexusMove

/-- The longest sequence the serialization accepts. -/
def maxSequenceLength : Nat := 2147483647

def u32Max : Nat := 4294967295

/-- The name of a struct type, over a type `T` of type arguments. -/
structure StructTagOf (T : Type) where
  address : AccountAddress
  module : Identifier
  name : Identifier
  typeArgs : List T

/-- A function type, over a type `T` of argument and result types. -/
structure FunctionTagOf (T : Type) where
  args : List T
  results : List T
  abilities : AbilitySet

/-- A type as it appears in storage keys and in transactions. -/
inductive TypeTag where
  | bool | u8 | u64 | u128 | address | signer
  | vector (elem : TypeTag)
  | struct (tag : StructTagOf TypeTag)
  | u16 | u32 | u256
  | function (tag : FunctionTagOf TypeTag)

abbrev StructTag := StructTagOf TypeTag
abbrev FunctionTag := FunctionTagOf TypeTag

/-- How deep type tags may be nested in one another. -/
def maxTypeTagNesting : Nat := 8

/-! ## Codecs -/

def addressCodec : Codec AccountAddress :=
  (Codec.fixed 32).iso AccountAddress.bytes (fun b => some ⟨b⟩) fun _ => rfl

/-- Identifiers are serialized as strings; reading one does not check it. -/
def identifierCodec : Codec Identifier :=
  (Codec.string maxSequenceLength).iso Identifier.name (fun s => some ⟨s⟩) fun _ => rfl

def abilitySetCodec : Codec AbilitySet :=
  Codec.byte.iso AbilitySet.bits (fun b => some ⟨b⟩) fun _ => rfl

variable {T : Type}

def structTagCodec (c : Codec T) : Codec (StructTagOf T) :=
  (addressCodec.pair (identifierCodec.pair (identifierCodec.pair (c.seq maxSequenceLength)))).iso
    (fun t => (t.address, t.module, t.name, t.typeArgs))
    (fun (address, module, name, typeArgs) => some { address, module, name, typeArgs })
    fun _ => rfl

def functionTagCodec (c : Codec T) : Codec (FunctionTagOf T) :=
  ((c.seq maxSequenceLength).pair ((c.seq maxSequenceLength).pair abilitySetCodec)).iso
    (fun t => (t.args, t.results, t.abilities))
    (fun (args, results, abilities) => some { args, results, abilities })
    fun _ => rfl

namespace TypeTag

def variant : TypeTag → Nat
  | bool => 0
  | u8 => 1
  | u64 => 2
  | u128 => 3
  | address => 4
  | signer => 5
  | vector _ => 6
  | struct _ => 7
  | u16 => 8
  | u32 => 9
  | u256 => 10
  | function _ => 11

variable (vec : Codec TypeTag) (str : Codec StructTag) (fn : Codec FunctionTag)

/-- What follows the variant index, given codecs for the three kinds of payload. -/
def encodePayload : TypeTag → Option Bytes
  | vector t => vec.encode t
  | struct t => str.encode t
  | function t => fn.encode t
  | _ => some []

def decodePayload (i : Nat) (bs : Bytes) : Option (TypeTag × Bytes) :=
  match i with
  | 0 => some (bool, bs)
  | 1 => some (u8, bs)
  | 2 => some (u64, bs)
  | 3 => some (u128, bs)
  | 4 => some (address, bs)
  | 5 => some (signer, bs)
  | 6 => (vec.decode bs).map fun (t, rest) => (vector t, rest)
  | 7 => (str.decode bs).map fun (t, rest) => (struct t, rest)
  | 8 => some (u16, bs)
  | 9 => some (u32, bs)
  | 10 => some (u256, bs)
  | 11 => (fn.decode bs).map fun (t, rest) => (function t, rest)
  | _ => none

theorem decodePayload_encodePayload {t : TypeTag} {bs : Bytes} (rest : Bytes)
    (h : encodePayload vec str fn t = some bs) :
    decodePayload vec str fn t.variant (bs ++ rest) = some (t, rest) := by
  cases t with
  | vector t => simp [variant, decodePayload, vec.decode_encode rest h]
  | struct t => simp [variant, decodePayload, str.decode_encode rest h]
  | function t => simp [variant, decodePayload, fn.decode_encode rest h]
  | _ =>
    obtain rfl : [] = bs := by simpa [encodePayload] using h
    rfl

/-- One level of a type tag: the variant index, then the payload. -/
def node : Codec TypeTag where
  encode t := do
    let i ← (Codec.uleb32 u32Max).encode t.variant
    let x ← encodePayload vec str fn t
    return i ++ x
  decode bs := do
    let (i, rest) ← (Codec.uleb32 u32Max).decode bs
    decodePayload vec str fn i rest
  decode_encode := by
    intro t bs rest h
    obtain ⟨i, hi, x, hx, rfl⟩ : ∃ i, (Codec.uleb32 u32Max).encode t.variant = some i ∧
        ∃ x, encodePayload vec str fn t = some x ∧ i ++ x = bs := by
      simpa [Option.bind_eq_some_iff] using h
    simp [List.append_assoc, (Codec.uleb32 u32Max).decode_encode (x ++ rest) hi,
      decodePayload_encodePayload vec str fn rest hx]

/-- The index of a variant is written as one byte. -/
theorem encode_variant (t : TypeTag) :
    (Codec.uleb32 u32Max).encode t.variant = some [UInt8.ofNat t.variant] := by
  cases t <;> rfl

theorem exists_of_encode_node {t : TypeTag} {bs : Bytes}
    (h : (node vec str fn).encode t = some bs) : ∃ x, bs = UInt8.ofNat t.variant :: x := by
  simp only [node, encode_variant] at h
  obtain ⟨x, -, rfl⟩ : ∃ x, encodePayload vec str fn t = some x ∧
      UInt8.ofNat t.variant :: x = bs := by
    simpa [Option.bind_eq_some_iff] using h
  exact ⟨x, rfl⟩

theorem variant_le (t : TypeTag) : UInt8.ofNat t.variant ≤ 11 := by
  cases t <;> simp only [variant] <;> decide

end TypeTag

/-- The codec of a type tag below which `d` more levels of nesting are allowed. -/
def typeTagCodec : Nat → Codec TypeTag
  | 0 => TypeTag.node Codec.fail Codec.fail Codec.fail
  | d + 1 =>
    let inner := typeTagCodec d
    TypeTag.node inner (structTagCodec inner) (functionTagCodec inner)

def TypeTag.bcs : Codec TypeTag := typeTagCodec maxTypeTagNesting

/-- `bcs::to_bytes` on struct tags: the codec of its parts, with all levels left. -/
def StructTag.bcs : Codec StructTag := structTagCodec (typeTagCodec maxTypeTagNesting)

/-- `bcs::to_bytes(struct_tag)`, `none` where it returns an error. -/
def StructTag.toBcs (t : StructTag) : Option Bytes := StructTag.bcs.encode t

/-- **Injectivity of resource keys.** Two struct tags with one serialization are equal. -/
theorem StructTag.toBcs_injective {s t : StructTag} {k : Bytes}
    (hs : s.toBcs = some k) (ht : t.toBcs = some k) : s = t :=
  StructTag.bcs.encode_injective hs ht

/-! ## The shape of a resource key -/

theorem exists_of_encode_typeTag {d : Nat} {t : TypeTag} {bs : Bytes}
    (h : (typeTagCodec d).encode t = some bs) : ∃ x, bs = UInt8.ofNat t.variant :: x := by
  cases d with
  | zero => exact TypeTag.exists_of_encode_node _ _ _ h
  | succ d => exact TypeTag.exists_of_encode_node _ _ _ h

/-- A list of type tags is written with a byte of at most 11: its length when it is empty, the
variant index of its first element when it is not. -/
theorem exists_small_of_encode_seq {d : Nat} {ts : List TypeTag} {bs : Bytes}
    (h : ((typeTagCodec d).seq maxSequenceLength).encode ts = some bs) :
    ∃ b ∈ bs, b ≤ 11 := by
  obtain ⟨n, hn, xs, hxs, rfl⟩ := Codec.encode_seq.mp h
  cases ts with
  | nil =>
    obtain rfl : [0] = n := by simpa [Codec.uleb32, Codec.ulebBytes] using hn
    exact ⟨0, by simp, by decide⟩
  | cons t ts =>
    obtain ⟨x, xs, hx, -, rfl⟩ := Codec.encodeAll_cons.mp hxs
    obtain ⟨y, rfl⟩ := exists_of_encode_typeTag hx
    exact ⟨UInt8.ofNat t.variant, by simp, t.variant_le⟩

theorem StructTag.encode_bcs {t : StructTag} {k : Bytes} (h : t.toBcs = some k) :
    ∃ m n ts, identifierCodec.encode t.module = some m ∧ identifierCodec.encode t.name = some n
      ∧ ((typeTagCodec maxTypeTagNesting).seq maxSequenceLength).encode t.typeArgs = some ts
      ∧ k = t.address.intoBytes ++ (m ++ (n ++ ts)) := by
  simp only [StructTag.toBcs, StructTag.bcs, structTagCodec, Codec.encode_iso,
    Codec.encode_pair] at h
  obtain ⟨a, ha, x, ⟨m, hm, y, ⟨n, hn, ts, hts, rfl⟩, rfl⟩, rfl⟩ := h
  obtain rfl : t.address.intoBytes = a := by
    simpa [addressCodec, Codec.fixed, AccountAddress.intoBytes] using ha
  exact ⟨m, n, ts, hm, hn, hts, rfl⟩

theorem length_pos_of_encode_identifier {n : Identifier} {bs : Bytes}
    (h : identifierCodec.encode n = some bs) : 0 < bs.length :=
  Codec.length_pos_of_encode_bytes maxSequenceLength h

/-- **Length of a resource key.** The address and three lengths take at least 35 bytes. -/
theorem StructTag.le_length_toBcs {t : StructTag} {k : Bytes} (h : t.toBcs = some k) :
    35 ≤ k.length := by
  obtain ⟨m, n, ts, hm, hn, hts, rfl⟩ := StructTag.encode_bcs h
  have h1 := length_pos_of_encode_identifier hm
  have h2 := length_pos_of_encode_identifier hn
  have h3 := Codec.length_pos_of_encode_seq hts
  simp only [List.length_append, AccountAddress.length_intoBytes]
  omega

/-- **A resource key is no identifier.** It has a byte of at most 11. -/
theorem StructTag.exists_small_of_toBcs {t : StructTag} {k : Bytes} (h : t.toBcs = some k) :
    ∃ b ∈ k, b ≤ 11 := by
  obtain ⟨m, n, ts, -, -, hts, rfl⟩ := StructTag.encode_bcs h
  obtain ⟨b, hb, hle⟩ := exists_small_of_encode_seq hts
  exact ⟨b, by simp [hb], hle⟩

end NexusMove
