import NexusMove.Lib.CanonicalCodec
import NexusMove.Vm.Serialize

/-!
# One form of a value

Values and type tags are serialized canonically: what the deserializer accepts at a
layout is what the serializer writes for the value that was read, so a resource that
is loaded and stored again without a change has the bytes it had.

* `typeTagCodec_canonical`, `StructTag.bcs_canonical` — type tags.
* `valueCodec_canonical` — values of a layout, if closures are serialized canonically.
* `one_form` — bytes that are accepted are those written for a value of the layout.
-/

namespace NexusMove

open Codec

/-! ## Type tags -/

theorem addressCodec_canonical : addressCodec.Canonical :=
  (canonical_fixed 32).iso fun _ _ h => by
    obtain rfl := Option.some.inj h
    rfl

theorem identifierCodec_canonical : identifierCodec.Canonical :=
  (canonical_string maxSequenceLength).iso fun _ _ h => by
    obtain rfl := Option.some.inj h
    rfl

theorem abilitySetCodec_canonical : abilitySetCodec.Canonical :=
  canonical_byte.iso fun _ _ h => by
    obtain rfl := Option.some.inj h
    rfl

section Tags

variable {T : Type} {c : Codec T}

theorem structTagCodec_canonical (hc : c.Canonical) : (structTagCodec c).Canonical := by
  have hparts := addressCodec_canonical.pair
    (identifierCodec_canonical.pair (identifierCodec_canonical.pair (hc.seq maxSequenceLength)))
  refine hparts.iso fun p t h => ?_
  obtain rfl := Option.some.inj h
  rfl

theorem functionTagCodec_canonical (hc : c.Canonical) : (functionTagCodec c).Canonical := by
  have hparts := (hc.seq maxSequenceLength).pair
    ((hc.seq maxSequenceLength).pair abilitySetCodec_canonical)
  refine hparts.iso fun p t h => ?_
  obtain rfl := Option.some.inj h
  rfl

end Tags

namespace TypeTag

variable {vec : Codec TypeTag} {str : Codec StructTag} {fn : Codec FunctionTag}

/-- A payload that was read, with the variant it was read for. -/
theorem payload_of_decodePayload (hvec : vec.Canonical) (hstr : str.Canonical)
    (hfn : fn.Canonical) {i : Nat} {bs : Bytes} {t : TypeTag} {rest : Bytes}
    (h : decodePayload vec str fn i bs = some (t, rest)) :
    t.variant = i ∧ ∃ x, encodePayload vec str fn t = some x ∧ x ++ rest = bs := by
  unfold decodePayload at h
  split at h
  case h_7 =>
    obtain ⟨⟨t', r⟩, ht, h⟩ := Option.map_eq_some_iff.mp h
    obtain ⟨rfl, rfl⟩ := Prod.mk.inj h
    exact ⟨rfl, hvec.written ht⟩
  case h_8 =>
    obtain ⟨⟨t', r⟩, ht, h⟩ := Option.map_eq_some_iff.mp h
    obtain ⟨rfl, rfl⟩ := Prod.mk.inj h
    exact ⟨rfl, hstr.written ht⟩
  case h_12 =>
    obtain ⟨⟨t', r⟩, ht, h⟩ := Option.map_eq_some_iff.mp h
    obtain ⟨rfl, rfl⟩ := Prod.mk.inj h
    exact ⟨rfl, hfn.written ht⟩
  case h_13 => cases h
  all_goals
    obtain ⟨rfl, rfl⟩ := Prod.mk.inj (Option.some.inj h)
    exact ⟨rfl, [], rfl, rfl⟩

theorem node_canonical (hvec : vec.Canonical) (hstr : str.Canonical) (hfn : fn.Canonical) :
    (node vec str fn).Canonical := by
  refine ⟨fun {bs t rest} h => ?_⟩
  obtain ⟨⟨i, r⟩, hi, ht⟩ := Option.bind_eq_some_iff.mp h
  obtain ⟨n, hn, rfl⟩ := (canonical_uleb32 u32Max).written hi
  obtain ⟨rfl, x, hx, rfl⟩ := payload_of_decodePayload hvec hstr hfn ht
  refine ⟨n ++ x, ?_, List.append_assoc ..⟩
  simp [node, hn, hx]

end TypeTag

theorem typeTagCodec_canonical (d : Nat) : (typeTagCodec d).Canonical := by
  -- by the levels of nesting that are left
  induction d with
  | zero => exact TypeTag.node_canonical canonical_fail canonical_fail canonical_fail
  | succ d ih =>
    exact TypeTag.node_canonical ih (structTagCodec_canonical ih) (functionTagCodec_canonical ih)

theorem StructTag.bcs_canonical : StructTag.bcs.Canonical :=
  structTagCodec_canonical (typeTagCodec_canonical maxTypeTagNesting)

/-! ## Values -/

namespace Value

variable {c : Codec Value}

theorem addressCodec_canonical : addressCodec.Canonical :=
  NexusMove.addressCodec_canonical.prism fun _ => rfl

/-- A number read from `k` bytes is below `256 ^ k`. -/
theorem lt_of_decode_le {k : Nat} {bs : Bytes} {n : Nat} {rest : Bytes}
    (h : (Codec.le k).decode bs = some (n, rest)) : n < 256 ^ k := by
  obtain ⟨x, hx, -⟩ := (canonical_le k).written h
  by_contra hn
  simp [Codec.le, hn] at hx

theorem boolCodec_canonical : boolCodec.Canonical := by
  exact Canonical.prism canonical_bool fun _ => rfl

theorem u8Codec_canonical : u8Codec.Canonical := by
  exact Canonical.prism canonical_byte fun _ => rfl

theorem closureCodec_canonical {c : Codec Bytes} (hc : c.Canonical) :
    (closureCodec c).Canonical := by
  exact Canonical.prism hc fun _ => rfl

theorem u16Codec_canonical : u16Codec.Canonical := by
  refine Canonical.prism (canonical_le 2) fun h => ?_
  have hlt := lt_of_decode_le h
  simp only [UInt16.toNat_ofNat', Option.some.injEq]
  omega

theorem u32Codec_canonical : u32Codec.Canonical := by
  refine Canonical.prism (canonical_le 4) fun h => ?_
  have hlt := lt_of_decode_le h
  simp only [UInt32.toNat_ofNat', Option.some.injEq]
  omega

theorem u64Codec_canonical : u64Codec.Canonical := by
  refine Canonical.prism (canonical_le 8) fun h => ?_
  have hlt := lt_of_decode_le h
  simp only [UInt64.toNat_ofNat', Option.some.injEq]
  omega

theorem u128Codec_canonical : u128Codec.Canonical := by
  refine Canonical.prism (canonical_le 16) fun h => ?_
  have hlt := lt_of_decode_le h
  simp only [BitVec.toNat_ofNat, Option.some.injEq]
  omega

theorem u256Codec_canonical : u256Codec.Canonical := by
  refine Canonical.prism (canonical_le 32) fun h => ?_
  have hlt := lt_of_decode_le h
  simp only [BitVec.toNat_ofNat, Option.some.injEq]
  omega

theorem vectorCodec_canonical (hc : c.Canonical) : (vectorCodec c).Canonical :=
  (hc.seq maxSequenceLength).prism fun _ => rfl

theorem structCodec_canonical {cs : List (Codec Value)} (h : ∀ c ∈ cs, c.Canonical) :
    (structCodec cs).Canonical :=
  (canonical_tuple h).prism fun _ => rfl

theorem variantsCodec_canonical {cs : List (Codec (List Value))} (h : ∀ c ∈ cs, c.Canonical) :
    (variantsCodec cs).Canonical := by
  unfold variantsCodec
  split
  · exact canonical_fail
  · rename_i hlen
    refine (canonical_tagged h).prism fun {bs p rest} hdec => ?_
    obtain ⟨i, vs⟩ := p
    obtain ⟨-, -, c, hc, -⟩ := decode_tagged.mp hdec
    have hi : i < cs.length := (List.getElem?_eq_some_iff.mp hc).1
    have hroom : (UInt16.ofNat i).toNat = i := by
      rw [UInt16.toNat_ofNat']
      unfold variantCountMax at hlen
      omega
    simp only [hroom]

theorem signerCodec_canonical : signerCodec.Canonical := by
  have haddress : ∀ c ∈ [addressCodec, addressCodec], c.Canonical := by
    simp [addressCodec_canonical]
  refine variantsCodec_canonical fun c hc => ?_
  rcases List.mem_cons.mp hc with rfl | hc
  · exact canonical_tuple (by simp [addressCodec_canonical])
  · obtain rfl := List.mem_singleton.mp hc
    exact canonical_tuple haddress

end Value

variable {closures : Layout → Codec Bytes} (hclosures : ∀ layout, (closures layout).Canonical)
include hclosures

set_option linter.unusedSectionVars false
mutual

/-- **Canonical values.** By induction on the layout. -/
theorem valueCodec_canonical : ∀ layout : Layout, (valueCodec closures layout).Canonical
  | .bool => Value.boolCodec_canonical
  | .u8 => Value.u8Codec_canonical
  | .u16 => Value.u16Codec_canonical
  | .u32 => Value.u32Codec_canonical
  | .u64 => Value.u64Codec_canonical
  | .u128 => Value.u128Codec_canonical
  | .u256 => Value.u256Codec_canonical
  | .address => Value.addressCodec_canonical
  | .signer => Value.signerCodec_canonical
  | .vector elem => Value.vectorCodec_canonical (valueCodec_canonical elem)
  | .struct fields => Value.structCodec_canonical (valueCodecs_canonical fields)
  | .variants variants => Value.variantsCodec_canonical (variantCodecs_canonical variants)
  | .function args results abilities =>
    Value.closureCodec_canonical (hclosures (.function args results abilities))

theorem valueCodecs_canonical : ∀ layouts : List Layout,
    ∀ c ∈ valueCodecs closures layouts, c.Canonical
  | [], _, h => by cases h
  | layout :: layouts, c, h => by
    rcases List.mem_cons.mp h with rfl | h
    · exact valueCodec_canonical layout
    · exact valueCodecs_canonical layouts c h

theorem variantCodecs_canonical : ∀ variants : List (List Layout),
    ∀ c ∈ variantCodecs closures variants, c.Canonical
  | [], _, h => by cases h
  | fields :: variants, c, h => by
    rcases List.mem_cons.mp h with rfl | h
    · exact canonical_tuple (valueCodecs_canonical fields)
    · exact variantCodecs_canonical variants c h

end

/-- **One form.** Bytes are read as a value exactly if the value is of the layout and the serializer
writes these bytes for it, and as a struct tag exactly if the tag is written as these bytes. -/
theorem one_form :
    (∀ layout bytes val, Value.deserialize closures layout bytes = some val
      ↔ layout.Admits val ∧ Value.serialize closures layout val = some bytes)
    ∧ ∀ bytes tag, StructTag.bcs.fromBytes bytes = some tag ↔ tag.toBcs = some bytes := by
  constructor
  · intro layout bytes val
    constructor
    · -- what was read would be written by the codec, and so by the serializer
      intro h
      have hencode := (valueCodec_canonical hclosures layout).encode_of_fromBytes h
      exact (layout_written layout val bytes).mp hencode
    · -- on values of the layout the serializer is the codec
      intro h
      have hencode := (layout_written layout val bytes).mpr h
      exact fromBytes_of_encode _ hencode
  · intro bytes tag
    constructor
    · exact StructTag.bcs_canonical.encode_of_fromBytes
    · exact fromBytes_of_encode _

omit hclosures

/-- Layouts without functions need no codec of closures. -/
def noClosures : Layout → Codec Bytes := fun _ => .fail

/-- An enum of two variants, the second with a field. A value under a tag the enum does not have is
written, and what was written is not read back. -/
theorem one_form_data :
    Value.deserialize noClosures (.variants [[], [.u8]]) [1, 7] = some (.struct [.u16 1, .u8 7])
    ∧ Value.serialize noClosures (.variants [[], [.u8]]) (.struct [.u16 5]) = some [5]
    ∧ Value.deserialize noClosures (.variants [[], [.u8]]) [5] ≠ some (.struct [.u16 5])
    ∧ ∀ bytes tag, StructTag.bcs.fromBytes bytes = some tag ↔ tag.toBcs = some bytes := by
  have h := @one_form noClosures fun _ => canonical_fail
  refine ⟨(h.1 _ _ _).mpr ⟨⟨by decide, trivial, trivial⟩, rfl⟩, rfl, fun hread => ?_, h.2⟩
  exact ((h.1 _ _ _).mp hread).1.2

end NexusMove
