import NexusMove.Core.LanguageStorage

/-!
# Values and their serialization

`values_impl.rs` and `value.rs`: runtime values, the layouts that describe them,
and the layout-driven binary serialization. A layout says where structs and
vectors are, and nothing about which struct: whatever has the right shape is
read as a value of the type.

* `valueCodec` — the codec of a layout.
* `Value.deserialize` — reading a value that takes up the whole input.
* `signer_of_decode`, `deserialize_signerBytes` — whose signer a signer's bytes are.
-/

namespace NexusMove

/-- `MoveTypeLayout`, with `MoveStructLayout` in it. -/
inductive Layout where
  | bool | u8 | u16 | u32 | u64 | u128 | u256 | address | signer
  | vector (elem : Layout)
  | struct (fields : List Layout)
  | variants (variants : List (List Layout))
  | function (args results : List Layout) (abilities : AbilitySet)

/-- A runtime value. A value of a variant starts with the variant's number, and a signer is a
value of a two-variant struct. A closure is what its codec makes of it. -/
inductive Value where
  | bool (b : Bool)
  | u8 (n : UInt8)
  | u16 (n : UInt16)
  | u32 (n : UInt32)
  | u64 (n : UInt64)
  | u128 (n : BitVec 128)
  | u256 (n : BitVec 256)
  | address (a : AccountAddress)
  | vector (elems : List Value)
  | struct (fields : List Value)
  | closure (data : Bytes)

def variantCountMax : Nat := 127

namespace Value

/-! ## Codecs of the kinds of value -/

def boolCodec : Codec Value :=
  Codec.bool.prism (fun | bool b => some b | _ => none) bool (by
    intro v b h
    cases v <;> simp at h
    rw [h])

def u8Codec : Codec Value :=
  Codec.byte.prism (fun | u8 n => some n | _ => none) u8 (by
    intro v n h
    cases v <;> simp at h
    rw [h])

def u16Codec : Codec Value :=
  (Codec.le 2).prism (fun | u16 n => some n.toNat | _ => none) (fun n => u16 (.ofNat n)) (by
    intro v n h
    cases v <;> simp at h
    rw [← h, UInt16.ofNat_toNat])

def u32Codec : Codec Value :=
  (Codec.le 4).prism (fun | u32 n => some n.toNat | _ => none) (fun n => u32 (.ofNat n)) (by
    intro v n h
    cases v <;> simp at h
    rw [← h, UInt32.ofNat_toNat])

def u64Codec : Codec Value :=
  (Codec.le 8).prism (fun | u64 n => some n.toNat | _ => none) (fun n => u64 (.ofNat n)) (by
    intro v n h
    cases v <;> simp at h
    rw [← h, UInt64.ofNat_toNat])

def u128Codec : Codec Value :=
  (Codec.le 16).prism (fun | u128 n => some n.toNat | _ => none) (fun n => u128 (.ofNat 128 n)) (by
    intro v n h
    cases v <;> simp at h
    rw [← h, BitVec.ofNat_toNat, BitVec.setWidth_eq])

def u256Codec : Codec Value :=
  (Codec.le 32).prism (fun | u256 n => some n.toNat | _ => none) (fun n => u256 (.ofNat 256 n)) (by
    intro v n h
    cases v <;> simp at h
    rw [← h, BitVec.ofNat_toNat, BitVec.setWidth_eq])

def addressCodec : Codec Value :=
  NexusMove.addressCodec.prism (fun | address a => some a | _ => none) address (by
    intro v a h
    cases v <;> simp at h
    rw [h])

/-- The length, then the elements. -/
def vectorCodec (elem : Codec Value) : Codec Value :=
  (elem.seq maxSequenceLength).prism (fun | vector vs => some vs | _ => none) vector (by
    intro v vs h
    cases v <;> simp at h
    rw [h])

/-- The fields one after another, without a length. -/
def structCodec (fields : List (Codec Value)) : Codec Value :=
  (Codec.tuple fields).prism (fun | struct vs => some vs | _ => none) struct (by
    intro v vs h
    cases v <;> simp at h
    rw [h])

/-- A value of one of several variants. More variants than the limit cannot be read. The codec
writes what can be read back; the serializer takes the tag it finds (`Value.serialize`). -/
def variantsCodec (variants : List (Codec (List Value))) : Codec Value :=
  if variants.length > variantCountMax then .fail
  else
    (Codec.tagged u32Max variants).prism
      (fun | struct (u16 tag :: vs) => some (tag.toNat, vs) | _ => none)
      (fun p => struct (u16 (.ofNat p.1) :: p.2))
      (by
        rintro v ⟨i, vs⟩ h
        match v, h with
        | struct (u16 tag :: ws), h =>
          obtain ⟨rfl, rfl⟩ : tag.toNat = i ∧ ws = vs := by simpa using h
          rw [UInt16.ofNat_toNat])

/-- The variants of a signer: a master signer of an address, and a permissioned signer of a
master address with the address of its permissions. -/
def signerCodec : Codec Value :=
  variantsCodec [.tuple [addressCodec], .tuple [addressCodec, addressCodec]]

def closureCodec (c : Codec Bytes) : Codec Value :=
  c.prism (fun | closure d => some d | _ => none) closure (by
    intro v d h
    cases v <;> simp at h
    rw [h])

end Value

/-! ## The codec of a layout -/

mutual

/-- The codec of the values of a layout, given that of closures: the deserializer, and what the
serializer writes for the values of the layout (`layout_written`). -/
def valueCodec (closures : Layout → Codec Bytes) : Layout → Codec Value
  | .bool => Value.boolCodec
  | .u8 => Value.u8Codec
  | .u16 => Value.u16Codec
  | .u32 => Value.u32Codec
  | .u64 => Value.u64Codec
  | .u128 => Value.u128Codec
  | .u256 => Value.u256Codec
  | .address => Value.addressCodec
  | .signer => Value.signerCodec
  | .vector elem => Value.vectorCodec (valueCodec closures elem)
  | .struct fields => Value.structCodec (valueCodecs closures fields)
  | .variants variants => Value.variantsCodec (variantCodecs closures variants)
  | .function args results abilities =>
    Value.closureCodec (closures (.function args results abilities))

def valueCodecs (closures : Layout → Codec Bytes) : List Layout → List (Codec Value)
  | [] => []
  | layout :: layouts => valueCodec closures layout :: valueCodecs closures layouts

/-- The fields of each variant, as a tuple. -/
def variantCodecs (closures : Layout → Codec Bytes) :
    List (List Layout) → List (Codec (List Value))
  | [] => []
  | fields :: variants => Codec.tuple (valueCodecs closures fields) :: variantCodecs closures variants

end

/-- `ValueSerDeContext::deserialize`: read a value that takes up the whole input. -/
def Value.deserialize (closures : Layout → Codec Bytes) (layout : Layout) (bytes : Bytes) :
    Option Value :=
  (valueCodec closures layout).fromBytes bytes

/-! ## Signers -/

/-- The address that a signer stands for: the field after its tag. -/
def Value.signerAddress : Value → Option AccountAddress
  | .struct (.u16 _ :: .address a :: _) => some a
  | _ => none

/-- `vec![0u8]` and the 32 bytes of an address: a master signer. -/
def signerBytes (a : AccountAddress) : Bytes := 0 :: a.intoBytes

theorem addressCodec_decode {bs : Bytes} {v : Value} {rest : Bytes}
    (h : Value.addressCodec.decode bs = some (v, rest)) :
    ∃ a : AccountAddress, v = .address a ∧ a.intoBytes = bs.take 32 := by
  obtain ⟨a, ha, rfl⟩ := Codec.decode_prism.mp h
  obtain ⟨⟨x, r⟩, hx, ha⟩ := Option.bind_eq_some_iff.mp ha
  obtain ⟨rfl, -⟩ : ⟨x⟩ = a ∧ r = rest := by simpa using ha
  exact ⟨⟨x⟩, rfl, (Codec.decode_fixed hx).1⟩

/-- **Reading a signer.** Bytes that are read as a signer spell its address after the first
byte. -/
theorem signer_of_decode {closures : Layout → Codec Bytes} {bs : Bytes} {v : Value} {rest : Bytes}
    (h : (valueCodec closures .signer).decode bs = some (v, rest)) :
    ∃ a, v.signerAddress = some a ∧ a.intoBytes = (bs.drop 1).take 32 := by
  have hcodec : valueCodec closures .signer = Value.signerCodec := rfl
  rw [hcodec, Value.signerCodec, Value.variantsCodec, if_neg (by decide)] at h
  obtain ⟨⟨i, vs⟩, htag, rfl⟩ := Codec.decode_prism.mp h
  obtain ⟨r, hi, c, hc, hvs⟩ := Codec.decode_tagged.mp htag
  have hlt : i < 2 := by simpa using (List.getElem?_eq_some_iff.mp hc).1
  obtain rfl : bs = UInt8.ofNat i :: r := Codec.of_decode_uleb32_lt hi (by omega)
  -- both variants start with the address
  have hhead : ∃ cs, c = Codec.tuple (Value.addressCodec :: cs) := by
    match i, hlt with
    | 0, _ => exact ⟨[], by simpa using hc.symm⟩
    | 1, _ => exact ⟨[Value.addressCodec], by simpa using hc.symm⟩
  obtain ⟨cs, rfl⟩ := hhead
  obtain ⟨w, ws, r', rfl, hw, -⟩ := Codec.decode_tuple_cons.mp hvs
  obtain ⟨a, rfl, ha⟩ := addressCodec_decode hw
  exact ⟨a, rfl, by simpa using ha⟩

/-- The bytes that the VM makes for a signer are read as that signer. -/
theorem deserialize_signerBytes (closures : Layout → Codec Bytes) (a : AccountAddress) :
    ∃ v, Value.deserialize closures .signer (signerBytes a) = some v
      ∧ v.signerAddress = some a := by
  refine ⟨.struct [.u16 0, .address a], ?_, rfl⟩
  refine Codec.fromBytes_of_encode _ ?_
  have hencode : (valueCodec closures .signer).encode (.struct [.u16 0, .address a])
      = some ([0] ++ (a.intoBytes ++ [])) := rfl
  rw [hencode, List.append_nil]
  rfl

end NexusMove
