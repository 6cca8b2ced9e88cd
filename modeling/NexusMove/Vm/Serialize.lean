import NexusMove.Vm.Values

/-!
# The serializer of values

`values_impl.rs`: the serializer goes by the layout as well, but it is handed a value
and takes what it finds. A value of an enum is written under the tag it carries:
the serializer asks for a name for that tag, not whether the layout has the variant,
and a layout without the variant has no fields for it. So it also writes values that
are not of the layout, and those cannot be read back.

* `Value.serialize` — the serializer.
* `Layout.Admits` — the values of a layout.
* `layout_written` — the codec of a layout writes the values of the layout, as the serializer
  does.
-/

namespace NexusMove

namespace Value

/-- What is written for a value, none where it is refused. -/
abbrev Writer := Value → Option Bytes

/-! ## Serialization -/

/-- The fields one after the other. As many values are needed as there are fields. -/
def serializeFields : List Writer → List Value → Option Bytes
  | [], [] => some []
  | write :: writes, v :: vs => do
    let x ← write v
    let xs ← serializeFields writes vs
    return x ++ xs
  | _, _ => none

/-- The elements of a vector, all at one layout. -/
def serializeEach (write : Writer) : List Value → Option Bytes
  | [] => some []
  | v :: vs => do
    let x ← write v
    let xs ← serializeEach write vs
    return x ++ xs

/-- `MoveStructLayout::fields`: a variant that there is not has no fields. -/
def fieldsOfVariant (variants : List (List Writer)) (idx : Nat) : List Writer :=
  variants.getD idx []

def tryGetVariantFieldLayouts (variants : List (List Writer)) :
    List Value → Option (UInt16 × List Writer)
  | u16 tag :: _ => some (tag, fieldsOfVariant variants tag.toNat)
  | _ => none

/-- The values of an enum, their tag first. -/
def serializeVariants (variants : List (List Writer)) (values : List Value) : Option Bytes :=
  match tryGetVariantFieldLayouts variants values with
  | some (tag, fields) =>
    -- `variant_name_placeholder(tag + 1)`: there are names for tags below the limit
    if variantCountMax < tag.toNat + 1 then none
    else do
      let i ← (Codec.uleb32 u32Max).encode tag.toNat
      let xs ← serializeFields fields (values.drop 1)
      return i ++ xs
  | none => serializeFields [] values

mutual

/-- `Serialize for SerializationReadyValue`, given the codec of closures. -/
def serialize (closures : Layout → Codec Bytes) : Layout → Writer
  | .bool => boolCodec.encode
  | .u8 => u8Codec.encode
  | .u16 => u16Codec.encode
  | .u32 => u32Codec.encode
  | .u64 => u64Codec.encode
  | .u128 => u128Codec.encode
  | .u256 => u256Codec.encode
  | .address => addressCodec.encode
  | .signer => fun
    | struct values =>
      serializeVariants [[addressCodec.encode], [addressCodec.encode, addressCodec.encode]] values
    | _ => none
  | .vector elem => fun
    | vector elems => do
      let n ← (Codec.uleb32 maxSequenceLength).encode elems.length
      let xs ← serializeEach (serialize closures elem) elems
      return n ++ xs
    | _ => none
  | .struct fields => fun
    | struct values => serializeFields (fieldSerializers closures fields) values
    | _ => none
  | .variants variants => fun
    | struct values => serializeVariants (variantSerializers closures variants) values
    | _ => none
  | .function args results abilities =>
    (closureCodec (closures (.function args results abilities))).encode

def fieldSerializers (closures : Layout → Codec Bytes) : List Layout → List Writer
  | [] => []
  | layout :: layouts => serialize closures layout :: fieldSerializers closures layouts

def variantSerializers (closures : Layout → Codec Bytes) : List (List Layout) → List (List Writer)
  | [] => []
  | fields :: variants => fieldSerializers closures fields :: variantSerializers closures variants

end

end Value

/-! ## The values of a layout -/

/-- A master signer of an address, or a permissioned signer of two. -/
def Value.IsSigner (v : Value) : Prop :=
  (∃ a, v = .struct [.u16 0, .address a]) ∨ ∃ a b, v = .struct [.u16 1, .address a, .address b]

mutual

/-- The values of a layout: of its kind, with its fields, and in an enum with the fields of a
variant the layout has. An enum of more variants than the limit has no values. -/
def Layout.Admits : Layout → Value → Prop
  | .bool, .bool _ | .u8, .u8 _ | .u16, .u16 _ | .u32, .u32 _ | .u64, .u64 _ | .u128, .u128 _
  | .u256, .u256 _ | .address, .address _ | .function _ _ _, .closure _ => True
  | .signer, v => v.IsSigner
  | .vector elem, .vector elems => ∀ v ∈ elems, elem.Admits v
  | .struct fields, .struct values => Layout.AdmitFields fields values
  | .variants alts, .struct (.u16 tag :: values) =>
    alts.length ≤ variantCountMax ∧ Layout.AdmitVariant alts tag.toNat values
  | _, _ => False

/-- One value for each field. -/
def Layout.AdmitFields : List Layout → List Value → Prop
  | [], [] => True
  | layout :: layouts, v :: vs => layout.Admits v ∧ Layout.AdmitFields layouts vs
  | _, _ => False

/-- The fields are those of the variant with the number. -/
def Layout.AdmitVariant : List (List Layout) → Nat → List Value → Prop
  | [], _, _ => False
  | fields :: _, 0, values => Layout.AdmitFields fields values
  | _ :: alts, i + 1, values => Layout.AdmitVariant alts i values

end

/-! ## The codec and the serializer -/

open Codec

/-- The codec writes the values of the layout, and writes for them what the serializer writes. -/
def Layout.Written (closures : Layout → Codec Bytes) (layout : Layout) : Prop :=
  ∀ v bytes, (valueCodec closures layout).encode v = some bytes
    ↔ layout.Admits v ∧ Value.serialize closures layout v = some bytes

/-- The codec of the fields writes what is of them, as the serializer does. -/
def Layout.FieldsWritten (closures : Layout → Codec Bytes) (layouts : List Layout) : Prop :=
  ∀ vs bytes, (tuple (valueCodecs closures layouts)).encode vs = some bytes
    ↔ Layout.AdmitFields layouts vs
      ∧ Value.serializeFields (Value.fieldSerializers closures layouts) vs = some bytes

/-- The same for the fields of each variant. -/
def Layout.VariantsWritten (closures : Layout → Codec Bytes) (alts : List (List Layout)) : Prop :=
  ∀ i vs bytes, (∃ c, (variantCodecs closures alts)[i]? = some c ∧ c.encode vs = some bytes)
    ↔ Layout.AdmitVariant alts i vs
      ∧ Value.serializeFields (Value.fieldsOfVariant (Value.variantSerializers closures alts) i) vs
        = some bytes

variable {closures : Layout → Codec Bytes}

/-! ### Fields and variants -/

theorem fieldsWritten_nil : Layout.FieldsWritten closures [] := by
  intro vs bytes
  cases vs <;> simp [tuple, Codec.nil, valueCodecs, Layout.AdmitFields, Value.serializeFields,
    Value.fieldSerializers]

theorem fieldsWritten_cons {layout : Layout} {layouts : List Layout}
    (h : layout.Written closures) (hs : Layout.FieldsWritten closures layouts) :
    Layout.FieldsWritten closures (layout :: layouts) := by
  intro vs bytes
  cases vs with
  -- no value for the first field
  | nil =>
    constructor
    · exact fun h => by cases h
    · exact fun h => h.1.elim
  | cons v vs =>
    rw [valueCodecs, encode_tuple_cons]
    simp only [h v, hs vs, Layout.AdmitFields, Value.fieldSerializers, Value.serializeFields,
      Option.bind_eq_bind, Option.bind_eq_some_iff, Option.pure_def, Option.some.injEq]
    constructor
    · rintro ⟨x, ⟨hv, hx⟩, xs, ⟨hvs, hxs⟩, hbytes⟩
      exact ⟨⟨hv, hvs⟩, x, hx, xs, hxs, hbytes⟩
    · rintro ⟨⟨hv, hvs⟩, x, hx, xs, hxs, hbytes⟩
      exact ⟨x, ⟨hv, hx⟩, xs, ⟨hvs, hxs⟩, hbytes⟩

theorem variantsWritten_nil : Layout.VariantsWritten closures [] := by
  intro i vs bytes
  simp [variantCodecs, Layout.AdmitVariant]

theorem variantsWritten_cons {fields : List Layout} {alts : List (List Layout)}
    (h : Layout.FieldsWritten closures fields) (hs : Layout.VariantsWritten closures alts) :
    Layout.VariantsWritten closures (fields :: alts) := by
  intro i vs bytes
  cases i with
  | zero =>
    simp [variantCodecs, Layout.AdmitVariant, Value.fieldsOfVariant, Value.variantSerializers,
      h vs bytes]
  | succ i =>
    simpa [variantCodecs, Layout.AdmitVariant, Value.fieldsOfVariant, Value.variantSerializers]
      using hs i vs bytes

theorem length_variantCodecs (alts : List (List Layout)) :
    (variantCodecs closures alts).length = alts.length := by
  induction alts with
  | nil => rfl
  | cons fields alts ih => rw [variantCodecs, List.length_cons, List.length_cons, ih]

/-- A variant that admits something is there. -/
theorem lt_of_admitVariant {alts : List (List Layout)} {i : Nat} {vs : List Value}
    (h : Layout.AdmitVariant alts i vs) : i < alts.length := by
  induction alts generalizing i with
  | nil => exact h.elim
  | cons fields alts ih =>
    cases i with
    | zero => exact Nat.zero_lt_succ _
    | succ i => exact Nat.succ_lt_succ (ih h)

/-- A value of an enum has a tag and the fields of its variant. -/
theorem admits_variants {alts : List (List Layout)} {v : Value} :
    (Layout.variants alts).Admits v ↔ ∃ tag vs, v = .struct (.u16 tag :: vs)
      ∧ alts.length ≤ variantCountMax ∧ Layout.AdmitVariant alts tag.toNat vs := by
  constructor
  · intro h
    cases v with
    | struct values =>
      cases values with
      | nil => exact h.elim
      | cons tag vs =>
        cases tag with
        | u16 tag => exact ⟨tag, vs, rfl, h⟩
        | _ => exact h.elim
    | _ => exact h.elim
  · rintro ⟨tag, vs, rfl, h⟩
    exact h

/-- What is written for a value under a tag there is a name for. -/
theorem serializeVariants_eq_some {variants : List (List Value.Writer)} {tag : UInt16}
    {vs : List Value} {bytes : Bytes} (hname : tag.toNat < variantCountMax) :
    Value.serializeVariants variants (.u16 tag :: vs) = some bytes ↔
      ∃ n, (uleb32 u32Max).encode tag.toNat = some n
        ∧ ∃ xs, Value.serializeFields (Value.fieldsOfVariant variants tag.toNat) vs = some xs
          ∧ n ++ xs = bytes := by
  have hname' : ¬ variantCountMax < tag.toNat + 1 := by omega
  simp only [Value.serializeVariants, Value.tryGetVariantFieldLayouts, if_neg hname',
    List.drop_one, List.tail_cons, Option.bind_eq_bind, Option.bind_eq_some_iff, Option.pure_def,
    Option.some.injEq]

/-- **Enums.** The tag of a value of the layout is below the number of variants, so there is a
name for it. -/
theorem variants_written {alts : List (List Layout)} (h : Layout.VariantsWritten closures alts) :
    (Layout.variants alts).Written closures := by
  intro v bytes
  rw [valueCodec, Value.variantsCodec, length_variantCodecs]
  split
  · -- too many variants: nothing is written, and there are no values
    rename_i hlen
    constructor
    · exact fun h => by cases h
    · rintro ⟨hv, -⟩
      obtain ⟨_, _, -, hle, -⟩ := admits_variants.mp hv
      omega
  · -- the tag has a name, since a variant that admits something is one of at most 127
    rename_i hlen
    rw [encode_prism, admits_variants]
    constructor
    · rintro ⟨⟨i, vs⟩, hinto, henc⟩
      obtain ⟨tag, rfl, rfl⟩ : ∃ tag : UInt16, v = .struct (.u16 tag :: vs) ∧ tag.toNat = i := by
        -- the codec writes a struct that begins with a tag, and no other value
        split at hinto
        · obtain ⟨rfl, rfl⟩ := Prod.mk.inj (Option.some.inj hinto)
          exact ⟨_, rfl, rfl⟩
        · cases hinto
      obtain ⟨n, hn, xs, hxs, rfl⟩ := encode_tagged.mp henc
      obtain ⟨hvs, hwrite⟩ := (h tag.toNat vs xs).mp hxs
      have htag := lt_of_admitVariant hvs
      refine ⟨⟨tag, vs, rfl, by omega, hvs⟩, ?_⟩
      exact (serializeVariants_eq_some (by omega)).mpr ⟨n, hn, xs, hwrite, rfl⟩
    · rintro ⟨⟨tag, vs, rfl, -, hvs⟩, hwrite⟩
      have htag := lt_of_admitVariant hvs
      obtain ⟨n, hn, xs, hxs, hbytes⟩ := (serializeVariants_eq_some (by omega)).mp hwrite
      have hcodec := (h tag.toNat vs xs).mpr ⟨hvs, hxs⟩
      exact ⟨(tag.toNat, vs), rfl, encode_tagged.mpr ⟨n, hn, xs, hcodec, hbytes⟩⟩

/-! ### Signers -/

/-- An address is 32 bytes, for both. -/
theorem address_written : Layout.address.Written closures := by
  intro v bytes
  cases v <;> simp [valueCodec, Value.addressCodec, prism, Layout.Admits, Value.serialize]

/-- `signer_serialization_layout`: a signer is a value of this enum. -/
def signerVariants : List (List Layout) := [[.address], [.address, .address]]

/-- Only addresses are admitted as such. -/
theorem admits_address {v : Value} : Layout.address.Admits v ↔ ∃ a, v = .address a := by
  cases v <;> simp [Layout.Admits]

theorem admits_one {vs : List Value} :
    Layout.AdmitFields [.address] vs ↔ ∃ a, vs = [.address a] := by
  constructor
  · intro h
    cases vs with
    | nil => exact h.elim
    | cons v vs =>
      obtain ⟨a, rfl⟩ := admits_address.mp h.1
      cases vs with
      | nil => exact ⟨a, rfl⟩
      | cons => exact h.2.elim
  · rintro ⟨a, rfl⟩
    exact ⟨trivial, trivial⟩

theorem admits_two {vs : List Value} :
    Layout.AdmitFields [.address, .address] vs ↔ ∃ a b, vs = [.address a, .address b] := by
  constructor
  · intro h
    cases vs with
    | nil => exact h.elim
    | cons v vs =>
      obtain ⟨a, rfl⟩ := admits_address.mp h.1
      obtain ⟨b, rfl⟩ := admits_one.mp h.2
      exact ⟨a, b, rfl⟩
  · rintro ⟨a, b, rfl⟩
    exact ⟨trivial, trivial, trivial⟩

/-- The values of the two variants are the signers. -/
theorem admits_signerVariants {v : Value} :
    (Layout.variants signerVariants).Admits v ↔ v.IsSigner := by
  constructor
  · intro h
    obtain ⟨tag, vs, rfl, -, hvs⟩ := admits_variants.mp h
    -- the tag is written as a number and read back as one
    have htag : UInt16.ofNat tag.toNat = tag := UInt16.ofNat_toNat
    have hlt : tag.toNat < 2 := lt_of_admitVariant hvs
    obtain h0 | h1 : tag.toNat = 0 ∨ tag.toNat = 1 := by omega
    · rw [h0] at htag hvs
      obtain ⟨a, rfl⟩ := admits_one.mp hvs
      exact .inl ⟨a, by rw [← htag]; rfl⟩
    · rw [h1] at htag hvs
      obtain ⟨a, b, rfl⟩ := admits_two.mp hvs
      exact .inr ⟨a, b, by rw [← htag]; rfl⟩
  · rintro (⟨a, rfl⟩ | ⟨a, b, rfl⟩)
    · exact ⟨by decide, trivial, trivial⟩
    · exact ⟨by decide, trivial, trivial, trivial⟩

/-- A signer is an enum of two variants. -/
theorem signer_written : Layout.signer.Written closures := by
  have hone : Layout.FieldsWritten closures [.address] :=
    fieldsWritten_cons address_written fieldsWritten_nil
  have htwo := fieldsWritten_cons address_written hone
  have hvariants : (Layout.variants signerVariants).Written closures :=
    variants_written (variantsWritten_cons hone (variantsWritten_cons htwo variantsWritten_nil))
  intro v bytes
  have hv := hvariants v bytes
  rw [admits_signerVariants] at hv
  exact hv

/-! ### Vectors -/

/-- The length and the elements. -/
theorem vector_written {elem : Layout} (h : elem.Written closures) :
    (Layout.vector elem).Written closures := by
  -- the elements one by one, for codec and serializer alike
  have heach : ∀ vs xs, (valueCodec closures elem).encodeAll vs = some xs
      ↔ (∀ v ∈ vs, elem.Admits v)
        ∧ Value.serializeEach (Value.serialize closures elem) vs = some xs := by
    intro vs
    induction vs with
    | nil => simp [encodeAll, Value.serializeEach]
    | cons v vs ih =>
      intro bytes
      simp only [encodeAll_cons, h v, ih, Value.serializeEach, List.forall_mem_cons,
        Option.bind_eq_bind, Option.bind_eq_some_iff, Option.pure_def, Option.some.injEq]
      constructor
      · rintro ⟨x, xs, ⟨hv, hx⟩, ⟨hvs, hxs⟩, rfl⟩
        exact ⟨⟨hv, hvs⟩, x, hx, xs, hxs, rfl⟩
      · rintro ⟨⟨hv, hvs⟩, x, hx, xs, hxs, rfl⟩
        exact ⟨x, xs, ⟨hv, hx⟩, ⟨hvs, hxs⟩, rfl⟩
  intro v bytes
  rw [valueCodec, Value.vectorCodec, encode_prism]
  cases v with
  | vector elems =>
    simp only [Option.some.injEq, exists_eq_left', encode_seq, heach, Layout.Admits,
      Value.serialize, Option.bind_eq_bind, Option.bind_eq_some_iff, Option.pure_def]
    constructor
    · rintro ⟨n, hn, xs, ⟨hvs, hxs⟩, hbytes⟩
      exact ⟨hvs, n, hn, xs, hxs, hbytes⟩
    · rintro ⟨hvs, n, hn, xs, hxs, hbytes⟩
      exact ⟨n, hn, xs, ⟨hvs, hxs⟩, hbytes⟩
  -- no other value is a vector
  | _ => simp [Layout.Admits]

theorem struct_written {fields : List Layout} (h : Layout.FieldsWritten closures fields) :
    (Layout.struct fields).Written closures := by
  intro v bytes
  rw [valueCodec, Value.structCodec, encode_prism]
  cases v with
  | struct values =>
    simp only [Option.some.injEq, exists_eq_left', h values, Layout.Admits, Value.serialize]
  | _ => simp [Layout.Admits]

mutual

/-- **The codec and the serializer.** By induction on the layout. -/
theorem layout_written : ∀ layout : Layout, layout.Written closures
  | .bool | .u8 | .u16 | .u32 | .u64 | .u128 | .u256 => by
    intro v bytes
    cases v <;> simp [valueCodec, Value.boolCodec, Value.u8Codec, Value.u16Codec, Value.u32Codec,
      Value.u64Codec, Value.u128Codec, Value.u256Codec, prism, Layout.Admits, Value.serialize]
  | .address => address_written
  | .signer => signer_written
  | .vector elem => vector_written (layout_written elem)
  | .struct fields => struct_written (fields_written fields)
  | .variants alts => variants_written (alts_written alts)
  | .function args results abilities => by
    intro v bytes
    cases v <;> simp [valueCodec, Value.closureCodec, prism, Layout.Admits, Value.serialize]

theorem fields_written : ∀ layouts : List Layout, Layout.FieldsWritten closures layouts
  | [] => fieldsWritten_nil
  | layout :: layouts => fieldsWritten_cons (layout_written layout) (fields_written layouts)

theorem alts_written : ∀ alts : List (List Layout), Layout.VariantsWritten closures alts
  | [] => variantsWritten_nil
  | fields :: alts => variantsWritten_cons (fields_written fields) (alts_written alts)

end

end NexusMove
