import Mathlib.Data.List.Sort
import NexusMove.Core.FileFormat

/-!
# The ABI hash

`abi.rs`: the public surface of a module is written as one byte string, the
preimage, and hashed. Functions and structs are sorted by name; names are
written without a length in front, token lists and field lists with one. Struct
references are written as the module's own handle indices, and neither functions
nor structs are written with their type parameters.

The source encodes the token lists before it sorts; the sort looks at names
only, so here the entries stay structured until they are written.
-/

namespace NexusMove

/-! ## Signature tokens -/

mutual

/-- `encode_token`. List lengths are truncated to one byte. -/
def encodeToken : SignatureToken → Bytes
  | .bool => [0x01]
  | .u8 => [0x02]
  | .u16 => [0x03]
  | .u32 => [0x04]
  | .u64 => [0x05]
  | .u128 => [0x06]
  | .u256 => [0x07]
  | .address => [0x08]
  | .signer => [0x09]
  | .vector inner => 0x0A :: encodeToken inner
  | .struct idx => 0x0B :: leBytes 2 idx.toNat
  | .structInstantiation idx typeArgs =>
    0x0C :: leBytes 2 idx.toNat ++ UInt8.ofNat typeArgs.length :: signatureTokensToBytes typeArgs
  | .reference inner => 0x0D :: encodeToken inner
  | .mutableReference inner => 0x0E :: encodeToken inner
  | .typeParameter idx => 0x0F :: leBytes 2 idx.toNat
  | .function params ret abilities =>
    0x10 :: UInt8.ofNat params.length :: signatureTokensToBytes params
      ++ UInt8.ofNat ret.length :: signatureTokensToBytes ret ++ [abilities.bits]

/-- The tokens one after another: no token is a prefix of another, so no length is needed between
them. -/
def signatureTokensToBytes : List SignatureToken → Bytes
  | [] => []
  | t :: ts => encodeToken t ++ signatureTokensToBytes ts

end

/-- A length as a little-endian `u32`, truncated. -/
def u32Le (n : Nat) : Bytes := leBytes 4 n

/-- A part that is written behind its length, as a little-endian `u32`. -/
def withLength (bs : Bytes) : Bytes := u32Le bs.length ++ bs

/-! ## Functions -/

/-- What the hash covers of a function. -/
@[ext]
structure FunctionEntry where
  name : Identifier
  visibility : Visibility
  isEntry : Bool
  params : List SignatureToken
  ret : List SignatureToken

def FunctionEntry.toBytes (e : FunctionEntry) : Bytes :=
  e.name.asBytes ++ e.visibility.toU8 :: e.isEntry.toUInt8 ::
    withLength (signatureTokensToBytes e.params) ++ withLength (signatureTokensToBytes e.ret)

/-! ## Structs -/

/-- A field with its name looked up, over a type of struct references. -/
@[ext]
structure FieldEntryOf (ι : Type) where
  name : Identifier
  signature : SignatureTokenOf ι

@[ext]
structure VariantEntryOf (ι : Type) where
  name : Identifier
  fields : List (FieldEntryOf ι)

/-- How a struct is laid out. -/
inductive FieldsEntryOf (ι : Type) where
  | native
  | declared (fields : List (FieldEntryOf ι))
  | declaredVariants (variants : List (VariantEntryOf ι))

abbrev FieldEntry := FieldEntryOf UInt16
abbrev VariantEntry := VariantEntryOf UInt16
abbrev FieldsEntry := FieldsEntryOf UInt16

def FieldEntryOf.toBytes (f : FieldEntry) : Bytes :=
  withLength f.name.asBytes ++ withLength (encodeToken f.signature)

def VariantEntryOf.toBytes (v : VariantEntry) : Bytes :=
  withLength v.name.asBytes ++ v.fields.flatMap FieldEntryOf.toBytes

def FieldsEntryOf.toBytes : FieldsEntry → Bytes
  | .native => [0xFF]
  | .declared fields => fields.flatMap FieldEntryOf.toBytes
  | .declaredVariants variants => 0xFE :: variants.flatMap VariantEntryOf.toBytes

/-- What the preimage says of a struct. -/
@[ext]
structure StructEntry where
  name : Identifier
  abilities : AbilitySet
  fields : FieldsEntry

def StructEntry.toBytes (e : StructEntry) : Bytes :=
  e.name.asBytes ++ e.abilities.bits :: withLength e.fields.toBytes

/-! ## Modules -/

/-- The order of the names as bytes. -/
def nameLe (m n : Identifier) : Prop := m.asBytes ≤ n.asBytes

instance : DecidableRel nameLe := fun m n => inferInstanceAs (Decidable (m.asBytes ≤ n.asBytes))

/-- `sort_by` on the names alone, which is stable. -/
def sortByName {α : Type} (name : α → Identifier) (xs : List α) : List α :=
  xs.insertionSort fun a b => nameLe (name a) (name b)

@[simp] theorem mem_sortByName {α : Type} {name : α → Identifier} {xs : List α} {a : α} :
    a ∈ sortByName name xs ↔ a ∈ xs :=
  List.mem_insertionSort _

@[simp] theorem length_sortByName {α : Type} (name : α → Identifier) (xs : List α) :
    (sortByName name xs).length = xs.length :=
  List.length_insertionSort _ xs

theorem sortByName_pairwise {α : Type} (name : α → Identifier) (xs : List α) :
    (sortByName name xs).Pairwise fun a b => nameLe (name a) (name b) :=
  have : Std.Total fun a b => nameLe (name a) (name b) := ⟨fun _ _ => List.le_total ..⟩
  have : IsTrans α fun a b => nameLe (name a) (name b) := ⟨fun _ _ _ => List.le_trans⟩
  List.pairwise_insertionSort _ xs

/-- **The order of entries.** Entries that are the same if their names are come out in one order,
whatever order they are in. -/
theorem sortByName_eq_of_perm {α : Type} {name : α → Identifier} {xs ys : List α} (h : xs.Perm ys)
    (hname : ∀ a ∈ xs, ∀ b ∈ xs, name a = name b → a = b) :
    sortByName name xs = sortByName name ys := by
  have hperm : (sortByName name xs).Perm (sortByName name ys) :=
    (List.perm_insertionSort _ xs).trans (h.trans (List.perm_insertionSort _ ys).symm)
  refine hperm.eq_of_pairwise ?_ (sortByName_pairwise name xs) (sortByName_pairwise name ys)
  intro a b ha hb hab hba
  have heq : name a = name b := Identifier.asBytes_inj.mp (List.le_antisymm hab hba)
  exact hname a (mem_sortByName.mp ha) b (h.mem_iff.mpr (mem_sortByName.mp hb)) heq

/-- Where names are not used twice, what is sorted decides the order. -/
theorem sortByName_eq_of_mem_iff {α : Type} {name : α → Identifier} {xs ys : List α}
    (hx : (xs.map name).Nodup) (hy : (ys.map name).Nodup) (h : ∀ a, a ∈ xs ↔ a ∈ ys) :
    sortByName name xs = sortByName name ys := by
  have hperm : xs.Perm ys := (List.perm_ext_iff_of_nodup hx.of_map hy.of_map).mpr h
  exact sortByName_eq_of_perm hperm fun a ha b hb heq => List.inj_on_of_nodup_map hx ha hb heq

namespace CompiledModule

variable (m : CompiledModule)

def functionEntry (f : FunctionDefinition) : FunctionEntry :=
  let h := m.functionHandleAt f.function
  { name := m.identifierAt h.name
    visibility := f.visibility
    isEntry := f.isEntry
    params := m.signatureAt h.parameters
    ret := m.signatureAt h.returns }

/-- The functions the hash covers: all but the private ones. -/
def visibleFunctions : List FunctionDefinition :=
  m.functionDefs.filter fun f => f.visibility ≠ .priv

def fieldEntry (f : FieldDefinition) : FieldEntry where
  name := m.identifierAt f.name
  signature := f.signature

def fieldsEntry : StructFieldInformation → FieldsEntry
  | .native => .native
  | .declared fields => .declared (fields.map m.fieldEntry)
  | .declaredVariants variants =>
    .declaredVariants (variants.map fun v =>
      { name := m.identifierAt v.name, fields := v.fields.map m.fieldEntry })

def structEntry (s : StructDefinition) : StructEntry :=
  let h := m.structHandleAt s.structHandle
  { name := m.identifierAt h.name
    abilities := h.abilities
    fields := m.fieldsEntry s.fieldInformation }

/-- The visible functions, by name. -/
def functionEntries : List FunctionEntry :=
  sortByName FunctionEntry.name (m.visibleFunctions.map m.functionEntry)

def structEntries : List StructEntry :=
  sortByName StructEntry.name (m.structDefs.map m.structEntry)

/-- The bytes `compute_module_abi_hash` feeds to the hasher. -/
def abiPreimage : Bytes :=
  "functions:".utf8 ++ u32Le m.functionEntries.length
    ++ m.functionEntries.flatMap FunctionEntry.toBytes
    ++ "structs:".utf8 ++ u32Le m.structEntries.length
    ++ m.structEntries.flatMap StructEntry.toBytes

end CompiledModule

def computeModuleAbiHash (blake3 : Bytes → HashValue) (m : CompiledModule) : HashValue :=
  blake3 m.abiPreimage

/-! ## Packages -/

/-- What the package hash covers of a module. -/
@[ext]
structure PackageEntry where
  name : Identifier
  hash : HashValue

def PackageEntry.toBytes (e : PackageEntry) : Bytes := e.name.asBytes ++ e.hash.toBytes

section Package

variable (blake3 : Bytes → HashValue)

def packageEntry (m : CompiledModule) : PackageEntry where
  name := m.selfId.name
  hash := computeModuleAbiHash blake3 m

def packageEntries (modules : List CompiledModule) : List PackageEntry :=
  sortByName PackageEntry.name (modules.map (packageEntry blake3))

/-- The bytes `compute_package_abi_hash` feeds to the hasher. -/
def packageAbiPreimage (modules : List CompiledModule) : Bytes :=
  "package_abi:".utf8 ++ u32Le (packageEntries blake3 modules).length
    ++ (packageEntries blake3 modules).flatMap PackageEntry.toBytes

/-- A package without modules has the zero hash. -/
def computePackageAbiHash (modules : List CompiledModule) : HashValue :=
  if modules.isEmpty then .zero 32 else blake3 (packageAbiPreimage blake3 modules)

end Package

def abiIsCompatible (oldHash newHash : HashValue) : Bool := oldHash == newHash

end NexusMove
