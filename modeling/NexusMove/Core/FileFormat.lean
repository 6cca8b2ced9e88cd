import NexusMove.Core.Types

/-!
# Compiled modules

The tables of a compiled module that the runtime, the ABI hash and the loader
look at (`move-binary-format`, `file_format.rs` and `access.rs`). Tables refer to
one another by index; the deserializer's bounds checker makes every index valid,
so a lookup out of range, where the source would panic, returns a default.

Signature tokens are taken over a type of struct references: `UInt16` indices
into the struct handle table in a binary, and whatever these stand for once they
are resolved (`SignatureTokenOf.map`).
-/

namespace NexusMove

/-- A type in a signature. `ι` is how a struct is referred to. -/
inductive SignatureTokenOf (ι : Type) where
  | bool | u8 | u64 | u128 | address | signer
  | vector (elem : SignatureTokenOf ι)
  | function (params results : List (SignatureTokenOf ι)) (abilities : AbilitySet)
  | struct (idx : ι)
  | structInstantiation (idx : ι) (typeArgs : List (SignatureTokenOf ι))
  | reference (inner : SignatureTokenOf ι)
  | mutableReference (inner : SignatureTokenOf ι)
  | typeParameter (idx : UInt16)
  | u16 | u32 | u256
deriving Inhabited

/-- A type in a binary: structs are indices into the struct handle table. -/
abbrev SignatureToken := SignatureTokenOf UInt16

namespace SignatureTokenOf

variable {ι κ : Type}

mutual

/-- The token with its references replaced. -/
def map (f : ι → κ) : SignatureTokenOf ι → SignatureTokenOf κ
  | bool => bool
  | u8 => u8
  | u64 => u64
  | u128 => u128
  | address => address
  | signer => signer
  | vector t => vector (map f t)
  | function ps rs a => function (mapList f ps) (mapList f rs) a
  | struct i => struct (f i)
  | structInstantiation i ts => structInstantiation (f i) (mapList f ts)
  | reference t => reference (map f t)
  | mutableReference t => mutableReference (map f t)
  | typeParameter i => typeParameter i
  | u16 => u16
  | u32 => u32
  | u256 => u256

def mapList (f : ι → κ) : List (SignatureTokenOf ι) → List (SignatureTokenOf κ)
  | [] => []
  | t :: ts => map f t :: mapList f ts

end

end SignatureTokenOf

/-! ## Tables -/

/-- Indices into the tables of addresses and identifiers. -/
structure ModuleHandle where
  address : Nat
  name : Nat
deriving DecidableEq, Inhabited

structure StructTypeParameter where
  constraints : AbilitySet
  isPhantom : Bool
deriving DecidableEq

/-- A struct of this or another module. -/
structure StructHandle where
  module : Nat
  name : Nat
  abilities : AbilitySet
  typeParameters : List StructTypeParameter
deriving Inhabited

/-- A function of this or another module. -/
structure FunctionHandle where
  module : Nat
  name : Nat
  parameters : Nat
  returns : Nat
  typeParameters : List AbilitySet
deriving Inhabited

structure FieldDefinition where
  name : Nat
  signature : SignatureToken

structure VariantDefinition where
  name : Nat
  fields : List FieldDefinition

/-- The layout of a struct that this module defines. -/
inductive StructFieldInformation where
  | native
  | declared (fields : List FieldDefinition)
  | declaredVariants (variants : List VariantDefinition)
deriving Inhabited

structure StructDefinition where
  structHandle : Nat
  fieldInformation : StructFieldInformation
deriving Inhabited

inductive Visibility where
  | priv
  | pub
  | friend
deriving DecidableEq, Inhabited

/-- The byte of a visibility in the binary. -/
def Visibility.toU8 : Visibility → UInt8
  | priv => 0
  | pub => 1
  | friend => 3

structure FunctionDefinition where
  function : Nat
  visibility : Visibility
  isEntry : Bool
deriving Inhabited

/-- A deserialized module. `otherTables` stands for what only the verifier and the interpreter
look at: code units, instantiations, constants, friends and metadata. -/
structure CompiledModule where
  selfModuleHandleIdx : Nat
  moduleHandles : List ModuleHandle
  structHandles : List StructHandle
  functionHandles : List FunctionHandle
  signatures : List (List SignatureToken)
  identifiers : List Identifier
  addressIdentifiers : List AccountAddress
  structDefs : List StructDefinition
  functionDefs : List FunctionDefinition
  otherTables : Bytes

namespace CompiledModule

variable (m : CompiledModule)

def moduleHandleAt (idx : Nat) : ModuleHandle := m.moduleHandles.getD idx default
def structHandleAt (idx : Nat) : StructHandle := m.structHandles.getD idx default
def functionHandleAt (idx : Nat) : FunctionHandle := m.functionHandles.getD idx default
def signatureAt (idx : Nat) : List SignatureToken := m.signatures.getD idx []
def identifierAt (idx : Nat) : Identifier := m.identifiers.getD idx ⟨""⟩
def addressIdentifierAt (idx : Nat) : AccountAddress :=
  m.addressIdentifiers.getD idx ⟨FixedBytes.zero 32⟩

def selfHandle : ModuleHandle := m.moduleHandleAt m.selfModuleHandleIdx

/-- `module_id_for_handle`. -/
def moduleIdForHandle (h : ModuleHandle) : ModuleId where
  address := m.addressIdentifierAt h.address
  name := m.identifierAt h.name

/-- The id that the module gives itself. -/
def selfId : ModuleId := m.moduleIdForHandle m.selfHandle

def functionName (f : FunctionDefinition) : Identifier :=
  m.identifierAt (m.functionHandleAt f.function).name

def structName (s : StructDefinition) : Identifier :=
  m.identifierAt (m.structHandleAt s.structHandle).name

/-- The modules named in the handle table, other than the module's own handle. -/
def immediateDependencies : List ModuleId :=
  (m.moduleHandles.filter (· ≠ m.selfHandle)).map m.moduleIdForHandle

end CompiledModule

/-- A struct by its module and its name, as the VM keys it. -/
structure StructIdentifier where
  module : ModuleId
  name : Identifier
deriving DecidableEq

/-- What a struct handle index refers to. -/
def CompiledModule.resolveStruct (m : CompiledModule) (idx : UInt16) : StructIdentifier :=
  let h := m.structHandleAt idx.toNat
  { module := m.moduleIdForHandle (m.moduleHandleAt h.module), name := m.identifierAt h.name }

/-! ## Scripts -/

/-- A deserialized script. It has the handle tables of a module, but no definitions and no name. -/
structure CompiledScript where
  moduleHandles : List ModuleHandle
  structHandles : List StructHandle
  signatures : List (List SignatureToken)
  identifiers : List Identifier
  addressIdentifiers : List AccountAddress
  typeParameters : List AbilitySet
  parameters : Nat
  otherTables : Bytes

namespace CompiledScript

variable (s : CompiledScript)

/-- The tables of a script, looked up as those of a module are. -/
def handleTables : CompiledModule where
  selfModuleHandleIdx := 0
  moduleHandles := s.moduleHandles
  structHandles := s.structHandles
  functionHandles := []
  signatures := s.signatures
  identifiers := s.identifiers
  addressIdentifiers := s.addressIdentifiers
  structDefs := []
  functionDefs := []
  otherTables := s.otherTables

/-- The modules named in the handle table. -/
def immediateDependencies : List ModuleId :=
  s.moduleHandles.map s.handleTables.moduleIdForHandle

end CompiledScript

end NexusMove
