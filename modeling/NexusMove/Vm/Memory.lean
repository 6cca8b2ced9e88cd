import NexusMove.Lib.SealedRegion
import NexusMove.Vm.RuntimeTypes

/-!
# Values in memory

`values_impl.rs`: values as the interpreter holds them. Vectors and structs live in
shared cells (`Rc<RefCell<..>>`), numbered here; a reference is a pointer to such a
cell, or to one place in it. A reference into global storage also carries the flag
that says whether the resource may have been altered.

`Rc::strong_count` is a parameter `rc` of the operations that look at it. Errors
carry no message where the source prints the values of the debugger.

* `ValueImpl`, `VmMemory` — values and the cells they live in.
* `ContainerRef.borrowElem`, `writeRef`, `readRef`, … — the operations.
* `VmMemory.represent`, `VmMemory.valueAs` — a value put into memory, and read back.
-/

namespace NexusMove

/-- The types whose values are no containers. -/
inductive PrimType where
  | u8 | u16 | u32 | u64 | u128 | u256 | bool | address
deriving DecidableEq

/-- The values that are stored in place. -/
inductive Prim where
  | u8 (n : UInt8)
  | u16 (n : UInt16)
  | u32 (n : UInt32)
  | u64 (n : UInt64)
  | u128 (n : BitVec 128)
  | u256 (n : BitVec 256)
  | bool (b : Bool)
  | address (a : AccountAddress)
deriving DecidableEq

def Prim.type : Prim → PrimType
  | u8 _ => .u8
  | u16 _ => .u16
  | u32 _ => .u32
  | u64 _ => .u64
  | u128 _ => .u128
  | u256 _ => .u256
  | bool _ => .bool
  | address _ => .address

/-- A primitive as a value of storage. -/
def Prim.toValue : Prim → Value
  | u8 n => .u8 n
  | u16 n => .u16 n
  | u32 n => .u32 n
  | u64 n => .u64 n
  | u128 n => .u128 n
  | u256 n => .u256 n
  | bool b => .bool b
  | address a => .address a

/-- The other way round, where the value is a primitive. -/
def Value.prim? : Value → Option Prim
  | u8 n => some (.u8 n)
  | u16 n => some (.u16 n)
  | u32 n => some (.u32 n)
  | u64 n => some (.u64 n)
  | u128 n => some (.u128 n)
  | u256 n => some (.u256 n)
  | bool b => some (.bool b)
  | address a => some (.address a)
  | _ => none

/-- The layouts of primitives. -/
def Layout.primType? : Layout → Option PrimType
  | u8 => some .u8
  | u16 => some .u16
  | u32 => some .u32
  | u64 => some .u64
  | u128 => some .u128
  | u256 => some .u256
  | bool => some .bool
  | address => some .address
  | _ => none

/-- The kinds of container: `VecU8` and its like are the vectors of primitives. -/
inductive ContainerKind where
  | locals | vec | struct
  | prims (t : PrimType)
deriving DecidableEq

/-- `Container`: a kind and the cell that is shared by all who hold it. -/
structure Container where
  kind : ContainerKind
  cell : Nat
deriving DecidableEq

/-- `ContainerRef::Local` and `ContainerRef::Global`. -/
inductive ContainerRef where
  | localRef (container : Container)
  | globalRef (status : Nat) (container : Container)
deriving DecidableEq

namespace ContainerRef

def container : ContainerRef → Container
  | localRef c => c
  | globalRef _ c => c

/-- The flag of the resource that a reference leads into, if it does. -/
def status? : ContainerRef → Option Nat
  | localRef _ => none
  | globalRef s _ => some s

/-- The same kind of reference to another container. -/
def withContainer : ContainerRef → Container → ContainerRef
  | localRef _, c => localRef c
  | globalRef s _, c => globalRef s c

end ContainerRef

/-- `ValueImpl`, without delayed fields. A closure is what its codec makes of it. -/
inductive ValueImpl where
  | invalid
  | prim (p : Prim)
  | container (c : Container)
  | containerRef (r : ContainerRef)
  | indexedRef (idx : Nat) (r : ContainerRef)
  | closureValue (data : Bytes)
deriving DecidableEq

inductive GlobalDataStatus where
  | clean | dirty
deriving DecidableEq

/-- The cells of containers, and the flags that references into global storage share. -/
structure VmMemory where
  heap : Heap ValueImpl
  nextStatus : Nat
  status : Nat → GlobalDataStatus

namespace VmMemory

def empty : VmMemory where
  heap := .empty
  nextStatus := 0
  status _ := .clean

def write (m : VmMemory) (c : Nat) (vs : List ValueImpl) : VmMemory :=
  { m with heap := m.heap.write c vs }

/-- `Rc::new(RefCell::new(..))`, as a container. -/
def alloc (m : VmMemory) (kind : ContainerKind) (vs : List ValueImpl) : ValueImpl × VmMemory :=
  (.container ⟨kind, m.heap.next⟩, { m with heap := m.heap.alloc vs })

/-- `mark_dirty` on the shared flag. -/
def setDirty (m : VmMemory) (s : Nat) : VmMemory :=
  { m with status := Function.update m.status s .dirty }

/-- A new flag, for a resource that was just loaded or published. -/
def newStatus (m : VmMemory) (st : GlobalDataStatus) : VmMemory where
  heap := m.heap
  nextStatus := m.nextStatus + 1
  status := Function.update m.status m.nextStatus st

end VmMemory

/-- `ContainerRef::mark_dirty`. -/
def ContainerRef.markDirty : ContainerRef → VmMemory → VmMemory
  | localRef _, m => m
  | globalRef s _, m => m.setDirty s

/-! ## Errors -/

namespace StatusCode

def emptyValueStack : UInt64 := 2003
def failedToDeserializeResource : UInt64 := 2020
def resourceAlreadyExists : UInt64 := 4004
def missingData : UInt64 := 4008
def vectorOperationError : UInt64 := 4018
def executionStackOverflow : UInt64 := 4020
def callStackOverflow : UInt64 := 4021
def structVariantMismatch : UInt64 := 4038

end StatusCode

def eparanoidFailure : UInt64 := 1
def ereferenceCountingFailure : UInt64 := 2

def indexOutOfBounds : UInt64 := 1
def popEmptyVec : UInt64 := 2
def vecUnpackParityMismatch : UInt64 := 3

/-- `PartialVMError::with_sub_status`. -/
def VMError.withSubStatus (e : VMError) (s : UInt64) : VMError := { e with subStatus := some s }

/-- What should not happen to verified code. -/
def invariantViolation (message : Option String) : VMError :=
  partialError StatusCode.unknownInvariantViolationError message

def internalTypeError : VMError := partialError StatusCode.internalTypeError none

/-- The container is shared, though it should be held by one value only. -/
def danglingReference (message : Option String) : VMError :=
  (invariantViolation message).withSubStatus ereferenceCountingFailure

def vectorOperationError (s : UInt64) : VMError :=
  (partialError StatusCode.vectorOperationError none).withSubStatus s

/-- A panic of the source ends the run as an error does. -/
def panicked : VMError := partialError StatusCode.unknownInvariantViolationError (some "panic")

/-! ## Copying -/

/-- The values of a container, copied from the left. -/
def copyValues (copy : ValueImpl → VmMemory → VMResult (ValueImpl × VmMemory)) :
    List ValueImpl → VmMemory → VMResult (List ValueImpl × VmMemory)
  | [], m => .ok ([], m)
  | v :: vs, m => do
    let (v, m) ← copy v m
    let (vs, m) ← copyValues copy vs m
    return (v :: vs, m)

/-- `copy_value`: containers are copied deep, references are not followed. The source recurses as
deep as the value is and fails with its own stack; `depth` is how deep that is. -/
def copyValue : Nat → ValueImpl → VmMemory → VMResult (ValueImpl × VmMemory)
  | 0, _, _ => .error panicked
  | depth + 1, .container c, m =>
    if c.kind = .locals then
      .error (invariantViolation (some "cannot copy a Locals container"))
    else do
      let (vs, m) ← copyValues (copyValue depth) (m.heap.cell c.cell) m
      return m.alloc c.kind vs
  | _ + 1, v, m => .ok (v, m)

/-! ## Ownership -/

/-- `take_unique_ownership`: the content of a cell to which there is one pointer. -/
def takeUniqueOwnership (rc : Nat → Nat) (c : Nat) (m : VmMemory) :
    VMResult (List ValueImpl × VmMemory) :=
  if rc c = 1 then .ok (m.heap.cell c, m.write c [])
  else .error (danglingReference none)

/-! ## References -/

namespace ContainerRef

variable (r : ContainerRef)

/-- Containers of values, and not of one primitive type. -/
def isGeneric : ContainerKind → Bool
  | .prims _ => false
  | _ => true

/-- `borrow_elem`: containers are borrowed themselves, other values through their place. -/
def borrowElem (idx : Nat) (m : VmMemory) : VMResult ValueImpl :=
  let vs := m.heap.cell r.container.cell
  match vs[idx]? with
  | none => .error (invariantViolation
      (some ("index out of bounds when borrowing container element: got: " ++ toString idx
        ++ ", len: " ++ toString vs.length)))
  | some v =>
    if isGeneric r.container.kind then
      match v with
      | .container c => .ok (.containerRef (r.withContainer c))
      | .prim _ | .closureValue _ => .ok (.indexedRef idx r)
      | .containerRef _ | .invalid | .indexedRef _ _ => .error (invariantViolation none)
    -- an element of a vector of primitives has no cell of its own
    else .ok (.indexedRef idx r)

/-- `ContainerRef::read_ref`. -/
def readRef (depth : Nat) (m : VmMemory) : VMResult (ValueImpl × VmMemory) :=
  copyValue depth (.container r.container) m

/-- `ContainerRef::write_ref`: the content of a container goes into the cell of another. -/
def writeRef (rc : Nat → Nat) (v : ValueImpl) (m : VmMemory) : VMResult VmMemory :=
  match v with
  | .container c =>
    -- the locals of a frame are never the target of a write as a whole
    if r.container.kind = .locals then
      .error (invariantViolation (some "cannot overwrite Container::Locals"))
    else if c.kind ≠ r.container.kind then
      .error ((invariantViolation
        (some "failed to write_ref: container type mismatch")).withSubStatus eparanoidFailure)
    else do
      let (vs, m) ← takeUniqueOwnership rc c.cell m
      return r.markDirty (m.write r.container.cell vs)
  | _ => .error (invariantViolation none)

/-- `IndexedRef::read_ref`. -/
def readIndexed (depth : Nat) (idx : Nat) (m : VmMemory) : VMResult (ValueImpl × VmMemory) :=
  match (m.heap.cell r.container.cell)[idx]? with
  | some v => copyValue depth v m
  | none => .error panicked

/-- The value, if a container of the kind may hold it: a vector of primitives holds its own. -/
def castElem (kind : ContainerKind) (v : ValueImpl) : VMResult ValueImpl :=
  match kind, v with
  | .prims t, .prim p => if p.type = t then .ok v else .error internalTypeError
  | .prims _, _ => .error internalTypeError
  | _, _ => .ok v

/-- `IndexedRef::write_ref`: one place of a container is given a value that lives in place. -/
def writeIndexed (idx : Nat) (v : ValueImpl) (m : VmMemory) : VMResult VmMemory :=
  match v with
  | .indexedRef _ _ | .containerRef _ | .invalid | .container _ => .error (invariantViolation none)
  | .prim _ | .closureValue _ => do
    let v ← castElem r.container.kind v
    let vs := m.heap.cell r.container.cell
    if vs.length ≤ idx then .error panicked
    else .ok (r.markDirty (m.write r.container.cell (vs.set idx v)))

end ContainerRef

/-- `Reference::read_ref`. -/
def Reference.readRef (depth : Nat) (v : ValueImpl) (m : VmMemory) :
    VMResult (ValueImpl × VmMemory) :=
  match v with
  | .containerRef r => r.readRef depth m
  | .indexedRef idx r => r.readIndexed depth idx m
  | _ => .error internalTypeError

/-- `Reference::write_ref`. -/
def Reference.writeRef (rc : Nat → Nat) (ref v : ValueImpl) (m : VmMemory) : VMResult VmMemory :=
  match ref with
  | .containerRef r => r.writeRef rc v m
  | .indexedRef idx r => r.writeIndexed idx v m
  | _ => .error internalTypeError

/-- `SignerRef::borrow_signer`. -/
def ContainerRef.borrowSigner (r : ContainerRef) (m : VmMemory) : VMResult ValueImpl :=
  r.borrowElem 1 m

/-- `StructRef::get_variant_tag`. The tag is read through a reference to the first field. -/
def ContainerRef.getVariantTag (r : ContainerRef) (depth : Nat) (m : VmMemory) :
    VMResult UInt16 := do
  let tagRef ← r.borrowElem 0 m
  match ← Reference.readRef depth tagRef m with
  | (.prim (.u16 tag), _) => .ok tag
  | _ => .error internalTypeError

/-- `StructRef::borrow_variant_field`. -/
def ContainerRef.borrowVariantField (r : ContainerRef) (depth : Nat) (allowed : List UInt16)
    (idx : Nat) (m : VmMemory) : VMResult ValueImpl := do
  let tag ← r.getVariantTag depth m
  if tag ∈ allowed then r.borrowElem (idx + 1) m
  else .error (partialError StatusCode.structVariantMismatch none)

/-! ## Locals -/

/-- The locals of a frame, by their cell. -/
abbrev Locals := Nat

namespace Locals

variable (l : Locals)

/-- `Locals` tells of the index and of how many there are. -/
def indexError (idx len : Nat) : VMError :=
  partialError StatusCode.verifierInvariantViolation
    (some ("local index out of bounds: got " ++ toString idx ++ ", len: " ++ toString len))

def borrowLoc (idx : Nat) (m : VmMemory) : VMResult ValueImpl :=
  let vs := m.heap.cell l
  match vs[idx]? with
  | none => .error (invariantViolation
      (some ("index out of bounds when borrowing local: got: " ++ toString idx ++ ", len: "
        ++ toString vs.length)))
  | some (.container c) => .ok (.containerRef (.localRef c))
  | some (.prim _) | some (.closureValue _) => .ok (.indexedRef idx (.localRef ⟨.locals, l⟩))
  | some (.containerRef _) | some .invalid | some (.indexedRef _ _) =>
    .error (invariantViolation none)

def copyLoc (depth : Nat) (idx : Nat) (m : VmMemory) : VMResult (ValueImpl × VmMemory) :=
  let vs := m.heap.cell l
  match vs[idx]? with
  | none => .error (indexError idx vs.length)
  | some .invalid =>
    .error (invariantViolation (some ("cannot copy invalid value at index " ++ toString idx)))
  | some v => copyValue depth v m

/-- `swap_loc`, with the check for dangling references that is on by default. -/
def swapLoc (rc : Nat → Nat) (idx : Nat) (x : ValueImpl) (m : VmMemory) :
    VMResult (ValueImpl × VmMemory) :=
  let vs := m.heap.cell l
  match vs[idx]? with
  | none => .error (indexError idx vs.length)
  | some (.container c) =>
    if 1 < rc c.cell then
      .error (danglingReference (some "moving container with dangling references"))
    else .ok (.container c, m.write l (vs.set idx x))
  | some v => .ok (v, m.write l (vs.set idx x))

/-- `Locals::move_loc`, which leaves `Invalid` behind. -/
def moveLoc (rc : Nat → Nat) (idx : Nat) (m : VmMemory) : VMResult (ValueImpl × VmMemory) := do
  match ← l.swapLoc rc idx .invalid m with
  | (.invalid, _) =>
    .error (invariantViolation (some ("cannot move invalid value at index " ++ toString idx)))
  | (v, m) => .ok (v, m)

def storeLoc (rc : Nat → Nat) (idx : Nat) (x : ValueImpl) (m : VmMemory) : VMResult VmMemory := do
  let (_, m) ← l.swapLoc rc idx x m
  return m

/-- `drop_all_values`: every place is left invalid. -/
def dropAllValues (m : VmMemory) : VmMemory :=
  m.write l ((m.heap.cell l).map fun _ => .invalid)

end Locals

/-! ## Vectors -/

/-- The types with vectors of their own kind. -/
def Ty.primType? : Ty → Option PrimType
  | .u8 => some .u8
  | .u16 => some .u16
  | .u32 => some .u32
  | .u64 => some .u64
  | .u128 => some .u128
  | .u256 => some .u256
  | .bool => some .bool
  | .address => some .address
  | _ => none

/-- The kind of container for a vector of the type. -/
def Ty.vectorKind (ty : Ty) : VMResult ContainerKind :=
  match ty with
  | .reference _ | .mutableReference _ | .tyParam _ => .error (invariantViolation none)
  | _ => .ok ((ty.primType?.map ContainerKind.prims).getD .vec)

/-- `check_elem_layout`. A vector of signers may also be a struct container, which the operations
on vectors do not expect. -/
def checkElemLayout (ty : Ty) (kind : ContainerKind) : VMResult Unit :=
  match ty, kind with
  | .signer, .struct => .error panicked
  | _, _ => do
    let expected ← ty.vectorKind
    if expected = kind then .ok () else .error (invariantViolation none)

namespace ContainerRef

variable (r : ContainerRef) (ty : Ty)

def vecLen (m : VmMemory) : VMResult Nat := do
  checkElemLayout ty r.container.kind
  return (m.heap.cell r.container.cell).length

def vecBorrowElem (idx : Nat) (m : VmMemory) : VMResult ValueImpl := do
  checkElemLayout ty r.container.kind
  if (m.heap.cell r.container.cell).length ≤ idx then
    .error (vectorOperationError indexOutOfBounds)
  else r.borrowElem idx m

def vecPushBack (v : ValueImpl) (m : VmMemory) : VMResult VmMemory := do
  checkElemLayout ty r.container.kind
  let v ← castElem r.container.kind v
  return r.markDirty (m.write r.container.cell (m.heap.cell r.container.cell ++ [v]))

def vecPop (m : VmMemory) : VMResult (ValueImpl × VmMemory) := do
  checkElemLayout ty r.container.kind
  match (m.heap.cell r.container.cell).getLast? with
  | none => .error (vectorOperationError popEmptyVec)
  | some v =>
    .ok (v, r.markDirty (m.write r.container.cell (m.heap.cell r.container.cell).dropLast))

def vecSwap (i j : Nat) (m : VmMemory) : VMResult VmMemory := do
  checkElemLayout ty r.container.kind
  let vs := m.heap.cell r.container.cell
  match vs[i]?, vs[j]? with
  | some v, some w => .ok (r.markDirty (m.write r.container.cell ((vs.set i w).set j v)))
  | _, _ => .error (vectorOperationError indexOutOfBounds)

end ContainerRef

/-- The elements of a new vector, each cast to its kind. -/
def castElems (kind : ContainerKind) : List ValueImpl → VMResult (List ValueImpl)
  | [] => .ok []
  | v :: vs => do return (← ContainerRef.castElem kind v) :: (← castElems kind vs)

/-- `Vector::pack`. -/
def vecPack (ty : Ty) (vs : List ValueImpl) (m : VmMemory) : VMResult (ValueImpl × VmMemory) := do
  let kind ← ty.vectorKind
  let vs ← castElems kind vs
  return m.alloc kind vs

/-- `Vector::unpack`. -/
def vecUnpack (rc : Nat → Nat) (ty : Ty) (num : Nat) (c : Container) (m : VmMemory) :
    VMResult (List ValueImpl × VmMemory) := do
  checkElemLayout ty c.kind
  let (vs, m) ← takeUniqueOwnership rc c.cell m
  if vs.length = num then .ok (vs, m)
  else .error (vectorOperationError vecUnpackParityMismatch)

/-! ## Structs -/

/-- The cast of a value to a struct, which takes its fields out of their cell. -/
def castStruct (rc : Nat → Nat) (v : ValueImpl) (m : VmMemory) :
    VMResult (List ValueImpl × VmMemory) :=
  match v with
  | .container ⟨.struct, c⟩ => takeUniqueOwnership rc c m
  | _ => .error internalTypeError

/-- `Struct::unpack_variant`. -/
def unpackVariant (variant : UInt16) (fields : List ValueImpl) : VMResult (List ValueImpl) :=
  match fields with
  | [] => .error (invariantViolation (some "invalid empty enum variant"))
  | .prim (.u16 tag) :: fields =>
    if tag = variant then .ok fields
    else .error (partialError StatusCode.structVariantMismatch none)
  | _ :: _ => .error internalTypeError

/-! ## Values of a layout -/

/-- The kind of container that a vector of the layout is read into. -/
def Layout.vectorKind (elem : Layout) : ContainerKind :=
  (elem.primType?.map ContainerKind.prims).getD .vec

/-- The address fields of a signer, as many as its variant has. -/
def signerFields : List Value → Option (List ValueImpl)
  | [.address a] => some [.prim (.address a)]
  | [.address a, .address b] => some [.prim (.address a), .prim (.address b)]
  | _ => none

/-- The elements from the left, each above those before it. -/
def representEach (represent : Value → VmMemory → Option (ValueImpl × VmMemory)) :
    List Value → VmMemory → Option (List ValueImpl × VmMemory)
  | [], m => some ([], m)
  | v :: vs, m => do
    let (x, m) ← represent v m
    let (xs, m) ← representEach represent vs m
    return (x :: xs, m)

mutual

/-- Put a value of a layout into memory: what the deserializer builds as it reads. -/
def represent : Layout → Value → VmMemory → Option (ValueImpl × VmMemory)
  | .vector elem, .vector vs, m => do
    let (xs, m) ← representEach (represent elem) vs m
    return m.alloc elem.vectorKind xs
  | .struct fields, .struct vs, m => do
    let (xs, m) ← representFields fields vs m
    return m.alloc .struct xs
  | .variants variants, .struct (.u16 tag :: vs), m => do
    let (xs, m) ← representVariant variants tag.toNat vs m
    return m.alloc .struct (.prim (.u16 tag) :: xs)
  | .signer, .struct (.u16 tag :: vs), m => do
    let xs ← signerFields vs
    return m.alloc .struct (.prim (.u16 tag) :: xs)
  | .function _ _ _, .closure data, m => some (.closureValue data, m)
  -- primitives stand in place, at the layout of their type
  | layout, v, m => do
    let p ← v.prim?
    if layout.primType? = some p.type then some (.prim p, m) else none

/-- One layout for each field. -/
def representFields : List Layout → List Value → VmMemory → Option (List ValueImpl × VmMemory)
  | [], [], m => some ([], m)
  | layout :: layouts, v :: vs, m => do
    let (x, m) ← represent layout v m
    let (xs, m) ← representFields layouts vs m
    return (x :: xs, m)
  | _, _, _ => none

/-- The fields of the variant with the number. -/
def representVariant : List (List Layout) → Nat → List Value → VmMemory →
    Option (List ValueImpl × VmMemory)
  | [], _, _, _ => none
  | fields :: _, 0, vs, m => representFields fields vs m
  | _ :: variants, i + 1, vs, m => representVariant variants i vs m

end

/-- The values of the elements, if each has one. -/
def eachAs (valueAs : ValueImpl → Option Value) : List ValueImpl → Option (List Value)
  | [] => some []
  | x :: xs => do return (← valueAs x) :: (← eachAs valueAs xs)

mutual

/-- The value that is serialized for a value in memory, by the layout. A vector of primitives
must be of the kind of the layout; a general vector may hold anything. -/
def valueAs (H : Heap ValueImpl) : Layout → ValueImpl → Option Value
  | .vector elem, .container c =>
    if c.kind = .vec ∨ c.kind = elem.vectorKind then
      (eachAs (valueAs H elem) (H.cell c.cell)).map Value.vector
    else none
  | .struct fields, .container c =>
    if c.kind = .struct then (fieldsAs H fields (H.cell c.cell)).map Value.struct else none
  | .variants variants, .container c =>
    if c.kind = .struct then
      -- the tag comes first, as a number of two bytes
      match H.cell c.cell with
      | .prim (.u16 tag) :: xs =>
        (variantAs H variants tag.toNat xs).map fun vs => .struct (.u16 tag :: vs)
      | _ => none
    else none
  | .signer, .container c =>
    if c.kind = .struct then
      match H.cell c.cell with
      | [.prim (.u16 tag), .prim (.address a)] => some (.struct [.u16 tag, .address a])
      | [.prim (.u16 tag), .prim (.address a), .prim (.address b)] =>
        some (.struct [.u16 tag, .address a, .address b])
      | _ => none
    else none
  | .function _ _ _, .closureValue data => some (.closure data)
  | layout, .prim p => if layout.primType? = some p.type then some p.toValue else none
  | _, _ => none

/-- The values of the fields, if there are as many as layouts. -/
def fieldsAs (H : Heap ValueImpl) : List Layout → List ValueImpl → Option (List Value)
  | [], [] => some []
  | layout :: layouts, x :: xs => do return (← valueAs H layout x) :: (← fieldsAs H layouts xs)
  | _, _ => none

/-- The fields as those of the variant with the number. -/
def variantAs (H : Heap ValueImpl) :
    List (List Layout) → Nat → List ValueImpl → Option (List Value)
  | [], _, _ => none
  | fields :: _, 0, xs => fieldsAs H fields xs
  | _ :: variants, i + 1, xs => variantAs H variants i xs

end

end NexusMove
