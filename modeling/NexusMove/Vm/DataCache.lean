import NexusMove.Core.TypeTagText
import NexusMove.Lib.KeyedList
import NexusMove.Runtime.ResourceEffects
import NexusMove.Vm.StoredValues
import NexusMove.Vm.TypeTags

/-!
# The data cache of a transaction

`data_cache.rs` and the global values of `values_impl.rs`. A slot holds one
resource of an account: it is loaded on first use, and remembers whether there was
one in storage and whether it may have been altered. At the end the slots that were
altered become the change set.

* `GlobalValue` — a slot, with the five things that are done to it.
* `loadResource` — the slot of a resource, read from storage the first time.
* `intoEffects` — the change set.
-/

namespace NexusMove

/-! ## Slots -/

/-- `Op` of `effects.rs`. -/
inductive Op (α : Type) where
  | new (data : α)
  | modify (data : α)
  | delete

/-- `Op::and_then`. -/
def Op.andThen {α β : Type} (f : α → VMResult β) : Op α → VMResult (Op β)
  | new data => do return new (← f data)
  | modify data => do return modify (← f data)
  | delete => .ok delete

def Op.toResourceOp : Op Bytes → ResourceOp
  | new bytes => .new bytes
  | modify bytes => .modify bytes
  | delete => .delete

/-- `GlobalValueImpl`: the cell of the fields, and the flag of what was in storage. -/
inductive GlobalValue where
  | none
  | fresh (fields : Nat)
  | cached (fields status : Nat)
  | deleted

namespace GlobalValue

/-- `GlobalValueImpl::cached`, with a new flag. -/
def ofCached (v : ValueImpl) (st : GlobalDataStatus) (m : VmMemory) :
    VMResult (GlobalValue × VmMemory) :=
  match v with
  | .container ⟨.struct, c⟩ => .ok (.cached c m.nextStatus, m.newStatus st)
  | _ => .error (invariantViolation (some "failed to publish cached: not a resource"))

def ofFresh (v : ValueImpl) : VMResult GlobalValue :=
  match v with
  | .container ⟨.struct, c⟩ => .ok (.fresh c)
  | _ => .error (invariantViolation (some "failed to publish fresh: not a resource"))

variable (gv : GlobalValue)

def takeFields (rc : Nat → Nat) (c : Nat) : VMResult ValueImpl :=
  if rc c = 1 then .ok (.container ⟨.struct, c⟩)
  else .error (danglingReference (some "moving global resource with dangling reference"))

def moveFrom (rc : Nat → Nat) : VMResult (ValueImpl × GlobalValue) :=
  match gv with
  | none | deleted => .error (partialError StatusCode.missingData Option.none)
  | fresh c => do return (← takeFields rc c, none)
  | cached c _ => do return (← takeFields rc c, deleted)

def moveTo (v : ValueImpl) (m : VmMemory) : VMResult (GlobalValue × VmMemory) :=
  match gv with
  | fresh _ | cached _ _ => .error (partialError StatusCode.resourceAlreadyExists Option.none)
  | none => do return (← ofFresh v, m)
  | deleted => ofCached v .dirty m

def isPresent : Bool :=
  match gv with
  | fresh _ | cached _ _ => true
  | none | deleted => false

def borrowGlobal : VMResult ValueImpl :=
  match gv with
  | none | deleted => .error (partialError StatusCode.missingData Option.none)
  | fresh c => .ok (.containerRef (.localRef ⟨.struct, c⟩))
  | cached c s => .ok (.containerRef (.globalRef s ⟨.struct, c⟩))

def intoEffect (m : VmMemory) : Option (Op ValueImpl) :=
  match gv with
  | none => .none
  | deleted => some .delete
  | fresh c => some (.new (.container ⟨.struct, c⟩))
  | cached c s =>
    match m.status s with
    | .dirty => some (.modify (.container ⟨.struct, c⟩))
    | .clean => .none

/-- The value in the slot. -/
def value? : Option ValueImpl :=
  match gv with
  | fresh c | cached c _ => some (.container ⟨.struct, c⟩)
  | none | deleted => .none

end GlobalValue

/-! ## The cache -/

/-- A type under which a resource is stored: its generic structs have their type arguments. -/
structure ResourceTy where
  ty : Ty
  proper : ty.isProper = true

/-- An entry of the maps of accounts and types. -/
structure Slot where
  address : AccountAddress
  ty : ResourceTy
  layout : Layout
  value : GlobalValue

/-- What a slot is found by: types are compared without what they know of abilities. -/
abbrev SlotKey := AccountAddress × Ty

def Slot.key (r : Slot) : SlotKey := (r.address, r.ty.ty.key)

/-- The map from accounts to maps from types to slots, as one map. -/
abbrev TransactionDataCache := List Slot

namespace TransactionDataCache

def find (cache : TransactionDataCache) (key : SlotKey) : Option Slot :=
  cache.find? fun r => r.key = key

def put (cache : TransactionDataCache) (r : Slot) : TransactionDataCache :=
  KeyedList.upsert Slot.key r cache

end TransactionDataCache

section Code

variable (v : Vendor) (k : TypeCosts) (state : NexusStateView)

/-- The tag of a type that is a struct's. -/
def structTagOf (ty : Ty) : VMResult StructTag := do
  match ← tagOfTy k ty with
  | .struct tag => .ok tag
  | _ => .error internalTypeError

/-- `fetch_existing_module_metadata`, which the resolver does not look at. -/
def fetchExistingModuleMetadata (id : ModuleId) : VMResult Unit := do
  if ← checkModuleExists v state id then return () else .error (moduleLinkerError id)

def failedToDeserialize (tag : StructTag) (addr : AccountAddress) : VMError :=
  partialError StatusCode.failedToDeserializeResource
    (some ("Failed to deserialize resource " ++ tag.display ++ " at " ++ addr.toStandardString
      ++ "!"))

/-- The slot of what is in storage. -/
def slotValue (layout : Layout) (tag : StructTag) (addr : AccountAddress) (data : Option Bytes)
    (m : VmMemory) : VMResult (GlobalValue × VmMemory) :=
  match data with
  | none => .ok (.none, m)
  | some blob =>
    match Value.deserialize v.closureCodec layout blob with
    | none => .error (failedToDeserialize tag addr)
    | some value =>
      match represent layout value m with
      -- what was read at a layout can be put into memory
      | none => .error panicked
      | some (x, m) => GlobalValue.ofCached x .clean m

/-- The part of `load_resource` for a resource that is not in the cache yet, with the number of
bytes that were loaded. -/
def loadSlot (addr : AccountAddress) (ty : ResourceTy) (m : VmMemory) :
    VMResult (Slot × Nat × VmMemory) := do
  let tag ← structTagOf k ty.ty
  let layout ← typeToTypeLayout v state ty.ty
  (fetchExistingModuleMetadata v state ⟨tag.address, tag.module⟩).mapError (·.finish .undefined)
  let (data, bytesLoaded) ← getResourceBytes v state addr tag
  let (value, m) ← slotValue v layout tag addr data m
  return ({ address := addr, ty, layout, value }, bytesLoaded, m)

def loadResource (addr : AccountAddress) (ty : ResourceTy) (cache : TransactionDataCache)
    (m : VmMemory) : VMResult (Slot × Option Nat × TransactionDataCache × VmMemory) :=
  match cache.find (addr, ty.ty.key) with
  | some r => .ok (r, none, cache, m)
  | none => do
    let (r, bytesLoaded, m) ← loadSlot v k state addr ty m
    return (r, some bytesLoaded, cache.put r, m)

/-- The resource converter of `into_effects`: the value is serialized at the layout of its slot.
What `valueAs` gives is of the layout, so the codec writes what the serializer would. -/
def serializeResource (layout : Layout) (m : VmMemory) (x : ValueImpl) : VMResult Bytes :=
  match (valueAs m.heap layout x).bind (valueCodec v.closureCodec layout).encode with
  | some bytes => .ok bytes
  | none => .error internalTypeError

/-- What one slot contributes, none where it was not altered. -/
def slotEffect (m : VmMemory) (r : Slot) : VMResult (Option (StructTag × ResourceOp)) :=
  match r.value.intoEffect m with
  | none => .ok none
  | some op => do
    let tag ← structTagOf k r.ty.ty
    let op ← op.andThen (serializeResource v r.layout m)
    return some (tag, op.toResourceOp)

/-- The resources of one account. -/
def accountEffects (m : VmMemory) : List Slot → VMResult (List (StructTag × ResourceOp))
  | [] => .ok []
  | r :: rs => do
    let effect ← slotEffect v k m r
    let effects ← accountEffects m rs
    return effect.toList ++ effects

/-- One account after the other; an account without effects is left out. -/
def effectsAt (m : VmMemory) (cache : TransactionDataCache) :
    List AccountAddress → VMResult ChangeSet
  | [] => .ok []
  | a :: as => do
    let resources ← accountEffects v k m (cache.filter fun r => r.address = a)
    let accounts ← effectsAt m cache as
    return if resources.isEmpty then accounts else (a, resources) :: accounts

def intoEffects (m : VmMemory) (cache : TransactionDataCache) : VMResult ChangeSet :=
  effectsAt v k m cache (cache.map Slot.address).dedup

end Code

end NexusMove
