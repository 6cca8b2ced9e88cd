import NexusMove.Core.FileFormat
import NexusMove.Lib.Except
import NexusMove.Runtime.Types
import NexusMove.Vm.Values

/-!
# The vendored VM, as seen by the backend

Errors of the vendored Move VM and the parts of it that are taken as given: the
binary deserializer, the bytecode verifier and the hash function. Whatever these
do, they do as functions of their inputs; the backend's own logic around them is
modelled in full.
-/

namespace NexusMove

/-! ## Errors -/

inductive Location where
  | undefined
  | script
  | module (id : ModuleId)
deriving DecidableEq

/-- How a location is printed. A module location prints the derived debug form of its id. -/
def Location.display : Location → String
  | undefined => "UNDEFINED"
  | script => "Script"
  | module id =>
    "Module ModuleId \x7b address: " ++ id.address.toHex ++ ", name: Identifier(\"" ++ id.name.name
      ++ "\") \x7d"

/-- An error of the VM. `trace` is what is printed of its table indices and code offsets. -/
structure VMError where
  majorStatus : UInt64
  subStatus : Option UInt64
  location : Location
  message : Option String
  trace : String
deriving DecidableEq

abbrev VMResult (α : Type) := Except VMError α

/-- An error without a location, as its two printed forms. -/
structure PartialVMError where
  display : String
  debug : String
deriving DecidableEq

/-! ## Status codes -/

namespace StatusCode

def numberOfTypeArgumentsMismatch : UInt64 := 1076
def constraintNotSatisfied : UInt64 := 1075
def linkerError : UInt64 := 1081
def functionResolutionFailure : UInt64 := 1091
def numberOfArgumentsMismatch : UInt64 := 1098
def invalidParamTypeForDeserialization : UInt64 := 1099
def failedToDeserializeArgument : UInt64 := 1100
def tooManyTypeNodes : UInt64 := 1116
def unknownInvariantViolationError : UInt64 := 2000
def storageError : UInt64 := 2008
def internalTypeError : UInt64 := 2009
def unreachable : UInt64 := 2011
def verifierInvariantViolation : UInt64 := 2016
def unexpectedVerifierError : UInt64 := 2017
def unexpectedDeserializationError : UInt64 := 2018
def typeResolutionFailure : UInt64 := 2021
def codeDeserializationError : UInt64 := 3024
def outOfGas : UInt64 := 4002
def aborted : UInt64 := 4016
def vmMaxTypeDepthReached : UInt64 := 4024
def vmMaxValueDepthReached : UInt64 := 4025

end StatusCode

def VMError.of (majorStatus : UInt64) (location : Location) (message : Option String) :
    VMError where
  majorStatus := majorStatus
  subStatus := none
  location := location
  message := message
  trace := ""

/-- An error without a location, in the type of errors: its location is still to be set. -/
abbrev partialError (majorStatus : UInt64) (message : Option String) : VMError :=
  VMError.of majorStatus .undefined message

def VMError.finish (location : Location) (e : VMError) : VMError := { e with location }

def VMError.display (statusName : UInt64 → String) (e : VMError) : String :=
  "VMError with status " ++ statusName e.majorStatus
    ++ (match e.subStatus with
        | some s => " with sub status " ++ toString s
        | none => "")
    ++ " at location " ++ e.location.display
    ++ (match e.message with
        | some msg => " and message " ++ msg
        | none => "")
    ++ e.trace

/-! ## Parameters -/

abbrev ModuleFetcher := ModuleId → VMResult (Option Bytes)

/-- What the backend calls and this development does not look into.

* `blake3` — the hash function.
* `frameworkModules` — the embedded framework, as a table from names to bytes.
* `deserialize` — `CompiledModule::deserialize_with_config`.
* `verifyModule` — `build_locally_verified_module`: the bytecode verifier on one module.
* `verifyDependencies` — the rest of `visit_dependencies_and_verify`: the immediate dependencies
  are fetched and verified in turn, the module is checked against them, and its tables are built.
* `deserializeScript`, `verifyScript`, `linkScript` — the same for scripts: the deserializer, the
  verifier, and the check against the dependencies.
* `closureCodec` — the serialization of function values, by their layout.
* `statusName`, `debugVmError`, `debugMoveError`, `metadataEncodeError`, `typeTagDecodeError` —
  printed forms: of a status code, of a runtime error, of an error of the VM, and of the
  serialization errors for a record and for bytes that are no type tag. -/
structure Vendor where
  blake3 : Bytes → HashValue
  frameworkModules : List (String × Bytes)
  deserialize : Bytes → Except PartialVMError CompiledModule
  verifyModule : CompiledModule → Nat → VMResult Unit
  verifyDependencies : ModuleFetcher → CompiledModule → VMResult Unit
  deserializeScript : Bytes → Except PartialVMError CompiledScript
  verifyScript : CompiledScript → VMResult Unit
  linkScript : ModuleFetcher → CompiledScript → VMResult Unit
  closureCodec : Layout → Codec Bytes
  statusName : UInt64 → String
  debugVmError : VmError → String
  debugMoveError : VMError → String
  metadataEncodeError : PackageMetadata → String
  typeTagDecodeError : Bytes → String

namespace Vendor

variable (v : Vendor)

def getFrameworkModule (moduleName : String) : Option Bytes :=
  (v.frameworkModules.find? fun m => m.1 = moduleName).map Prod.snd

/-- `deserialize_into_compiled_module`: the same deserializer, its error turned into a VM error. -/
def deserializeIntoCompiledModule (bytes : Bytes) : VMResult CompiledModule :=
  (v.deserialize bytes).mapError fun err =>
    VMError.of StatusCode.codeDeserializationError .undefined
      (some ("Deserialization error: " ++ err.debug))

/-- The deserializer checks the identifiers it reads (`load_identifier`), among them the name of
the module itself. -/
def ChecksIdentifiers : Prop :=
  ∀ bytes m, v.deserialize bytes = .ok m → m.selfId.name.IsValid

/-- A vendor that knows the given modules and digests and accepts every module it knows, and that
knows no script. -/
def ofTables (modules : List (Bytes × CompiledModule)) (digests : List (Bytes × HashValue))
    (frameworkModules : List (String × Bytes)) : Vendor where
  blake3 bs := ((digests.find? fun d => d.1 = bs).map Prod.snd).getD
    ⟨List.replicate 32 255, List.length_replicate ..⟩
  frameworkModules := frameworkModules
  deserialize bs :=
    match modules.find? fun m => m.1 = bs with
    | some m => .ok m.2
    | none => .error { display := "", debug := "" }
  verifyModule _ _ := .ok ()
  verifyDependencies _ _ := .ok ()
  deserializeScript _ := .error { display := "", debug := "" }
  verifyScript _ := .ok ()
  linkScript _ _ := .ok ()
  closureCodec _ := .fail
  statusName _ := ""
  debugVmError _ := ""
  debugMoveError _ := ""
  metadataEncodeError _ := ""
  typeTagDecodeError _ := ""

theorem ofTables_checksIdentifiers {modules : List (Bytes × CompiledModule)}
    {digests : List (Bytes × HashValue)} {frameworkModules : List (String × Bytes)}
    (h : ∀ m ∈ modules, m.2.selfId.name.IsValid) :
    (ofTables modules digests frameworkModules).ChecksIdentifiers := by
  intro bytes m hm
  simp only [ofTables] at hm
  cases hfind : modules.find? fun m => m.1 = bytes with
  | none =>
    rw [hfind] at hm
    cases hm
  | some entry =>
    rw [hfind] at hm
    obtain rfl := Except.ok.inj hm
    exact h entry (List.mem_of_find?_eq_some hfind)

theorem ofTables_blake3_ne_zero {modules : List (Bytes × CompiledModule)}
    {digests : List (Bytes × HashValue)} {frameworkModules : List (String × Bytes)}
    (h : ∀ d ∈ digests, d.2 ≠ .zero 32) (bs : Bytes) :
    (ofTables modules digests frameworkModules).blake3 bs ≠ .zero 32 := by
  simp only [ofTables]
  cases hfind : digests.find? fun d => d.1 = bs with
  | none => exact fun h => absurd (congrArg (fun x => x.toBytes) h) (by decide)
  | some d => exact h d (List.mem_of_find?_eq_some hfind)

end Vendor

def frameworkAddress : AccountAddress := .ofTail [1] (by decide)

/-! ## Module lookup -/

section Storage

variable (v : Vendor) (state : NexusStateView)

/-- `NexusMoveStorage::fetch_module_bytes`: embedded framework modules first, then the state. -/
def fetchModuleBytes (id : ModuleId) : VMResult (Option Bytes) :=
  let fromState : VMResult (Option Bytes) :=
    (state.getModuleByName id.address id.name.name).mapError fun e =>
      VMError.of StatusCode.storageError .undefined
        (some ("state read failed: " ++ v.debugVmError e))
  if id.address = frameworkAddress then
    match v.getFrameworkModule id.name.name with
    | some bytes => .ok (some bytes)
    | none => fromState
  else fromState

/-- `check_module_exists`: a module that is found must also deserialize. -/
def checkModuleExists (id : ModuleId) : VMResult Bool := do
  match ← fetchModuleBytes v state id with
  | none => return false
  | some bytes =>
    let _ ← v.deserializeIntoCompiledModule bytes
    return true

end Storage

/-! ## Lookup over a store -/

section Lemmas

variable {v : Vendor} {σ : Store} {id : ModuleId}

def Vendor.Embedded (v : Vendor) (id : ModuleId) : Prop :=
  id.address = frameworkAddress ∧ (v.getFrameworkModule id.name.name).isSome = true

instance : Decidable (v.Embedded id) := inferInstanceAs (Decidable (_ ∧ _))

theorem fetchModuleBytes_of_embedded (state : NexusStateView) (h : v.Embedded id) :
    fetchModuleBytes v state id = .ok (v.getFrameworkModule id.name.name) := by
  obtain ⟨haddr, hsome⟩ := h
  obtain ⟨bytes, hbytes⟩ := Option.isSome_iff_exists.mp hsome
  simp [fetchModuleBytes, haddr, hbytes]

theorem fetchModuleBytes_of_not_embedded (h : ¬ v.Embedded id) :
    fetchModuleBytes v σ.view id =
      .ok ((σ (id.address, moduleCodeKey id.name.name)).or (σ (id.address, moduleCodeLegacyKey))) := by
  unfold fetchModuleBytes
  by_cases haddr : id.address = frameworkAddress
  · have hnone : v.getFrameworkModule id.name.name = none := by
      simpa [Vendor.Embedded, haddr] using h
    simp [haddr, hnone]
  · simp [haddr]

end Lemmas

end NexusMove
