import NexusMove.Lib.WriteMap
import NexusMove.Package.Bundle
import NexusMove.Package.Metadata
import NexusMove.Runtime.State

/-!
# Requests, outputs and errors

The data the runtime crate exchanges with its callers (`types.rs`) and the
fallible view of the state it reads (`state.rs`). An output carries its effects
twice, as a list of changes and as a map; applying the list to a store is
`Store.applyChanges`, applying the map is `Store.applyWriteSet`.
-/

namespace NexusMove

/-! ## Requests -/

/-- A call of an entry function, named by `module::function`. -/
structure FunctionCall where
  sender : AccountAddress
  contract : AccountAddress
  function : String
  typeArgs : List Bytes
  args : List Bytes
  gasLimit : UInt64

/-- The modules that a sender publishes in one transaction. -/
structure ModulePublish where
  sender : AccountAddress
  modules : List Bytes
  gasLimit : UInt64
  upgradePolicy : Option UpgradePolicy

/-- A script with its own bytecode. -/
structure ScriptExecution where
  sender : AccountAddress
  bytecode : Bytes
  typeArgs : List Bytes
  args : List Bytes
  gasLimit : UInt64

structure QueryRequest where
  contract : AccountAddress
  function : String
  typeArgs : List Bytes
  args : List Bytes
  gasBudget : UInt64

/-! ## Outputs -/

/-- How a transaction ended. -/
inductive VmStatus where
  | success
  | moveAbort (location : String) (code : UInt64)
  | outOfGas
  | unsupported
deriving DecidableEq

/-- One write to the store; no value is a deletion. -/
structure StateChange where
  account : AccountAddress
  key : Bytes
  value : Option Bytes
deriving DecidableEq

structure ContractEvent where
  typeTag : String
  guid : Bytes
  sequenceNumber : UInt64
  data : Bytes
deriving DecidableEq

/-- A `BTreeMap` from storage locations to written values. Its order is never observed. -/
abbrev WriteSet := Finmap fun _ : AccountAddress × Bytes => Option Bytes

/-- What an execution hands back. -/
structure VmOutput where
  status : VmStatus
  gasUsed : UInt64
  stateChanges : List StateChange
  writeSet : WriteSet
  events : List ContractEvent
  returnValues : List Bytes

structure QueryResult where
  returnValue : Option Bytes
  gasUsed : UInt64
  gasBudget : UInt64

structure PublishOutcome where
  vmOutput : VmOutput
  contractAddress : AccountAddress

/-- The errors of the runtime crate that the modelled functions return. -/
inductive VmError where
  | storage (message : String)
  | verification (errors : List VerificationError)
  | internalError (message : String)
deriving DecidableEq

abbrev VmResult (α : Type) := Except VmError α

namespace VmOutput

/-- An output that changes nothing and emits nothing. -/
def withoutEffects (status : VmStatus) (gasUsed : UInt64) : VmOutput where
  status := status
  gasUsed := gasUsed
  stateChanges := []
  writeSet := ∅
  events := []
  returnValues := []

def unsupported (gasUsed : UInt64) : VmOutput := withoutEffects .unsupported gasUsed

/-- The early abort with code 4001, at the base price or at the limit where that is less. -/
def abort (location : String) (baseGas gasLimit : UInt64) : VmOutput :=
  withoutEffects (.moveAbort location 4001) (min baseGas gasLimit)

end VmOutput

/-! ## Reading and changing the state -/

/-- `StateReader`: reading may fail. -/
structure NexusStateView where
  get : AccountAddress → Bytes → VmResult (Option Bytes)

namespace NexusStateView

variable (state : NexusStateView)

def getRaw (account : AccountAddress) (key : Bytes) : VmResult (Option Bytes) :=
  state.get account key

/-- The per-module key first, then the legacy single-module key. -/
def getModuleByName (address : AccountAddress) (moduleName : String) :
    VmResult (Option Bytes) := do
  match ← state.get address (moduleCodeKey moduleName) with
  | some bytes => return some bytes
  | none => state.get address moduleCodeLegacyKey

def hasModule (address : AccountAddress) : VmResult Bool := do
  return (← state.get address moduleCodeLegacyKey).isSome

def getResource (account : AccountAddress) (resourceKey : Bytes) : VmResult (Option Bytes) :=
  state.get account resourceKey

end NexusStateView

def Store.view (σ : Store) : NexusStateView where
  get account key := .ok (σ (account, key))

def StateChange.toWrite (c : StateChange) : (AccountAddress × Bytes) × Option Bytes :=
  ((c.account, c.key), c.value)

def Store.applyChanges (σ : Store) (changes : List StateChange) : Store :=
  KeyedStore.applyAll σ (changes.map StateChange.toWrite)

def Store.applyWriteSet (σ : Store) (writeSet : WriteSet) : Store :=
  KeyedStore.applyMap σ writeSet

/-- What a chain does with the result of a request: it applies the changes of a successful
output and drops everything else. -/
def Store.applyResult (σ : Store) : VmResult VmOutput → Store
  | .ok out => if out.status = .success then σ.applyChanges out.stateChanges else σ
  | .error _ => σ

section Views

variable (σ : Store)

@[simp] theorem Store.view_hasModule (a : AccountAddress) :
    σ.view.hasModule a = .ok (σ (a, moduleCodeLegacyKey)).isSome := rfl

@[simp] theorem Store.view_getResource (a : AccountAddress) (k : Bytes) :
    σ.view.getResource a k = .ok (σ (a, k)) := rfl

@[simp] theorem Store.view_getModuleByName (a : AccountAddress) (n : String) :
    σ.view.getModuleByName a n =
      .ok ((σ (a, moduleCodeKey n)).or (σ (a, moduleCodeLegacyKey))) := by
  simp only [NexusStateView.getModuleByName, Store.view]
  cases σ (a, moduleCodeKey n) <;> rfl

@[simp] theorem Store.applyChanges_nil : σ.applyChanges [] = σ := rfl

end Views

end NexusMove
