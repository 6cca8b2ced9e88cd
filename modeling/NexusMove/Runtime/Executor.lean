import NexusMove.Runtime.Execute
import NexusMove.Runtime.GasMeter
import NexusMove.Runtime.Publisher

/-!
# Backends and the executor

The trait `MoveVm` and its two implementations (`executor.rs`, `vm_backend.rs`): the
planning backend, which stores bundles and runs nothing, and the real one, whose
publishing and execution are modelled in modules of their own and whose views are
modelled here. The executor hands every request on to the backend it was built
with; it keeps a configuration and a policy, and looks at neither.

* `realMoveVm`, `planningMoveVm` — the two backends.
* `MoveExecutor` — the executor.
-/

namespace NexusMove

/-! ## The interpreter and its meter -/

/-- A run that came to its end: what it returns, the events its store holds, and the effects its
data cache holds, if these can be extracted. -/
structure Finished where
  returnValues : List Bytes
  events : List ContractEvent
  changeSet : Except String ChangeSet

/-- The interpreter together with the calls it makes on its gas meter, whichever these are. -/
structure MeteredInterpreter where
  gasCalls : NexusStateView → Start → UInt64 → List GasCall
  outcome : NexusStateView → Start → UInt64 → VMResult Finished

/-- The effects of a run that came to its end, or the error of its change set. -/
def Finished.effects (finished : Finished) : Except String Effects := do
  return { changeSet := ← finished.changeSet, events := finished.events,
           returnValues := finished.returnValues }

namespace MeteredInterpreter

variable (interpreter : MeteredInterpreter)

/-- What the meter has counted after the charges of the run. -/
def gasConsumed (state : NexusStateView) (start : Start) (gasLimit : UInt64) : UInt64 :=
  ((NexusGasMeter.withLimit gasLimit).after (interpreter.gasCalls state start gasLimit)).consumed

/-- The interpreter as transactions see it: with the gas its meter counted. -/
def toInterpreter : Interpreter where
  run state start gasLimit :=
    { gasConsumed := interpreter.gasConsumed state start gasLimit
      result := (interpreter.outcome state start gasLimit).map Finished.effects }

/-- An interpreter that ends at once. -/
def idle : MeteredInterpreter where
  gasCalls _ _ _ := []
  outcome _ _ _ := .ok { returnValues := [], events := [], changeSet := .ok [] }

end MeteredInterpreter

/-! ## Views -/

section Views

variable (v : Vendor) (state : NexusStateView)

/-- The part of `query_view` up to the loaded function. -/
def loadQuery (request : QueryRequest) : VmResult LoadedFunction := do
  let (moduleName, fnName) ← (parseFunctionName request.function).mapError .internalError
  match Identifier.new moduleName with
  | none => throw (.internalError ("invalid module name: " ++ moduleName))
  | some moduleIdent =>
    match Identifier.new fnName with
    | none => throw (.internalError ("invalid function name: " ++ fnName))
    | some fnIdent =>
      let tyArgs ← deserializeTypeArgs v request.typeArgs
      (loadFunction v state ⟨request.contract, moduleIdent⟩ fnIdent tyArgs).mapError fun e =>
        .internalError ("load_function failed: " ++ e.display v.statusName)

def queryError (e : VMError) : VmError :=
  .internalError ("query execution failed: " ++ v.statusName e.majorStatus ++ " at "
    ++ e.location.display)

/-- `RealMoveVm::query_view`. A view gets no signer, and its effects are not asked for. -/
def queryView (interpreter : MeteredInterpreter) (request : QueryRequest) :
    VmResult QueryResult := do
  let f ← loadQuery v state request
  let start ← (prepareEntry v state f request.args).mapError (queryError v)
  let finished ← (interpreter.outcome state start request.gasBudget).mapError (queryError v)
  return {
    returnValue := finished.returnValues.head?
    gasUsed := interpreter.gasConsumed state start request.gasBudget
    gasBudget := request.gasBudget }

end Views

/-! ## Backends -/

/-- The trait `MoveVm`, as a record of its methods. -/
structure MoveVm where
  executeFunction : NexusStateView → FunctionCall → VmResult VmOutput
  publishModules : NexusStateView → ModulePublish → VmResult VmOutput
  executeScript : NexusStateView → ScriptExecution → VmResult VmOutput
  queryView : NexusStateView → QueryRequest → VmResult QueryResult

/-- `PlanningMoveVm`: it checks a bundle twice, and prices it by the default configuration. -/
def planningMoveVm (blake3 : Bytes → HashValue) : MoveVm where
  executeFunction _ request := .ok (.unsupported (min request.gasLimit 1000))
  publishModules state request := do
    (verifyPublishBundle request.modules .bootstrap).mapError .verification
    let outcome ← publishVerifiedModules blake3 state request.sender request.modules
      request.gasLimit .default
    return outcome.vmOutput
  executeScript _ request := .ok (.unsupported (min request.gasLimit 1000))
  queryView state request := do
    let _ ← state.hasModule request.contract
    return {
      returnValue := none
      gasUsed := min request.gasBudget 1000
      gasBudget := request.gasBudget }

/-- `RealMoveVm`, as `RealMoveVm::new` builds it from a configuration. -/
def realMoveVm (v : Vendor) (config : VmConfig) (interpreter : MeteredInterpreter) : MoveVm where
  executeFunction state request :=
    NexusMove.executeFunction v (.fromConfig config) state interpreter.toInterpreter request
  publishModules state request := NexusMove.publishModules v (.fromConfig config) state request
  executeScript state request :=
    NexusMove.executeScript v (.fromConfig config) state interpreter.toInterpreter request
  queryView state request := NexusMove.queryView v state interpreter request

/-- The backends there are. -/
inductive Backend where
  | real (config : VmConfig) (interpreter : MeteredInterpreter)
  | planning

def Backend.vm (v : Vendor) : Backend → MoveVm
  | real config interpreter => realMoveVm v config interpreter
  | planning => planningMoveVm v.blake3

/-! ## The executor -/

/-- A VM with the configuration and the policy in front of it. -/
structure MoveExecutor where
  vm : MoveVm
  config : VmConfig
  bytecodePolicy : BytecodePolicy

namespace MoveExecutor

def new (blake3 : Bytes → HashValue) (config : VmConfig) : MoveExecutor where
  vm := planningMoveVm blake3
  config := config
  bytecodePolicy := .bootstrap

def withVm (vm : MoveVm) (config : VmConfig) : MoveExecutor where
  vm := vm
  config := config
  bytecodePolicy := .bootstrap

variable (executor : MoveExecutor)

def executeFunction (state : NexusStateView) (request : FunctionCall) : VmResult VmOutput :=
  executor.vm.executeFunction state request

def publishModules (state : NexusStateView) (request : ModulePublish) : VmResult VmOutput :=
  executor.vm.publishModules state request

def executeScript (state : NexusStateView) (request : ScriptExecution) : VmResult VmOutput :=
  executor.vm.executeScript state request

def queryView (state : NexusStateView) (request : QueryRequest) : VmResult QueryResult :=
  executor.vm.queryView state request

end MoveExecutor

/-! ## The planning backend -/

/-- A publish by plan succeeds with the outcome of the publisher. -/
theorem planning_publishModules_eq_ok {blake3 : Bytes → HashValue} {state : NexusStateView}
    {request : ModulePublish} {out : VmOutput} :
    (planningMoveVm blake3).publishModules state request = .ok out ↔
      ∃ outcome, publishVerifiedModules blake3 state request.sender request.modules
        request.gasLimit .default = .ok outcome ∧ outcome.vmOutput = out := by
  simp only [planningMoveVm, Except.bind_eq_ok, Except.mapError_eq_ok, Except.pure_eq_ok]
  constructor
  · rintro ⟨_, -, h⟩
    exact h
  · rintro ⟨outcome, hrun, hout⟩
    exact ⟨(), (publishVerifiedModules_cases hrun).1, outcome, hrun, hout⟩

end NexusMove
