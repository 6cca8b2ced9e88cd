import NexusMove.Runtime.Atomicity
import NexusMove.Runtime.Signers

/-!
# Abort codes

Move code that aborts with a code ends in an error of the VM whose major status is
`ABORTED`; the code is its sub-status. The backend reports the major status of every
error of the VM. A client can therefore tell an abort of the code from any other failure,
and cannot tell one abort from another.

* `RealRun.StoppedBy` — the error of the VM that a call or a script ends with.
* `RealRun.status_cases` — the statuses there are.
* `abortCodesSurvive_iff` — no two codes survive in one place.
-/

namespace NexusMove

/-- The error of the VM that ends an invocation: it refused the script, or the run of what was
loaded ended with it. -/
def InvocationStoppedBy (v : Vendor) (schedule : GasSchedule) (state : NexusStateView)
    (interpreter : Interpreter) (inv : Invocation) (e : VMError) : Prop :=
  (∃ request tyArgs, inv = .script request
    ∧ deserializeTypeArgs v request.typeArgs = .ok tyArgs
    ∧ loadScript v state request.bytecode tyArgs = .error e)
  ∨ ∃ f, loadInvocation v schedule state inv = .ok f
    ∧ (executeLoadedFunction v state interpreter f inv.fullArgs inv.gasLimit).result = .error e

/-- A request to the real backend, with all that the result depends on. -/
structure RealRun where
  vendor : Vendor
  config : VmConfig
  interpreter : MeteredInterpreter
  store : Store
  request : Transaction

namespace Transaction

def invocation? : Transaction → Option Invocation
  | publish _ => none
  | call r => some (.call r)
  | script r => some (.script r)

end Transaction

namespace RealRun

variable (run : RealRun)

def output : VmResult VmOutput :=
  run.request.run (realMoveVm run.vendor run.config run.interpreter) run.store.view

def status : Option VmStatus := run.output.toOption.map VmOutput.status

def StoppedBy (e : VMError) : Prop :=
  ∃ inv, run.request.invocation? = some inv
    ∧ InvocationStoppedBy run.vendor (.fromConfig run.config) run.store.view
        run.interpreter.toInterpreter inv e

/-- Move code aborted with `code` at `location`. -/
def AbortsWith (location : Location) (code : UInt64) : Prop :=
  ∃ e, run.StoppedBy e ∧ e.majorStatus = StatusCode.aborted ∧ e.subStatus = some code
    ∧ e.location = location

/-- The run did not end with an abort of Move code. -/
def NotAborted : Prop := ∀ e, run.StoppedBy e → e.majorStatus ≠ StatusCode.aborted

end RealRun

/-- What one run reports for an abort of Move code, the other reports neither for an abort with
another code at the same place nor for anything but an abort. -/
def AbortCodesSurvive (run run' : RealRun) : Prop :=
  ∀ location code, run.AbortsWith location code →
    (∀ code', run'.AbortsWith location code' → code ≠ code' → run.status ≠ run'.status)
    ∧ (run'.NotAborted → run.status ≠ run'.status)

section Spec

variable {v : Vendor} {schedule : GasSchedule} {state : NexusStateView} {interpreter : Interpreter}
  {inv : Invocation}

/-- The backend reports the error that ended an invocation, and no more of it than its major
status. -/
theorem status_of_stoppedBy {e : VMError}
    (h : InvocationStoppedBy v schedule state interpreter inv e) :
    ∃ gasUsed, executeInvocation v schedule state interpreter inv = .ok (vmAbort e gasUsed) := by
  rcases h with ⟨request, tyArgs, rfl, htyArgs, he⟩ | ⟨f, hload, he⟩
  · refine ⟨clampGasToLimit schedule.callBase request.gasLimit, ?_⟩
    simp [executeInvocation, loadInvocation, loadScriptRequest, htyArgs, he, liftVm, finish,
      Except.ok_bind, Except.error_bind]
  · rw [executeInvocation_of_load interpreter hload, finishExecution, he]
    exact ⟨_, rfl⟩

/-- **Statuses of an execution**: it succeeded, the backend did not find what to run, or an error of
the VM ended it. -/
theorem status_of_executeInvocation {out : VmOutput}
    (h : executeInvocation v schedule state interpreter inv = .ok out) :
    out.status = .success ∨ (∃ location, out.status = .moveAbort location 4001)
    ∨ ∃ e, InvocationStoppedBy v schedule state interpreter inv e
        ∧ out.status = .moveAbort e.location.display e.majorStatus := by
  rcases executeInvocation_eq_ok.mp h with ⟨f, hload, h⟩ | h
  · -- something was loaded, and ran
    rw [finishExecution] at h
    split at h
    · obtain rfl := Except.ok.inj h
      exact .inl rfl
    · cases h
    · next e he =>
      obtain rfl := Except.ok.inj h
      exact .inr (.inr ⟨e, .inr ⟨f, hload, he⟩, rfl⟩)
  · -- the backend returned before anything ran
    right
    refine onError_loadInvocation (P := fun early => ∀ out, early = .output out →
      (∃ location, out.status = .moveAbort location 4001)
      ∨ ∃ e, InvocationStoppedBy v schedule state interpreter inv e
        ∧ out.status = .moveAbort e.location.display e.majorStatus) ?_ ?_ ?_ _ h out rfl
    · intro location out hout
      obtain rfl := EarlyReturn.output.inj hout
      exact .inl ⟨location, rfl⟩
    · intro e out hout
      cases hout
    · intro request tyArgs e hinv htyArgs he out hout
      obtain rfl := EarlyReturn.output.inj hout
      exact .inr ⟨e, .inl ⟨request, tyArgs, hinv, htyArgs, he⟩, rfl⟩

/-- **Statuses of a publish**: it succeeded, or the policy refused it. -/
theorem status_of_publishModules {request : ModulePublish} {out : VmOutput}
    (h : publishModules v schedule state request = .ok out) :
    out.status = .success
    ∨ ∃ code ∈ [20, 21, 22], out.status = .moveAbort "nexus::publish" code := by
  rcases (publishModules_eq_ok v schedule state).mp h with hloop | ⟨ps, -, rfl⟩
  · right
    refine onError_publishLoop (P := fun early => ∀ out, early = .output out →
      ∃ code ∈ [20, 21, 22], out.status = .moveAbort "nexus::publish" code) v schedule state ?_ ?_
      request request.modules _ hloop out rfl
    · intro e out hout
      cases hout
    · intro code hcode out hout
      obtain rfl := EarlyReturn.output.inj hout
      exact ⟨code, hcode, rfl⟩
  · exact .inl rfl

namespace RealRun

variable {run : RealRun}

theorem output_of_invocation {inv : Invocation} (h : run.request.invocation? = some inv) :
    run.output = executeInvocation run.vendor (.fromConfig run.config) run.store.view
      run.interpreter.toInterpreter inv := by
  unfold output
  cases hrequest : run.request with
  | publish r => simp [hrequest, Transaction.invocation?] at h
  | call r =>
    rw [hrequest] at h
    obtain rfl : Invocation.call r = inv := Option.some.inj h
    rfl
  | script r =>
    rw [hrequest] at h
    obtain rfl : Invocation.script r = inv := Option.some.inj h
    rfl

theorem status_of_stoppedBy {e : VMError} (h : run.StoppedBy e) :
    run.status = some (.moveAbort e.location.display e.majorStatus) := by
  obtain ⟨inv, hinv, hstopped⟩ := h
  obtain ⟨gasUsed, hout⟩ := NexusMove.status_of_stoppedBy hstopped
  rw [status, output_of_invocation hinv, hout]
  rfl

/-- **The statuses there are**: success, the codes of the backend's own, and those of errors of the
VM. -/
theorem status_cases {status : VmStatus} (h : run.status = some status) :
    status = .success
    ∨ (∃ location, ∃ code ∈ [20, 21, 22, 4001], status = .moveAbort location code)
    ∨ ∃ e, run.StoppedBy e ∧ status = .moveAbort e.location.display e.majorStatus := by
  obtain ⟨out, hout, rfl⟩ := Option.map_eq_some_iff.mp h
  replace hout := Except.toOption_eq_some.mp hout
  cases hinv : run.request.invocation? with
  | none =>
    -- a publish
    cases hrequest : run.request with
    | publish r =>
      rw [output, hrequest] at hout
      rcases status_of_publishModules hout with hsuccess | ⟨code, hcode, hstatus⟩
      · exact .inl hsuccess
      · refine .inr (.inl ⟨_, code, ?_, hstatus⟩)
        exact List.mem_append_left [4001] hcode
    | call r => simp [hrequest, Transaction.invocation?] at hinv
    | script r => simp [hrequest, Transaction.invocation?] at hinv
  | some inv =>
    rw [output_of_invocation hinv] at hout
    rcases status_of_executeInvocation hout with hsuccess | ⟨location, hstatus⟩ | ⟨e, he, hstatus⟩
    · exact .inl hsuccess
    · exact .inr (.inl ⟨location, 4001, by simp, hstatus⟩)
    · exact .inr (.inr ⟨e, ⟨inv, hinv, he⟩, hstatus⟩)

theorem AbortsWith.status_eq {location : Location} {code : UInt64}
    (h : run.AbortsWith location code) :
    run.status = some (.moveAbort location.display StatusCode.aborted) := by
  obtain ⟨e, hstopped, hmajor, -, rfl⟩ := h
  rw [status_of_stoppedBy hstopped, hmajor]

/-- Nothing but an abort of Move code is reported with its code. -/
theorem NotAborted.status_ne (h : run.NotAborted) (location : String) :
    run.status ≠ some (.moveAbort location StatusCode.aborted) := by
  intro hstatus
  rcases status_cases hstatus with hsuccess | ⟨_, code, hcode, habort⟩ | ⟨e, he, habort⟩
  · cases hsuccess
  · obtain ⟨-, rfl⟩ := VmStatus.moveAbort.inj habort
    revert hcode
    decide
  · obtain ⟨-, hmajor⟩ := VmStatus.moveAbort.inj habort
    exact h e he hmajor.symm

end RealRun

end Spec

/-- **Abort codes.** The codes of two runs survive if and only if the runs do not abort in one place
with two codes: of two such aborts both are reported alike. -/
theorem abortCodesSurvive_iff (run run' : RealRun) :
    AbortCodesSurvive run run' ↔
      ∀ location code code', run.AbortsWith location code → run'.AbortsWith location code' →
        code = code' := by
  constructor
  · -- two aborts at one place are reported alike, so they have one code
    intro h location code code' hrun hrun'
    by_contra hne
    have hstatus : run.status = run'.status := hrun.status_eq.trans hrun'.status_eq.symm
    exact (h location code hrun).1 code' hrun' hne hstatus
  · intro h location code hrun
    refine ⟨fun code' hrun' hne => absurd (h location code code' hrun hrun') hne, ?_⟩
    intro hother hstatus
    rw [hrun.status_eq] at hstatus
    exact hother.status_ne location.display hstatus.symm

/-! ## A function that aborts

`sampleGuard` is a module `0xCAFE::guard` with a function
`public entry fun stop(account: &signer, code: u64)` that aborts with its argument. -/

def sampleGuard : CompiledModule where
  selfModuleHandleIdx := 0
  moduleHandles := [{ address := 0, name := 0 }]
  structHandles := []
  functionHandles := [{ module := 0, name := 1, parameters := 0, returns := 1, typeParameters := [] }]
  signatures := [[.reference .signer, .u64], []]
  identifiers := [⟨"guard"⟩, ⟨"stop"⟩]
  addressIdentifiers := [sampleAddress]
  structDefs := []
  functionDefs := [{ function := 0, visibility := .pub, isEntry := true }]
  otherTables := [4, 0, 1, 2, 11, 1, 39]

def sampleGuardBytes : Bytes :=
  [161, 28, 235, 11, 6, 0, 0, 0, 6, 1, 0, 2, 3, 2, 5, 5, 7, 5, 7, 12, 11, 8, 23, 32, 12, 55, 9, 0,
   0, 0, 1, 0, 1, 0, 2, 6, 12, 3, 0, 5, 103, 117, 97, 114, 100, 4, 115, 116, 111, 112, 0, 0, 0, 0, 0,
   0, 0, 0, 0, 0, 0, 0, 0, 0, 0, 0, 0, 0, 0, 0, 0, 0, 0, 0, 0, 0, 0, 0, 0, 0, 202, 254, 0, 1, 4, 0, 1,
   2, 11, 1, 39, 0]

/-- The run of `stop`: two instructions, and an abort with the argument. -/
def guardInterpreter : MeteredInterpreter where
  gasCalls _ _ _ := [.moveLoc, .simpleInstr]
  outcome _ start _ :=
    let code := match start.args[1]?.map Argument.value with
      | some (.u64 n) => some n
      | _ => none
    .error { VMError.of StatusCode.aborted (.module ⟨sampleAddress, ⟨"guard"⟩⟩) none with
      subStatus := code }

def stopRun (code : UInt64) : RealRun where
  vendor := .ofTables [(sampleGuardBytes, sampleGuard)] [] []
  config := .forTesting
  interpreter := guardInterpreter
  store := sampleStore "guard" sampleGuardBytes
  request := .call {
    sender := otherAddress
    contract := sampleAddress
    function := "guard::stop"
    typeArgs := []
    args := [leBytes 8 code.toNat]
    gasLimit := 1000000 }

/-- The error that such a run ends with: its status codes and its location. -/
def stopError (code : UInt64) : Option (UInt64 × Option UInt64 × Location) := do
  let inv ← (stopRun code).request.invocation?
  let f ← (loadInvocation (stopRun code).vendor (.fromConfig .forTesting) (stopRun code).store.view
    inv).toOption
  match (executeLoadedFunction (stopRun code).vendor (stopRun code).store.view
    guardInterpreter.toInterpreter f inv.fullArgs inv.gasLimit).result with
  | .error e => some (e.majorStatus, e.subStatus, e.location)
  | .ok _ => none

theorem stopRun_abortsWith {code : UInt64} (h : code = 1 ∨ code = 2) :
    (stopRun code).AbortsWith (.module ⟨sampleAddress, ⟨"guard"⟩⟩) code := by
  have hrun : stopError code
      = some (StatusCode.aborted, some code, .module ⟨sampleAddress, ⟨"guard"⟩⟩) := by
    rcases h with rfl | rfl <;> decide +kernel
  rw [stopError] at hrun
  obtain ⟨inv, hinv, hload⟩ := Option.bind_eq_some_iff.mp hrun
  obtain ⟨f, hf, hresult⟩ := Option.bind_eq_some_iff.mp hload
  split at hresult
  · next e he =>
    simp only [Option.some.injEq, Prod.mk.injEq] at hresult
    obtain ⟨hmajor, hsub, hlocation⟩ := hresult
    exact ⟨e, ⟨inv, hinv, .inr ⟨f, Except.toOption_eq_some.mp hf, he⟩⟩, hmajor, hsub, hlocation⟩
  · cases hresult

/-- Aborts with the codes 1 and 2 are the same to a client. -/
theorem abort_code_is_lost : ¬ AbortCodesSurvive (stopRun 1) (stopRun 2) := by
  intro h
  have hfirst := @stopRun_abortsWith 1 (.inl rfl)
  have hsecond := @stopRun_abortsWith 2 (.inr rfl)
  have hstatus : (stopRun 1).status = (stopRun 2).status :=
    hfirst.status_eq.trans hsecond.status_eq.symm
  exact (h _ 1 hfirst).1 2 hsecond (by decide) hstatus

end NexusMove
