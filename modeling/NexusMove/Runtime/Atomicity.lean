import NexusMove.Runtime.Executor
import NexusMove.Runtime.Immutability

/-!
# Failed transactions

A transaction either succeeds or leaves nothing behind. The publish loop gathers
the writes of one module after another and may stop at any of them; the execution
paths run against a data cache and an event store of their own. Neither lets
anything of a failed transaction out.

* `Transaction.noEffects` — an output without success carries no effects.
* `transact` — a chain, which drops what failed.
* `failed_transactions_have_no_effect` — what that means for outputs and stores.
-/

namespace NexusMove

/-- A request that may change the state. -/
inductive Transaction where
  | publish (request : ModulePublish)
  | call (request : FunctionCall)
  | script (request : ScriptExecution)

def Transaction.run (vm : MoveVm) (state : NexusStateView) : Transaction → VmResult VmOutput
  | publish request => vm.publishModules state request
  | call request => vm.executeFunction state request
  | script request => vm.executeScript state request

/-- Nothing but a status and a charge. -/
structure VmOutput.NoEffects (out : VmOutput) : Prop where
  stateChanges : out.stateChanges = []
  writeSet : out.writeSet = ∅
  events : out.events = []
  returnValues : out.returnValues = []

theorem noEffects_withoutEffects (status : VmStatus) (gasUsed : UInt64) :
    (VmOutput.withoutEffects status gasUsed).NoEffects :=
  ⟨rfl, rfl, rfl, rfl⟩

section Spec

variable {v : Vendor} {σ : Store}

theorem executeInvocation_noEffects (inv : Invocation) {schedule : GasSchedule}
    {interpreter : Interpreter} {out : VmOutput}
    (h : executeInvocation v schedule σ.view interpreter inv = .ok out)
    (hfail : out.status ≠ .success) : out.NoEffects := by
  rcases executeInvocation_ok h with ⟨-, hquiet⟩ | ⟨start, effects, -, -, hsuccess, -⟩
  · rw [hquiet]
    exact noEffects_withoutEffects _ _
  · exact absurd hsuccess hfail

theorem publishModules_noEffects {schedule : GasSchedule} {request : ModulePublish} {out : VmOutput}
    (h : publishModules v schedule σ.view request = .ok out) (hfail : out.status ≠ .success) :
    out.NoEffects := by
  rcases publishModules_ok v schedule σ.view h with ⟨-, hquiet⟩ | ⟨ps, -, rfl⟩
  · rw [hquiet]
    exact noEffects_withoutEffects _ _
  · exact absurd rfl hfail

theorem planning_noEffects {blake3 : Bytes → HashValue} {t : Transaction} {out : VmOutput}
    (h : t.run (planningMoveVm blake3) σ.view = .ok out) (hfail : out.status ≠ .success) :
    out.NoEffects := by
  cases t with
  | publish request =>
    obtain ⟨outcome, hrun, rfl⟩ := planning_publishModules_eq_ok.mp h
    obtain ⟨-, ⟨-, heq⟩ | ⟨-, -, heq⟩ | ⟨-, -, heq⟩⟩ := publishVerifiedModules_cases hrun
    · rw [heq]
      exact noEffects_withoutEffects _ _
    · rw [heq]
      exact noEffects_withoutEffects _ _
    · exact absurd (by rw [heq]; rfl) hfail
  | call request =>
    obtain rfl := Except.ok.inj h
    exact noEffects_withoutEffects _ _
  | script request =>
    obtain rfl := Except.ok.inj h
    exact noEffects_withoutEffects _ _

/-- **No effects without success**, on either backend. -/
theorem Transaction.noEffects {b : Backend} {t : Transaction} {out : VmOutput}
    (h : t.run (b.vm v) σ.view = .ok out) (hfail : out.status ≠ .success) : out.NoEffects := by
  cases b with
  | real config interpreter =>
    cases t with
    | publish request => exact publishModules_noEffects h hfail
    | call request => exact executeInvocation_noEffects (.call request) h hfail
    | script request => exact executeInvocation_noEffects (.script request) h hfail
  | planning => exact planning_noEffects h hfail

theorem Transaction.applyOutput_of_failed {b : Backend} {t : Transaction}
    (hfail : ∀ out, t.run (b.vm v) σ.view = .ok out → out.status ≠ .success) :
    σ.applyOutput (t.run (b.vm v) σ.view) = σ := by
  cases hrun : t.run (b.vm v) σ.view with
  | error e => rfl
  | ok out =>
    have hnone := t.noEffects hrun (hfail out hrun)
    rw [Store.applyOutput, hnone.stateChanges, Store.applyChanges_nil]

end Spec

/-! ## Chains -/

def ChainRequest.result (v : Vendor) (schedule : GasSchedule) (state : NexusStateView) :
    ChainRequest → VmResult VmOutput
  | .publish request => publishModules v schedule state request
  | .invoke inv interpreter => executeInvocation v schedule state interpreter inv

/-- A request on a chain that applies successes and drops all other results. -/
def transact (v : Vendor) (schedule : GasSchedule) (σ : Store) (request : ChainRequest) : Store :=
  σ.applyResult (request.result v schedule σ.view)

theorem applyResult_eq_applyOutput {σ : Store} {r : VmResult VmOutput}
    (h : ∀ out, r = .ok out → out.status ≠ .success → out.NoEffects) :
    σ.applyResult r = σ.applyOutput r := by
  cases r with
  | error e => rfl
  | ok out =>
    rw [Store.applyResult, Store.applyOutput]
    split_ifs with hstatus
    · rfl
    · rw [(h out rfl hstatus).stateChanges, Store.applyChanges_nil]

/-- Dropping a failure or applying it comes to the same. -/
theorem transact_eq_chainStep (v : Vendor) (schedule : GasSchedule) :
    transact v schedule = chainStep v schedule := by
  funext σ request
  cases request with
  | publish request => exact applyResult_eq_applyOutput fun out => publishModules_noEffects
  | invoke inv interpreter =>
    exact applyResult_eq_applyOutput fun out => executeInvocation_noEffects inv

/-- One of the five checks of the publish loop fails for a module. -/
def CheckFails (v : Vendor) (σ : Store) (request : ModulePublish) (bytes : Bytes) : Prop :=
  (∃ e, v.deserialize bytes = .error e)
  ∨ ∃ compiled, v.deserialize bytes = .ok compiled
      ∧ (compiled.selfId.address ≠ request.sender
        ∨ ¬ PolicyAllows v σ compiled request.sender
        ∨ (∃ e, v.verifyModule compiled bytes.length = .error e)
        ∨ ¬ DependenciesMet v σ request.sender compiled.immediateDependencies)

theorem CheckFails.not_accepted {v : Vendor} {σ : Store} {request : ModulePublish} {bytes : Bytes}
    (h : CheckFails v σ request bytes) {p : PublishedModule} (hbytes : p.bytes = bytes) :
    ¬ Accepted v σ request p := by
  subst hbytes
  intro hp
  rcases h with ⟨e, he⟩ | ⟨compiled, hd, hcheck⟩
  · rw [hp.deserialize] at he
    cases he
  · obtain rfl := hp.compiled_eq hd
    rcases hcheck with hsender | hpolicy | ⟨e, he⟩ | hdeps
    · exact hsender hp.sender
    · exact hpolicy hp.policy
    · rw [hp.verified] at he
      cases he
    · exact hdeps hp.dependencies

/-- **Failed transactions have no effect.** On either backend, an output whose status is not
`Success` has no changes, no writes, no events and no return values, and a transaction that does
not succeed leaves the store as it is. So does a publish of a bundle in which some module fails a
check, after any number of modules that passed all of them. -/
theorem failed_transactions_have_no_effect (v : Vendor) (b : Backend) (σ : Store) :
    (∀ (t : Transaction) out, t.run (b.vm v) σ.view = .ok out → out.status ≠ .success →
      out.NoEffects)
    ∧ (∀ t : Transaction, (∀ out, t.run (b.vm v) σ.view = .ok out → out.status ≠ .success) →
      σ.applyOutput (t.run (b.vm v) σ.view) = σ)
    ∧ ∀ (config : VmConfig) (interpreter : MeteredInterpreter) (request : ModulePublish)
        (pre : List Bytes) (bytes : Bytes) (post : List Bytes),
        request.modules = pre ++ bytes :: post →
        (∀ c ∈ pre, ∃ p, p.bytes = c ∧ Accepted v σ request p) →
        CheckFails v σ request bytes →
        (∀ out, (realMoveVm v config interpreter).publishModules σ.view request = .ok out →
          out.status ≠ .success ∧ out.NoEffects)
        ∧ σ.applyOutput ((realMoveVm v config interpreter).publishModules σ.view request) = σ := by
  refine ⟨fun t out => t.noEffects, fun t => t.applyOutput_of_failed, ?_⟩
  intro config interpreter request pre bytes post hsplit _ hfails
  -- a success would have accepted the failing module too
  have hfail : ∀ out, (realMoveVm v config interpreter).publishModules σ.view request = .ok out →
      out.status ≠ .success := by
    intro out hout hsuccess
    obtain ⟨ps, hmap, hacc, -⟩ := publishModules_success v (.fromConfig config) hout hsuccess
    have hmem : bytes ∈ ps.map PublishedModule.bytes := by
      rw [hmap, hsplit]
      exact List.mem_append_cons_self
    obtain ⟨p, hp, hbytes⟩ := List.mem_map.mp hmem
    exact hfails.not_accepted hbytes (hacc p hp)
  constructor
  · intro out hout
    exact ⟨hfail out hout, publishModules_noEffects hout (hfail out hout)⟩
  · exact (Transaction.publish request).applyOutput_of_failed (b := .real config interpreter) hfail

end NexusMove
