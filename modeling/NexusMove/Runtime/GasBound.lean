import NexusMove.Runtime.Executor
import NexusMove.Runtime.Lookup

/-!
# Gas within the limit

No output should charge more gas than its request authorised. Most outputs clamp
what they charge, and the interpreter's meter never counts past its limit. What
does not clamp are the refusals of a publish: by the upgrade policy on the real
backend, and of a stored bundle on the planning one. Both charge the base price.

* `gasBounded_iff` — the bound holds exactly where such a refusal is covered.
* `refusal_exceeds_limit` — a refusal that charges a thousand times the limit.
-/

namespace NexusMove

/-! ## How the publish loop returns early -/

/-- The policy check ends the publish: code is stored, under a policy that forbids replacing it,
or under `Compatible` with a recorded ABI hash that is not the module's. -/
def PolicyAborts (v : Vendor) (state : NexusStateView) (compiled : CompiledModule)
    (addr : AccountAddress) : Prop :=
  state.hasModule addr = .ok true
  ∧ (storedPolicy state addr = .ok .immutable ∨ storedPolicy state addr = .ok .governanceOnly
    ∨ storedPolicy state addr = .ok .compatible ∧ ∃ hash, storedAbiHash state addr = .ok hash
        ∧ hash ≠ .zero 32 ∧ hash ≠ computeModuleAbiHash v.blake3 compiled)

section Early

variable {v : Vendor} {schedule : GasSchedule} {state : NexusStateView} {request : ModulePublish}
  {out : VmOutput}

@[simp] theorem checkUpgradePolicy_of_aborts {compiled : CompiledModule} {addr : AccountAddress}
    (h : PolicyAborts v state compiled addr) :
    ∃ out, checkUpgradePolicy v schedule state compiled addr = .error (.output out) := by
  obtain ⟨hstored, hpolicy | hpolicy | ⟨hpolicy, hash, hhash, hzero, hother⟩⟩ := h
  all_goals unfold checkUpgradePolicy
  · simp [hstored, hpolicy, liftVm, Except.ok_bind, Except.throw_eq, publishAbort]
  · simp [hstored, hpolicy, liftVm, Except.ok_bind, Except.throw_eq, publishAbort]
  · simp [hstored, hpolicy, hhash, hzero, hother, liftVm, Except.ok_bind, Except.throw_eq,
      publishAbort, abiIsCompatible]

/-- **The policy check** returns early only where the policy aborts, and charges the base price. -/
theorem aborts_of_checkUpgradePolicy {compiled : CompiledModule} {addr : AccountAddress}
    (h : checkUpgradePolicy v schedule state compiled addr = .error (.output out)) :
    PolicyAborts v state compiled addr ∧ out.gasUsed = schedule.publishBase
    ∧ (storedPolicy state addr = .ok .compatible → out.status = .moveAbort "nexus::publish" 22) := by
  unfold checkUpgradePolicy at h
  obtain ⟨stored, hstored, h⟩ := (Except.bind_eq_error.mp h).resolve_left liftVm_ne_output
  rw [liftVm_eq_ok] at hstored
  cases stored with
  | false => simp [pure, Except.pure] at h
  | true =>
    obtain ⟨policy, hpolicy, h⟩ := (Except.bind_eq_error.mp h).resolve_left liftVm_ne_output
    rw [liftVm_eq_ok] at hpolicy
    cases policy with
    | immutable =>
      obtain rfl : VmOutput.withoutEffects _ _ = out := by
        simpa [Except.throw_eq, publishAbort] using h
      refine ⟨⟨hstored, .inl hpolicy⟩, rfl, fun hother => ?_⟩
      cases hpolicy.symm.trans hother
    | governanceOnly =>
      obtain rfl : VmOutput.withoutEffects _ _ = out := by
        simpa [Except.throw_eq, publishAbort] using h
      refine ⟨⟨hstored, .inr (.inl hpolicy)⟩, rfl, fun hother => ?_⟩
      cases hpolicy.symm.trans hother
    | compatible =>
      obtain ⟨hash, hhash, h⟩ := (Except.bind_eq_error.mp h).resolve_left liftVm_ne_output
      rw [liftVm_eq_ok] at hhash
      -- an abort takes a recorded hash, and one that is not the module's
      split_ifs at h with hzero hother
      · obtain rfl : VmOutput.withoutEffects _ _ = out := by
          simpa [Except.throw_eq, publishAbort] using h
        refine ⟨⟨hstored, .inr (.inr ⟨hpolicy, hash, hhash, hzero, ?_⟩)⟩, rfl, fun _ => rfl⟩
        simpa [abiIsCompatible] using hother
      · simp [pure, Except.pure] at h
      · simp [pure, Except.pure] at h

theorem publishModule_eq_output {bytes : Bytes} :
    publishModule v schedule state request bytes = .error (.output out) ↔
      ∃ compiled, v.deserialize bytes = .ok compiled
        ∧ compiled.selfId.address = request.sender
        ∧ checkUpgradePolicy v schedule state compiled compiled.selfId.address
            = .error (.output out) := by
  unfold publishModule
  rw [Except.bind_eq_error, or_iff_right liftVm_ne_output]
  simp only [liftVm_eq_ok, Except.mapError_eq_ok]
  refine exists_congr fun compiled => and_congr_right fun _ => ?_
  by_cases hsender : compiled.selfId.address = request.sender
  · simp only [hsender, ne_eq, not_true_eq_false, if_false, true_and]
    rw [Except.bind_eq_error, or_iff_left]
    -- after the policy check only errors end a round
    rintro ⟨_, -, h⟩
    obtain ⟨_, -, h⟩ := (Except.bind_eq_error.mp h).resolve_left liftVm_ne_output
    obtain ⟨_, -, h⟩ := (Except.bind_eq_error.mp h).resolve_left liftVm_ne_output
    cases hencode : encodeMetadata (packageMetadata v request bytes compiled) with
    | none => simp [hencode, Except.throw_eq] at h
    | some metadataBytes => simp [hencode, pure, Except.pure] at h
  · simp [hsender, Except.throw_eq, Except.error_bind]

/-- The loop returns an output early at the first module it does not accept. -/
theorem publishLoop_eq_output {modules : List Bytes} :
    publishLoop v schedule state request modules = .error (.output out) ↔
      ∃ pre bytes post, modules = pre ++ bytes :: post
        ∧ (∀ b ∈ pre, ∃ p, publishModule v schedule state request b = .ok p)
        ∧ publishModule v schedule state request bytes = .error (.output out) := by
  induction modules with
  | nil => simp [publishLoop, pure, Except.pure]
  | cons bytes modules ih =>
    rw [publishLoop, Except.bind_eq_error]
    constructor
    · rintro (h | ⟨p, hp, h⟩)
      · exact ⟨[], bytes, modules, rfl, by simp, h⟩
      · rcases Except.bind_eq_error.mp h with h | ⟨ps, -, h⟩
        · obtain ⟨pre, b, post, rfl, hpre, hb⟩ := ih.mp h
          exact ⟨bytes :: pre, b, post, rfl, List.forall_mem_cons.mpr ⟨⟨p, hp⟩, hpre⟩, hb⟩
        · cases h
    · rintro ⟨pre, b, post, hsplit, hpre, hb⟩
      cases pre with
      | nil =>
        obtain ⟨rfl, rfl⟩ : bytes = b ∧ modules = post := by simpa using hsplit
        exact .inl hb
      | cons c pre =>
        obtain ⟨rfl, htail⟩ : bytes = c ∧ modules = pre ++ b :: post := by simpa using hsplit
        obtain ⟨⟨p, hp⟩, hpre⟩ := List.forall_mem_cons.mp hpre
        refine .inr ⟨p, hp, Except.bind_eq_error.mpr (.inl ?_)⟩
        exact ih.mpr ⟨pre, b, post, htail, hpre, hb⟩

end Early

/-! ## What a publish charges -/

/-- The upgrade policy refuses the publish: it aborts on some module of the sender's, and every
module before that one passes all checks. -/
def RefusedByPolicy (v : Vendor) (state : NexusStateView) (request : ModulePublish) : Prop :=
  ∃ pre bytes post compiled, request.modules = pre ++ bytes :: post
    ∧ (∀ b ∈ pre, ∃ p, p.bytes = b ∧ Passes v state request p)
    ∧ v.deserialize bytes = .ok compiled ∧ compiled.selfId.address = request.sender
    ∧ PolicyAborts v state compiled request.sender

section Charges

variable {v : Vendor} {schedule : GasSchedule} {state : NexusStateView} {request : ModulePublish}
  {out : VmOutput}

theorem clampGasToLimit_le (estimated gasLimit : UInt64) :
    clampGasToLimit estimated gasLimit ≤ gasLimit :=
  Std.min_le_right

theorem publishLoop_of_refused (h : RefusedByPolicy v state request) :
    ∃ out, publishLoop v schedule state request request.modules = .error (.output out) := by
  obtain ⟨pre, bytes, post, compiled, hsplit, hpre, hd, hsender, haborts⟩ := h
  obtain ⟨out, hout⟩ : ∃ out, checkUpgradePolicy v schedule state compiled request.sender
      = .error (.output out) := checkUpgradePolicy_of_aborts haborts
  refine ⟨out, publishLoop_eq_output.mpr ⟨pre, bytes, post, hsplit, ?_, ?_⟩⟩
  · intro b hb
    obtain ⟨p, hp⟩ := hpre b hb
    exact ⟨p, publishModule_eq_ok_iff_passes.mpr hp⟩
  · exact publishModule_eq_output.mpr ⟨compiled, hd, hsender, by rw [hsender, hout]⟩

theorem refused_of_publishLoop
    (h : publishLoop v schedule state request request.modules = .error (.output out)) :
    RefusedByPolicy v state request ∧ out.gasUsed = schedule.publishBase := by
  obtain ⟨pre, bytes, post, hsplit, hpre, hbytes⟩ := publishLoop_eq_output.mp h
  obtain ⟨compiled, hd, hsender, hcheck⟩ := publishModule_eq_output.mp hbytes
  rw [hsender] at hcheck
  obtain ⟨haborts, hgas, -⟩ := aborts_of_checkUpgradePolicy hcheck
  refine ⟨⟨pre, bytes, post, compiled, hsplit, ?_, hd, hsender, haborts⟩, hgas⟩
  intro b hb
  obtain ⟨p, hp⟩ := hpre b hb
  exact ⟨p, publishModule_eq_ok_iff_passes.mp hp⟩

/-- **What a publish charges**: the base price where the policy refuses it, and at most the limit
everywhere else. -/
theorem publishModules_gas_le_iff :
    (∀ out, publishModules v schedule state request = .ok out → out.gasUsed ≤ request.gasLimit) ↔
      (RefusedByPolicy v state request → schedule.publishBase ≤ request.gasLimit) := by
  constructor
  · intro h hrefused
    obtain ⟨out, hloop⟩ : ∃ out, publishLoop v schedule state request request.modules
        = .error (.output out) := publishLoop_of_refused hrefused
    rw [← (refused_of_publishLoop hloop).2]
    exact h out ((publishModules_eq_ok v schedule state).mpr (.inl hloop))
  · intro h out hout
    rcases (publishModules_eq_ok v schedule state).mp hout with hloop | ⟨ps, -, rfl⟩
    · obtain ⟨hrefused, hgas⟩ := refused_of_publishLoop hloop
      rw [hgas]
      exact h hrefused
    · exact clampGasToLimit_le _ _

/-- The planning backend finds the bundle stored already. -/
def RefusedAsStored (blake3 : Bytes → HashValue) (state : NexusStateView)
    (request : ModulePublish) :
    Prop :=
  verifyPublishBundle request.modules .bootstrap = .ok ()
  ∧ state.hasModule (contractAddress blake3 request.sender request.modules) = .ok true

theorem planning_gas_le_iff {blake3 : Bytes → HashValue} (hlimit : request.gasLimit ≠ 0) :
    (∀ out, (planningMoveVm blake3).publishModules state request = .ok out →
        out.gasUsed ≤ request.gasLimit) ↔
      (RefusedAsStored blake3 state request →
        VmConfig.default.publishBaseGas ≤ request.gasLimit) := by
  constructor
  · rintro h ⟨hverify, hstored⟩
    refine h (.withoutEffects (.moveAbort "nexus::publish" 20) VmConfig.default.publishBaseGas) ?_
    exact planning_publishModules_eq_ok.mpr
      ⟨_, publishVerifiedModules_of_stored hverify hstored, rfl⟩
  · intro h out hout
    obtain ⟨outcome, hrun, rfl⟩ := planning_publishModules_eq_ok.mp hout
    obtain ⟨hverify, ⟨hstored, heq⟩ | ⟨-, -, heq⟩ | ⟨-, hcovered, heq⟩⟩ :=
      publishVerifiedModules_cases hrun
    · rw [heq]
      exact h ⟨hverify, hstored⟩
    · rw [heq]
      exact UInt64.le_refl _
    · rw [heq]
      exact UInt64.le_of_lt (hcovered.resolve_left hlimit)

end Charges

/-! ## What an execution charges -/

/-- An early return that charges at most the limit. -/
def EarlyReturn.Within (gasLimit : UInt64) : EarlyReturn → Prop
  | .err _ => True
  | .output out => out.gasUsed ≤ gasLimit

section Execution

variable {v : Vendor} {schedule : GasSchedule} {state : NexusStateView}

theorem within_loadInvocation (inv : Invocation) :
    (loadInvocation v schedule state inv).OnError (EarlyReturn.Within inv.gasLimit) :=
  onError_loadInvocation (fun _ => Std.min_le_right) (fun _ => trivial)
    (fun _ _ _ _ _ _ => clampGasToLimit_le schedule.callBase inv.gasLimit)

theorem gas_le_of_finishExecution {inv : Invocation} {execution : Execution} {out : VmOutput}
    (h : finishExecution schedule inv execution = .ok out) : out.gasUsed ≤ inv.gasLimit := by
  unfold finishExecution at h
  split at h
  · obtain rfl := Except.ok.inj h
    exact clampGasToLimit_le _ _
  · cases h
  · obtain rfl := Except.ok.inj h
    exact clampGasToLimit_le _ _

/-- **What an execution charges**: at most the limit, whatever the interpreter consumed. -/
theorem executeInvocation_gas_le (inv : Invocation) {interpreter : Interpreter} {out : VmOutput}
    (h : executeInvocation v schedule state interpreter inv = .ok out) :
    out.gasUsed ≤ inv.gasLimit := by
  rcases executeInvocation_eq_ok.mp h with ⟨f, -, hfinish⟩ | hearly
  · exact gas_le_of_finishExecution hfinish
  · exact within_loadInvocation inv _ hearly

theorem queryView_gas_le {interpreter : MeteredInterpreter} {request : QueryRequest}
    {result : QueryResult} (h : queryView v state interpreter request = .ok result) :
    result.gasUsed ≤ request.gasBudget := by
  obtain ⟨f, -, h⟩ := Except.bind_eq_ok.mp h
  obtain ⟨start, -, h⟩ := Except.bind_eq_ok.mp h
  obtain ⟨finished, -, h⟩ := Except.bind_eq_ok.mp h
  obtain rfl := Except.pure_eq_ok.mp h
  exact NexusGasMeter.consumed_after_le _ _

end Execution

/-! ## Every backend, every request -/

/-- A request of any kind to a backend. -/
inductive BackendRequest where
  | publish (request : ModulePublish)
  | call (request : FunctionCall)
  | script (request : ScriptExecution)
  | query (request : QueryRequest)

/-- Every result of the request charges at most what the request allows. A planned publish with
limit zero has no limit. -/
def GasBounded (v : Vendor) (b : Backend) (state : NexusStateView) : BackendRequest → Prop
  | .publish r =>
    (b = .planning → r.gasLimit ≠ 0) →
      ∀ out, (b.vm v).publishModules state r = .ok out → out.gasUsed ≤ r.gasLimit
  | .call r => ∀ out, (b.vm v).executeFunction state r = .ok out → out.gasUsed ≤ r.gasLimit
  | .script r => ∀ out, (b.vm v).executeScript state r = .ok out → out.gasUsed ≤ r.gasLimit
  | .query r => ∀ result, (b.vm v).queryView state r = .ok result → result.gasUsed ≤ r.gasBudget

theorem gasBounded_real_publish {v : Vendor} {config : VmConfig} {interpreter : MeteredInterpreter}
    {state : NexusStateView} {r : ModulePublish} :
    GasBounded v (.real config interpreter) state (.publish r) ↔
      ∀ out, publishModules v (.fromConfig config) state r = .ok out →
        out.gasUsed ≤ r.gasLimit :=
  ⟨fun h => h nofun, fun h _ => h⟩

/-- The refusals of a publish are covered: where there is one, the limit allows its base price. -/
def RefusalsCovered (v : Vendor) (state : NexusStateView) : Backend → BackendRequest → Prop
  | .real config _, .publish r =>
    RefusedByPolicy v state r → config.publishBaseGas ≤ r.gasLimit
  | .planning, .publish r =>
    r.gasLimit ≠ 0 → RefusedAsStored v.blake3 state r →
      VmConfig.default.publishBaseGas ≤ r.gasLimit
  | _, _ => True

/-- **Gas within the limit.** Calls, scripts and views never charge more than their request
allows, nor does a publish, unless it is refused: by the upgrade policy, or as stored already. A
refusal charges the base price, so it stays within the limit exactly if the limit allows that. -/
theorem gasBounded_iff (v : Vendor) (b : Backend) (state : NexusStateView) (r : BackendRequest) :
    GasBounded v b state r ↔ RefusalsCovered v state b r := by
  cases b with
  | real config interpreter =>
    cases r with
    | publish r =>
      rw [gasBounded_real_publish]
      exact publishModules_gas_le_iff
    | call r => exact iff_true_intro fun out hout => executeInvocation_gas_le (.call r) hout
    | script r => exact iff_true_intro fun out hout => executeInvocation_gas_le (.script r) hout
    | query r => exact iff_true_intro fun result hresult => queryView_gas_le hresult
  | planning =>
    cases r with
    | publish r =>
      simp only [GasBounded, RefusalsCovered, true_imp_iff]
      exact forall_congr' fun hlimit => planning_gas_le_iff hlimit
    | call r =>
      refine iff_true_intro fun out hout => ?_
      obtain rfl := Except.ok.inj hout
      exact Std.min_le_left
    | script r =>
      refine iff_true_intro fun out hout => ?_
      obtain rfl := Except.ok.inj hout
      exact Std.min_le_left
    | query r =>
      refine iff_true_intro fun result hresult => ?_
      obtain ⟨_, -, h⟩ := Except.bind_eq_ok.mp hresult
      obtain rfl := Except.pure_eq_ok.mp h
      exact Std.min_le_left

/-- A module is published and then published again with a limit of 2. The policy refuses it and
charges 2000. -/
theorem refusal_exceeds_limit :
    ¬ GasBounded sampleVendor (.real .forTesting .idle)
      (publishStep sampleVendor sampleSchedule KeyedStore.empty publishA).view
      (.publish { publishA with gasLimit := 2 }) := by
  intro h
  have hgas : (publishModules sampleVendor sampleSchedule
      (publishStep sampleVendor sampleSchedule KeyedStore.empty publishA).view
      { publishA with gasLimit := 2 }).toOption.map VmOutput.gasUsed = some 2000 := by
    decide +kernel
  cases hout : publishModules sampleVendor sampleSchedule
      (publishStep sampleVendor sampleSchedule KeyedStore.empty publishA).view
      { publishA with gasLimit := 2 } with
  | error e => simp [hout, Except.toOption] at hgas
  | ok out =>
    have hcharged : out.gasUsed = 2000 := by simpa [hout, Except.toOption] using hgas
    have hle := gasBounded_real_publish.mp h out hout
    rw [hcharged] at hle
    exact absurd hle (by decide)

end NexusMove
