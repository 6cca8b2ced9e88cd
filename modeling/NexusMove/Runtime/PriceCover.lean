import NexusMove.Runtime.Atomicity
import NexusMove.Runtime.GasEstimates

/-!
# Prices and limits

The real backend computes the price of a request when the work is done, and clamps it to
the limit. The interpreter's meter never counts past the limit; the estimates know no
limit. A request whose estimate is above its limit succeeds nevertheless, at the limit.

* `requestPrice` — the price before it is clamped.
* `priceCovered_iff` — it is covered exactly where the exact estimate is.
* `publish_is_not_priced_out` — a publish that costs more than its limit, and succeeds.
-/

namespace NexusMove

open Saturating (cap total)

/-! ## The price before the clamp -/

section Code

variable (v : Vendor) (config : VmConfig) (interpreter : MeteredInterpreter)
  (state : NexusStateView)

/-- What an execution is charged before the clamp, if the interpreter is entered and the effects
of a run that came to its end can be extracted. -/
def invocationPrice (inv : Invocation) : Option UInt64 := do
  let start ← startInvocation v (.fromConfig config) state inv
  let consumed := interpreter.gasConsumed state start inv.gasLimit
  match interpreter.outcome state start inv.gasLimit with
  | .ok finished =>
    let changeSet ← finished.changeSet.toOption
    return max consumed (estimateGas (.fromConfig config) inv (changesetToNexus changeSet).1)
  | .error _ => return max consumed (estimateGas (.fromConfig config) inv [])

/-- What a transaction on the real backend is charged before the clamp, if it gets there. -/
def requestPrice : Transaction → Option UInt64
  | .publish r => do
    let ps ← (publishLoop v (.fromConfig config) state r r.modules).toOption
    return estimatePublishGas (.fromConfig config) r.modules (bundleChanges v ps)
  | .call r => invocationPrice v config interpreter state (.call r)
  | .script r => invocationPrice v config interpreter state (.script r)

end Code

def Transaction.gasLimit : Transaction → UInt64
  | publish r => r.gasLimit
  | call r => r.gasLimit
  | script r => r.gasLimit

/-- Success means that the price was covered, and what costs more than the limit does not succeed
and changes nothing. -/
def PriceCovered (v : Vendor) (config : VmConfig) (interpreter : MeteredInterpreter) (σ : Store)
    (t : Transaction) : Prop :=
  let result := t.run (realMoveVm v config interpreter) σ.view
  (∀ out, result = .ok out → out.status = .success →
    ∃ price, requestPrice v config interpreter σ.view t = some price ∧ price ≤ t.gasLimit)
  ∧ ∀ price, requestPrice v config interpreter σ.view t = some price → t.gasLimit < price →
      (∀ out, result = .ok out → out.status ≠ .success) ∧ σ.applyOutput result = σ

/-! ## Where it is covered -/

/-- A limit covers an exact price. Prices saturate, so the largest limit covers every one. -/
def Covers (gasLimit : UInt64) (price : Nat) : Prop :=
  gasLimit = u64Max ∨ price ≤ gasLimit.toNat

/-- The bytes of the four keys and values that are written for a module: 61 of them are the three
shared keys and the hash of the code. -/
def recordSize (p : PublishedModule) : Nat :=
  byteSize (moduleCodeKey p.compiled.selfId.name.name) + 2 * byteSize p.bytes
    + byteSize p.metadataBytes + 61

/-- The exact estimate of an execution. A script does not pay for what it writes. -/
def invocationEstimate (config : VmConfig) (inv : Invocation) (changeSet : ChangeSet) : Nat :=
  match inv with
  | .call r =>
    callPrice (.fromConfig config) (total byteSize (r.typeArgs ++ r.args))
      (total StateChange.size (changesetToNexus changeSet).1)
  | .script r =>
    callPrice (.fromConfig config) (byteSize r.bytecode + total byteSize (r.typeArgs ++ r.args)) 0

section Condition

variable (v : Vendor) (config : VmConfig) (interpreter : MeteredInterpreter) (σ : Store)

/-- If the interpreter is entered and returns effects, the limit covers the exact estimate. -/
def InvocationCovered (inv : Invocation) : Prop :=
  ∀ start finished changeSet, startInvocation v (.fromConfig config) σ.view inv = some start →
    interpreter.outcome σ.view start inv.gasLimit = .ok finished →
    finished.changeSet = .ok changeSet →
    Covers inv.gasLimit (invocationEstimate config inv changeSet)

/-- If nothing else stands in the way of the transaction, the limit covers the exact estimate: for
a publish, the price of the modules and of a record for each of them. -/
def EstimateCovered : Transaction → Prop
  | .publish r =>
    ∀ ps, ps.map PublishedModule.bytes = r.modules → (∀ p ∈ ps, Accepted v σ r p) →
      Covers r.gasLimit
        (publishPrice (.fromConfig config) (total byteSize r.modules) (total recordSize ps))
  | .call r => InvocationCovered v config interpreter σ (.call r)
  | .script r => InvocationCovered v config interpreter σ (.script r)

end Condition

section Spec

variable {v : Vendor} {config : VmConfig} {interpreter : MeteredInterpreter} {σ : Store}

/-- Whether a limit covers an exact price, read off the price that saturates. -/
theorem covers_iff {gasLimit price : UInt64} {exact : Nat}
    (hprice : price.toNat = cap (2 ^ 64 - 1) exact) : Covers gasLimit exact ↔ price ≤ gasLimit := by
  have hmax := toNat_le_u64Max gasLimit
  rw [Covers, ← UInt64.toNat_inj, toNat_u64Max, UInt64.le_iff_toNat_le, hprice, cap]
  omega

theorem total_size_bundleChanges (ps : List PublishedModule) :
    total StateChange.size (bundleChanges v ps) = total recordSize ps := by
  induction ps with
  | nil => rfl
  | cons p ps ih =>
    -- the hash and the three fixed keys have lengths of their own, whatever the module is
    have hhash : byteSize (v.blake3 p.bytes).toBytes = 32 := by
      have hlength : (v.blake3 p.bytes).toBytes.length = 32 := by simp
      rw [byteSize_eq (by rw [InMemory, hlength]; decide), hlength]
    have hcode : byteSize moduleCodeLegacyKey = 4 := by decide
    have hcodeHash : byteSize moduleCodeHashKey = 9 := by decide
    have hmetadata : byteSize moduleMetadataKey = 16 := by decide
    have hrecord : total StateChange.size (moduleChanges v p.bytes p.compiled p.metadataBytes)
        = recordSize p := by
      simp only [moduleChanges, Saturating.total_cons, Saturating.total_nil, StateChange.size,
        Option.map_some, Option.getD_some, hhash, hcode, hcodeHash, hmetadata, recordSize]
      omega
    rw [bundleChanges, List.flatMap_cons, Saturating.total_append, hrecord, Saturating.total_cons]
    exact congrArg _ ih

/-- The estimate of a publish is its exact price, capped. -/
theorem toNat_publishEstimate (r : ModulePublish) (ps : List PublishedModule) :
    (estimatePublishGas (.fromConfig config) r.modules (bundleChanges v ps)).toNat
      = cap (2 ^ 64 - 1)
        (publishPrice (.fromConfig config) (total byteSize r.modules) (total recordSize ps)) := by
  rw [toNat_estimatePublishGas, total_size_bundleChanges]

theorem toNat_estimateGas (inv : Invocation) (changeSet : ChangeSet) :
    (estimateGas (.fromConfig config) inv (changesetToNexus changeSet).1).toNat
      = cap (2 ^ 64 - 1) (invocationEstimate config inv changeSet) := by
  cases inv with
  | call r => exact toNat_estimateCallGas _ _ _ _
  | script r => exact toNat_estimateScriptGas _ _ _ _

/-- An interpreter returns effects when its run came to an end and gave a change set. -/
theorem toInterpreter_result_eq {state : NexusStateView} {start : Start} {gasLimit : UInt64}
    {effects : Effects} :
    (interpreter.toInterpreter.run state start gasLimit).result = .ok (.ok effects) ↔
      ∃ finished, interpreter.outcome state start gasLimit = .ok finished
        ∧ finished.effects = .ok effects := by
  show (interpreter.outcome state start gasLimit).map Finished.effects = _ ↔ _
  cases interpreter.outcome state start gasLimit with
  | error e => simp [Except.map]
  | ok finished => simp [Except.map]

/-- The output of an execution whose run came to its end. -/
theorem executeInvocation_of_finished {state : NexusStateView} {inv : Invocation} {start : Start}
    {finished : Finished} {changeSet : ChangeSet}
    (hstart : startInvocation v (.fromConfig config) state inv = some start)
    (hfinished : interpreter.outcome state start inv.gasLimit = .ok finished)
    (hchangeSet : finished.changeSet = .ok changeSet) :
    ∃ out, executeInvocation v (.fromConfig config) state interpreter.toInterpreter inv = .ok out
      ∧ out.status = .success ∧ out.stateChanges = (changesetToNexus changeSet).1
      ∧ out.gasUsed = clampGasToLimit (max (interpreter.gasConsumed state start inv.gasLimit)
          (estimateGas (.fromConfig config) inv (changesetToNexus changeSet).1)) inv.gasLimit := by
  obtain ⟨f, hload, hentry⟩ := startInvocation_eq_some.mp hstart
  have hresult : (interpreter.toInterpreter.run state start inv.gasLimit).result
      = .ok (.ok ⟨changeSet, finished.events, finished.returnValues⟩) := by
    refine toInterpreter_result_eq.mpr ⟨finished, hfinished, ?_⟩
    rw [Finished.effects, hchangeSet]
    rfl
  rw [executeInvocation_of_load _ hload, executeLoadedFunction_of_ok hentry, finishExecution,
    hresult]
  exact ⟨_, rfl, rfl, rfl, rfl⟩

/-- An execution succeeds exactly if the interpreter is entered and returns effects. -/
theorem executeInvocation_succeeds_iff {state : NexusStateView} {inv : Invocation} :
    (∃ out, executeInvocation v (.fromConfig config) state interpreter.toInterpreter inv = .ok out
        ∧ out.status = .success) ↔
      ∃ start finished changeSet, startInvocation v (.fromConfig config) state inv = some start
        ∧ interpreter.outcome state start inv.gasLimit = .ok finished
        ∧ finished.changeSet = .ok changeSet := by
  constructor
  · rintro ⟨out, hout, hsuccess⟩
    rcases executeInvocation_ok hout with ⟨hne, -⟩ | ⟨start, effects, hstart, hresult, -, -, -, -⟩
    · exact absurd hsuccess hne
    · obtain ⟨finished, hfinished, heffects⟩ := toInterpreter_result_eq.mp hresult
      obtain ⟨changeSet, hchangeSet, -⟩ := Except.bind_eq_ok.mp heffects
      exact ⟨start, finished, changeSet, hstart, hfinished, hchangeSet⟩
  · rintro ⟨start, finished, changeSet, hstart, hfinished, hchangeSet⟩
    obtain ⟨out, hout, hsuccess, -⟩ := executeInvocation_of_finished hstart hfinished hchangeSet
    exact ⟨out, hout, hsuccess⟩

theorem invocationPrice_of_success {state : NexusStateView} {inv : Invocation} {start : Start}
    {finished : Finished} {changeSet : ChangeSet}
    (hstart : startInvocation v (.fromConfig config) state inv = some start)
    (hfinished : interpreter.outcome state start inv.gasLimit = .ok finished)
    (hchangeSet : finished.changeSet = .ok changeSet) :
    invocationPrice v config interpreter state inv
      = some (max (interpreter.gasConsumed state start inv.gasLimit)
          (estimateGas (.fromConfig config) inv (changesetToNexus changeSet).1)) := by
  simp [invocationPrice, hstart, hfinished, hchangeSet, Except.toOption]

theorem max_le_iff_u64 {a b c : UInt64} : max a b ≤ c ↔ a ≤ c ∧ b ≤ c := by
  show (if a ≤ b then b else a) ≤ c ↔ _
  split_ifs with hab
  · exact ⟨fun hb => ⟨UInt64.le_trans hab hb, hb⟩, And.right⟩
  · have hba : b ≤ a := UInt64.le_of_lt (UInt64.not_le.mp hab)
    exact ⟨fun ha => ⟨ha, UInt64.le_trans hba ha⟩, And.left⟩

/-- The metered part is within the limit, so the estimate decides. -/
theorem price_le_iff {state : NexusStateView} {inv : Invocation} {start : Start}
    {changeSet : ChangeSet} :
    max (interpreter.gasConsumed state start inv.gasLimit)
        (estimateGas (.fromConfig config) inv (changesetToNexus changeSet).1) ≤ inv.gasLimit ↔
      Covers inv.gasLimit (invocationEstimate config inv changeSet) := by
  have hconsumed : interpreter.gasConsumed state start inv.gasLimit ≤ inv.gasLimit :=
    NexusGasMeter.consumed_after_le _ _
  rw [covers_iff (toNat_estimateGas inv changeSet), max_le_iff_u64, and_iff_right hconsumed]

theorem invocationCovered_iff (inv : Invocation) :
    (∀ out, executeInvocation v (.fromConfig config) σ.view interpreter.toInterpreter inv = .ok out →
        out.status = .success → ∃ price,
          invocationPrice v config interpreter σ.view inv = some price ∧ price ≤ inv.gasLimit) ↔
      InvocationCovered v config interpreter σ inv := by
  constructor
  · intro h start finished changeSet hstart hfinished hchangeSet
    obtain ⟨out, hout, hsuccess⟩ := executeInvocation_succeeds_iff.mpr
      ⟨start, finished, changeSet, hstart, hfinished, hchangeSet⟩
    obtain ⟨price, hprice, hle⟩ := h out hout hsuccess
    rw [invocationPrice_of_success hstart hfinished hchangeSet] at hprice
    obtain rfl := Option.some.inj hprice
    exact price_le_iff.mp hle
  · intro h out hout hsuccess
    obtain ⟨start, finished, changeSet, hstart, hfinished, hchangeSet⟩ :=
      executeInvocation_succeeds_iff.mp ⟨out, hout, hsuccess⟩
    have hcovers := h start finished changeSet hstart hfinished hchangeSet
    exact ⟨_, invocationPrice_of_success hstart hfinished hchangeSet, price_le_iff.mpr hcovers⟩

theorem requestPrice_publish {r : ModulePublish} {ps : List PublishedModule}
    (hloop : publishLoop v (.fromConfig config) σ.view r r.modules = .ok ps) :
    requestPrice v config interpreter σ.view (.publish r)
      = some (estimatePublishGas (.fromConfig config) r.modules (bundleChanges v ps)) := by
  simp [requestPrice, hloop, Except.toOption]

theorem publishCovered_iff {r : ModulePublish} :
    (∀ out, publishModules v (.fromConfig config) σ.view r = .ok out → out.status = .success →
        ∃ price, requestPrice v config interpreter σ.view (.publish r) = some price
          ∧ price ≤ r.gasLimit) ↔
      EstimateCovered v config interpreter σ (.publish r) := by
  constructor
  · intro h ps hmap hacc
    have hloop : publishLoop v (.fromConfig config) σ.view r r.modules = .ok ps :=
      publishLoop_eq_ok.mpr ⟨hmap, hacc⟩
    have hout : publishModules v (.fromConfig config) σ.view r
        = .ok (publishSuccess v (.fromConfig config) r ps) :=
      (publishModules_eq_ok v _ σ.view).mpr (.inr ⟨ps, hloop, rfl⟩)
    obtain ⟨price, hprice, hle⟩ := h _ hout rfl
    rw [requestPrice_publish hloop] at hprice
    obtain rfl := Option.some.inj hprice
    exact (covers_iff (toNat_publishEstimate r ps)).mpr hle
  · intro h out hout hsuccess
    obtain ⟨ps, hmap, hacc, -⟩ := publishModules_success v _ hout hsuccess
    have hloop : publishLoop v (.fromConfig config) σ.view r r.modules = .ok ps :=
      publishLoop_eq_ok.mpr ⟨hmap, hacc⟩
    have hcovers := h ps hmap hacc
    exact ⟨_, requestPrice_publish hloop, (covers_iff (toNat_publishEstimate r ps)).mp hcovers⟩

/-- A price above the limit stands against success only if success says that it is not. -/
theorem priceCovered_iff_success {t : Transaction} :
    PriceCovered v config interpreter σ t ↔
      ∀ out, t.run (realMoveVm v config interpreter) σ.view = .ok out → out.status = .success →
        ∃ price, requestPrice v config interpreter σ.view t = some price ∧ price ≤ t.gasLimit := by
  constructor
  · exact And.left
  · intro h
    refine ⟨h, fun price hprice hlt => ?_⟩
    have hfail : ∀ out, t.run (realMoveVm v config interpreter) σ.view = .ok out →
        out.status ≠ .success := by
      intro out hout hsuccess
      obtain ⟨price', hprice', hle⟩ := h out hout hsuccess
      obtain rfl : price = price' := Option.some.inj (hprice.symm.trans hprice')
      exact absurd hle (UInt64.not_le.mpr hlt)
    exact ⟨hfail, t.applyOutput_of_failed (b := .real config interpreter) hfail⟩

end Spec

/-- **Prices and limits.** Success means that the price was covered, for a transaction on the real
backend, if and only if its limit covers the exact estimate wherever nothing else stands in the way
of success. -/
theorem priceCovered_iff (v : Vendor) (config : VmConfig) (interpreter : MeteredInterpreter)
    (σ : Store) (t : Transaction) :
    PriceCovered v config interpreter σ t ↔ EstimateCovered v config interpreter σ t := by
  rw [priceCovered_iff_success]
  cases t with
  | publish r => exact publishCovered_iff
  | call r => exact invocationCovered_iff (.call r)
  | script r => exact invocationCovered_iff (.script r)

/-- With a limit of 2, a module is published that costs thousands. -/
theorem publish_is_not_priced_out :
    ¬ PriceCovered sampleVendor .forTesting .idle KeyedStore.empty
      (.publish { publishA with gasLimit := 2 }) := by
  intro h
  have hstatus : (publishModules sampleVendor sampleSchedule (Store.view KeyedStore.empty)
      { publishA with gasLimit := 2 }).toOption.map VmOutput.status = some .success := by
    decide +kernel
  have hprice : (requestPrice sampleVendor .forTesting .idle (Store.view KeyedStore.empty)
      (.publish { publishA with gasLimit := 2 })).any (fun price => 2 < price) = true := by
    decide +kernel
  obtain ⟨out, hout, hsuccess⟩ := Option.map_eq_some_iff.mp hstatus
  obtain ⟨price, hsome, hle⟩ := h.1 out (Except.toOption_eq_some.mp hout) hsuccess
  rw [hsome] at hprice
  have hlt : 2 < price := by simpa using hprice
  exact absurd hle (UInt64.not_le.mpr hlt)

end NexusMove
