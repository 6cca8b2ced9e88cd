import NexusMove.Runtime.Executor
import NexusMove.Runtime.GasEstimates

/-!
# The price of a publish by plan

`publish_verified_modules` prices a bundle by a formula of its own and compares the price
with the limit on its own. The shared schedule also prices what a publish writes, and a
meter lets a charge through that uses up its limit. The executor, in turn, is given a
configuration and publishes at the prices of another one, the default.

* `admissionAgrees_iff` — where the formula and the comparison come to what the schedule
  and a meter come to.
* `honoursConfig_iff` — where the default prices come to those of the configuration.
-/

namespace NexusMove

open Saturating (cap total)

/-! ## The two prices -/

/-- The exact price of the bytes of the modules, without what is written. -/
def moduleBytesPrice (config : VmConfig) (modules : List Bytes) : Nat :=
  config.publishBaseGas.toNat + config.publishPerByteGas.toNat * modules.flatten.length

/-- `estimate_publish_gas` over the modules and the changes that the publish would write. -/
def scheduledPublishGas (blake3 : Bytes → HashValue) (config : VmConfig) (sender : AccountAddress)
    (modules : List Bytes) : UInt64 :=
  estimatePublishGas (.fromConfig config) modules (contractEffects blake3 sender modules).2

section Prices

variable {modules : List Bytes} (hfits : BundleFits .default modules) (config : VmConfig)
include hfits

theorem toNat_plannedPublishGas :
    (plannedPublishGas config modules).toNat
      = cap (2 ^ 64 - 1) (moduleBytesPrice config modules) := by
  have hsize : modules.flatten.length < 2 ^ 64 := by
    have htotal : totalSize modules ≤ 2 * 1024 * 1024 := hfits.total
    rw [totalSize_eq] at htotal
    omega
  have hbytes : (UInt64.ofNat (totalSize modules)).toNat
      = cap (2 ^ 64 - 1) modules.flatten.length := by
    rw [UInt64.toNat_ofNat', totalSize_eq, Nat.mod_eq_of_lt hsize, Saturating.cap_of_le (by omega)]
  rw [plannedPublishGas, toNat_saturatingAdd, toNat_mul_price _ hbytes, Saturating.cap_add_cap,
    moduleBytesPrice]

/-- The schedule adds the price of the written bytes, of which there are some. -/
theorem toNat_scheduledPublishGas (blake3 : Bytes → HashValue) (sender : AccountAddress) :
    ∃ written, 0 < written ∧ (scheduledPublishGas blake3 config sender modules).toNat
      = cap (2 ^ 64 - 1) (moduleBytesPrice config modules + config.writePerByteGas.toNat * written) := by
  have hmemory : ∀ bs ∈ modules, InMemory bs := by
    intro bs hbs
    have hlen : bs.length ≤ 512 * 1024 := (hfits.each bs hbs).2
    exact Nat.lt_of_le_of_lt hlen (by decide)
  refine ⟨total StateChange.size (contractEffects blake3 sender modules).2, ?_, ?_⟩
  · -- the first change alone writes the key `code`
    have hcode : byteSize moduleCodeLegacyKey = 4 := by decide
    rw [contractEffects_snd, contractRecord, List.map_cons, Saturating.total_cons, StateChange.size,
      hcode]
    omega
  · rw [scheduledPublishGas, toNat_estimatePublishGas, total_byteSize hmemory]
    rfl

end Prices

/-! ## Admission -/

theorem new_charge_eq_ok {gasLimit price : UInt64} :
    (∃ m, (SimpleGasMeter.new gasLimit).charge price = .ok m) ↔ price ≤ gasLimit := by
  have hzero : saturatingAdd 0 price = price := by
    rw [← UInt64.toNat_inj, toNat_saturatingAdd, UInt64.toNat_zero, Nat.zero_add]
    exact Saturating.cap_of_le (toNat_le_u64Max price)
  constructor
  · rintro ⟨m, hm⟩
    have hle := (chargeTo_eq_some.mp (SimpleGasMeter.charge_eq_ok.mp hm).2).1
    rwa [SimpleGasMeter.new, hzero] at hle
  · intro hle
    refine ⟨⟨gasLimit, price, hle⟩, SimpleGasMeter.charge_eq_ok.mpr ⟨rfl, ?_⟩⟩
    exact chargeTo_eq_some.mpr ⟨by rwa [SimpleGasMeter.new, hzero],
      by rw [SimpleGasMeter.new, hzero]⟩

/-- The publish is admitted as a fresh meter would admit a charge of the scheduled price: it
succeeds and costs that price where the meter accepts the charge, and is out of gas where not. -/
def AdmissionAgrees (blake3 : Bytes → HashValue) (state : NexusStateView) (sender : AccountAddress)
    (modules : List Bytes) (gasLimit : UInt64) (config : VmConfig) : Prop :=
  verifyPublishBundle modules .bootstrap = .ok () →
  state.hasModule (contractAddress blake3 sender modules) = .ok false →
  gasLimit ≠ 0 →
    let price := scheduledPublishGas blake3 config sender modules
    ∃ outcome, publishVerifiedModules blake3 state sender modules gasLimit config = .ok outcome
      ∧ ((∃ m, (SimpleGasMeter.new gasLimit).charge price = .ok m) →
          outcome.vmOutput.status = .success ∧ outcome.vmOutput.gasUsed = price)
      ∧ ((¬ ∃ m, (SimpleGasMeter.new gasLimit).charge price = .ok m) →
          outcome.vmOutput.status = .outOfGas)

/-- Where the limit lies: above the price of the module bytes, and writes are free; or below that
price; or at it, and writes are not free. At the largest `u64` a limit is never below a price. -/
def LimitApart (config : VmConfig) (modules : List Bytes) (gasLimit : UInt64) : Prop :=
  (moduleBytesPrice config modules < gasLimit.toNat ∧ config.writePerByteGas = 0)
  ∨ (gasLimit.toNat < moduleBytesPrice config modules ∧ gasLimit ≠ u64Max)
  ∨ (moduleBytesPrice config modules = gasLimit.toNat ∧ config.writePerByteGas ≠ 0
      ∧ gasLimit ≠ u64Max)

section Admission

variable {config : VmConfig} {modules : List Bytes} {gasLimit : UInt64}

theorem limitApart_iff : LimitApart config modules gasLimit ↔
    (moduleBytesPrice config modules < gasLimit.toNat ∧ config.writePerByteGas.toNat = 0)
    ∨ (gasLimit.toNat < moduleBytesPrice config modules ∧ gasLimit.toNat ≠ 2 ^ 64 - 1)
    ∨ (moduleBytesPrice config modules = gasLimit.toNat ∧ config.writePerByteGas.toNat ≠ 0
      ∧ gasLimit.toNat ≠ 2 ^ 64 - 1) := by
  have hwrites : config.writePerByteGas = 0 ↔ config.writePerByteGas.toNat = 0 := by
    rw [← UInt64.toNat_inj, UInt64.toNat_zero]
  have hmax : gasLimit = u64Max ↔ gasLimit.toNat = 2 ^ 64 - 1 := by
    rw [← UInt64.toNat_inj, toNat_u64Max]
  rw [LimitApart, ne_eq, ne_eq, hwrites, hmax]

end Admission

/-- **Admission.** A publish by plan is admitted as the schedule and a meter would admit it exactly
where the limit is apart from the prices, as `LimitApart` has it. -/
theorem admissionAgrees_iff (blake3 : Bytes → HashValue) (state : NexusStateView)
    (sender : AccountAddress) (modules : List Bytes) (gasLimit : UInt64) (config : VmConfig) :
    AdmissionAgrees blake3 state sender modules gasLimit config ↔
      (verifyPublishBundle modules .bootstrap = .ok () →
        state.hasModule (contractAddress blake3 sender modules) = .ok false → gasLimit ≠ 0 →
        LimitApart config modules gasLimit) := by
  unfold AdmissionAgrees
  refine forall_congr' fun hverify => forall_congr' fun hfree => forall_congr' fun hlimit => ?_
  have hfits := bootstrap_eq_ok.mp hverify
  obtain ⟨written, hwritten, hprice⟩ := toNat_scheduledPublishGas hfits config blake3 sender
  have hplanned := toNat_plannedPublishGas hfits config
  -- writes cost something exactly if their price does
  have hcost : config.writePerByteGas.toNat * written = 0 ↔ config.writePerByteGas.toNat = 0 := by
    rw [Nat.mul_eq_zero, or_iff_left (Nat.pos_iff_ne_zero.mp hwritten)]
  have hmax := toNat_le_u64Max gasLimit
  dsimp only
  rw [limitApart_iff, new_charge_eq_ok, UInt64.le_iff_toNat_le, hprice]
  by_cases hcovered : plannedPublishGas config modules < gasLimit
  · -- admitted at the price of the module bytes, which has to be all of the price
    have hsame : plannedPublishGas config modules
        = scheduledPublishGas blake3 config sender modules ↔
        cap (2 ^ 64 - 1) (moduleBytesPrice config modules) = cap (2 ^ 64 - 1)
          (moduleBytesPrice config modules + config.writePerByteGas.toNat * written) := by
      rw [← hplanned, ← hprice, UInt64.toNat_inj]
    rw [publishVerifiedModules_of_admitted hverify hfree (.inr hcovered)]
    rw [UInt64.lt_iff_toNat_lt, hplanned] at hcovered
    simp only [Except.ok.injEq, exists_eq_left', plannedOutput, true_and, reduceCtorEq, imp_false,
      not_not, hsame]
    unfold cap at hcovered ⊢
    omega
  · -- out of gas, so the whole price has to be above the limit
    have huncovered : ¬ PlanCovered config modules gasLimit := by
      rintro (hzero | hlt)
      · exact hlimit hzero
      · exact hcovered hlt
    rw [publishVerifiedModules_of_uncovered hverify hfree huncovered]
    rw [UInt64.lt_iff_toNat_lt, hplanned] at hcovered
    simp only [Except.ok.injEq, exists_eq_left', VmOutput.withoutEffects, reduceCtorEq, false_and,
      imp_false, implies_true, and_true]
    unfold cap at hcovered ⊢
    omega

/-- At a limit that is the price, a meter accepts the charge and the publish is out of gas. Far above
it, the publish pays for two bytes of code and for none of those it writes. -/
theorem admission_differs :
    ¬ AdmissionAgrees sampleHash (Store.view KeyedStore.empty) zeroAccount [[1, 2]] 10002
        { VmConfig.default with writePerByteGas := 0 }
    ∧ ¬ AdmissionAgrees sampleHash (Store.view KeyedStore.empty) zeroAccount [[1, 2]] 1000000
        .default := by
  have hverify : verifyPublishBundle [[1, 2]] .bootstrap = .ok () := by decide
  constructor
  · intro h
    obtain ⟨outcome, hrun, haccepted, -⟩ := h hverify rfl (by decide)
    have hmeter : ∃ m, (SimpleGasMeter.new 10002).charge (scheduledPublishGas sampleHash
        { VmConfig.default with writePerByteGas := 0 } zeroAccount [[1, 2]]) = .ok m :=
      new_charge_eq_ok.mpr (by decide)
    have huncovered :
        ¬ PlanCovered { VmConfig.default with writePerByteGas := 0 } [[1, 2]] 10002 := by
      simp only [PlanCovered]
      decide
    rw [publishVerifiedModules_of_uncovered hverify rfl huncovered] at hrun
    obtain rfl := Except.ok.inj hrun
    exact absurd (haccepted hmeter).1 (by decide)
  · intro h
    obtain ⟨outcome, hrun, haccepted, -⟩ := h hverify rfl (by decide)
    have hmeter : ∃ m, (SimpleGasMeter.new 1000000).charge
        (scheduledPublishGas sampleHash .default zeroAccount [[1, 2]]) = .ok m :=
      new_charge_eq_ok.mpr (by decide)
    rw [publishVerifiedModules_of_admitted hverify rfl (.inr (by decide))] at hrun
    obtain rfl := Except.ok.inj hrun
    exact absurd (haccepted hmeter).2 (by decide)

/-! ## The configuration of the executor -/

/-- The executor publishes at the prices of the configuration it was built with. -/
def HonoursConfig (blake3 : Bytes → HashValue) (config : VmConfig) (state : NexusStateView)
    (request : ModulePublish) : Prop :=
  (MoveExecutor.new blake3 config).publishModules state request
    = (publishVerifiedModules blake3 state request.sender request.modules request.gasLimit
        config).map PublishOutcome.vmOutput

/-- The price under the configuration is the default price, or there is a limit and it is above
neither. -/
def PricesMeet (config : VmConfig) (modules : List Bytes) (gasLimit : UInt64) : Prop :=
  moduleBytesPrice config modules = moduleBytesPrice .default modules
  ∨ (gasLimit ≠ 0 ∧ gasLimit.toNat ≤ moduleBytesPrice config modules
      ∧ gasLimit.toNat ≤ moduleBytesPrice .default modules)

section Executor

variable {blake3 : Bytes → HashValue} {config : VmConfig} {state : NexusStateView}
  {request : ModulePublish}

theorem new_publishModules :
    (MoveExecutor.new blake3 config).publishModules state request
      = (publishVerifiedModules blake3 state request.sender request.modules request.gasLimit
          .default).map PublishOutcome.vmOutput := by
  show ((verifyPublishBundle request.modules .bootstrap).mapError .verification >>= fun _ =>
    publishVerifiedModules blake3 state request.sender request.modules request.gasLimit .default
      >>= fun outcome => pure outcome.vmOutput) = _
  -- the backend checks the bundle, and the publisher checks it again
  cases hverify : verifyPublishBundle request.modules .bootstrap with
  | error e =>
    rw [publishVerifiedModules, hverify]
    rfl
  | ok _ =>
    rw [Except.mapError_ok, Except.ok_bind]
    cases publishVerifiedModules blake3 state request.sender request.modules request.gasLimit
      .default with
    | error e => rfl
    | ok outcome => rfl

section Covered

variable (hfits : BundleFits .default request.modules)
include hfits

theorem planCovered_iff :
    PlanCovered config request.modules request.gasLimit ↔
      request.gasLimit = 0 ∨ moduleBytesPrice config request.modules < request.gasLimit.toNat := by
  have hmax := toNat_le_u64Max request.gasLimit
  rw [PlanCovered, UInt64.lt_iff_toNat_lt, toNat_plannedPublishGas hfits, Saturating.cap]
  refine or_congr_right ?_
  omega

/-- The default price of a bundle that passes the check is far below the largest `u64`. -/
theorem plannedPublishGas_eq_default_iff :
    plannedPublishGas config request.modules = plannedPublishGas .default request.modules ↔
      moduleBytesPrice config request.modules = moduleBytesPrice .default request.modules := by
  have htotal : totalSize request.modules ≤ 2 * 1024 * 1024 := hfits.total
  have hdefault : moduleBytesPrice .default request.modules
      = 10000 + 1 * request.modules.flatten.length := rfl
  rw [totalSize_eq] at htotal
  rw [← UInt64.toNat_inj, toNat_plannedPublishGas hfits, toNat_plannedPublishGas hfits, hdefault,
    Saturating.cap, Saturating.cap]
  omega

/-- Prices meet where both are covered and the same, or where neither is covered. -/
theorem pricesMeet_iff :
    PricesMeet config request.modules request.gasLimit ↔
      (PlanCovered config request.modules request.gasLimit ↔
        PlanCovered .default request.modules request.gasLimit)
      ∧ (PlanCovered .default request.modules request.gasLimit →
        plannedPublishGas config request.modules = plannedPublishGas .default request.modules) := by
  rw [planCovered_iff hfits, planCovered_iff hfits, plannedPublishGas_eq_default_iff hfits,
    PricesMeet]
  by_cases hlimit : request.gasLimit = 0
  · simp [hlimit]
  · simp only [hlimit, ne_eq, not_false_eq_true, true_and, false_or]
    omega

end Covered

theorem plannedOutput_eq_default_iff :
    plannedOutput blake3 request.sender request.modules .default
        = plannedOutput blake3 request.sender request.modules config ↔
      plannedPublishGas config request.modules = plannedPublishGas .default request.modules := by
  simp [plannedOutput, eq_comm]

end Executor

/-- **The configuration of the executor.** A new executor publishes at the prices of its
configuration exactly where these and the default ones meet: the base prices for a bundle that is
stored already, and the prices of the bundle for one that is not. -/
theorem honoursConfig_iff (blake3 : Bytes → HashValue) (config : VmConfig) (state : NexusStateView)
    (request : ModulePublish) :
    HonoursConfig blake3 config state request ↔
      (verifyPublishBundle request.modules .bootstrap = .ok () →
        let stored := state.hasModule (contractAddress blake3 request.sender request.modules)
        (stored = .ok true → config.publishBaseGas = VmConfig.default.publishBaseGas)
        ∧ (stored = .ok false → PricesMeet config request.modules request.gasLimit)) := by
  rw [HonoursConfig, new_publishModules]
  cases hverify : verifyPublishBundle request.modules .bootstrap with
  | error e => simp [publishVerifiedModules, hverify, Except.error_bind]
  | ok _ =>
    have hfits := bootstrap_eq_ok.mp hverify
    dsimp only
    cases hstored : state.hasModule (contractAddress blake3 request.sender request.modules) with
    | error e => simp [publishVerifiedModules, hverify, hstored, Except.ok_bind, Except.error_bind]
    | ok stored =>
      cases stored with
      | true =>
        rw [publishVerifiedModules_of_stored hverify hstored,
          publishVerifiedModules_of_stored hverify hstored]
        simp [Except.map, VmOutput.withoutEffects, eq_comm]
      | false =>
        rw [pricesMeet_iff hfits]
        simp only [reduceCtorEq, false_imp_iff, Except.ok.injEq, true_and, forall_const]
        by_cases hconfig : PlanCovered config request.modules request.gasLimit
        · by_cases hdefault : PlanCovered .default request.modules request.gasLimit
          · rw [publishVerifiedModules_of_admitted hverify hstored hconfig,
              publishVerifiedModules_of_admitted hverify hstored hdefault]
            simp only [Except.map, Except.ok.injEq, plannedOutput_eq_default_iff, hconfig, hdefault,
              true_and, forall_const]
          · -- admitted under the configuration, out of gas as published
            rw [publishVerifiedModules_of_admitted hverify hstored hconfig,
              publishVerifiedModules_of_uncovered hverify hstored hdefault]
            simp [Except.map, VmOutput.withoutEffects, plannedOutput, hconfig, hdefault]
        · by_cases hdefault : PlanCovered .default request.modules request.gasLimit
          · rw [publishVerifiedModules_of_uncovered hverify hstored hconfig,
              publishVerifiedModules_of_admitted hverify hstored hdefault]
            simp [Except.map, VmOutput.withoutEffects, plannedOutput, hconfig, hdefault]
          · rw [publishVerifiedModules_of_uncovered hverify hstored hconfig,
              publishVerifiedModules_of_uncovered hverify hstored hdefault]
            simp only [hconfig, hdefault, false_imp_iff, and_self]

/-- Under a configuration with no base price, a limit of 100 covers a bundle of two bytes. The
executor that was built with it is out of gas. -/
theorem configuration_is_ignored :
    ¬ HonoursConfig sampleHash { VmConfig.default with publishBaseGas := 0 }
        (Store.view KeyedStore.empty)
        { sender := zeroAccount, modules := [[1, 2]], gasLimit := 100, upgradePolicy := none } := by
  intro h
  have hstatus := congrArg (fun r => r.toOption.map VmOutput.status) h
  revert hstatus
  decide

end NexusMove
