import Mathlib.Data.List.Flatten
import NexusMove.Lib.Except
import NexusMove.Lib.Run
import NexusMove.Runtime.Gas

/-!
# Publishing by plan

`publish_verified_modules` (`publisher.rs`): a bundle passes the structural check,
gets an address of its own, derived from the sender and the hash of its
concatenated modules, and is stored there once, whole, with four keys.

* `publishVerifiedModules_cases` — how a publish by plan ends.
* `planning_publishes_write_once` — what every store holds that such publishes build.
* `contract_address_identifies` — what the address says about sender and bundle.
-/

namespace NexusMove

/-- In front of every preimage of a contract address. -/
def contractAddressDomain : Bytes := "nexus::contract::address::v1".utf8

section Code

variable (blake3 : Bytes → HashValue)

/-- What is hashed to an address: domain, deployer and code hash, none of variable length. -/
def contractAddressPreimage (deployer : AccountAddress) (bytecodeHash : HashValue) : Bytes :=
  contractAddressDomain ++ deployer.intoBytes ++ bytecodeHash.toBytes

def deriveContractAddress (deployer : AccountAddress) (bytecodeHash : HashValue) :
    AccountAddress where
  bytes := blake3 (contractAddressPreimage deployer bytecodeHash)

/-- The address of a bundle. The modules are hashed one after another, with nothing between. -/
def contractAddress (sender : AccountAddress) (modules : List Bytes) : AccountAddress :=
  deriveContractAddress blake3 sender (blake3 modules.flatten)

/-- One write, in the map and in the list. -/
def pushWrite (account : AccountAddress) (effects : WriteSet × List StateChange)
    (write : Bytes × Bytes) : WriteSet × List StateChange :=
  (effects.1.insert (account, write.1) (some write.2),
    effects.2 ++ [{ account, key := write.1, value := some write.2 }])

/-- The record of a published bundle, in the order it is written. -/
def contractRecord (sender : AccountAddress) (modules : List Bytes) : List (Bytes × Bytes) :=
  [ (moduleCodeLegacyKey, modules.flatten),
    (moduleCodeHashKey, (blake3 modules.flatten).toBytes),
    (moduleDeployerKey, sender.intoBytes),
    -- `as u32`: the low four bytes
    (moduleCountKey, leBytes 4 modules.length) ]

/-- The record in the order of the source, at the address of the contract. -/
def contractEffects (sender : AccountAddress) (modules : List Bytes) :
    WriteSet × List StateChange :=
  (contractRecord blake3 sender modules).foldl
    (pushWrite (contractAddress blake3 sender modules)) (∅, [])

/-- The price of a publish by plan. What is written is not part of it. -/
def plannedPublishGas (config : VmConfig) (modules : List Bytes) : UInt64 :=
  saturatingAdd config.publishBaseGas
    (saturatingMul (UInt64.ofNat (totalSize modules)) config.publishPerByteGas)

/-- The output that writes the record. -/
def plannedOutput (sender : AccountAddress) (modules : List Bytes) (config : VmConfig) : VmOutput :=
  let effects := contractEffects blake3 sender modules
  { status := .success
    gasUsed := plannedPublishGas config modules
    stateChanges := effects.2
    writeSet := effects.1
    events := []
    returnValues := [] }

def publishVerifiedModules (state : NexusStateView) (sender : AccountAddress)
    (modules : List Bytes) (gasLimit : UInt64) (config : VmConfig) : VmResult PublishOutcome := do
  (verifyPublishBundle modules .bootstrap).mapError .verification
  let contractAddress := contractAddress blake3 sender modules
  if ← state.hasModule contractAddress then
    return {
      vmOutput := .withoutEffects (.moveAbort "nexus::publish" 20) config.publishBaseGas
      contractAddress }
  else
    -- a limit of zero means no limit
    if gasLimit ≠ 0 ∧ plannedPublishGas config modules ≥ gasLimit then
      return { vmOutput := .withoutEffects .outOfGas gasLimit, contractAddress }
    else
      return { vmOutput := plannedOutput blake3 sender modules config, contractAddress }

end Code

/-! ## How a publish by plan ends -/

section Spec

variable {blake3 : Bytes → HashValue} {state : NexusStateView} {sender : AccountAddress}
  {modules : List Bytes} {gasLimit : UInt64} {config : VmConfig} {outcome : PublishOutcome}

/-- The changes are the record, write by write. -/
theorem contractEffects_snd :
    (contractEffects blake3 sender modules).2 =
      (contractRecord blake3 sender modules).map fun write =>
        { account := contractAddress blake3 sender modules, key := write.1,
          value := some write.2 } := rfl

/-- The gas of a publish is covered: there is no limit, or the price is below it. -/
def PlanCovered (config : VmConfig) (modules : List Bytes) (gasLimit : UInt64) : Prop :=
  gasLimit = 0 ∨ plannedPublishGas config modules < gasLimit

/-- **How a publish by plan ends.** The bundle passed the check. Something is stored at its address,
and the publish is refused at the base price; or the limit does not cover the price, and is used
up; or the record is written. -/
theorem publishVerifiedModules_cases
    (h : publishVerifiedModules blake3 state sender modules gasLimit config = .ok outcome) :
    verifyPublishBundle modules .bootstrap = .ok ()
    ∧ ((state.hasModule (contractAddress blake3 sender modules) = .ok true
        ∧ outcome.vmOutput =
          .withoutEffects (.moveAbort "nexus::publish" 20) config.publishBaseGas)
      ∨ (state.hasModule (contractAddress blake3 sender modules) = .ok false
        ∧ ¬ PlanCovered config modules gasLimit
        ∧ outcome.vmOutput = .withoutEffects .outOfGas gasLimit)
      ∨ (state.hasModule (contractAddress blake3 sender modules) = .ok false
        ∧ PlanCovered config modules gasLimit
        ∧ outcome.vmOutput = plannedOutput blake3 sender modules config)) := by
  unfold publishVerifiedModules at h
  obtain ⟨hverify, h⟩ := Except.bind_unit_eq_ok.mp h
  obtain ⟨stored, hstored, h⟩ := Except.bind_eq_ok.mp h
  refine ⟨Except.mapError_eq_ok.mp hverify, ?_⟩
  rw [hstored]
  -- code under the legacy key is what `has_module` asks for
  cases stored with
  | true =>
    obtain rfl := Except.pure_eq_ok.mp h
    exact .inl ⟨rfl, rfl⟩
  | false =>
    right
    simp only [Bool.false_eq_true, if_false] at h
    split_ifs at h with hgas
    · obtain rfl := Except.pure_eq_ok.mp h
      -- a limit that is not zero and not above the price
      have huncovered : ¬ PlanCovered config modules gasLimit := by
        rintro (hzero | hlt)
        · exact hgas.1 hzero
        · exact absurd hgas.2 (UInt64.not_le.mpr hlt)
      exact .inl ⟨rfl, huncovered, rfl⟩
    · obtain rfl := Except.pure_eq_ok.mp h
      -- either there is no limit or it is above the price
      have hcovered : PlanCovered config modules gasLimit := by
        by_cases hzero : gasLimit = 0
        · exact .inl hzero
        · exact .inr (UInt64.not_le.mp fun hle => hgas ⟨hzero, hle⟩)
      exact .inr ⟨rfl, hcovered, rfl⟩

section Results

variable (hverify : verifyPublishBundle modules .bootstrap = .ok ())
include hverify

/-- Code at the address: refused, at the base price. -/
theorem publishVerifiedModules_of_stored
    (hstored : state.hasModule (contractAddress blake3 sender modules) = .ok true) :
    publishVerifiedModules blake3 state sender modules gasLimit config = .ok {
      vmOutput := .withoutEffects (.moveAbort "nexus::publish" 20) config.publishBaseGas
      contractAddress := contractAddress blake3 sender modules } := by
  simp only [publishVerifiedModules, hverify, hstored, Except.mapError_ok, Except.ok_bind, if_true]
  rfl

/-- No code there, and a limit that does not cover the price. -/
theorem publishVerifiedModules_of_uncovered
    (hfree : state.hasModule (contractAddress blake3 sender modules) = .ok false)
    (huncovered : ¬ PlanCovered config modules gasLimit) :
    publishVerifiedModules blake3 state sender modules gasLimit config = .ok {
      vmOutput := .withoutEffects .outOfGas gasLimit
      contractAddress := contractAddress blake3 sender modules } := by
  have hgas : gasLimit ≠ 0 ∧ plannedPublishGas config modules ≥ gasLimit := by
    constructor
    · exact fun hzero => huncovered (.inl hzero)
    · exact UInt64.not_lt.mp fun hlt => huncovered (.inr hlt)
  simp only [publishVerifiedModules, hverify, hfree, Except.mapError_ok, Except.ok_bind,
    Bool.false_eq_true, if_false]
  rw [if_pos hgas]
  rfl

/-- No code there, and a limit that covers the price. -/
theorem publishVerifiedModules_of_admitted
    (hfree : state.hasModule (contractAddress blake3 sender modules) = .ok false)
    (hcovered : PlanCovered config modules gasLimit) :
    publishVerifiedModules blake3 state sender modules gasLimit config = .ok {
      vmOutput := plannedOutput blake3 sender modules config
      contractAddress := contractAddress blake3 sender modules } := by
  have hgas : ¬ (gasLimit ≠ 0 ∧ plannedPublishGas config modules ≥ gasLimit) := by
    rintro ⟨hne, hge⟩
    exact absurd (hcovered.resolve_left hne) (UInt64.not_lt.mpr hge)
  simp only [publishVerifiedModules, hverify, hfree, Except.mapError_ok, Except.ok_bind,
    Bool.false_eq_true, if_false, hgas]
  rfl

end Results

end Spec

/-! ## Runs of publishes by plan -/

/-- The arguments of one publish by plan. -/
structure PlannedPublish where
  sender : AccountAddress
  modules : List Bytes
  gasLimit : UInt64
  config : VmConfig

def PlannedPublish.run (blake3 : Bytes → HashValue) (state : NexusStateView) (p : PlannedPublish) :
    VmResult PublishOutcome :=
  publishVerifiedModules blake3 state p.sender p.modules p.gasLimit p.config

def planningStep (blake3 : Bytes → HashValue) (σ : Store) (p : PlannedPublish) : Store :=
  σ.applyResult ((p.run blake3 σ.view).map PublishOutcome.vmOutput)

def contractKeys : List Bytes :=
  [moduleCodeLegacyKey, moduleCodeHashKey, moduleDeployerKey, moduleCountKey]

section Runs

variable {blake3 : Bytes → HashValue} {σ : Store}

/-- The store with a record written into it. -/
def writeRecord (blake3 : Bytes → HashValue) (σ : Store) (p : PlannedPublish) : Store :=
  σ.applyChanges (contractEffects blake3 p.sender p.modules).2

/-- A success writes the record of the request. -/
theorem applyChanges_of_success {p : PlannedPublish} {outcome : PublishOutcome}
    (h : p.run blake3 σ.view = .ok outcome) (hsuccess : outcome.vmOutput.status = .success) :
    σ.applyChanges outcome.vmOutput.stateChanges = writeRecord blake3 σ p := by
  obtain ⟨-, ⟨-, hout⟩ | ⟨-, -, hout⟩ | ⟨-, -, hout⟩⟩ := publishVerifiedModules_cases h
  · simp [hout, VmOutput.withoutEffects] at hsuccess
  · simp [hout, VmOutput.withoutEffects] at hsuccess
  · rw [hout, plannedOutput, writeRecord]

/-- **One publish.** The store stays as it is, or the record of a bundle within the limits is
written at an address that held no code. -/
theorem planningStep_cases (blake3 : Bytes → HashValue) (σ : Store) (p : PlannedPublish) :
    planningStep blake3 σ p = σ
    ∨ (BundleFits .default p.modules
        ∧ σ (contractAddress blake3 p.sender p.modules, moduleCodeLegacyKey) = none
        ∧ planningStep blake3 σ p = writeRecord blake3 σ p) := by
  unfold planningStep
  cases hrun : p.run blake3 σ.view with
  | error e => exact .inl rfl
  | ok outcome =>
    obtain ⟨hverify, hend⟩ := publishVerifiedModules_cases hrun
    rcases hend with ⟨-, hout⟩ | ⟨-, -, hout⟩ | ⟨hfree, -, hout⟩
    · left
      simp [Except.map, Store.applyResult, hout, VmOutput.withoutEffects]
    · left
      simp [Except.map, Store.applyResult, hout, VmOutput.withoutEffects]
    · right
      have hstatus : outcome.vmOutput.status = .success := by rw [hout, plannedOutput]
      refine ⟨bootstrap_eq_ok.mp hverify, by simpa using hfree, ?_⟩
      simp [Except.map, Store.applyResult, hstatus, applyChanges_of_success hrun hstatus]

/-- A record is written at one address. -/
theorem writeRecord_of_ne {p : PlannedPublish} {a : AccountAddress}
    (ha : a ≠ contractAddress blake3 p.sender p.modules) (k : Bytes) :
    writeRecord blake3 σ p (a, k) = σ (a, k) := by
  refine KeyedStore.applyAll_frame fun w hw => ?_
  rw [contractEffects_snd, List.map_map] at hw
  obtain ⟨write, -, rfl⟩ := List.mem_map.mp hw
  intro heq
  exact ha (congrArg Prod.fst heq).symm

/-- What is written under each of the four keys stays under it. -/
theorem writeRecord_self (p : PlannedPublish) {k value : Bytes}
    (h : (k, value) ∈ contractRecord blake3 p.sender p.modules) :
    writeRecord blake3 σ p (contractAddress blake3 p.sender p.modules, k) = some value := by
  -- the four keys differ, so each keeps what it was given
  have hkeys : contractKeys.Nodup := by decide
  simp only [contractKeys, List.nodup_cons, List.mem_cons, List.not_mem_nil, or_false, not_or]
    at hkeys
  obtain ⟨⟨h1, h2, h3⟩, ⟨h4, h5⟩, h6, -⟩ := hkeys
  simp only [contractRecord, List.mem_cons, List.not_mem_nil, or_false, Prod.mk.injEq] at h
  simp only [writeRecord, contractEffects_snd, contractRecord, Store.applyChanges, List.map_cons,
    List.map_nil, StateChange.toWrite, KeyedStore.applyAll_cons, KeyedStore.applyAll_nil,
    KeyedStore.write]
  rcases h with ⟨rfl, rfl⟩ | ⟨rfl, rfl⟩ | ⟨rfl, rfl⟩ | ⟨rfl, rfl⟩
  · simp [h1, h2, h3]
  · simp [h4, h5]
  · simp [h6]
  · simp

theorem writeRecord_code (p : PlannedPublish) :
    writeRecord blake3 σ p (contractAddress blake3 p.sender p.modules, moduleCodeLegacyKey)
      = some p.modules.flatten :=
  writeRecord_self p (by simp [contractRecord])

/-- What is stored at an address that holds `code`. -/
structure ContractAt (blake3 : Bytes → HashValue) (σ : Store) (a : AccountAddress) (code : Bytes) :
    Prop where
  hash : σ (a, moduleCodeHashKey) = some (blake3 code).toBytes
  deployer : ∃ deployer : AccountAddress, σ (a, moduleDeployerKey) = some deployer.intoBytes
    ∧ a = deriveContractAddress blake3 deployer (blake3 code)
  count : ∃ count, σ (a, moduleCountKey) = some count ∧ count.length = 4
    ∧ 1 ≤ leValue count ∧ leValue count ≤ 64

/-- Such a contract depends on the keys of its address only. -/
theorem ContractAt.congr {τ : Store} {a : AccountAddress} {code : Bytes}
    (h : ContractAt blake3 σ a code) (heq : ∀ k, τ (a, k) = σ (a, k)) :
    ContractAt blake3 τ a code where
  hash := (heq _).trans h.hash
  deployer := by
    rw [heq]
    exact h.deployer
  count := by
    rw [heq]
    exact h.count

/-- The invariant of stores that publishes by plan have built. -/
structure RecordsKept (blake3 : Bytes → HashValue) (σ : Store) : Prop where
  present : ∀ a code, σ (a, moduleCodeLegacyKey) = some code → ContractAt blake3 σ a code
  absent : ∀ a, σ (a, moduleCodeLegacyKey) = none → ∀ k ∈ contractKeys, σ (a, k) = none

theorem recordsKept_empty : RecordsKept blake3 KeyedStore.empty where
  present a code h := by simp [KeyedStore.empty] at h
  absent a _ k _ := rfl

/-- A record that was just written is complete. -/
theorem ContractAt.of_writeRecord {p : PlannedPublish} (hfits : BundleFits .default p.modules) :
    ContractAt blake3 (writeRecord blake3 σ p) (contractAddress blake3 p.sender p.modules)
      p.modules.flatten where
  hash := writeRecord_self p (by simp [contractRecord])
  deployer := ⟨p.sender, writeRecord_self p (by simp [contractRecord]), rfl⟩
  -- the count is at most 64, so four bytes hold it
  count := by
    have hpos : 0 < p.modules.length := List.length_pos_iff.mpr hfits.nonempty
    have hmax : p.modules.length ≤ 64 := hfits.count
    have hvalue : leValue (leBytes 4 p.modules.length) = p.modules.length :=
      leValue_leBytes (by omega)
    refine ⟨leBytes 4 p.modules.length, writeRecord_self p (by simp [contractRecord]),
      length_leBytes _ _, ?_, ?_⟩
    · omega
    · omega

/-- **Steps.** A publish completes one record or changes nothing. -/
theorem RecordsKept.step (h : RecordsKept blake3 σ) (p : PlannedPublish) :
    RecordsKept blake3 (planningStep blake3 σ p) := by
  rcases planningStep_cases blake3 σ p with heq | ⟨hfits, -, heq⟩
  · rw [heq]
    exact h
  · rw [heq]
    -- the new address has the record just written, every other one what it had
    constructor
    · intro a code hcode
      by_cases ha : a = contractAddress blake3 p.sender p.modules
      · subst ha
        rw [writeRecord_code] at hcode
        obtain rfl := Option.some.inj hcode
        exact .of_writeRecord hfits
      · have hframe : ∀ k, writeRecord blake3 σ p (a, k) = σ (a, k) := writeRecord_of_ne ha
        rw [hframe] at hcode
        exact (h.present a code hcode).congr hframe
    · intro a hnone k hk
      by_cases ha : a = contractAddress blake3 p.sender p.modules
      · rw [ha, writeRecord_code] at hnone
        cases hnone
      · rw [writeRecord_of_ne ha] at hnone ⊢
        exact h.absent a hnone k hk

/-- **Write once.** A publish changes nothing at an address that holds code. -/
theorem planningStep_frame {a : AccountAddress} (hcode : (σ (a, moduleCodeLegacyKey)).isSome)
    (p : PlannedPublish) (k : Bytes) : planningStep blake3 σ p (a, k) = σ (a, k) := by
  rcases planningStep_cases blake3 σ p with heq | ⟨-, hfree, heq⟩
  · rw [heq]
  · rw [heq]
    refine writeRecord_of_ne ?_ k
    rintro rfl
    rw [hfree] at hcode
    cases hcode

/-- **Once.** Where code is stored, no later request changes anything. -/
theorem planningRun_frame {a : AccountAddress} (hcode : (σ (a, moduleCodeLegacyKey)).isSome)
    (ps : List PlannedPublish) (k : Bytes) :
    Run.exec (planningStep blake3) σ ps (a, k) = σ (a, k) := by
  -- equal values at the address keep the code there, which is what the step lemma asks for
  refine Run.invariant (P := fun τ : Store => ∀ k, τ (a, k) = σ (a, k)) ?_ (fun _ => rfl) ps k
  intro τ p hτ k
  rw [planningStep_frame (by rw [hτ]; exact hcode) p k]
  exact hτ k

end Runs

/-- **Contracts are written once.** Take any sequence of publishes by plan, of any bundles by any
senders at any prices, and any further sequence after it. Where code is stored after the first,
its hash is stored, the address is the one derived from the stored deployer and that hash, the
stored count is a four-byte number from 1 to 64, and all four values are still there after the
second. Where no code is stored, none of the other three is. -/
theorem planning_publishes_write_once (blake3 : Bytes → HashValue)
    (ps later : List PlannedPublish) (a : AccountAddress) :
    let σ := Run.exec (planningStep blake3) KeyedStore.empty ps
    (∀ code, σ (a, moduleCodeLegacyKey) = some code →
      σ (a, moduleCodeHashKey) = some (blake3 code).toBytes
      ∧ (∃ deployer : AccountAddress, σ (a, moduleDeployerKey) = some deployer.intoBytes
          ∧ a = deriveContractAddress blake3 deployer (blake3 code))
      ∧ (∃ count, σ (a, moduleCountKey) = some count ∧ count.length = 4
          ∧ 1 ≤ leValue count ∧ leValue count ≤ 64)
      ∧ ∀ k ∈ contractKeys, Run.exec (planningStep blake3) σ later (a, k) = σ (a, k))
    ∧ (σ (a, moduleCodeLegacyKey) = none → ∀ k ∈ contractKeys, σ (a, k) = none) := by
  intro σ
  have hkept : RecordsKept blake3 σ :=
    Run.invariant (fun _ p hτ => hτ.step p) recordsKept_empty ps
  refine ⟨fun code hcode => ?_, hkept.absent a⟩
  have hrecord := hkept.present a code hcode
  exact ⟨hrecord.hash, hrecord.deployer, hrecord.count, fun k _ =>
    planningRun_frame (by rw [hcode]; rfl) later k⟩

/-! ## What an address identifies -/

section Identity

variable {blake3 : Bytes → HashValue} {sender sender' : AccountAddress} {modules modules' : List Bytes}

/-- The parts of an address preimage have fixed lengths, so it determines them. -/
theorem contractAddressPreimage_inj {hash hash' : HashValue}
    (h : contractAddressPreimage sender hash = contractAddressPreimage sender' hash') :
    sender = sender' ∧ hash = hash' := by
  simp only [contractAddressPreimage, List.append_assoc] at h
  have hrest := List.append_cancel_left h
  obtain ⟨hsender, hhash⟩ := List.append_inj hrest (by simp)
  exact ⟨AccountAddress.intoBytes_injective hsender, FixedBytes.ext hhash⟩

/-- Two inputs that the hash function keeps apart if they differ. -/
def HashedApart (blake3 : Bytes → HashValue) (x y : Bytes) : Prop := blake3 x = blake3 y → x = y

/-- Two hashes over one another, each told apart on its inputs. -/
theorem contractAddress_eq_iff (hcode : HashedApart blake3 modules.flatten modules'.flatten)
    (haddr : HashedApart blake3 (contractAddressPreimage sender (blake3 modules.flatten))
      (contractAddressPreimage sender' (blake3 modules'.flatten))) :
    contractAddress blake3 sender modules = contractAddress blake3 sender' modules' ↔
      sender = sender' ∧ modules.flatten = modules'.flatten := by
  constructor
  · intro h
    obtain ⟨hsender, hhash⟩ := contractAddressPreimage_inj (haddr (congrArg AccountAddress.bytes h))
    exact ⟨hsender, hcode hhash⟩
  · rintro ⟨rfl, hflat⟩
    rw [contractAddress, contractAddress, hflat]

/-- A record says who published what, and how many modules it was. -/
theorem contractRecord_eq_iff (hfits : BundleFits .default modules)
    (hfits' : BundleFits .default modules') :
    contractRecord blake3 sender modules = contractRecord blake3 sender' modules' ↔
      sender = sender' ∧ modules.flatten = modules'.flatten ∧ modules.length = modules'.length := by
  have hcount : modules.length ≤ 64 := hfits.count
  have hcount' : modules'.length ≤ 64 := hfits'.count
  constructor
  · intro h
    -- the second entry is the hash of the code and says nothing more
    simp only [contractRecord, List.cons.injEq, Prod.mk.injEq, true_and, and_true] at h
    obtain ⟨hflat, -, hsender, hlen⟩ := h
    exact ⟨AccountAddress.intoBytes_injective hsender, hflat,
      leBytes_inj (by omega) (by omega) hlen⟩
  · rintro ⟨rfl, hflat, hlen⟩
    rw [contractRecord, contractRecord, hflat, hlen]

/-- After a record is written, its address is taken, and any other address is as it was. -/
theorem hasModule_writeRecord (σ : Store) (p : PlannedPublish) (a : AccountAddress)
    (hfree : σ (a, moduleCodeLegacyKey) = none) :
    (writeRecord blake3 σ p).view.hasModule a = .ok true ↔
      a = contractAddress blake3 p.sender p.modules := by
  rw [Store.view_hasModule]
  by_cases ha : a = contractAddress blake3 p.sender p.modules
  · rw [ha, writeRecord_code]
    simp
  · rw [writeRecord_of_ne ha, hfree]
    simp [ha]

/-- A publish by plan is refused as published exactly if its address holds code. -/
theorem refused_iff {state : NexusStateView} {p : PlannedPublish} {outcome : PublishOutcome}
    (h : p.run blake3 state = .ok outcome) :
    outcome.vmOutput.status = .moveAbort "nexus::publish" 20 ↔
      state.hasModule (contractAddress blake3 p.sender p.modules) = .ok true := by
  obtain ⟨-, ⟨hstored, hout⟩ | ⟨hfree, -, hout⟩ | ⟨hfree, -, hout⟩⟩ :=
    publishVerifiedModules_cases h
  · simp [hstored, hout, VmOutput.withoutEffects]
  · simp [hfree, hout, VmOutput.withoutEffects]
  · simp [hfree, hout, plannedOutput]

end Identity

/-- **What an address identifies.** Of two accepted bundles and their senders, the address
identifies the sender and the concatenated modules, no more and no less; it identifies the
modules where the lengths of the modules are the same. The stored record identifies the number of
modules as well. After one of the two has been published, the other is refused as published
exactly if sender and concatenation are the same. -/
theorem contract_address_identifies (blake3 : Bytes → HashValue) (sender sender' : AccountAddress)
    (modules modules' : List Bytes)
    (haccepted : verifyPublishBundle modules .bootstrap = .ok ())
    (haccepted' : verifyPublishBundle modules' .bootstrap = .ok ())
    (hcode : HashedApart blake3 modules.flatten modules'.flatten)
    (haddr : HashedApart blake3 (contractAddressPreimage sender (blake3 modules.flatten))
      (contractAddressPreimage sender' (blake3 modules'.flatten))) :
    (contractAddress blake3 sender modules = contractAddress blake3 sender' modules' ↔
      sender = sender' ∧ modules.flatten = modules'.flatten)
    ∧ (contractAddress blake3 sender modules = contractAddress blake3 sender' modules' →
        modules.map List.length = modules'.map List.length → modules = modules')
    ∧ (contractRecord blake3 sender modules = contractRecord blake3 sender' modules' ↔
        sender = sender' ∧ modules.flatten = modules'.flatten ∧ modules.length = modules'.length)
    ∧ ∀ (σ : Store) (gasLimit gasLimit' : UInt64) (config config' : VmConfig)
        (first second : PublishOutcome),
        σ (contractAddress blake3 sender' modules', moduleCodeLegacyKey) = none →
        publishVerifiedModules blake3 σ.view sender modules gasLimit config = .ok first →
        first.vmOutput.status = .success →
        publishVerifiedModules blake3 (σ.applyChanges first.vmOutput.stateChanges).view sender'
          modules' gasLimit' config' = .ok second →
        (second.vmOutput.status = .moveAbort "nexus::publish" 20 ↔
          sender = sender' ∧ modules.flatten = modules'.flatten) := by
  have hiff := contractAddress_eq_iff hcode haddr
  refine ⟨hiff, ?_, ?_, ?_⟩
  · intro heq hlengths
    exact List.eq_iff_flatten_eq.mpr ⟨(hiff.mp heq).2, hlengths⟩
  · exact contractRecord_eq_iff (bootstrap_eq_ok.mp haccepted) (bootstrap_eq_ok.mp haccepted')
  · intro σ gasLimit gasLimit' config config' first second hfree hfirst hsuccess hsecond
    -- the second publish is refused exactly if code is at its address after the first
    rw [applyChanges_of_success (p := ⟨sender, modules, gasLimit, config⟩) hfirst hsuccess] at hsecond
    have hrefused := refused_iff (p := ⟨sender', modules', gasLimit', config'⟩) hsecond
    rw [hrefused, hasModule_writeRecord σ ⟨sender, modules, gasLimit, config⟩ _ hfree, ← hiff]
    exact eq_comm

/-- The digests of three bytes and of the address preimage of the zero account for them. -/
def sampleHash (bs : Bytes) : HashValue :=
  if bs = [1, 2, 3] then
    ⟨[177, 119, 236, 27, 242, 109, 251, 59, 112, 16, 212, 115, 230, 212, 71, 19, 178, 155, 118,
      91, 153, 198, 230, 14, 203, 250, 231, 66, 222, 73, 101, 67], rfl⟩
  else
    ⟨[162, 80, 92, 182, 103, 122, 6, 29, 86, 157, 244, 224, 230, 183, 21, 126, 111, 254, 138,
      163, 100, 215, 7, 36, 195, 55, 157, 48, 38, 190, 154, 25], rfl⟩

def zeroAccount : AccountAddress := ⟨.zero 32⟩

theorem contract_address_identifies_sample :
    contractAddress sampleHash zeroAccount [[1, 2], [3]]
      = contractAddress sampleHash zeroAccount [[1], [2, 3]] :=
  (contract_address_identifies sampleHash zeroAccount zeroAccount [[1, 2], [3]] [[1], [2, 3]]
    (by decide) (by decide) (fun _ => rfl) (fun _ => rfl)).1.mpr ⟨rfl, rfl⟩

/-- Cutting three bytes into modules in two ways gives two accepted bundles with one address, one
record, and so one place for both of them: the second is refused as published. -/
theorem split_bundles_collide :
    verifyPublishBundle [[1, 2], [3]] .bootstrap = .ok ()
    ∧ verifyPublishBundle [[1], [2, 3]] .bootstrap = .ok ()
    ∧ (∀ (blake3 : Bytes → HashValue) (sender : AccountAddress),
        contractAddress blake3 sender [[1, 2], [3]] = contractAddress blake3 sender [[1], [2, 3]]
        ∧ contractRecord blake3 sender [[1, 2], [3]] = contractRecord blake3 sender [[1], [2, 3]])
    ∧ ∃ outcome, publishVerifiedModules sampleHash
          (planningStep sampleHash KeyedStore.empty ⟨zeroAccount, [[1, 2], [3]], 0, .default⟩).view
          zeroAccount [[1], [2, 3]] 0 .default = .ok outcome
        ∧ outcome.vmOutput.status = .moveAbort "nexus::publish" 20 := by
  refine ⟨by decide, by decide, fun _ _ => ⟨rfl, rfl⟩, ?_⟩
  refine ⟨{ vmOutput := .withoutEffects (.moveAbort "nexus::publish" 20) 10000,
            contractAddress := contractAddress sampleHash zeroAccount [[1], [2, 3]] }, ?_, rfl⟩
  rfl

end NexusMove
