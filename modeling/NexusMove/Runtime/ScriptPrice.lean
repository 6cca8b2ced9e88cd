import NexusMove.Runtime.PriceCover
import NexusMove.Runtime.Signers

/-!
# What a script pays for its writes

`execute_function` estimates a call from what it is given and from what it writes. The
estimate of `execute_script` leaves the writes out, so a script that writes more than its
instructions cost pays less than a call with the same effects.

* `ScriptPaysAsCall` — the price of a script is at least that of such a call.
* `scriptPaysAsCall_iff` — which is the case exactly where its writes are covered.
* `script_writes_for_free` — a script that stores a resource and pays for its inputs only.
-/

namespace NexusMove

open Saturating (cap total)

/-! ## The price of a call -/

section Code

variable (v : Vendor) (config : VmConfig) (interpreter : MeteredInterpreter) (σ : Store)
  (r : ScriptExecution)

/-- What a call is charged for the inputs of a script and these changes. -/
def sameCallGas (stateChanges : List StateChange) : UInt64 :=
  estimateCallGas (.fromConfig config) (r.bytecode :: r.typeArgs) r.args stateChanges

/-- A script that succeeds costs, before the clamp, what a call with its inputs and effects is
charged, or more. -/
def ScriptPaysAsCall : Prop :=
  ∀ out, executeScript v (.fromConfig config) σ.view interpreter.toInterpreter r = .ok out →
    out.status = .success →
    ∃ price, invocationPrice v config interpreter σ.view (.script r) = some price
      ∧ out.gasUsed = clampGasToLimit price r.gasLimit
      ∧ sameCallGas config r out.stateChanges ≤ price

/-- What is written costs nothing, or the inputs cost all a `u64` holds already, or the instructions
have cost as much as the inputs and the writes together. -/
def WritesCovered : Prop :=
  ∀ start finished changeSet,
    startInvocation v (.fromConfig config) σ.view (.script r) = some start →
    interpreter.outcome σ.view start r.gasLimit = .ok finished →
    finished.changeSet = .ok changeSet →
    let inputs := invocationEstimate config (.script r) changeSet
    let writes := config.writePerByteGas.toNat
      * total StateChange.size (changesetToNexus changeSet).1
    writes = 0 ∨ 2 ^ 64 - 1 ≤ inputs
      ∨ Covers (interpreter.gasConsumed σ.view start r.gasLimit) (inputs + writes)

end Code

section Spec

variable {v : Vendor} {config : VmConfig} {interpreter : MeteredInterpreter} {σ : Store}
  {r : ScriptExecution}

theorem toNat_sameCallGas (changeSet : ChangeSet) :
    (sameCallGas config r (changesetToNexus changeSet).1).toNat = cap (2 ^ 64 - 1)
      (invocationEstimate config (.script r) changeSet
        + config.writePerByteGas.toNat * total StateChange.size (changesetToNexus changeSet).1) := by
  have hinputs : total byteSize (r.bytecode :: r.typeArgs ++ r.args)
      = byteSize r.bytecode + total byteSize (r.typeArgs ++ r.args) := rfl
  rw [sameCallGas, toNat_estimateCallGas, hinputs]
  rfl

theorem le_max_iff_u64 {a b c : UInt64} : a ≤ max b c ↔ a ≤ b ∨ a ≤ c := by
  show a ≤ (if b ≤ c then c else b) ↔ _
  split_ifs with hbc
  · exact ⟨.inr, fun h => h.elim (fun hab => UInt64.le_trans hab hbc) id⟩
  · have hcb : c ≤ b := UInt64.le_of_lt (UInt64.not_le.mp hbc)
    exact ⟨.inl, fun h => h.elim id (fun hac => UInt64.le_trans hac hcb)⟩

/-- The estimate of the inputs reaches the price of a call only if the writes add nothing to it. -/
theorem sameCallGas_le_iff (start : Start) (changeSet : ChangeSet) :
    sameCallGas config r (changesetToNexus changeSet).1
        ≤ max (interpreter.gasConsumed σ.view start r.gasLimit)
          (estimateGas (.fromConfig config) (.script r) (changesetToNexus changeSet).1) ↔
      config.writePerByteGas.toNat * total StateChange.size (changesetToNexus changeSet).1 = 0
      ∨ 2 ^ 64 - 1 ≤ invocationEstimate config (.script r) changeSet
      ∨ Covers (interpreter.gasConsumed σ.view start r.gasLimit)
          (invocationEstimate config (.script r) changeSet
            + config.writePerByteGas.toNat * total StateChange.size (changesetToNexus changeSet).1) := by
  have hcovers : Covers (interpreter.gasConsumed σ.view start r.gasLimit) _ ↔
      sameCallGas config r (changesetToNexus changeSet).1
        ≤ interpreter.gasConsumed σ.view start r.gasLimit :=
    covers_iff (toNat_sameCallGas changeSet)
  have hestimate : sameCallGas config r (changesetToNexus changeSet).1
        ≤ estimateGas (.fromConfig config) (.script r) (changesetToNexus changeSet).1 ↔
      config.writePerByteGas.toNat * total StateChange.size (changesetToNexus changeSet).1 = 0
        ∨ 2 ^ 64 - 1 ≤ invocationEstimate config (.script r) changeSet := by
    rw [UInt64.le_iff_toNat_le, toNat_sameCallGas, toNat_estimateGas, cap, cap]
    omega
  rw [le_max_iff_u64, ← hcovers, hestimate, or_comm, or_assoc]

end Spec

/-- **Writes of a script.** A script that succeeds pays what a call with its inputs and effects is
charged if and only if its writes are covered. -/
theorem scriptPaysAsCall_iff (v : Vendor) (config : VmConfig) (interpreter : MeteredInterpreter)
    (σ : Store) (r : ScriptExecution) :
    ScriptPaysAsCall v config interpreter σ r ↔ WritesCovered v config interpreter σ r := by
  constructor
  · -- a run that finishes is a success, and its price is the larger of the two counts
    intro h start finished changeSet hstart hfinished hchangeSet
    obtain ⟨out, hout, hsuccess, hchanges, -⟩ :=
      executeInvocation_of_finished hstart hfinished hchangeSet
    obtain ⟨price, hprice, -, hle⟩ := h out hout hsuccess
    rw [invocationPrice_of_success hstart hfinished hchangeSet] at hprice
    obtain rfl := Option.some.inj hprice
    rw [hchanges] at hle
    exact (sameCallGas_le_iff start changeSet).mp hle
  · intro h out hout hsuccess
    obtain ⟨start, finished, changeSet, hstart, hfinished, hchangeSet⟩ :=
      executeInvocation_succeeds_iff.mp ⟨out, hout, hsuccess⟩
    obtain ⟨out', hout', -, hchanges, hgas⟩ :=
      executeInvocation_of_finished hstart hfinished hchangeSet
    obtain rfl : out = out' := Except.ok.inj (hout.symm.trans hout')
    refine ⟨_, invocationPrice_of_success hstart hfinished hchangeSet, hgas, ?_⟩
    rw [hchanges]
    exact (sameCallGas_le_iff start changeSet).mpr
      (h start finished changeSet hstart hfinished hchangeSet)

/-! ## A script that stores a resource

`sampleCell` is a module `0xCAFE::cell` with a resource `Cell { value: u8 }` and a function
`public fun put(account: &signer)` that stores one. The script calls it for its signer. -/

def sampleCell : CompiledModule where
  selfModuleHandleIdx := 0
  moduleHandles := [{ address := 0, name := 0 }]
  structHandles := [{ module := 0, name := 2, abilities := ⟨8⟩, typeParameters := [] }]
  functionHandles := [{ module := 0, name := 1, parameters := 0, returns := 1, typeParameters := [] }]
  signatures := [[.reference .signer], []]
  identifiers := [⟨"cell"⟩, ⟨"put"⟩, ⟨"Cell"⟩, ⟨"value"⟩]
  addressIdentifiers := [sampleAddress]
  structDefs := [{ structHandle := 0, fieldInformation := .declared [{ name := 3, signature := .u8 }] }]
  functionDefs := [{ function := 0, visibility := .pub, isEntry := false }]
  otherTables := [0, 0, 1, 5, 11, 0, 49, 7, 18, 0, 45, 0, 2]

def sampleCellBytes : Bytes :=
  [161, 28, 235, 11, 6, 0, 0, 0, 8, 1, 0, 2, 2, 2, 4, 3, 6, 5, 5, 11, 4, 7, 15, 20, 8, 35, 32, 10,
   67, 5, 12, 72, 15, 0, 0, 0, 2, 8, 0, 0, 1, 0, 1, 0, 1, 6, 12, 0, 4, 99, 101, 108, 108, 3, 112,
   117, 116, 4, 67, 101, 108, 108, 5, 118, 97, 108, 117, 101, 0, 0, 0, 0, 0, 0, 0, 0, 0, 0, 0, 0, 0,
   0, 0, 0, 0, 0, 0, 0, 0, 0, 0, 0, 0, 0, 0, 0, 0, 0, 202, 254, 0, 2, 1, 3, 2, 0, 1, 0, 0, 1, 5, 11,
   0, 49, 7, 18, 0, 45, 0, 2, 0]

/-- `script { fun main(account: signer) { 0xCAFE::cell::put(&account) } }` -/
def putScript : CompiledScript where
  moduleHandles := [{ address := 0, name := 0 }]
  structHandles := []
  signatures := [[], [.reference .signer], [.signer]]
  identifiers := [⟨"cell"⟩, ⟨"put"⟩]
  addressIdentifiers := [sampleAddress]
  typeParameters := []
  parameters := 2
  otherTables := [0, 1, 1, 0, 0, 0, 3, 14, 0, 17, 0, 2]

def putScriptBytes : Bytes :=
  [161, 28, 235, 11, 6, 0, 0, 0, 5, 1, 0, 2, 3, 2, 5, 5, 7, 6, 7, 13, 9, 8, 22, 32, 0, 0, 0, 1, 1,
   0, 0, 0, 1, 6, 12, 1, 12, 4, 99, 101, 108, 108, 3, 112, 117, 116, 0, 0, 0, 0, 0, 0, 0, 0, 0, 0,
   0, 0, 0, 0, 0, 0, 0, 0, 0, 0, 0, 0, 0, 0, 0, 0, 0, 0, 0, 0, 202, 254, 0, 2, 0, 3, 14, 0, 17, 0, 2]

def cellVendor : Vendor :=
  { Vendor.ofTables [(sampleCellBytes, sampleCell)] [] [] with
    deserializeScript := fun bytes =>
      if bytes = putScriptBytes then .ok putScript else .error { display := "", debug := "" } }

def cellTag : StructTag where
  address := sampleAddress
  module := ⟨"cell"⟩
  name := ⟨"Cell"⟩
  typeArgs := []

/-- The run of the script: eight instructions, two frames, and a new resource of one byte. -/
def putInterpreter : MeteredInterpreter where
  gasCalls _ _ _ := [.simpleInstr, .call, .moveLoc, .simpleInstr, .pack, .loadResource 0, .moveTo,
    .simpleInstr, .dropFrame, .simpleInstr, .dropFrame]
  outcome _ _ _ :=
    .ok { returnValues := [], events := [], changeSet := .ok [(otherAddress, [(cellTag, .new [7])])] }

def runPut : ScriptExecution where
  sender := otherAddress
  bytecode := putScriptBytes
  typeArgs := []
  args := []
  gasLimit := 1000000

/-- The script pays for the bytes it comes with, and nothing for the 44 that it writes. -/
theorem script_writes_for_free :
    ¬ ScriptPaysAsCall cellVendor .forTesting putInterpreter (sampleStore "cell" sampleCellBytes)
      runPut := by
  intro h
  have hrun : (executeScript cellVendor (.fromConfig .forTesting)
      (sampleStore "cell" sampleCellBytes).view putInterpreter.toInterpreter runPut).toOption.map
        (fun out => (decide (out.status = .success), out.gasUsed,
          sameCallGas .forTesting runPut out.stateChanges)) = some (true, 1087, 1307) := by
    decide +kernel
  obtain ⟨out, hout, hvalues⟩ := Option.map_eq_some_iff.mp hrun
  obtain ⟨hsuccess, hgas, hcall⟩ := by simpa only [Prod.mk.injEq] using hvalues
  obtain ⟨price, -, hclamp, hle⟩ := h out (Except.toOption_eq_some.mp hout)
    (of_decide_eq_true hsuccess)
  rw [hcall] at hle
  have hprice : (if price ≤ 1000000 then price else 1000000) = 1087 := hclamp.symm.trans hgas
  split_ifs at hprice
  · rw [hprice] at hle
    exact absurd hle (by decide)
  · exact absurd hprice (by decide)

end NexusMove
