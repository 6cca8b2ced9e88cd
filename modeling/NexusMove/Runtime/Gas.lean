import NexusMove.Lib.Saturating
import NexusMove.Runtime.Types

/-!
# Gas estimates

The saturating `u64` formulas of `gas.rs` over the schedule a configuration
fixes, and the clamp every successful output goes through.
-/

namespace NexusMove

/-- The limits and prices that a configuration sets. -/
structure VmConfig where
  maxBinarySize : Nat
  callBaseGas : UInt64
  publishBaseGas : UInt64
  publishPerByteGas : UInt64
  readPerByteGas : UInt64
  writePerByteGas : UInt64

namespace VmConfig

def default : VmConfig where
  maxBinarySize := 524288
  callBaseGas := 5000
  publishBaseGas := 10000
  publishPerByteGas := 1
  readPerByteGas := 1
  writePerByteGas := 5

def forTesting : VmConfig where
  maxBinarySize := 65536
  callBaseGas := 1000
  publishBaseGas := 2000
  publishPerByteGas := 1
  readPerByteGas := 1
  writePerByteGas := 5

end VmConfig

/-- The prices that the estimates use. -/
structure GasSchedule where
  transferBase : UInt64
  callBase : UInt64
  publishBase : UInt64
  publishPerByte : UInt64
  readPerByte : UInt64
  writePerByte : UInt64

def defaultTransferBase : UInt64 := 1000

def GasSchedule.fromConfig (config : VmConfig) : GasSchedule where
  transferBase := defaultTransferBase
  callBase := config.callBaseGas
  publishBase := config.publishBaseGas
  publishPerByte := config.publishPerByteGas
  readPerByte := config.readPerByteGas
  writePerByte := config.writePerByteGas

/-! ## Saturating arithmetic -/

def u64Max : UInt64 := 18446744073709551615

/-- Below the maximum, adding one does not wrap. -/
theorem toNat_add_one_of_ne_max {n : UInt64} (h : n ≠ u64Max) : (n + 1).toNat = n.toNat + 1 := by
  have hlt := n.toNat_lt
  have hone : (1 : UInt64).toNat = 1 := rfl
  have hmax : u64Max.toNat = 18446744073709551615 := rfl
  have hne : n.toNat ≠ u64Max.toNat := fun heq => h (UInt64.toNat_inj.mp heq)
  rw [UInt64.toNat_add]
  omega

/-- `u64::saturating_add`. -/
def saturatingAdd (a b : UInt64) : UInt64 :=
  if a.toNat + b.toNat < 2 ^ 64 then a + b else u64Max

def saturatingMul (a b : UInt64) : UInt64 :=
  if a.toNat * b.toNat < 2 ^ 64 then a * b else u64Max

@[simp] theorem toNat_u64Max : u64Max.toNat = 2 ^ 64 - 1 := rfl

theorem toNat_le_u64Max (n : UInt64) : n.toNat ≤ 2 ^ 64 - 1 := by
  have hlt := n.toNat_lt
  omega

/-- **Saturating addition** is the exact sum, capped. -/
theorem toNat_saturatingAdd (a b : UInt64) :
    (saturatingAdd a b).toNat = Saturating.cap (2 ^ 64 - 1) (a.toNat + b.toNat) := by
  unfold saturatingAdd Saturating.cap
  split_ifs with h
  · rw [UInt64.toNat_add]
    omega
  · rw [toNat_u64Max]
    omega

/-- **Saturating multiplication** is the exact product, capped. -/
theorem toNat_saturatingMul (a b : UInt64) :
    (saturatingMul a b).toNat = Saturating.cap (2 ^ 64 - 1) (a.toNat * b.toNat) := by
  unfold saturatingMul Saturating.cap
  split_ifs with h
  · rw [UInt64.toNat_mul, Nat.mod_eq_of_lt h]
    omega
  · rw [toNat_u64Max]
    omega

/-- `len() as u64`. -/
def lenU64 (bs : Bytes) : UInt64 := UInt64.ofNat bs.length

/-! ## Costs -/

def publishGasCost (schedule : GasSchedule) (totalBytes : UInt64) : UInt64 :=
  saturatingAdd schedule.publishBase (saturatingMul totalBytes schedule.publishPerByte)

def writeGasCost (schedule : GasSchedule) (size : UInt64) : UInt64 :=
  saturatingMul size schedule.writePerByte

def readGasCost (schedule : GasSchedule) (size : UInt64) : UInt64 :=
  saturatingMul size schedule.readPerByte

/-- The sum of the lengths, saturated at every step. -/
def encodedChunksLen (chunks : List Bytes) : UInt64 :=
  chunks.foldl (fun total chunk => saturatingAdd total (lenU64 chunk)) 0

/-- Keys and values, saturated at every step. -/
def stateChangeBytes (stateChanges : List StateChange) : UInt64 :=
  stateChanges.foldl
    (fun total change =>
      saturatingAdd (saturatingAdd total (lenU64 change.key)) ((change.value.map lenU64).getD 0))
    0

/-- `clamp_gas_to_limit`. -/
def clampGasToLimit (estimated gasLimit : UInt64) : UInt64 := min estimated gasLimit

def estimateCallGas (schedule : GasSchedule) (typeArgs args : List Bytes)
    (stateChanges : List StateChange) : UInt64 :=
  let inputBytes := saturatingAdd (encodedChunksLen typeArgs) (encodedChunksLen args)
  saturatingAdd (saturatingAdd schedule.callBase (readGasCost schedule inputBytes))
    (writeGasCost schedule (stateChangeBytes stateChanges))

def estimatePublishGas (schedule : GasSchedule) (modules : List Bytes)
    (stateChanges : List StateChange) : UInt64 :=
  saturatingAdd (publishGasCost schedule (encodedChunksLen modules))
    (writeGasCost schedule (stateChangeBytes stateChanges))

def estimateScriptGas (schedule : GasSchedule) (bytecode : Bytes) (typeArgs args : List Bytes) :
    UInt64 :=
  let inputBytes := saturatingAdd (saturatingAdd (lenU64 bytecode) (encodedChunksLen typeArgs))
    (encodedChunksLen args)
  saturatingAdd schedule.callBase (readGasCost schedule inputBytes)

end NexusMove
