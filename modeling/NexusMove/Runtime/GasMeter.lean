import NexusMove.Runtime.Gas
import NexusMove.Vm.Vendor

/-!
# Gas meters

The two meters of the runtime crate: `SimpleGasMeter` (`gas.rs`), used by sessions,
and `NexusGasMeter` (`move_gas_meter.rs`), handed to the interpreter, whose trait
methods all come down to one charge. The fields of both are private and change by
charges only, so that what is consumed never exceeds the limit is part of the types.

* `chargeTo` — the charge both meters make.
* `GasCall.charge` — what each method of the interpreter's meter charges.
* `NexusGasMeter.after` — the meter after any calls of these methods.
-/

namespace NexusMove

/-- The consumption after a charge, unless the limit does not allow it. -/
def chargeTo (limit consumed amount : UInt64) : Option UInt64 :=
  let next := saturatingAdd consumed amount
  if next > limit then none else some next

/-- No charge puts the count past the limit. -/
theorem le_of_chargeTo {limit consumed amount next : UInt64}
    (h : chargeTo limit consumed amount = some next) : next ≤ limit := by
  unfold chargeTo at h
  dsimp only at h
  split_ifs at h with hover
  obtain rfl := Option.some.inj h
  exact UInt64.not_lt.mp hover

theorem chargeTo_eq_some {limit consumed amount next : UInt64} :
    chargeTo limit consumed amount = some next ↔
      saturatingAdd consumed amount ≤ limit ∧ next = saturatingAdd consumed amount := by
  unfold chargeTo
  dsimp only
  split_ifs with hover
  · simp only [false_iff, not_and]
    intro hle
    exact absurd hover (UInt64.not_lt.mpr hle)
  · rw [Option.some.injEq, eq_comm, and_iff_right (UInt64.not_lt.mp hover)]

/-! ## The meter of sessions -/

structure GasExhausted where
  needed : UInt64
  available : UInt64
deriving DecidableEq

/-- `SimpleGasMeter`, whose count never exceeds its limit. -/
structure SimpleGasMeter where
  limit : UInt64
  consumed : UInt64
  consumed_le : consumed ≤ limit

namespace SimpleGasMeter

def new (limit : UInt64) : SimpleGasMeter where
  limit := limit
  consumed := 0
  consumed_le := UInt64.zero_le

/-- `saturating_sub`, which never saturates here. -/
def remaining (m : SimpleGasMeter) : UInt64 := m.limit - m.consumed

/-- A charge that fails leaves the meter as it was. -/
def charge (m : SimpleGasMeter) (amount : UInt64) : Except GasExhausted SimpleGasMeter :=
  match h : chargeTo m.limit m.consumed amount with
  | none => .error { needed := amount, available := m.remaining }
  | some next => .ok { limit := m.limit, consumed := next, consumed_le := le_of_chargeTo h }

/-- **A charge** that succeeds moves the count, and nothing else. -/
theorem charge_eq_ok {m m' : SimpleGasMeter} {amount : UInt64} :
    m.charge amount = .ok m' ↔
      m'.limit = m.limit ∧ chargeTo m.limit m.consumed amount = some m'.consumed := by
  unfold charge
  split
  · next h => simp [h]
  · next next h =>
    obtain ⟨limit, consumed, hle⟩ := m'
    simp only [h, Except.ok.injEq, SimpleGasMeter.mk.injEq, Option.some.injEq]
    exact and_congr_left' eq_comm

end SimpleGasMeter

/-! ## The meter of the interpreter -/

/-- The price of each kind of instruction. -/
structure NexusGasParameters where
  instructionBase : UInt64
  callBase : UInt64
  loadConstPerByte : UInt64
  loadResourcePerByte : UInt64
  packUnpackBase : UInt64
  globalOpBase : UInt64
  refOpBase : UInt64
  vecOpBase : UInt64
  nativeCallBase : UInt64
  dependencyPerByte : UInt64

def NexusGasParameters.default : NexusGasParameters where
  instructionBase := 1
  callBase := 10
  loadConstPerByte := 1
  loadResourcePerByte := 2
  packUnpackBase := 3
  globalOpBase := 5
  refOpBase := 2
  vecOpBase := 3
  nativeCallBase := 10
  dependencyPerByte := 1

/-- The charging methods of the interpreter's `GasMeter` trait, with the arguments that the
implementation looks at. -/
inductive GasCall where
  | simpleInstr | brTrue | brFalse | branch | pop
  | call | callGeneric
  | ldConst (size : UInt64)
  | ldConstAfterDeserialization
  | copyLoc | moveLoc | storeLoc
  | pack | unpack
  | readRef | writeRef
  | eq | neq
  | borrowGlobal | exists | moveFrom | moveTo
  | vecPack | vecLen | vecBorrow | vecPushBack | vecPopBack | vecUnpack | vecSwap
  | loadResource (bytesLoaded : UInt64)
  | nativeFunction (amount : UInt64)
  | nativeFunctionBeforeExecution
  | dropFrame | createTy
  | dependency (size : UInt64)
  | heapMemory (amount : UInt64)

/-- What a method charges. Two of them charge nothing at all. -/
def GasCall.charge (params : NexusGasParameters) : GasCall → Option UInt64
  | simpleInstr | brTrue | brFalse | branch | pop => some params.instructionBase
  | call | callGeneric => some params.callBase
  | ldConst size =>
    some (saturatingAdd params.instructionBase (saturatingMul size params.loadConstPerByte))
  | ldConstAfterDeserialization => none
  | copyLoc | moveLoc | storeLoc => some params.instructionBase
  | pack | unpack => some params.packUnpackBase
  | readRef | writeRef => some params.refOpBase
  | eq | neq => some params.instructionBase
  | borrowGlobal | «exists» | moveFrom | moveTo => some params.globalOpBase
  | vecPack | vecLen | vecBorrow | vecPushBack | vecPopBack | vecUnpack | vecSwap =>
    some params.vecOpBase
  | loadResource bytesLoaded => some (saturatingMul bytesLoaded params.loadResourcePerByte)
  | nativeFunction amount => some (saturatingAdd params.nativeCallBase amount)
  | nativeFunctionBeforeExecution => none
  | dropFrame | createTy => some params.instructionBase
  | dependency size => some (saturatingMul size params.dependencyPerByte)
  | heapMemory amount => some amount

structure NexusGasMeter where
  params : NexusGasParameters
  limit : UInt64
  consumed : UInt64
  consumed_le : consumed ≤ limit

namespace NexusGasMeter

def new (limit : UInt64) (params : NexusGasParameters) : NexusGasMeter where
  params := params
  limit := limit
  consumed := 0
  consumed_le := UInt64.zero_le

def withLimit (limit : UInt64) : NexusGasMeter := new limit .default

/-- `saturating_sub`, which never saturates here either. -/
def remaining (m : NexusGasMeter) : UInt64 := m.limit - m.consumed

def charge (m : NexusGasMeter) (amount : UInt64) : VMResult NexusGasMeter :=
  match h : chargeTo m.limit m.consumed amount with
  | none => .error (partialError StatusCode.outOfGas none)
  | some next => .ok { m with consumed := next, consumed_le := le_of_chargeTo h }

/-- One call of a method of the trait. -/
def perform (m : NexusGasMeter) (c : GasCall) : VMResult NexusGasMeter :=
  match c.charge m.params with
  | none => .ok m
  | some amount => m.charge amount

/-- The meter after a call: as it was, if the call failed. -/
def step (m : NexusGasMeter) (c : GasCall) : NexusGasMeter :=
  match m.perform c with
  | .ok m' => m'
  | .error _ => m

def after (m : NexusGasMeter) (calls : List GasCall) : NexusGasMeter := calls.foldl step m

theorem eq_iff {m m' : NexusGasMeter} :
    m = m' ↔ m'.limit = m.limit ∧ m'.params = m.params ∧ m'.consumed = m.consumed := by
  obtain ⟨params, limit, consumed, hle⟩ := m
  obtain ⟨params', limit', consumed', hle'⟩ := m'
  rw [NexusGasMeter.mk.injEq]
  constructor
  · rintro ⟨rfl, rfl, rfl⟩
    exact ⟨rfl, rfl, rfl⟩
  · rintro ⟨rfl, rfl, rfl⟩
    exact ⟨rfl, rfl, rfl⟩

/-- **A charge** that succeeds moves the count, and nothing else. -/
theorem charge_eq_ok {m m' : NexusGasMeter} {amount : UInt64} :
    m.charge amount = .ok m' ↔ m'.limit = m.limit ∧ m'.params = m.params
      ∧ chargeTo m.limit m.consumed amount = some m'.consumed := by
  unfold charge
  split
  · next h => simp [h]
  · next next h =>
    have hnext : chargeTo m.limit m.consumed amount = some m'.consumed ↔ m'.consumed = next := by
      rw [h, Option.some.injEq, eq_comm]
    rw [hnext, Except.ok.injEq, eq_iff]

theorem step_limit (m : NexusGasMeter) (c : GasCall) : (m.step c).limit = m.limit := by
  unfold step perform
  cases c.charge m.params with
  | none => rfl
  | some amount =>
    dsimp only
    cases h : m.charge amount with
    | error e => rfl
    | ok m' => exact (charge_eq_ok.mp h).1

/-- No sequence of charges moves the limit. -/
@[simp] theorem after_limit (m : NexusGasMeter) (calls : List GasCall) :
    (m.after calls).limit = m.limit := by
  induction calls generalizing m with
  | nil => rfl
  | cons c calls ih =>
    rw [after, List.foldl_cons]
    exact (ih (m.step c)).trans (step_limit m c)

/-- **The interpreter's meter stays within its limit**, whatever is charged on it. -/
theorem consumed_after_le (limit : UInt64) (calls : List GasCall) :
    ((withLimit limit).after calls).consumed ≤ limit := by
  have h := ((withLimit limit).after calls).consumed_le
  rwa [after_limit] at h

end NexusGasMeter

end NexusMove
