import NexusMove.Runtime.Gas

/-!
# What the estimates come to

The three estimates of `gas.rs` are built from many saturating operations: a fold over
the chunks of the input, another over the keys and values that are written, products with
prices, and sums of these. Each comes to one exact price, capped once at the largest `u64`.

* `toNat_estimateCallGas`, `toNat_estimatePublishGas`, `toNat_estimateScriptGas` — the
  estimates as capped prices, for any input.
* `GasEstimate` — one of the three estimates with what it is made from.
* `estimates_exact` — its value, how it grows, and what it does not depend on.
-/

namespace NexusMove

open Saturating (cap total)

/-! ## Sizes -/

/-- `len() as u64`. -/
def byteSize (bs : Bytes) : Nat := (lenU64 bs).toNat

/-- What a `Vec<u8>` can hold: its length is a `usize`. -/
def InMemory (bs : Bytes) : Prop := bs.length < 2 ^ 64

instance (bs : Bytes) : Decidable (InMemory bs) := inferInstanceAs (Decidable (_ < _))

/-- The size that the code computes is the length, for what fits into memory. -/
theorem byteSize_eq {bs : Bytes} (h : InMemory bs) : byteSize bs = bs.length := by
  rw [byteSize, lenU64, UInt64.toNat_ofNat', Nat.mod_eq_of_lt h]

theorem total_byteSize {chunks : List Bytes} (h : ∀ bs ∈ chunks, InMemory bs) :
    total byteSize chunks = chunks.flatten.length := by
  induction chunks with
  | nil => rfl
  | cons bs chunks ih =>
    obtain ⟨hbs, hchunks⟩ := List.forall_mem_cons.mp h
    rw [Saturating.total_cons, List.flatten_cons, List.length_append, byteSize_eq hbs, ih hchunks]

namespace StateChange

def size (c : StateChange) : Nat := byteSize c.key + (c.value.map byteSize).getD 0

/-- The key and the value that a change writes. -/
def content (c : StateChange) : Bytes := c.key ++ c.value.getD []

def InMemory (c : StateChange) : Prop :=
  NexusMove.InMemory c.key ∧ ∀ value, c.value = some value → NexusMove.InMemory value

theorem size_eq {c : StateChange} (h : c.InMemory) : c.size = c.content.length := by
  rw [size, content, List.length_append, byteSize_eq h.1]
  cases hvalue : c.value with
  | none => rfl
  | some value =>
    rw [Option.map_some, Option.getD_some, Option.getD_some, byteSize_eq (h.2 value hvalue)]

theorem total_size {changes : List StateChange} (h : ∀ c ∈ changes, c.InMemory) :
    total size changes = (changes.flatMap content).length := by
  induction changes with
  | nil => rfl
  | cons c changes ih =>
    obtain ⟨hc, hchanges⟩ := List.forall_mem_cons.mp h
    rw [Saturating.total_cons, List.flatMap_cons, List.length_append, size_eq hc, ih hchanges]

end StateChange

/-! ## The folds -/

theorem toNat_encodedChunksLen (chunks : List Bytes) :
    (encodedChunksLen chunks).toNat = cap (2 ^ 64 - 1) (total byteSize chunks) := by
  have hstep : ∀ (t : UInt64) (bs : Bytes),
      (saturatingAdd t (lenU64 bs)).toNat = cap (2 ^ 64 - 1) (t.toNat + byteSize bs) :=
    fun t bs => toNat_saturatingAdd t (lenU64 bs)
  have hfold := Saturating.foldl_cap UInt64.toNat hstep (toNat_le_u64Max 0) chunks
  rw [encodedChunksLen, hfold, UInt64.toNat_zero, Nat.zero_add]

theorem toNat_stateChangeBytes (changes : List StateChange) :
    (stateChangeBytes changes).toNat = cap (2 ^ 64 - 1) (total StateChange.size changes) := by
  -- one round adds a key and then a value, each with a cap of its own
  have hstep : ∀ (t : UInt64) (c : StateChange),
      (saturatingAdd (saturatingAdd t (lenU64 c.key)) ((c.value.map lenU64).getD 0)).toNat
        = cap (2 ^ 64 - 1) (t.toNat + c.size) := by
    intro t c
    have hvalue : ((c.value.map lenU64).getD 0).toNat = (c.value.map byteSize).getD 0 := by
      cases c.value <;> rfl
    rw [toNat_saturatingAdd, toNat_saturatingAdd, hvalue, Saturating.cap_cap_add, Nat.add_assoc]
    rfl
  have hfold := Saturating.foldl_cap UInt64.toNat hstep (toNat_le_u64Max 0) changes
  rw [stateChangeBytes, hfold, UInt64.toNat_zero, Nat.zero_add]

/-! ## The estimates -/

section Prices

variable (schedule : GasSchedule)

/-- The price of a publish as an exact number. -/
def publishPrice (moduleBytes writtenBytes : Nat) : Nat :=
  schedule.publishBase.toNat + schedule.publishPerByte.toNat * moduleBytes
    + schedule.writePerByte.toNat * writtenBytes

/-- The price of a call as an exact number. -/
def callPrice (inputBytes writtenBytes : Nat) : Nat :=
  schedule.callBase.toNat + schedule.readPerByte.toNat * inputBytes
    + schedule.writePerByte.toNat * writtenBytes

/-- A price for each of the bytes whose capped number is `n`. -/
theorem toNat_mul_price (price : UInt64) {n : UInt64} {size : Nat}
    (h : n.toNat = cap (2 ^ 64 - 1) size) :
    (saturatingMul n price).toNat = cap (2 ^ 64 - 1) (price.toNat * size) := by
  rw [toNat_saturatingMul, h, Nat.mul_comm, Saturating.cap_mul_cap]

theorem toNat_estimatePublishGas (modules : List Bytes) (stateChanges : List StateChange) :
    (estimatePublishGas schedule modules stateChanges).toNat = cap (2 ^ 64 - 1)
      (publishPrice schedule (total byteSize modules) (total StateChange.size stateChanges)) := by
  have hmodules := toNat_mul_price schedule.publishPerByte (toNat_encodedChunksLen modules)
  have hwrites := toNat_mul_price schedule.writePerByte (toNat_stateChangeBytes stateChanges)
  rw [estimatePublishGas, publishGasCost, writeGasCost, toNat_saturatingAdd, toNat_saturatingAdd,
    hmodules, hwrites, Saturating.cap_add_add]
  rfl

theorem toNat_estimateScriptGas (bytecode : Bytes) (typeArgs args : List Bytes) :
    (estimateScriptGas schedule bytecode typeArgs args).toNat = cap (2 ^ 64 - 1)
      (callPrice schedule (byteSize bytecode + total byteSize (typeArgs ++ args)) 0) := by
  have hinput : (saturatingAdd (saturatingAdd (lenU64 bytecode) (encodedChunksLen typeArgs))
      (encodedChunksLen args)).toNat
        = cap (2 ^ 64 - 1) (byteSize bytecode + total byteSize (typeArgs ++ args)) := by
    rw [toNat_saturatingAdd, toNat_saturatingAdd, toNat_encodedChunksLen, toNat_encodedChunksLen,
      Saturating.cap_add_add, Saturating.total_append, Nat.add_assoc]
    rfl
  have hread := toNat_mul_price schedule.readPerByte hinput
  rw [estimateScriptGas, readGasCost, toNat_saturatingAdd, hread, Saturating.cap_add_cap]
  rfl

theorem toNat_estimateCallGas (typeArgs args : List Bytes) (stateChanges : List StateChange) :
    (estimateCallGas schedule typeArgs args stateChanges).toNat = cap (2 ^ 64 - 1)
      (callPrice schedule (total byteSize (typeArgs ++ args))
        (total StateChange.size stateChanges)) := by
  have hinput : (saturatingAdd (encodedChunksLen typeArgs) (encodedChunksLen args)).toNat
      = cap (2 ^ 64 - 1) (total byteSize (typeArgs ++ args)) := by
    rw [toNat_saturatingAdd, toNat_encodedChunksLen, toNat_encodedChunksLen,
      Saturating.cap_cap_add, Saturating.cap_add_cap, Saturating.total_append]
  have hread := toNat_mul_price schedule.readPerByte hinput
  have hwrites := toNat_mul_price schedule.writePerByte (toNat_stateChangeBytes stateChanges)
  rw [estimateCallGas, readGasCost, writeGasCost, toNat_saturatingAdd, toNat_saturatingAdd, hread,
    hwrites, Saturating.cap_add_add]
  rfl

end Prices

/-! ## Any estimate -/

/-- One of the estimates, with what it is made from. -/
inductive GasEstimate where
  | call (typeArgs args : List Bytes) (stateChanges : List StateChange)
  | publish (modules : List Bytes) (stateChanges : List StateChange)
  | script (bytecode : Bytes) (typeArgs args : List Bytes)

namespace GasEstimate

/-- The estimate of the code. -/
def gas (schedule : GasSchedule) : GasEstimate → UInt64
  | call typeArgs args stateChanges => estimateCallGas schedule typeArgs args stateChanges
  | publish modules stateChanges => estimatePublishGas schedule modules stateChanges
  | script bytecode typeArgs args => estimateScriptGas schedule bytecode typeArgs args

/-- All chunks of the input, one after another. -/
def input : GasEstimate → Bytes
  | call typeArgs args _ => (typeArgs ++ args).flatten
  | publish modules _ => modules.flatten
  | script bytecode typeArgs args => bytecode ++ (typeArgs ++ args).flatten

/-- All keys and values that are paid for, one after another. A script does not pay for any. -/
def written : GasEstimate → Bytes
  | call _ _ stateChanges => stateChanges.flatMap StateChange.content
  | publish _ stateChanges => stateChanges.flatMap StateChange.content
  | script _ _ _ => []

/-- What is priced fits in memory: chunks, keys and values. -/
def InMemory : GasEstimate → Prop
  | call typeArgs args stateChanges =>
    (∀ bs ∈ typeArgs ++ args, NexusMove.InMemory bs) ∧ ∀ c ∈ stateChanges, c.InMemory
  | publish modules stateChanges =>
    (∀ bs ∈ modules, NexusMove.InMemory bs) ∧ ∀ c ∈ stateChanges, c.InMemory
  | script bytecode typeArgs args =>
    NexusMove.InMemory bytecode ∧ ∀ bs ∈ typeArgs ++ args, NexusMove.InMemory bs

/-- Two estimates that the same function makes. -/
def SameKind : GasEstimate → GasEstimate → Prop
  | call .., call .. => True
  | publish .., publish .. => True
  | script .., script .. => True
  | _, _ => False

/-- The exact price of so many bytes of input and so many written bytes. -/
def price (schedule : GasSchedule) : GasEstimate → Nat → Nat → Nat
  | publish .. => publishPrice schedule
  | _ => callPrice schedule

def exactPrice (schedule : GasSchedule) (e : GasEstimate) : Nat :=
  e.price schedule e.input.length e.written.length

variable {schedule schedule' : GasSchedule} {e e' : GasEstimate}

/-- **One cap.** An estimate is the exact price, capped at the largest `u64`. -/
theorem toNat_gas (schedule : GasSchedule) (h : e.InMemory) :
    (e.gas schedule).toNat = cap (2 ^ 64 - 1) (e.exactPrice schedule) := by
  cases e with
  | call typeArgs args stateChanges =>
    rw [gas, toNat_estimateCallGas, total_byteSize h.1, StateChange.total_size h.2]
    rfl
  | publish modules stateChanges =>
    rw [gas, toNat_estimatePublishGas, total_byteSize h.1, StateChange.total_size h.2]
    rfl
  | script bytecode typeArgs args =>
    rw [gas, toNat_estimateScriptGas, byteSize_eq h.1, total_byteSize h.2, ← List.length_append]
    rfl

/-- No price of the second schedule is below that of the first. -/
structure NoDearer (schedule schedule' : GasSchedule) : Prop where
  callBase : schedule.callBase ≤ schedule'.callBase
  publishBase : schedule.publishBase ≤ schedule'.publishBase
  publishPerByte : schedule.publishPerByte ≤ schedule'.publishPerByte
  readPerByte : schedule.readPerByte ≤ schedule'.readPerByte
  writePerByte : schedule.writePerByte ≤ schedule'.writePerByte

/-- **Monotonicity** of the exact price, in every price and both sizes. -/
theorem price_mono (hkind : e.SameKind e') (hprices : NoDearer schedule schedule')
    {input input' written written' : Nat} (hinput : input ≤ input')
    (hwritten : written ≤ written') :
    e.price schedule input written ≤ e'.price schedule' input' written' := by
  have hwrites : schedule.writePerByte.toNat * written ≤ schedule'.writePerByte.toNat * written' :=
    Nat.mul_le_mul (UInt64.le_iff_toNat_le.mp hprices.writePerByte) hwritten
  have hcall : callPrice schedule input written ≤ callPrice schedule' input' written' := by
    have hbase := UInt64.le_iff_toNat_le.mp hprices.callBase
    have hreads := Nat.mul_le_mul (UInt64.le_iff_toNat_le.mp hprices.readPerByte) hinput
    exact Nat.add_le_add (Nat.add_le_add hbase hreads) hwrites
  have hpublish : publishPrice schedule input written ≤ publishPrice schedule' input' written' := by
    have hbase := UInt64.le_iff_toNat_le.mp hprices.publishBase
    have hmodules := Nat.mul_le_mul (UInt64.le_iff_toNat_le.mp hprices.publishPerByte) hinput
    exact Nat.add_le_add (Nat.add_le_add hbase hmodules) hwrites
  cases e with
  | call =>
    cases e' with
    | call => exact hcall
    | publish => exact hkind.elim
    | script => exact hkind.elim
  | publish =>
    cases e' with
    | call => exact hkind.elim
    | publish => exact hpublish
    | script => exact hkind.elim
  | script =>
    cases e' with
    | call => exact hkind.elim
    | publish => exact hkind.elim
    | script => exact hcall

theorem price_congr (hkind : e.SameKind e') : e.price schedule = e'.price schedule := by
  cases e <;> cases e' <;> first | rfl | exact hkind.elim

end GasEstimate

/-- **The estimates.** Each is the smaller of the largest `u64` and the exact price: the base, the
price of a byte for every byte of input, and the write price for every byte of a written key or
value. So none wraps; each grows with every price and every size; and with the numbers of input
bytes and of written bytes the same, how these are ordered and cut into chunks is of no account. -/
theorem estimates_exact (schedule : GasSchedule) (e : GasEstimate) (he : e.InMemory) :
    (e.gas schedule).toNat = min (2 ^ 64 - 1) (e.exactPrice schedule)
    ∧ (∀ schedule' e', e'.InMemory → e.SameKind e' → GasEstimate.NoDearer schedule schedule' →
        e.input.length ≤ e'.input.length → e.written.length ≤ e'.written.length →
        e.gas schedule ≤ e'.gas schedule')
    ∧ ∀ e', e'.InMemory → e.SameKind e' → e.input.length = e'.input.length →
        e.written.length = e'.written.length → e.gas schedule = e'.gas schedule := by
  refine ⟨?_, ?_, ?_⟩
  · rw [GasEstimate.toNat_gas schedule he, Nat.min_comm]
    rfl
  · intro schedule' e' he' hkind hprices hinput hwritten
    rw [UInt64.le_iff_toNat_le, GasEstimate.toNat_gas schedule he,
      GasEstimate.toNat_gas schedule' he']
    exact Saturating.cap_mono (GasEstimate.price_mono hkind hprices hinput hwritten)
  · intro e' he' hkind hinput hwritten
    rw [← UInt64.toNat_inj, GasEstimate.toNat_gas schedule he, GasEstimate.toNat_gas schedule he',
      GasEstimate.exactPrice, GasEstimate.exactPrice, GasEstimate.price_congr hkind, hinput, hwritten]

/-- At the highest prices a single byte costs as much as a `u64` can say. -/
theorem estimates_exact_dearest :
    ((GasEstimate.publish [[1]] []).gas ⟨u64Max, u64Max, u64Max, u64Max, u64Max, u64Max⟩).toNat
      = 2 ^ 64 - 1 := by
  rw [(estimates_exact ⟨u64Max, u64Max, u64Max, u64Max, u64Max, u64Max⟩ (.publish [[1]] [])
    ⟨by decide, by simp⟩).1]
  decide

end NexusMove
