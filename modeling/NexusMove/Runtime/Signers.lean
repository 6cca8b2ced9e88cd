import NexusMove.Runtime.Execute
import NexusMove.Runtime.Lookup

/-!
# Signer parameters

The sender's signer is the first argument, and the caller's arguments follow.
They are read at the types of the parameters, and a signer is read like any
other value. So a signer parameter after the first holds whatever address the
caller wrote into its bytes.

* `SignerIntegrity` — every signer parameter holds the sender.
* `signerIntegrity_iff` — when it does.
-/

namespace NexusMove

def Ty.isSignerParam : Ty → Bool
  | .signer => true
  | .reference .signer => true
  | _ => false

section Signers

variable (v : Vendor) (schedule : GasSchedule) (σ : Store) (inv : Invocation)

/-- If the invocation starts, each of its signer parameters holds the sender. -/
def SignerIntegrity : Prop :=
  ∀ start, startInvocation v schedule σ.view inv = some start →
    ∀ (i : Nat) ty a, start.paramTys[i]? = some ty → ty.isSignerParam = true →
      start.args[i]? = some a → a.value.signerAddress = some inv.sender

/-- If the invocation starts, each of the caller's arguments for a signer parameter spells the
sender's address after its first byte. -/
def SignerArgsSpellSender : Prop :=
  ∀ start, startInvocation v schedule σ.view inv = some start →
    ∀ (i : Nat) ty bytes, start.paramTys[i + 1]? = some ty → ty.isSignerParam = true →
      inv.args[i]? = some bytes → (bytes.drop 1).take 32 = inv.sender.intoBytes

variable {v schedule σ inv}

theorem signer_of_deserializeArg {state : NexusStateView} {ty : Ty} {bytes : Bytes} {value : Value}
    (hty : ty.isSignerParam = true) (h : deserializeArg v state ty.argTy bytes = .ok value) :
    ∃ a, value.signerAddress = some a ∧ a.intoBytes = (bytes.drop 1).take 32 := by
  have hargTy : ty.argTy = .signer := by
    unfold Ty.isSignerParam at hty
    split at hty
    · rfl
    · rfl
    · cases hty
  rw [hargTy] at h
  obtain ⟨layout, hlayout, hvalue⟩ := deserializeArg_eq_ok.mp h
  have hsigner : typeToTypeLayout v state .signer = .ok .signer := rfl
  obtain rfl : Layout.signer = layout := Except.ok.inj (hsigner.symm.trans hlayout)
  exact signer_of_decode (Codec.fromBytes_eq_some.mp hvalue)

theorem signer_of_start {start : Start} (h : startInvocation v schedule σ.view inv = some start)
    {i : Nat} {ty : Ty} {bytes : Bytes} {a : Argument} (hty : start.paramTys[i]? = some ty)
    (hsigner : ty.isSignerParam = true) (hbytes : inv.fullArgs[i]? = some bytes)
    (ha : start.args[i]? = some a) :
    ∃ addr, a.value.signerAddress = some addr ∧ addr.intoBytes = (bytes.drop 1).take 32 :=
  signer_of_deserializeArg hsigner (deserializeArg_of_start h hty hbytes ha)

/-- **When signers are the sender's.** In a call or a script, every signer parameter holds the
sender if and only if the invocation does not start, or the bytes the caller gave for each signer
parameter after the first spell the sender's address. -/
theorem signerIntegrity_iff (v : Vendor) (schedule : GasSchedule) (σ : Store) (inv : Invocation) :
    SignerIntegrity v schedule σ inv ↔ SignerArgsSpellSender v schedule σ inv := by
  constructor
  · intro h start hstart i ty bytes hty hsigner hbytes
    have hfull : inv.fullArgs[i + 1]? = some bytes := hbytes
    obtain ⟨a, ha⟩ := exists_arg_of_start hstart hfull
    obtain ⟨addr, haddr, hspell⟩ := signer_of_start hstart hty hsigner hfull ha
    obtain rfl : addr = inv.sender :=
      Option.some.inj (haddr.symm.trans (h start hstart (i + 1) ty a hty hsigner ha))
    exact hspell.symm
  · intro h start hstart i ty a hty hsigner ha
    obtain ⟨bytes, hbytes⟩ := exists_bytes_of_start hstart ha
    obtain ⟨addr, haddr, hspell⟩ := signer_of_start hstart hty hsigner hbytes ha
    rw [haddr]
    refine congrArg some (AccountAddress.intoBytes_injective ?_)
    rw [hspell]
    cases i with
    | zero =>
      -- the argument the backend put in front
      obtain rfl : signerBytes inv.sender = bytes := by simpa [Invocation.fullArgs] using hbytes
      simp [signerBytes]
    | succ i => exact h start hstart i ty bytes hty hsigner hbytes

end Signers

/-! ## A function with two signers

`sampleS` is a module `0xCAFE::s` with a function `public entry fun both(a: &signer, b: &signer)`. -/

def sampleS : CompiledModule where
  selfModuleHandleIdx := 0
  moduleHandles := [{ address := 0, name := 0 }]
  structHandles := []
  functionHandles := [{ module := 0, name := 1, parameters := 0, returns := 1, typeParameters := [] }]
  signatures := [[.reference .signer, .reference .signer], []]
  identifiers := [⟨"s"⟩, ⟨"both"⟩]
  addressIdentifiers := [sampleAddress]
  structDefs := []
  functionDefs := [{ function := 0, visibility := .pub, isEntry := true }]
  otherTables := [4, 0, 1, 1, 2]

def sampleSBytes : Bytes :=
  [161, 28, 235, 11, 6, 0, 0, 0, 6, 1, 0, 2, 3, 2, 5, 5, 7, 6, 7, 13, 7, 8, 20, 32, 12, 52, 7,
   0, 0, 0, 1, 0, 1, 0, 2, 6, 12, 6, 12, 0, 1, 115, 4, 98, 111, 116, 104, 0, 0, 0, 0, 0, 0, 0,
   0, 0, 0, 0, 0, 0, 0, 0, 0, 0, 0, 0, 0, 0, 0, 0, 0, 0, 0, 0, 0, 0, 0, 202, 254, 0, 1, 4, 0, 1,
   1, 2, 0]

def sampleStore (name : String) (bytes : Bytes) : Store :=
  KeyedStore.empty.write ((sampleAddress, moduleCodeKey name), some bytes)

/-- `0xBEEF` calls `both` and gives a signer of `0xCAFE` for its second parameter. -/
def callBoth : FunctionCall where
  sender := otherAddress
  contract := sampleAddress
  function := "s::both"
  typeArgs := []
  args := [signerBytes sampleAddress]
  gasLimit := 1000000

/-- The call starts `both` with a signer of `0xCAFE`, which did not send it. -/
theorem signer_is_forged :
    ¬ SignerIntegrity (.ofTables [(sampleSBytes, sampleS)] [] []) sampleSchedule
      (sampleStore "s" sampleSBytes) (.call callBoth) := by
  intro h
  have hrun : (startInvocation (.ofTables [(sampleSBytes, sampleS)] [] []) sampleSchedule
      (sampleStore "s" sampleSBytes).view (.call callBoth)).map (fun start =>
        (start.paramTys[1]?.map Ty.isSignerParam, start.args[1]?.map (·.value.signerAddress)))
      = some (some true, some (some sampleAddress)) := by
    decide +kernel
  obtain ⟨start, hstart, hvalues⟩ := Option.map_eq_some_iff.mp hrun
  obtain ⟨hparam, harg⟩ := Prod.mk.inj hvalues
  obtain ⟨ty, hty, hsigner⟩ := Option.map_eq_some_iff.mp hparam
  obtain ⟨a, ha, haddr⟩ := Option.map_eq_some_iff.mp harg
  have hsender := h start hstart 1 ty a hty hsigner ha
  rw [haddr] at hsender
  exact absurd hsender (by decide)

end NexusMove
