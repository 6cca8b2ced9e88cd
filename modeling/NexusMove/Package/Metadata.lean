import NexusMove.Core.LanguageStorage

/-!
# Package metadata

The record a publish stores next to the code (`nexus-move-package`), with its
serialization. `decodeMetadata_encodeMetadata` is the round trip every later
upgrade check relies on.
-/

namespace NexusMove

/-- Who may replace a published module. The package crate and the runtime crate declare the
same three cases. -/
inductive UpgradePolicy where
  | immutable
  | compatible
  | governanceOnly
deriving DecidableEq

/-- The record stored under `package_metadata`. -/
structure PackageMetadata where
  name : String
  packageHash : HashValue
  namedAddresses : List (String × AccountAddress)
  moduleHashes : List (String × HashValue)
  abiHash : HashValue
  upgradePolicy : UpgradePolicy
  deployer : AccountAddress
  version : UInt64
deriving DecidableEq

namespace UpgradePolicy

def variant : UpgradePolicy → Nat
  | immutable => 0
  | compatible => 1
  | governanceOnly => 2

def ofVariant? : Nat → Option UpgradePolicy
  | 0 => some immutable
  | 1 => some compatible
  | 2 => some governanceOnly
  | _ => none

theorem ofVariant?_variant (p : UpgradePolicy) : ofVariant? p.variant = some p := by
  cases p <;> rfl

def codec : Codec UpgradePolicy := (Codec.uleb32 u32Max).iso variant ofVariant? ofVariant?_variant

end UpgradePolicy

def u64Codec : Codec UInt64 :=
  (Codec.le 8).iso UInt64.toNat (fun n => some (UInt64.ofNat n)) fun _ => by simp

def stringCodec : Codec String := Codec.string maxSequenceLength

def hashCodec : Codec HashValue := Codec.fixed 32

def metadataCodec : Codec PackageMetadata :=
  (stringCodec.pair (hashCodec.pair
    (((stringCodec.pair addressCodec).seq maxSequenceLength).pair
      (((stringCodec.pair hashCodec).seq maxSequenceLength).pair (hashCodec.pair
        (UpgradePolicy.codec.pair (addressCodec.pair u64Codec))))))).iso
    (fun m => (m.name, m.packageHash, m.namedAddresses, m.moduleHashes, m.abiHash,
      m.upgradePolicy, m.deployer, m.version))
    (fun (name, packageHash, namedAddresses, moduleHashes, abiHash, upgradePolicy, deployer,
        version) =>
      some { name, packageHash, namedAddresses, moduleHashes, abiHash, upgradePolicy, deployer,
             version })
    fun _ => rfl

def encodeMetadata (m : PackageMetadata) : Option Bytes := metadataCodec.encode m

/-- `decode_metadata`, `none` where it returns an error. -/
def decodeMetadata (bs : Bytes) : Option PackageMetadata := metadataCodec.fromBytes bs

/-- **Metadata round trip.** -/
theorem decodeMetadata_encodeMetadata {m : PackageMetadata} {bs : Bytes}
    (h : encodeMetadata m = some bs) : decodeMetadata bs = some m :=
  metadataCodec.fromBytes_of_encode h

end NexusMove
