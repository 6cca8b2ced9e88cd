import NexusMove.Package.Metadata

/-!
# Metadata from the build tool

`build_package_metadata` of `nexus-move-package`: the record of a whole package, made when
it is built. The chain makes a record of the same type when the package is published.
-/

namespace NexusMove.Package

structure NamedAddressAssignment where
  name : String
  address : AccountAddress

/-- A module as the build tool has it. -/
structure CompiledModule where
  name : String
  bytes : Bytes

structure CompiledPackage where
  packageName : String
  upgradePolicy : UpgradePolicy
  namedAddresses : List NamedAddressAssignment
  modules : List CompiledModule

def buildPackageMetadata (blake3 : Bytes → HashValue) (compiled : CompiledPackage)
    (deployer : AccountAddress) : PackageMetadata where
  name := compiled.packageName
  packageHash := blake3 (compiled.modules.flatMap CompiledModule.bytes)
  namedAddresses := compiled.namedAddresses.map fun entry => (entry.name, entry.address)
  moduleHashes := compiled.modules.map fun module => (module.name, blake3 module.bytes)
  abiHash := .zero 32
  upgradePolicy := compiled.upgradePolicy
  deployer := deployer
  version := 1

end NexusMove.Package
