import NexusMove.Runtime.AbiSoundness
import NexusMove.Runtime.Dependencies
import NexusMove.Runtime.Effects
import NexusMove.Runtime.EventStreams
import NexusMove.Runtime.Fabrication
import NexusMove.Runtime.GasBound
import NexusMove.Runtime.Preflight
import NexusMove.Runtime.Upgrade
import NexusMove.Lib.Meter
import NexusMove.Runtime.GasEstimates
import NexusMove.Runtime.MeterRuns
import NexusMove.Runtime.PlanningPrice
import NexusMove.Runtime.PriceCover
import NexusMove.Runtime.UpgradeRefusal
import NexusMove.Runtime.AbiUnambiguous
import NexusMove.Runtime.AbiCompleteness
import NexusMove.Runtime.PackageAbi
import NexusMove.Runtime.BundleMetadata
import NexusMove.Package.BundleErrors
import NexusMove.Runtime.ScriptPrice
import NexusMove.Runtime.SessionGas
import NexusMove.Runtime.AbortCodes
import NexusMove.Package.MoveTomlRoundTrip
import NexusMove.Package.NamedAddresses
import NexusMove.Package.ArtifactReload
import NexusMove.Stdlib.StringNatives
import NexusMove.Vm.StorageEffects
import NexusMove.Vm.CallGuards
import NexusMove.Vm.DepthFormula
import NexusMove.Verifier.Calls
