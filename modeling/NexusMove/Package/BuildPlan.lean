import NexusMove.Lib.KeyedList
import NexusMove.Package.Disk
import NexusMove.Package.MoveToml

/-!
# The plan of a build

What a build is asked for, and the named addresses that it compiles with: those of the
Move.toml, with the ones given on the command line put over them.
-/

namespace NexusMove.Package

structure BuildOptions where
  packageDir : String
  namedAddresses : List NamedAddressAssignment
  skipFetchLatestGitDeps : Bool
  knownAttributes : List String

def knownAttributeView : String := "view"

def defaultArtifactDir : String := "nexus-artifact"

def defaultBytecodeDir : String := "bytecode"

def BuildOptions.bootstrap (packageDir : String) : BuildOptions where
  packageDir := packageDir
  namedAddresses := []
  skipFetchLatestGitDeps := true
  knownAttributes := [knownAttributeView]

structure BuildArtifactLayout where
  packageDir : String
  buildDir : String
  artifactDir : String
  bytecodeDir : String

def BuildArtifactLayout.forPackageDir (packageDir : String) : BuildArtifactLayout :=
  let artifactDir := join packageDir defaultArtifactDir
  { packageDir := packageDir
    buildDir := join packageDir "build"
    artifactDir := artifactDir
    bytecodeDir := join artifactDir defaultBytecodeDir }

structure BuildPlan where
  options : BuildOptions
  moveToml : MoveTomlInfo
  artifactLayout : BuildArtifactLayout

/-- `InvalidConfig` is of the parser of the command line, which is left out. -/
inductive BuildError where
  | packageDirMissing (path : String)
  | backend (message : String)
  | noModulesProduced
deriving DecidableEq

def makeBuildPlan (disk : Disk) (options : BuildOptions) (moveTomlContents : String) :
    Except BuildError BuildPlan :=
  if (disk options.packageDir).isNone then .error (.packageDirMissing options.packageDir)
  else
    .ok { options := options
          moveToml := inspectMoveToml moveTomlContents
          artifactLayout := .forPackageDir options.packageDir }

/-- Each override takes the place of the first entry with its name, or goes to the end. -/
def mergedNamedAddresses (plan : BuildPlan) : List NamedAddressAssignment :=
  if plan.options.namedAddresses.isEmpty then plan.moveToml.namedAddresses
  else
    KeyedList.upsertAll NamedAddressAssignment.name plan.moveToml.namedAddresses
      plan.options.namedAddresses

theorem makeBuildPlan_eq_ok {disk : Disk} {options : BuildOptions} {contents : String}
    {plan : BuildPlan} (h : makeBuildPlan disk options contents = .ok plan) :
    plan = ⟨options, inspectMoveToml contents, .forPackageDir options.packageDir⟩ := by
  unfold makeBuildPlan at h
  split_ifs at h
  exact (Except.ok.inj h).symm

/-- Without overrides nothing is put over. -/
theorem mergedNamedAddresses_eq (plan : BuildPlan) :
    mergedNamedAddresses plan = KeyedList.upsertAll NamedAddressAssignment.name
      plan.moveToml.namedAddresses plan.options.namedAddresses := by
  unfold mergedNamedAddresses
  split_ifs with hempty
  · rw [List.isEmpty_iff.mp hempty]
    rfl
  · rfl

end NexusMove.Package
