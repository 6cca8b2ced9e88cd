import Mathlib.Data.Finset.Insert
import Mathlib.Data.Finset.Dedup
import NexusMove.Package.Framework
import NexusMove.Runtime.Abi

/-!
# Building a package, and loading what was built

`build_package` compiles a package and writes the bytecode of each module, the metadata and a
manifest. `PrecompiledBackend` is the way back: it makes a package of the `.mv` files of the
bytecode directory, in the order of their names.

* `buildPackage` — the build.
* `precompiledCompile` — the backend that loads a build.
* `buildPackage_eq_ok` — what a build writes.
-/

namespace NexusMove.Package

/-! ## The manifest -/

structure ArtifactModule where
  name : String
  sizeBytes : Nat
  blake3 : String

structure ArtifactManifest where
  packageName : String
  packageHash : String
  moduleCount : Nat
  totalBytecodeBytes : Nat
  upgradePolicy : String
  modules : List ArtifactModule

/-- `blake3::Hash::to_hex`: the digits that an address of these bytes has. -/
def hashToHex (hash : HashValue) : String := (⟨hash⟩ : AccountAddress).toHex

/-- The policy as `{:?}` prints it, which is what the manifest holds. -/
def debugPolicy : UpgradePolicy → String
  | .immutable => "Immutable"
  | .compatible => "Compatible"
  | .governanceOnly => "GovernanceOnly"

/-- The sum of the lengths of the modules. -/
def totalBytes (modules : List CompiledModule) : Nat := (modules.map fun m => m.bytes.length).sum

def buildArtifactManifest (blake3 : Bytes → HashValue) (compiled : CompiledPackage) :
    ArtifactManifest where
  packageName := compiled.packageName
  packageHash := hashToHex (blake3 (compiled.modules.flatMap CompiledModule.bytes))
  moduleCount := compiled.modules.length
  totalBytecodeBytes := totalBytes compiled.modules
  upgradePolicy := debugPolicy compiled.upgradePolicy
  modules := compiled.modules.map fun module =>
    { name := module.name
      sizeBytes := module.bytes.length
      blake3 := hashToHex (blake3 module.bytes) }

/-! ## Backends -/

/-- The trait `CompileBackend`: what the pipeline calls for the compilation. -/
abbrev CompileBackend := Disk → BuildPlan → Except BuildError CompiledPackage

def orchestrateBuild (blake3 : Bytes → HashValue) (backend : CompileBackend) (disk : Disk)
    (plan : BuildPlan) :
    Except BuildError (CompiledPackage × PackageMetadata × ArtifactManifest) := do
  let compiled ← backend disk plan
  if compiled.modules.isEmpty then throw .noModulesProduced
  let metadata := buildPackageMetadata blake3 compiled ⟨.zero 32⟩
  let manifest := buildArtifactManifest blake3 compiled
  return (compiled, metadata, manifest)

/-- The fields that the backend sets to something other than a constant. -/
structure CompilerOptions where
  sources : List String
  dependencies : List String
  namedAddressMapping : List String
  knownAttributes : Finset String

/-- What the compiler makes of a source; a module with the outcome of its serialization. -/
inductive CompiledUnit where
  | module (name : String) (serialized : Except String Bytes)
  | script

/-- What the build calls and this development does not look into: the Move compiler, which reads
the files it is pointed to, and the JSON encoder. -/
structure BuildTools where
  runMoveCompiler : CompilerOptions → Disk → Except String (List CompiledUnit)
  encodeManifestJson : ArtifactManifest → Except String String

section Compile

variable (tools : BuildTools)

/-- The modules among the units. -/
def compiledModules (units : List CompiledUnit) : Except BuildError (List CompiledModule) :=
  (units.filterMap fun
    | .module name serialized => some (name, serialized)
    | .script => none).mapM fun unit => do
    let bytes ← unit.2.mapError fun e => BuildError.backend ("serialization failed: " ++ e)
    return ⟨unit.1, bytes⟩

/-- `NativeCompileBackend`. -/
def nativeCompile (bytecodeDepDirs : List String) : CompileBackend := fun disk plan => do
  let sourcesDir := join plan.options.packageDir "sources"
  if (disk sourcesDir).isNone then throw (.packageDirMissing sourcesDir)
  let namedAddresses := mergedNamedAddresses plan
  let options : CompilerOptions :=
    { sources := [sourcesDir]
      dependencies := bytecodeDepDirs.filter fun dir => (disk dir).isSome
      namedAddressMapping := namedAddresses.map fun na => na.name ++ "=0x" ++ na.address.toHex
      knownAttributes := insert knownAttributeView plan.options.knownAttributes.toFinset }
  let units ← (tools.runMoveCompiler options disk).mapError fun e =>
    BuildError.backend ("compilation failed: " ++ e)
  let modules ← compiledModules units
  return { packageName := plan.moveToml.packageName.getD "unknown"
           upgradePolicy := plan.moveToml.upgradePolicy
           namedAddresses := namedAddresses
           modules := modules }

end Compile

/-- One `.mv` file of the bytecode directory, named by its stem. -/
def readModule (faults : IoFaults) (disk : Disk) (bytecodeDir file : String) :
    Except BuildError CompiledModule := do
  let bytes ← (disk.readFile faults bytecodeDir file).mapError fun e =>
    BuildError.backend ("failed to read " ++ join bytecodeDir file ++ ": " ++ e)
  return ⟨(fileStem file).getD "unknown", bytes⟩

/-- `PrecompiledBackend`, where `entries` is the order in which the directory is listed. -/
def precompiledCompile (faults : IoFaults) (entries : List String) (bytecodeDir? : Option String) :
    CompileBackend := fun disk plan => do
  let bytecodeDir := bytecodeDir?.getD
    (join (join plan.artifactLayout.packageDir "nexus-artifact") defaultBytecodeDir)
  if (disk bytecodeDir).isNone then throw (.packageDirMissing bytecodeDir)
  let modules ← (entries.filter fun file => extension file = some "mv").mapM
    (readModule faults disk bytecodeDir)
  return { packageName := plan.moveToml.packageName.getD "unknown"
           upgradePolicy := plan.moveToml.upgradePolicy
           namedAddresses := mergedNamedAddresses plan
           modules := sortByName (fun module => ⟨module.name⟩) modules }

/-! ## The build -/

/-- What `build_package` returns. -/
structure BuildResult where
  compiled : CompiledPackage
  metadata : PackageMetadata
  artifactDir : String
  moduleCount : Nat
  totalBytes : Nat

def metadataFile : String := "package-metadata.bcs"

def manifestFile : String := "manifest.json"

section Build

variable (v : Vendor) (tools : BuildTools) (faults : IoFaults)

def readToString (disk : Disk) (dir file : String) : Except String String := do
  let bytes ← disk.readFile faults dir file
  match String.fromUtf8? bytes with
  | some text => return text
  | none => throw "stream did not contain valid UTF-8"

/-- `0x1`, where the framework modules live. -/
def stdAddress : AccountAddress := frameworkAddress

/-- The plan that a build works with. -/
def planBuild (disk : Disk) (packageDir : String)
    (additionalNamedAddresses : List NamedAddressAssignment) : Except BuildError BuildPlan := do
  let moveTomlContents ← (readToString faults disk packageDir "Move.toml").mapError fun e =>
    BuildError.packageDirMissing (join packageDir "Move.toml" ++ ": " ++ e)
  let hasStd := additionalNamedAddresses.any (fun a => a.name = "std")
    || (inspectMoveToml moveTomlContents).namedAddresses.any fun a => a.name = "std"
  let namedAddresses :=
    if hasStd then additionalNamedAddresses else additionalNamedAddresses ++ [⟨"std", stdAddress⟩]
  makeBuildPlan disk { BuildOptions.bootstrap packageDir with namedAddresses } moveTomlContents

/-- The directory that the compiler finds the framework in. -/
def frameworkDir (disk : Disk) (plan : BuildPlan) (frameworkBytecodeDir : Option String) :
    Except BuildError (String × Disk) :=
  match frameworkBytecodeDir with
  | some dir => .ok (dir, disk)
  | none => do
    let tmp := join plan.artifactLayout.buildDir "framework"
    let disk ← writeEmbeddedFramework v faults disk tmp
    return (tmp, disk)

/-- One step of the loop that writes the modules. -/
def writeModule (bytecodeDir : String) (disk : Disk) (module : CompiledModule) :
    Except BuildError Disk :=
  (disk.writeFile faults bytecodeDir (mvFile module.name) module.bytes).mapError fun e =>
    .backend ("failed to write " ++ join bytecodeDir (mvFile module.name) ++ ": " ++ e)

/-- The BCS of the metadata, or the error of the serializer. -/
def metadataBytes (metadata : PackageMetadata) : Except BuildError Bytes :=
  match encodeMetadata metadata with
  | some bytes => .ok bytes
  | none => .error (.backend ("metadata serialization failed: " ++ v.metadataEncodeError metadata))

def writeArtifacts (layout : BuildArtifactLayout) (modules : List CompiledModule)
    (metadata : PackageMetadata) (manifest : ArtifactManifest) (disk : Disk) :
    Except BuildError Disk := do
  let disk ← (disk.createDirAll faults layout.bytecodeDir).mapError fun e =>
    BuildError.backend ("failed to create " ++ layout.bytecodeDir ++ ": " ++ e)
  let disk ← modules.foldlM (writeModule faults layout.bytecodeDir) disk
  let encoded ← metadataBytes v metadata
  let disk ← (disk.writeFile faults layout.artifactDir metadataFile encoded).mapError fun e =>
    BuildError.backend ("failed to write metadata: " ++ e)
  let manifestJson ← (tools.encodeManifestJson manifest).mapError fun e =>
    BuildError.backend ("manifest JSON failed: " ++ e)
  (disk.writeFile faults layout.artifactDir manifestFile manifestJson.utf8).mapError fun e =>
    BuildError.backend ("failed to write manifest: " ++ e)

/-- A build, with the disk that it leaves. The disk after a build that fails is left out. -/
def buildPackage (disk : Disk) (packageDir : String)
    (additionalNamedAddresses : List NamedAddressAssignment)
    (frameworkBytecodeDir : Option String) :
    Except BuildError (BuildResult × Disk) := do
  let plan ← planBuild faults disk packageDir additionalNamedAddresses
  let (fwDir, disk) ← frameworkDir v faults disk plan frameworkBytecodeDir
  let (compiled, metadata, manifest) ←
    orchestrateBuild v.blake3 (nativeCompile tools [fwDir]) disk plan
  let disk ←
    writeArtifacts v tools faults plan.artifactLayout compiled.modules metadata manifest disk
  return ({ compiled := compiled
            metadata := metadata
            artifactDir := plan.artifactLayout.artifactDir
            moduleCount := compiled.modules.length
            totalBytes := totalBytes compiled.modules }, disk)

end Build

example : AccountAddress.ofHexLiteral "0x1" = .ok stdAddress := by decide

/-! ## Paths -/

/-- A joined path is the directory, with its separator, and then the file. -/
theorem exists_join_eq (dir : String) : ∃ base, ∀ file, join dir file = base ++ file := by
  unfold join
  cases dir.toList.getLast? with
  | none => exact ⟨"", fun file => by simp⟩
  | some c =>
    by_cases hc : c = '/'
    · exact ⟨dir, fun file => by simp [hc]⟩
    · exact ⟨dir ++ "/", fun file => by simp [hc]⟩

theorem join_append {base last : String} {c : Char} (hlast : last.toList.getLast? = some c)
    (hc : c ≠ '/') (file : String) : join (base ++ last) file = base ++ (last ++ "/" ++ file) := by
  have hend : (base ++ last).toList.getLast? = some c := by
    rw [String.toList_append, List.getLast?_append, hlast]
    rfl
  unfold join
  rw [hend]
  simp [hc, String.append_assoc]

/-- Where the artifacts go, and the framework. -/
theorem layout_paths (packageDir : String) :
    let layout := BuildArtifactLayout.forPackageDir packageDir
    ∃ base, layout.artifactDir = base ++ "nexus-artifact"
      ∧ layout.bytecodeDir = base ++ "nexus-artifact/bytecode"
      ∧ join layout.buildDir "framework" = base ++ "build/framework" := by
  obtain ⟨base, hbase⟩ := exists_join_eq packageDir
  have hartifact : join packageDir defaultArtifactDir = base ++ "nexus-artifact" := hbase _
  have hbuild : join packageDir "build" = base ++ "build" := hbase _
  refine ⟨base, hartifact, ?_, ?_⟩
  · show join (join packageDir defaultArtifactDir) defaultBytecodeDir = _
    rw [hartifact, join_append (c := 't') (by decide) (by decide)]
    rfl
  · show join (join packageDir "build") "framework" = _
    rw [hbuild, join_append (c := 'd') (by decide) (by decide)]
    rfl

/-- Different endings of one path are different paths. -/
theorem append_ne {base a b : String} (h : a ≠ b) : base ++ a ≠ base ++ b := by
  intro heq
  have hlists := congrArg String.toList heq
  rw [String.toList_append, String.toList_append] at hlists
  exact h (String.toList_inj.mp (List.append_cancel_left hlists))

/-! ## What a build writes -/

section Writes

variable {v : Vendor} {tools : BuildTools} {faults : IoFaults} {disk disk' : Disk}

/-- The writes of the loop over the modules, in their order. -/
def moduleWrites (modules : List CompiledModule) : List (String × Option Bytes) :=
  modules.map fun m => (mvFile m.name, some m.bytes)

/-- **The loop over the modules.** -/
theorem writeModules_loop {bytecodeDir : String} {modules : List CompiledModule}
    (h : modules.foldlM (writeModule faults bytecodeDir) disk = .ok disk') :
    disk'.filesOf bytecodeDir = (disk.filesOf bytecodeDir).applyAll (moduleWrites modules)
    ∧ ∀ other, (disk other).isSome = true → (disk' other).isSome = true := by
  induction modules generalizing disk with
  | nil =>
    -- no module: the disk is as it was
    obtain rfl := Except.pure_eq_ok.mp h
    exact ⟨rfl, fun _ h => h⟩
  | cons m modules ih =>
    rw [List.foldlM_cons] at h
    obtain ⟨disk₁, hfirst, hrest⟩ := Except.bind_eq_ok.mp h
    obtain ⟨hsome, hfiles, -⟩ := Disk.writeFile_eq_ok (Except.mapError_eq_ok.mp hfirst)
    obtain ⟨hall, hsomes⟩ := ih hrest
    refine ⟨?_, fun other h => hsomes other (hsome other h)⟩
    rw [hall, hfiles]
    rfl

/-- What is in the directories of a package after the artifacts are written. -/
theorem writeArtifacts_eq_ok {layout : BuildArtifactLayout} {modules : List CompiledModule}
    {metadata : PackageMetadata} {manifest : ArtifactManifest}
    (hdirs : layout.bytecodeDir ≠ layout.artifactDir)
    (h : writeArtifacts v tools faults layout modules metadata manifest disk = .ok disk') :
    (disk' layout.bytecodeDir).isSome = true
    ∧ disk'.filesOf layout.bytecodeDir
        = (disk.filesOf layout.bytecodeDir).applyAll (moduleWrites modules)
    ∧ disk'.filesOf layout.artifactDir metadataFile = encodeMetadata metadata
    ∧ ∃ json, tools.encodeManifestJson manifest = .ok json
      ∧ disk'.filesOf layout.artifactDir manifestFile = some json.utf8 := by
  obtain ⟨disk₁, hcreate, h⟩ := Except.bind_eq_ok.mp h
  obtain ⟨disk₂, hmodules, h⟩ := Except.bind_eq_ok.mp h
  obtain ⟨encoded, hmetadata, h⟩ := Except.bind_eq_ok.mp h
  obtain ⟨disk₃, hwrite, h⟩ := Except.bind_eq_ok.mp h
  obtain ⟨json, hjson, h⟩ := Except.bind_eq_ok.mp h
  obtain ⟨hcreated, hsame⟩ := Disk.createDirAll_eq_ok (Except.mapError_eq_ok.mp hcreate)
  obtain ⟨hfiles, hsome₂⟩ := writeModules_loop hmodules
  obtain ⟨hsome₃, hartifact₃, hother₃⟩ := Disk.writeFile_eq_ok (Except.mapError_eq_ok.mp hwrite)
  obtain ⟨hsome₄, hartifact₄, hother₄⟩ := Disk.writeFile_eq_ok (Except.mapError_eq_ok.mp h)
  have hencoded : encodeMetadata metadata = some encoded := by
    unfold metadataBytes at hmetadata
    cases hencode : encodeMetadata metadata with
    | none => simp [hencode] at hmetadata
    | some bytes => simpa [hencode] using hmetadata
  -- each of the later writes leaves what the earlier ones wrote
  refine ⟨?_, ?_, ?_, json, Except.mapError_eq_ok.mp hjson, ?_⟩
  · exact hsome₄ _ (hsome₃ _ (hsome₂ _ (hcreated _ (by simp))))
  · rw [hother₄ _ hdirs, hother₃ _ hdirs, hfiles, hsame]
  · have hne : metadataFile ≠ manifestFile := by decide
    rw [hartifact₄, KeyedStore.write_of_ne hne, hartifact₃, hencoded]
    simp [KeyedStore.write]
  · rw [hartifact₄]
    simp [KeyedStore.write]

/-- The layout depends on the package directory alone. -/
theorem makeBuildPlan_layout {options : BuildOptions} {contents : String} {plan : BuildPlan}
    (h : makeBuildPlan disk options contents = .ok plan) :
    plan.artifactLayout = .forPackageDir options.packageDir := by
  rw [makeBuildPlan_eq_ok h]

theorem planBuild_layout {packageDir : String} {additional : List NamedAddressAssignment}
    {plan : BuildPlan} (h : planBuild faults disk packageDir additional = .ok plan) :
    plan.artifactLayout = .forPackageDir packageDir := by
  obtain ⟨contents, -, hplan⟩ := Except.bind_eq_ok.mp h
  exact makeBuildPlan_layout hplan

/-- What the build does before it writes leaves the bytecode directory as it was. -/
theorem frameworkDir_eq_ok {plan : BuildPlan} {frameworkBytecodeDir : Option String}
    {fwDir dir : String}
    (hnames : (v.frameworkModules.map Prod.fst).Nodup)
    (hdir : dir ≠ join plan.artifactLayout.buildDir "framework")
    (h : frameworkDir v faults disk plan frameworkBytecodeDir = .ok (fwDir, disk')) :
    disk'.filesOf dir = disk.filesOf dir := by
  cases frameworkBytecodeDir with
  | some given =>
    obtain ⟨-, rfl⟩ := Prod.mk.inj (Except.ok.inj h)
    rfl
  | none =>
    obtain ⟨disk₁, hwrite, hrest⟩ := Except.bind_eq_ok.mp h
    obtain ⟨-, rfl⟩ := Prod.mk.inj (Except.pure_eq_ok.mp hrest)
    exact (writeEmbeddedFramework_eq_ok hnames hwrite).2.2 dir hdir

/-- Metadata and manifest are those of the package that was compiled. -/
theorem orchestrateBuild_eq_ok {blake3 : Bytes → HashValue} {backend : CompileBackend}
    {plan : BuildPlan} {compiled : CompiledPackage} {metadata : PackageMetadata}
    {manifest : ArtifactManifest}
    (h : orchestrateBuild blake3 backend disk plan = .ok (compiled, metadata, manifest)) :
    metadata = buildPackageMetadata blake3 compiled ⟨.zero 32⟩
    ∧ manifest = buildArtifactManifest blake3 compiled := by
  obtain ⟨built, -, h⟩ := Except.bind_eq_ok.mp h
  split_ifs at h
  · cases h
  · obtain ⟨rfl, hrest⟩ := Prod.mk.inj (Except.pure_eq_ok.mp h)
    obtain ⟨rfl, rfl⟩ := Prod.mk.inj hrest
    exact ⟨rfl, rfl⟩

/-- **The build.** -/
theorem buildPackage_eq_ok {packageDir : String} {additional : List NamedAddressAssignment}
    {frameworkBytecodeDir : Option String} {result : BuildResult}
    (hnames : (v.frameworkModules.map Prod.fst).Nodup)
    (h : buildPackage v tools faults disk packageDir additional frameworkBytecodeDir
      = .ok (result, disk')) :
    let layout := BuildArtifactLayout.forPackageDir packageDir
    result.metadata = buildPackageMetadata v.blake3 result.compiled ⟨.zero 32⟩
    ∧ (disk' layout.bytecodeDir).isSome = true
    ∧ disk'.filesOf layout.bytecodeDir
        = (disk.filesOf layout.bytecodeDir).applyAll (moduleWrites result.compiled.modules)
    ∧ disk'.filesOf layout.artifactDir metadataFile = encodeMetadata result.metadata
    ∧ ∃ json, tools.encodeManifestJson (buildArtifactManifest v.blake3 result.compiled) = .ok json
      ∧ disk'.filesOf layout.artifactDir manifestFile = some json.utf8 := by
  intro layout
  obtain ⟨plan, hplan, h⟩ := Except.bind_eq_ok.mp h
  obtain ⟨⟨fwDir, disk₁⟩, hframework, h⟩ := Except.bind_eq_ok.mp h
  obtain ⟨⟨compiled, metadata, manifest⟩, horchestrate, h⟩ := Except.bind_eq_ok.mp h
  obtain ⟨disk₂, hwrite, h⟩ := Except.bind_eq_ok.mp h
  obtain ⟨rfl, rfl⟩ := Prod.mk.inj (Except.pure_eq_ok.mp h)
  have hlayout : plan.artifactLayout = layout := planBuild_layout hplan
  obtain ⟨base, hartifact, hbytecode, htmp⟩ := layout_paths packageDir
  -- the directories of a build are apart, so that no write of one part touches another
  have hdirs : layout.bytecodeDir ≠ layout.artifactDir := by
    rw [hartifact, hbytecode]
    exact append_ne (by decide)
  have hother : layout.bytecodeDir ≠ join plan.artifactLayout.buildDir "framework" := by
    rw [hlayout, htmp, hbytecode]
    exact append_ne (by decide)
  have hsame := frameworkDir_eq_ok hnames hother hframework
  obtain ⟨hmetadata, hmanifest⟩ := orchestrateBuild_eq_ok horchestrate
  rw [hlayout, hmanifest] at hwrite
  obtain ⟨hsome, hfiles, hwritten, hjson⟩ := writeArtifacts_eq_ok hdirs hwrite
  rw [hsame] at hfiles
  exact ⟨hmetadata, hsome, hfiles, hwritten, hjson⟩

end Writes

end NexusMove.Package
