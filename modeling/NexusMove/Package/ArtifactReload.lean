import NexusMove.Package.Artifacts
import NexusMove.Runtime.Lookup

/-!
# Loading a build again

A build writes one file for each module and removes none, and the backend that loads builds takes
every `.mv` file of the directory, in the order of their names. So what is loaded is what was
built only if no file of an earlier build is left, and the compiler gave the modules in the order
of their names.

* `mem_loadedModules` — which modules are loaded.
* `Reloads` — loading gives back the package, with the hashes that the build wrote.
* `artifacts_reload_iff` — when it does.
-/

namespace NexusMove.Package

/-! ## What is loaded -/

/-- The modules of a directory, in the order in which it is listed. -/
def loadedModules (files : Directory) (entries : List String) : List CompiledModule :=
  (entries.filter fun file => extension file = some "mv").map fun file =>
    ⟨(fileStem file).getD "unknown", (files file).getD []⟩

section Loading

variable {faults : IoFaults} {disk : Disk} {plan : BuildPlan} {entries : List String}
  {files : Directory}

/-- A loop in which every step succeeds. -/
theorem mapM_eq_ok_map {α β ε : Type} {f : α → Except ε β} {g : α → β} {xs : List α}
    (h : ∀ x ∈ xs, f x = .ok (g x)) : xs.mapM f = .ok (xs.map g) := by
  induction xs with
  | nil => rfl
  | cons x xs ih =>
    obtain ⟨hx, hxs⟩ := List.forall_mem_cons.mp h
    rw [List.mapM_cons, hx, ih hxs]
    rfl

/-- Every file that is listed is there, so each can be read. -/
theorem readModules_eq_ok {dir : String} (hdir : (disk dir).isSome = true)
    (hlist : Lists (disk.filesOf dir) entries) :
    (entries.filter fun file => extension file = some "mv").mapM (readModule faults disk dir)
      = .ok (loadedModules (disk.filesOf dir) entries) := by
  refine mapM_eq_ok_map fun file hfile => ?_
  have hlisted := (hlist.mem_iff file).mp (List.mem_of_mem_filter hfile)
  obtain ⟨bytes, hbytes⟩ := Option.isSome_iff_exists.mp hlisted
  obtain ⟨files, hfiles⟩ := Option.isSome_iff_exists.mp hdir
  have hin : files file = some bytes := by simpa [Disk.filesOf, hfiles] using hbytes
  simp only [readModule, Disk.readFile, Disk.filesOf, hfiles, hin, Option.bind_some,
    Except.mapError_ok, Except.ok_bind, Option.getD_some]
  rfl

/-- A directory that is there is loaded. -/
theorem precompiledCompile_eq_ok {packageDir : String}
    (hplan : plan.artifactLayout = .forPackageDir packageDir) :
    let bytecodeDir := (BuildArtifactLayout.forPackageDir packageDir).bytecodeDir
    (disk bytecodeDir).isSome = true → Lists (disk.filesOf bytecodeDir) entries →
      ∃ reloaded, precompiledCompile faults entries none disk plan = .ok reloaded
        ∧ reloaded.modules = sortByName (fun module => ⟨module.name⟩)
          (loadedModules (disk.filesOf bytecodeDir) entries) := by
  intro bytecodeDir hdir hlist
  -- the directory that is read is the one that the plan writes to
  have hpath : join (join plan.artifactLayout.packageDir "nexus-artifact") defaultBytecodeDir
      = bytecodeDir := by
    rw [hplan]
    rfl
  have hread := @readModules_eq_ok faults disk entries bytecodeDir hdir hlist
  have hthere : (disk bytecodeDir).isNone = false := by simpa using hdir
  refine ⟨{ packageName := plan.moveToml.packageName.getD "unknown"
            upgradePolicy := plan.moveToml.upgradePolicy
            namedAddresses := mergedNamedAddresses plan
            modules := sortByName (fun module => ⟨module.name⟩)
              (loadedModules (disk.filesOf bytecodeDir) entries) }, ?_, rfl⟩
  simp only [precompiledCompile, Option.getD_none, hpath, hthere, Bool.false_eq_true, if_false,
    hread]
  rfl

/-- A file that is taken for bytecode is called after its module. -/
theorem mvFile_fileStem {file : String} (h : extension file = some "mv") :
    mvFile ((fileStem file).getD "unknown") = file := by
  obtain ⟨name, hname, rfl⟩ := extension_eq_mv.mp h
  rw [fileStem_mvFile hname, Option.getD_some]

/-- A module is loaded exactly if the directory has a file with its name. -/
theorem mem_loadedModules (hlist : Lists files entries) {m : CompiledModule} :
    m ∈ loadedModules files entries ↔ m.name ≠ "" ∧ files (mvFile m.name) = some m.bytes := by
  simp only [loadedModules, List.mem_map, List.mem_filter, decide_eq_true_eq]
  constructor
  · -- a listed file with the extension, whose stem is the name
    rintro ⟨file, ⟨hlisted, hext⟩, rfl⟩
    obtain ⟨name, hname, rfl⟩ := extension_eq_mv.mp hext
    obtain ⟨bytes, hbytes⟩ := Option.isSome_iff_exists.mp ((hlist.mem_iff _).mp hlisted)
    simp [fileStem_mvFile hname, hname, hbytes]
  · rintro ⟨hname, hbytes⟩
    refine ⟨mvFile m.name, ⟨?_, extension_eq_mv.mpr ⟨m.name, hname, rfl⟩⟩, ?_⟩
    · rw [hlist.mem_iff, hbytes]
      rfl
    · rw [fileStem_mvFile hname, hbytes]
      rfl

/-- No name is loaded twice, since no file is listed twice. -/
theorem nodup_loadedModules (hlist : Lists files entries) :
    ((loadedModules files entries).map CompiledModule.name).Nodup := by
  have hfiles : ((loadedModules files entries).map CompiledModule.name).map mvFile
      = entries.filter fun file => extension file = some "mv" := by
    rw [loadedModules, List.map_map, List.map_map]
    conv_rhs => rw [← List.map_id (entries.filter fun file => extension file = some "mv")]
    refine List.map_congr_left fun file hfile => ?_
    simp only [List.mem_filter, decide_eq_true_eq] at hfile
    exact mvFile_fileStem hfile.2
  have hnodup := hlist.nodup.filter fun file => extension file = some "mv"
  rw [← hfiles] at hnodup
  exact hnodup.of_map

end Loading

/-! ## When a build is loaded again -/

/-- The names are in the order in which the backend puts them, and no name comes twice. -/
def NamesIncrease (modules : List CompiledModule) : Prop :=
  modules.Pairwise fun a b => a.name.utf8 < b.name.utf8

/-- Every file that is taken for bytecode is one of a module of the package. -/
def NoStaleModule (files : Directory) (modules : List CompiledModule) : Prop :=
  ∀ file, (files file).isSome = true → extension file = some "mv" →
    ∃ m ∈ modules, file = mvFile m.name

/-- A package that is loaded is the one that was built: it has the same modules, and its record and
manifest have the hashes and the modules of those that the build made. -/
structure Reloads (blake3 : Bytes → HashValue) (result : BuildResult) (reloaded : CompiledPackage) :
    Prop where
  modules : reloaded.modules.Perm result.compiled.modules
  manifestHash : (buildArtifactManifest blake3 reloaded).packageHash
    = (buildArtifactManifest blake3 result.compiled).packageHash
  manifestModules : (buildArtifactManifest blake3 reloaded).modules
    = (buildArtifactManifest blake3 result.compiled).modules
  metadataHash : (buildPackageMetadata blake3 reloaded ⟨.zero 32⟩).packageHash
    = result.metadata.packageHash
  metadataModules : (buildPackageMetadata blake3 reloaded ⟨.zero 32⟩).moduleHashes
    = result.metadata.moduleHashes

section Spec

variable {prior : Directory} {modules : List CompiledModule} {entries : List String}

/-- The strict order of byte strings. -/
theorem lt_iff_le_and_ne {a b : Bytes} : a < b ↔ a ≤ b ∧ a ≠ b := by
  constructor
  · intro h
    exact ⟨List.le_of_lt h, fun heq => List.lt_irrefl b (heq ▸ h)⟩
  · rintro ⟨hle, hne⟩
    by_contra hlt
    exact hne (List.le_antisymm hle (List.not_lt.mp hlt))

/-- What a build writes to a file is some module. -/
theorem lastWrite_moduleWrites {file : String} {written : Option Bytes}
    (h : KeyedStore.lastWrite (moduleWrites modules) file = some written) :
    ∃ m ∈ modules, file = mvFile m.name ∧ written = some m.bytes := by
  obtain ⟨m, hm, heq⟩ := List.mem_map.mp (KeyedStore.mem_of_lastWrite h)
  obtain ⟨rfl, rfl⟩ := Prod.mk.inj heq
  exact ⟨m, hm, rfl, rfl⟩

/-- What is in the directory after a build. -/
theorem applyAll_moduleWrites {file : String} {bytes : Bytes}
    (h : prior.applyAll (moduleWrites modules) file = some bytes) :
    (∃ m ∈ modules, file = mvFile m.name ∧ bytes = m.bytes)
    ∨ (∀ m ∈ modules, file ≠ mvFile m.name) ∧ prior file = some bytes := by
  rw [KeyedStore.applyAll_apply] at h
  cases hlast : KeyedStore.lastWrite (moduleWrites modules) file with
  | none =>
    refine .inr ⟨fun m hm heq => ?_, by simpa [hlast] using h⟩
    exact KeyedStore.lastWrite_eq_none_iff.mp hlast _ (List.mem_map_of_mem hm) heq.symm
  | some written =>
    obtain ⟨m, hm, rfl, rfl⟩ := lastWrite_moduleWrites hlast
    refine .inl ⟨m, hm, rfl, ?_⟩
    simpa [hlast] using h.symm

/-- A module with a name of its own is what its file holds. -/
theorem applyAll_moduleWrites_of_mem (hnodup : (modules.map CompiledModule.name).Nodup)
    {m : CompiledModule} (hm : m ∈ modules) :
    prior.applyAll (moduleWrites modules) (mvFile m.name) = some m.bytes := by
  have hlast : KeyedStore.lastWrite (moduleWrites modules) (mvFile m.name)
      = some (some m.bytes) := by
    refine KeyedStore.lastWrite_of_mem (List.mem_map_of_mem hm) fun written hwritten => ?_
    obtain ⟨m', hm', heq⟩ := List.mem_map.mp hwritten
    obtain ⟨hname, rfl⟩ := Prod.mk.inj heq
    rw [List.inj_on_of_nodup_map hnodup hm' hm (mvFile_injective hname)]
  rw [KeyedStore.applyAll_apply, hlast, Option.getD_some]

/-- A file that was there before is there after. -/
theorem isSome_applyAll_moduleWrites {file : String} (h : (prior file).isSome = true) :
    (prior.applyAll (moduleWrites modules) file).isSome = true := by
  rw [KeyedStore.applyAll_apply]
  cases hlast : KeyedStore.lastWrite (moduleWrites modules) file with
  | none => exact h
  | some written =>
    obtain ⟨m, -, -, rfl⟩ := lastWrite_moduleWrites hlast
    rfl

variable (hnames : ∀ m ∈ modules, m.name ≠ "")
  (hlist : Lists (prior.applyAll (moduleWrites modules)) entries)
include hlist

include hnames in
/-- Without a stale file, what is loaded is what was written. -/
theorem mem_loadedModules_built (hnodup : (modules.map CompiledModule.name).Nodup)
    (hstale : NoStaleModule prior modules) (m : CompiledModule) :
    m ∈ loadedModules (prior.applyAll (moduleWrites modules)) entries ↔ m ∈ modules := by
  rw [mem_loadedModules hlist]
  constructor
  · rintro ⟨hname, hbytes⟩
    -- the file was written by some module, or it was there before
    rcases applyAll_moduleWrites hbytes with ⟨m', hm', hfile, heq⟩ | ⟨hnone, hprior⟩
    · obtain rfl : m = m' := by
        cases m
        cases m'
        simp_all
      exact hm'
    · -- a file that no module has written
      obtain ⟨m', hm', hfile⟩ := hstale (mvFile m.name) (by rw [hprior]; rfl)
        (extension_eq_mv.mpr ⟨m.name, hname, rfl⟩)
      exact absurd hfile (hnone m' hm')
  · intro hm
    exact ⟨hnames m hm, applyAll_moduleWrites_of_mem hnodup hm⟩

include hnames in
/-- **Enough**: the modules come back in their order. -/
theorem sortByName_loadedModules (hincrease : NamesIncrease modules)
    (hstale : NoStaleModule prior modules) :
    sortByName (fun module => ⟨module.name⟩)
      (loadedModules (prior.applyAll (moduleWrites modules)) entries) = modules := by
  have hnodup : (modules.map CompiledModule.name).Nodup := by
    rw [List.Nodup, List.pairwise_map]
    -- names that increase are different
    exact hincrease.imp fun {a b} h heq => (lt_iff_le_and_ne.mp h).2 (congrArg String.utf8 heq)
  have hsame := mem_loadedModules_built hnames hlist hnodup hstale
  have hkeys : ∀ ms : List CompiledModule, (ms.map CompiledModule.name).Nodup →
      (ms.map fun module => (⟨module.name⟩ : Identifier)).Nodup := by
    intro ms h
    rw [List.Nodup, List.pairwise_map] at h ⊢
    exact h.imp fun hne heq => hne (Identifier.mk.inj heq)
  -- two lists in order with the same members are one list
  rw [sortByName_eq_of_mem_iff (hkeys _ (nodup_loadedModules hlist)) (hkeys _ hnodup) hsame]
  exact (hincrease.imp fun h => (lt_iff_le_and_ne.mp h).1).insertionSort_eq

/-- **Needed**: what is loaded has its names in order, and is of every file. -/
theorem of_loaded_names
    (h : (sortByName (fun module => ⟨module.name⟩)
        (loadedModules (prior.applyAll (moduleWrites modules)) entries)).map CompiledModule.name
      = modules.map CompiledModule.name) :
    NamesIncrease modules ∧ NoStaleModule prior modules := by
  have hperm := (List.perm_insertionSort (fun a b : CompiledModule => nameLe ⟨a.name⟩ ⟨b.name⟩)
    (loadedModules (prior.applyAll (moduleWrites modules)) entries)).map CompiledModule.name
  constructor
  · -- the order of the loaded names is strict, since the files have different names
    have hle := sortByName_pairwise (fun module : CompiledModule => (⟨module.name⟩ : Identifier))
      (loadedModules (prior.applyAll (moduleWrites modules)) entries)
    have hne := List.pairwise_map.mp (hperm.nodup_iff.mpr (nodup_loadedModules hlist))
    have hsorted : (List.map CompiledModule.name (sortByName (fun module => ⟨module.name⟩)
        (loadedModules (prior.applyAll (moduleWrites modules)) entries))).Pairwise
          fun a b => a.utf8 < b.utf8 := by
      rw [List.pairwise_map]
      exact (hle.and hne).imp fun {a b} h =>
        lt_iff_le_and_ne.mpr ⟨h.1, fun heq => h.2 (utf8_injective heq)⟩
    rw [h] at hsorted
    exact (List.pairwise_map (f := CompiledModule.name)).mp hsorted
  · -- a file that was there still is, and is loaded
    -- the build deletes nothing
    intro file hfile hext
    obtain ⟨name, hname, rfl⟩ := extension_eq_mv.mp hext
    obtain ⟨bytes, hbytes⟩ :=
      Option.isSome_iff_exists.mp (@isSome_applyAll_moduleWrites prior modules _ hfile)
    have hloaded : (⟨name, bytes⟩ : CompiledModule) ∈ loadedModules _ entries :=
      (mem_loadedModules hlist).mpr ⟨hname, hbytes⟩
    have hmem := hperm.mem_iff.mpr (List.mem_map_of_mem hloaded)
    obtain ⟨m, hm, heq⟩ := List.mem_map.mp (h ▸ hmem)
    exact ⟨m, hm, congrArg mvFile heq.symm⟩

end Spec

section Build

variable {v : Vendor} {tools : BuildTools} {faults : IoFaults} {disk disk' : Disk}
  {packageDir : String} {additional : List NamedAddressAssignment}
  {frameworkBytecodeDir : Option String} {plan : BuildPlan} {result : BuildResult} {entries : List String}
  (hframework : v.frameworkModules.map Prod.fst = frameworkNames)
  (hplan : planBuild faults disk packageDir additional = .ok plan)
  (hbuild : buildPackage v tools faults disk packageDir additional frameworkBytecodeDir
    = .ok (result, disk'))
include hframework hplan hbuild

/-- `buildPackage_eq_ok`, at the paths of the plan. -/
theorem build_writes :
    result.metadata = buildPackageMetadata v.blake3 result.compiled ⟨.zero 32⟩
    ∧ (disk' plan.artifactLayout.bytecodeDir).isSome = true
    ∧ disk'.filesOf plan.artifactLayout.bytecodeDir
        = (disk.filesOf plan.artifactLayout.bytecodeDir).applyAll
          (moduleWrites result.compiled.modules)
    ∧ disk'.filesOf plan.artifactLayout.artifactDir metadataFile = encodeMetadata result.metadata
    ∧ ∃ json, tools.encodeManifestJson (buildArtifactManifest v.blake3 result.compiled) = .ok json
      ∧ disk'.filesOf plan.artifactLayout.artifactDir manifestFile = some json.utf8 := by
  rw [planBuild_layout hplan]
  refine buildPackage_eq_ok ?_ hbuild
  rw [hframework]
  decide

/-- **Reloading.** The two conditions are about the package and the directory before the build. -/
theorem exists_reloads_iff (hnames : ∀ m ∈ result.compiled.modules, (⟨m.name⟩ : Identifier).IsValid)
    (hlist : Lists (disk'.filesOf plan.artifactLayout.bytecodeDir) entries) :
    (∃ reloaded, precompiledCompile faults entries none disk' plan = .ok reloaded
      ∧ Reloads v.blake3 result reloaded) ↔
    NamesIncrease result.compiled.modules
      ∧ NoStaleModule (disk.filesOf plan.artifactLayout.bytecodeDir) result.compiled.modules := by
  obtain ⟨hmetadata, hdir, hfiles, -⟩ := build_writes hframework hplan hbuild
  have hlayout := planBuild_layout hplan
  rw [hlayout] at hlist hdir hfiles ⊢
  obtain ⟨loaded, hloaded, hmodules⟩ :=
    @precompiledCompile_eq_ok faults disk' plan entries packageDir hlayout hdir hlist
  rw [hfiles] at hlist hmodules
  constructor
  · rintro ⟨reloaded, hreloaded, h⟩
    obtain rfl : loaded = reloaded := Except.ok.inj (hloaded.symm.trans hreloaded)
    -- the manifest lists the modules by name, in the order of the package
    have hsame := congrArg (List.map ArtifactModule.name) h.manifestModules
    simp only [buildArtifactManifest, List.map_map, Function.comp_def] at hsame
    rw [hmodules] at hsame
    exact of_loaded_names hlist hsame
  · rintro ⟨hincrease, hstale⟩
    -- a valid name is not empty, so its file has the extension
    have hnonempty : ∀ m ∈ result.compiled.modules, m.name ≠ "" := by
      rintro m hm hempty
      have hvalid := hnames m hm
      rw [hempty] at hvalid
      revert hvalid
      decide
    rw [sortByName_loadedModules hnonempty hlist hincrease hstale] at hmodules
    -- the same list of modules has the same hashes
    refine ⟨loaded, hloaded, ?_⟩
    constructor
    · rw [hmodules]
    · simp only [buildArtifactManifest, hmodules]
    · simp only [buildArtifactManifest, hmodules]
    · simp only [hmetadata, buildPackageMetadata, hmodules]
    · simp only [hmetadata, buildPackageMetadata, hmodules]

/-- **Loading a build.** After a build that succeeds its package is loaded again if and only if the
compiler gave the modules in strictly increasing order of their names, and every bytecode file that
was there before is one of a module of the package. The record and the manifest that it is compared
with are those in the files that the build wrote. -/
theorem artifacts_reload_iff
    (hnames : ∀ m ∈ result.compiled.modules, (⟨m.name⟩ : Identifier).IsValid)
    (hlist : Lists (disk'.filesOf plan.artifactLayout.bytecodeDir) entries) :
    disk'.filesOf plan.artifactLayout.artifactDir metadataFile = encodeMetadata result.metadata
    ∧ (∃ json, tools.encodeManifestJson (buildArtifactManifest v.blake3 result.compiled) = .ok json
        ∧ disk'.filesOf plan.artifactLayout.artifactDir manifestFile = some json.utf8)
    ∧ ((∃ reloaded, precompiledCompile faults entries none disk' plan = .ok reloaded
          ∧ Reloads v.blake3 result reloaded) ↔
        NamesIncrease result.compiled.modules
        ∧ NoStaleModule (disk.filesOf plan.artifactLayout.bytecodeDir)
            result.compiled.modules) := by
  obtain ⟨-, -, -, hmetadata, hmanifest⟩ := build_writes hframework hplan hbuild
  exact ⟨hmetadata, hmanifest, exists_reloads_iff hframework hplan hbuild hnames hlist⟩

end Build

/-! ## A file of an earlier build -/

def counterToml : String := "[package]\nname = \"counter\"\n"

/-- A package directory whose bytecode directory holds the given files. -/
def counterDisk (bytecode : Directory) : Disk :=
  KeyedStore.empty.applyAll
    [("counter", some (KeyedStore.empty.write ("Move.toml", some counterToml.utf8))),
     ("counter/sources", some .empty),
     ("counter/nexus-artifact/bytecode", some bytecode),
     ("framework", some .empty)]

/-- The manifest of the package, as it is printed. -/
def counterManifest : String :=
  "\x7b\n  \"package_name\": \"counter\",\n"
    ++ "  \"package_hash\": \"85624a7730589d304e6c095309ddeaf5ad86d4fe356896c729a6cca4faa098eb\",\n"
    ++ "  \"module_count\": 1,\n  \"total_bytecode_bytes\": 81,\n  \"upgrade_policy\": \"Immutable\",\n"
    ++ "  \"modules\": [\n    \x7b\n      \"name\": \"a\",\n      \"size_bytes\": 81,\n"
    ++ "      \"blake3\": \"85624a7730589d304e6c095309ddeaf5ad86d4fe356896c729a6cca4faa098eb\"\n"
    ++ "    \x7d\n  ]\n\x7d"

/-- The sources are of one module, `a`. -/
def counterTools : BuildTools where
  runMoveCompiler _ _ := .ok [.module "a" (.ok sampleABytes)]
  encodeManifestJson _ := .ok counterManifest

def counterVendor : Vendor :=
  .ofTables [(sampleABytes, sampleA)] sampleDigests (frameworkNames.map fun name => (name, [1]))

/-- A module that the package had once is still there. -/
def staleFiles : Directory := KeyedStore.empty.write ("old.mv", some sampleBcsBytes)

/-- The modules of a build, where it succeeds. -/
def builtModules (bytecode : Directory) : Option (List (String × Bytes)) :=
  (buildPackage counterVendor counterTools noFaults (counterDisk bytecode) "counter" []
    (some "framework")).toOption.map fun built =>
      built.1.compiled.modules.map fun m => (m.name, m.bytes)

/-- The builds, and what the directory lists after them. -/
theorem counter_builds {bytecode : Directory} {entries : List String}
    (hmem : bytecode ∈ [KeyedStore.empty, staleFiles]) (hlist : Lists bytecode entries) :
    ∃ plan result disk', planBuild noFaults (counterDisk bytecode) "counter" [] = .ok plan
      ∧ buildPackage counterVendor counterTools noFaults (counterDisk bytecode) "counter" []
          (some "framework") = .ok (result, disk')
      ∧ result.compiled.modules = [⟨"a", sampleABytes⟩]
      ∧ (counterDisk bytecode).filesOf plan.artifactLayout.bytecodeDir = bytecode
      ∧ Lists (disk'.filesOf plan.artifactLayout.bytecodeDir)
          (if "a.mv" ∈ entries then entries else entries ++ ["a.mv"]) := by
  -- both directories give one build, and the old file has no part in it
  have hall : ∀ bytecode ∈ [KeyedStore.empty, staleFiles],
      (planBuild noFaults (counterDisk bytecode) "counter" []).toOption.isSome = true
      ∧ builtModules bytecode = some [("a", sampleABytes)] := by
    decide +kernel
  obtain ⟨hplanned, hbuilt⟩ := hall bytecode hmem
  obtain ⟨plan, hplan⟩ := Option.isSome_iff_exists.mp hplanned
  obtain ⟨⟨result, disk'⟩, hbuild, hmodules⟩ := Option.map_eq_some_iff.mp hbuilt
  rw [Except.toOption_eq_some] at hplan hbuild
  have hmodules' : result.compiled.modules = [⟨"a", sampleABytes⟩] := by
    cases hcompiled : result.compiled.modules with
    | nil => simp [hcompiled] at hmodules
    | cons m modules =>
      cases m
      simp_all
  have hpath : plan.artifactLayout.bytecodeDir = "counter/nexus-artifact/bytecode" := by
    rw [planBuild_layout hplan]
    decide
  have hprior : (counterDisk bytecode).filesOf plan.artifactLayout.bytecodeDir = bytecode := by
    rw [hpath]
    rfl
  obtain ⟨-, -, hfiles, -⟩ := build_writes rfl hplan hbuild
  refine ⟨plan, result, disk', hplan, hbuild, hmodules', hprior, ?_⟩
  rw [hfiles, hprior, hmodules']
  exact hlist.write "a.mv" sampleABytes

/-- A build into an empty directory is reloaded. -/
theorem artifacts_reload_iff_counter :
    ∃ plan result disk', buildPackage counterVendor counterTools noFaults (counterDisk .empty)
        "counter" [] (some "framework") = .ok (result, disk')
      ∧ ((∃ reloaded, precompiledCompile noFaults ["a.mv"] none disk' plan = .ok reloaded
            ∧ Reloads counterVendor.blake3 result reloaded) ↔
          NamesIncrease result.compiled.modules
          ∧ NoStaleModule ((counterDisk .empty).filesOf plan.artifactLayout.bytecodeDir)
              result.compiled.modules) := by
  obtain ⟨plan, result, disk', hplan, hbuild, hmodules, -, hlist⟩ :=
    counter_builds (by simp) Lists.empty
  have hnames : ∀ m ∈ result.compiled.modules, (⟨m.name⟩ : Identifier).IsValid := by
    rw [hmodules]
    decide
  exact ⟨plan, result, disk', hbuild, (artifacts_reload_iff rfl hplan hbuild hnames hlist).2.2⟩

/-- The module of the earlier build is loaded with the others. -/
theorem stale_module_is_loaded :
    ¬ ∀ v tools faults disk disk' packageDir additional frameworkBytecodeDir plan result entries,
      v.frameworkModules.map Prod.fst = frameworkNames →
      planBuild faults disk packageDir additional = .ok plan →
      buildPackage v tools faults disk packageDir additional frameworkBytecodeDir
        = .ok (result, disk') →
      (∀ m ∈ result.compiled.modules, (⟨m.name⟩ : Identifier).IsValid) →
      Lists (disk'.filesOf plan.artifactLayout.bytecodeDir) entries →
        ∃ reloaded, precompiledCompile faults entries none disk' plan = .ok reloaded
          ∧ Reloads v.blake3 result reloaded := by
  intro h
  have hold : Lists staleFiles ["old.mv"] := Lists.empty.write "old.mv" sampleBcsBytes
  obtain ⟨plan, result, disk', hplan, hbuild, hmodules, hprior, hlist⟩ :=
    counter_builds (by simp) hold
  have hnames : ∀ m ∈ result.compiled.modules, (⟨m.name⟩ : Identifier).IsValid := by
    rw [hmodules]
    decide
  have hreloads := h _ _ _ _ _ _ _ _ _ _ _ rfl hplan hbuild hnames hlist
  -- if it were reloaded, no file would be stale; but `old.mv` is
  have hstale := ((exists_reloads_iff rfl hplan hbuild hnames hlist).mp hreloads).2
  rw [hprior, hmodules] at hstale
  obtain ⟨m, hm, hfile⟩ := hstale "old.mv" (by decide) (by decide)
  obtain rfl := List.mem_singleton.mp hm
  revert hfile
  decide

end NexusMove.Package
