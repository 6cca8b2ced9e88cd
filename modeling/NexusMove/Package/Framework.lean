import NexusMove.Package.BuildPlan
import NexusMove.Runtime.Lookup

/-!
# The framework on disk

`write_embedded_framework` of `nexus-move-package`: the embedded framework modules are put into
a directory, where the compiler finds them. A file that is already there is left alone if it
has the size of the embedded module, whatever is in it.

* `writeEmbeddedFramework` — the writer.
* `writeEmbeddedFramework_eq_ok` — what it leaves in the directory.
* `frameworkOnDisk_iff` — when that is the framework that the runtime serves.
-/

namespace NexusMove.Package

/-- The names of `FRAMEWORK_MODULES`. -/
def frameworkNames : List String :=
  ["ascii", "bcs", "bit_vector", "error", "event", "fixed_point32", "guid", "hash", "option",
    "signer", "string", "type_name", "vector"]

/-- The size of a file is looked at, not its bytes. -/
def needsWrite (disk : Disk) (dir file : String) (bytes : Bytes) : Bool :=
  match disk.filesOf dir file with
  | some old => old.length != bytes.length
  | none => true

def writeFrameworkModule (faults : IoFaults) (dir : String) (disk : Disk)
    (module : String × Bytes) :
    Except BuildError Disk :=
  if needsWrite disk dir (mvFile module.1) module.2 then
    (disk.writeFile faults dir (mvFile module.1) module.2).mapError fun e =>
      .backend ("failed to write " ++ join dir (mvFile module.1) ++ ": " ++ e)
  else .ok disk

def writeEmbeddedFramework (v : Vendor) (faults : IoFaults) (disk : Disk) (dir : String) :
    Except BuildError Disk := do
  let disk ← (disk.createDirAll faults dir).mapError fun e =>
    BuildError.backend ("failed to create framework dir: " ++ e)
  v.frameworkModules.foldlM (writeFrameworkModule faults dir) disk

/-! ## What is left in the directory -/

section Writer

variable {v : Vendor} {faults : IoFaults} {disk disk' : Disk} {dir : String}

/-- What a module's file holds, from what it held before. -/
def keptOr (bytes : Bytes) (old : Option Bytes) : Bytes :=
  match old with
  | some old => if old.length = bytes.length then old else bytes
  | none => bytes

theorem length_keptOr (bytes : Bytes) (old : Option Bytes) :
    (keptOr bytes old).length = bytes.length := by
  unfold keptOr
  cases old with
  | none => rfl
  | some old =>
    dsimp only
    split_ifs with h
    · exact h
    · rfl

theorem keptOr_eq_iff {bytes : Bytes} {old : Option Bytes} :
    keptOr bytes old = bytes ↔ ∀ b, old = some b → b.length = bytes.length → b = bytes := by
  unfold keptOr
  cases old with
  | none => simp
  | some old =>
    dsimp only
    split_ifs with h
    · simp [h]
    · simp [h]

/-- One module. -/
theorem writeFrameworkModule_eq_ok {module : String × Bytes}
    (h : writeFrameworkModule faults dir disk module = .ok disk') :
    disk'.filesOf dir (mvFile module.1)
        = some (keptOr module.2 (disk.filesOf dir (mvFile module.1)))
    ∧ (∀ file, file ≠ mvFile module.1 → disk'.filesOf dir file = disk.filesOf dir file)
    ∧ (∀ other, other ≠ dir → disk'.filesOf other = disk.filesOf other)
    ∧ ∀ other, (disk other).isSome = true → (disk' other).isSome = true := by
  unfold writeFrameworkModule needsWrite at h
  cases hold : disk.filesOf dir (mvFile module.1) with
  | none =>
    simp only [hold, if_true, Except.mapError_eq_ok] at h
    obtain ⟨hsome, hfiles, hother⟩ := Disk.writeFile_eq_ok h
    refine ⟨by simp [hfiles, KeyedStore.write, keptOr], fun file hfile => ?_, hother, hsome⟩
    rw [hfiles, KeyedStore.write_of_ne hfile]
  | some old =>
    by_cases hlength : old.length = module.2.length
    · -- a file of this size is left alone, whatever is in it
      simp only [hold, hlength, bne_self_eq_false, Bool.false_eq_true, if_false,
        Except.ok.injEq] at h
      subst h
      exact ⟨by simp [hold, keptOr, hlength], fun _ _ => rfl, fun _ _ => rfl, fun _ h => h⟩
    · have hne : (old.length != module.2.length) = true := by simpa using hlength
      simp only [hold, hne, if_true, Except.mapError_eq_ok] at h
      obtain ⟨hsome, hfiles, hother⟩ := Disk.writeFile_eq_ok h
      refine ⟨by simp [hfiles, KeyedStore.write, keptOr, hlength], fun file hfile => ?_, hother,
        hsome⟩
      rw [hfiles, KeyedStore.write_of_ne hfile]

/-- **The loop over the modules.** By induction on the modules that are left: each file gets what
its module makes of it, and no other file changes. -/
theorem writeFramework_loop {modules : List (String × Bytes)}
    (hnodup : (modules.map Prod.fst).Nodup)
    (h : modules.foldlM (writeFrameworkModule faults dir) disk = .ok disk') :
    (∀ m ∈ modules, disk'.filesOf dir (mvFile m.1)
      = some (keptOr m.2 (disk.filesOf dir (mvFile m.1))))
    ∧ (∀ file, (∀ m ∈ modules, file ≠ mvFile m.1) → disk'.filesOf dir file = disk.filesOf dir file)
    ∧ (∀ other, other ≠ dir → disk'.filesOf other = disk.filesOf other)
    ∧ ∀ other, (disk other).isSome = true → (disk' other).isSome = true := by
  induction modules generalizing disk with
  | nil =>
    obtain rfl := Except.pure_eq_ok.mp h
    exact ⟨by simp, fun _ _ => rfl, fun _ _ => rfl, fun _ h => h⟩
  | cons m modules ih =>
    rw [List.foldlM_cons] at h
    obtain ⟨disk₁, hfirst, hrest⟩ := Except.bind_eq_ok.mp h
    obtain ⟨hm, hnodup⟩ := List.nodup_cons.mp hnodup
    obtain ⟨hfile, hframe, hother, hsome⟩ := writeFrameworkModule_eq_ok hfirst
    obtain ⟨hfiles, hframes, hothers, hsomes⟩ := ih hnodup hrest
    -- the later modules have other names
    have hlater : ∀ m' ∈ modules, mvFile m'.1 ≠ mvFile m.1 := by
      intro m' hm' heq
      exact hm (mvFile_injective heq ▸ List.mem_map_of_mem hm')
    refine ⟨List.forall_mem_cons.mpr ⟨?_, fun m' hm' => ?_⟩, fun file hfile => ?_,
      fun other hne => ?_, fun other h => hsomes other (hsome other h)⟩
    · rw [hframes _ (fun m' hm' => (hlater m' hm').symm), hfile]
    · rw [hfiles m' hm', hframe _ (hlater m' hm')]
    · obtain ⟨hne, hrest⟩ := List.forall_mem_cons.mp hfile
      rw [hframes file hrest, hframe file hne]
    · rw [hothers other hne, hother other hne]

/-- **The writer.** -/
theorem writeEmbeddedFramework_eq_ok (hnames : (v.frameworkModules.map Prod.fst).Nodup)
    (h : writeEmbeddedFramework v faults disk dir = .ok disk') :
    (∀ m ∈ v.frameworkModules,
      disk'.filesOf dir (mvFile m.1) = some (keptOr m.2 (disk.filesOf dir (mvFile m.1))))
    ∧ (∀ file, (∀ m ∈ v.frameworkModules, file ≠ mvFile m.1) →
        disk'.filesOf dir file = disk.filesOf dir file)
    ∧ ∀ other, other ≠ dir → disk'.filesOf other = disk.filesOf other := by
  obtain ⟨disk₁, hcreate, hloop⟩ := Except.bind_eq_ok.mp h
  obtain ⟨-, hsame⟩ := Disk.createDirAll_eq_ok (Except.mapError_eq_ok.mp hcreate)
  obtain ⟨hfiles, hframe, hother, -⟩ := writeFramework_loop hnames hloop
  simp only [hsame] at hfiles hframe hother
  exact ⟨hfiles, hframe, hother⟩

/-! ## A second call -/

theorem foldlM_of_not_needed {modules : List (String × Bytes)}
    (h : ∀ m ∈ modules, needsWrite disk dir (mvFile m.1) m.2 = false) :
    modules.foldlM (writeFrameworkModule faults dir) disk = .ok disk := by
  induction modules with
  | nil => rfl
  | cons m modules ih =>
    obtain ⟨hm, hrest⟩ := List.forall_mem_cons.mp h
    have hskip : writeFrameworkModule faults dir disk m = .ok disk := by
      rw [writeFrameworkModule, hm]
      rfl
    rw [List.foldlM_cons, hskip]
    exact ih hrest

/-- **A second call changes nothing**, since every file has the size of its module by then. -/
theorem writeEmbeddedFramework_again (hnames : (v.frameworkModules.map Prod.fst).Nodup)
    (h : writeEmbeddedFramework v faults disk dir = .ok disk') :
    writeEmbeddedFramework v faults disk' dir = .ok disk' := by
  have hfiles := (writeEmbeddedFramework_eq_ok hnames h).1
  obtain ⟨disk₁, hcreate, hloop⟩ := Except.bind_eq_ok.mp h
  replace hcreate := Except.mapError_eq_ok.mp hcreate
  obtain ⟨-, -, -, hsome⟩ := writeFramework_loop hnames hloop
  -- the directory is there since the first call
  have hagain : disk'.createDirAll faults dir = .ok disk' :=
    Disk.createDirAll_again hcreate fun created hmem =>
      hsome created ((Disk.createDirAll_eq_ok hcreate).1 created hmem)
  rw [writeEmbeddedFramework, hagain]
  refine foldlM_of_not_needed fun m hm => ?_
  simp [needsWrite, hfiles m hm, length_keptOr]

end Writer

/-! ## The framework that is served -/

section Spec

variable (v : Vendor) (faults : IoFaults) (dir : String) (disk disk' : Disk)

/-- After a call the directory is the embedded framework, and otherwise what it was. -/
structure FrameworkOnDisk : Prop where
  embedded : ∀ m ∈ v.frameworkModules, disk'.filesOf dir (mvFile m.1) = some m.2
  frame : ∀ file, (∀ m ∈ v.frameworkModules, file ≠ mvFile m.1) →
    disk'.filesOf dir file = disk.filesOf dir file
  again : writeEmbeddedFramework v faults disk' dir = .ok disk'
  served : ∀ name bytes, v.getFrameworkModule name = some bytes →
    disk'.filesOf dir (mvFile name) = some bytes

/-- No file is there already that has the size of its module, but other bytes. -/
def NoLookalike : Prop :=
  ∀ m ∈ v.frameworkModules, ∀ old, disk.filesOf dir (mvFile m.1) = some old →
    old.length = m.2.length → old = m.2

end Spec

/-- **The framework on disk.** After a call that succeeds the directory holds the embedded framework
if and only if no file with the size of its module and other bytes was there. -/
theorem frameworkOnDisk_iff {v : Vendor} {faults : IoFaults} {dir : String} {disk disk' : Disk}
    (hnames : v.frameworkModules.map Prod.fst = frameworkNames)
    (h : writeEmbeddedFramework v faults disk dir = .ok disk') :
    FrameworkOnDisk v faults dir disk disk' ↔ NoLookalike v dir disk := by
  have hnodup : (v.frameworkModules.map Prod.fst).Nodup := by
    rw [hnames]
    decide
  obtain ⟨hfiles, hframe, -⟩ := writeEmbeddedFramework_eq_ok hnodup h
  constructor
  · intro hdisk m hm
    have hembedded := hdisk.embedded m hm
    rw [hfiles m hm] at hembedded
    exact keptOr_eq_iff.mp (Option.some.inj hembedded)
  · intro hold
    have hembedded : ∀ m ∈ v.frameworkModules, disk'.filesOf dir (mvFile m.1) = some m.2 := by
      intro m hm
      rw [hfiles m hm, keptOr_eq_iff.mpr (hold m hm)]
    refine ⟨hembedded, hframe, writeEmbeddedFramework_again hnodup h, fun name bytes hserved => ?_⟩
    -- what the runtime serves is the first module of the name
    obtain ⟨m, hm, rfl⟩ := Option.map_eq_some_iff.mp hserved
    have hname : m.1 = name := by simpa using List.find?_some hm
    rw [← hname]
    exact hembedded m (List.mem_of_find?_eq_some hm)

/-! ## A file of an older version -/

/-- The sizes of the embedded modules, in the order of their names. -/
def frameworkSizes : List Nat :=
  [835, 127, 834, 623, 548, 970, 866, 142, 1181, 166, 954, 255, 969]

/-- The embedded modules at their sizes: `bcs` as it is, the others blank behind the magic number. -/
def sizedModule (name : String) (size : Nat) : Bytes :=
  if name = "bcs" then frameworkBcsBytes
  else [0xA1, 0x1C, 0xEB, 0x0B] ++ List.replicate (size - 4) 0

def sizedFramework : Vendor :=
  .ofTables [] [] ((frameworkNames.zip frameworkSizes).map fun (name, size) =>
    (name, sizedModule name size))

/-- The `bcs` module with another version number in its metadata. -/
def olderBcsBytes : Bytes := frameworkBcsBytes.set 121 48

def noFaults : IoFaults where
  createDirAll _ := none
  write _ := none
  notFound _ := "No such file or directory (os error 2)"

/-- A directory in which there is a `bcs.mv` with the given bytes, and a file of another kind. -/
def frameworkDisk (bcsMv : Bytes) : Disk :=
  KeyedStore.empty.write ("build/framework",
    some (KeyedStore.empty.applyAll [("bcs.mv", some bcsMv), ("notes.txt", some [0])]))

theorem exists_writeEmbeddedFramework : ∀ bcsMv ∈ [[], olderBcsBytes], ∃ disk',
    writeEmbeddedFramework sizedFramework noFaults (frameworkDisk bcsMv) "build/framework"
      = .ok disk' := by
  have hok : ∀ bcsMv ∈ [[], olderBcsBytes], (writeEmbeddedFramework sizedFramework noFaults
      (frameworkDisk bcsMv) "build/framework").toOption.isSome = true := by
    decide +kernel
  intro bcsMv hmem
  obtain ⟨disk', hdisk'⟩ := Option.isSome_iff_exists.mp (hok bcsMv hmem)
  exact ⟨disk', Except.toOption_eq_some.mp hdisk'⟩

theorem frameworkOnDisk_iff_truncated :
    ∃ disk', writeEmbeddedFramework sizedFramework noFaults (frameworkDisk []) "build/framework"
        = .ok disk'
      ∧ (FrameworkOnDisk sizedFramework noFaults "build/framework" (frameworkDisk []) disk' ↔
          NoLookalike sizedFramework "build/framework" (frameworkDisk [])) := by
  obtain ⟨disk', hrun⟩ := exists_writeEmbeddedFramework [] (by decide)
  exact ⟨disk', hrun, frameworkOnDisk_iff rfl hrun⟩

/-- A `bcs.mv` of the right size stays what it was. -/
theorem lookalike_is_kept :
    ¬ ∀ v faults dir disk disk', v.frameworkModules.map Prod.fst = frameworkNames →
      writeEmbeddedFramework v faults disk dir = .ok disk' →
        FrameworkOnDisk v faults dir disk disk' := by
  intro h
  obtain ⟨disk', hrun⟩ := exists_writeEmbeddedFramework olderBcsBytes (by decide)
  have hmem : ("bcs", frameworkBcsBytes) ∈ sizedFramework.frameworkModules := by
    refine List.mem_of_getElem? (i := 1) ?_
    rfl
  have hembedded := (h _ _ _ _ _ rfl hrun).embedded _ hmem
  have hkept := (writeEmbeddedFramework_eq_ok (by decide) hrun).1 _ hmem
  have hsame : some (keptOr frameworkBcsBytes (some olderBcsBytes)) = some frameworkBcsBytes :=
    hkept.symm.trans hembedded
  revert hsame
  decide +kernel

end NexusMove.Package
