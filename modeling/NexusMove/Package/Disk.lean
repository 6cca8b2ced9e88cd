import NexusMove.Lib.Bytes
import NexusMove.Lib.KeyedStore
import NexusMove.Lib.Text

/-!
# Directories and files

What the build tool uses of the file system. A directory maps the names of its files to
their bytes, and the disk maps paths to directories. An operation that creates or writes may
fail, as `IoFaults` says.

* `Disk.createDirAll`, `Disk.writeFile`, `Disk.readFile` — the operations.
* `writeFile_eq_ok` — what a write does.
* `extension_eq_mv`, `fileStem_mvFile` — which names are of bytecode files, and of which modules.
-/

namespace NexusMove.Package

/-- The files of a directory, by name. -/
abbrev Directory := KeyedStore String Bytes

/-- The directories, by path. -/
abbrev Disk := KeyedStore String Directory

/-- The messages of the operations that fail, by path. A file that is missing cannot be read, and a
directory that is missing cannot be written to. -/
structure IoFaults where
  createDirAll : String → Option String
  write : String → Option String
  notFound : String → String

/-- `Path::join` with a name that is not a path of its own. -/
def join (dir file : String) : String :=
  match dir.toList.getLast? with
  | none => file
  | some c => if c = '/' then dir ++ file else dir ++ "/" ++ file

/-- `names` is an order in which `fs::read_dir` may list the files. -/
structure Lists (files : Directory) (names : List String) : Prop where
  nodup : names.Nodup
  mem_iff : ∀ name, name ∈ names ↔ (files name).isSome = true

/-- The directories above one. -/
def ancestors (dir : String) : List String :=
  (dir.toList.inits.filter fun above => (dir.toList.drop above.length).head? = some '/').map
    String.ofList

theorem Lists.empty : Lists .empty [] := ⟨List.nodup_nil, fun name => by simp [KeyedStore.empty]⟩

/-- A file that is written is listed from then on. -/
theorem Lists.write {files : Directory} {names : List String} (h : Lists files names)
    (file : String)
    (bytes : Bytes) :
    Lists (files.write (file, some bytes)) (if file ∈ names then names else names ++ [file]) := by
  have hwrite : ∀ name, ((files.write (file, some bytes)) name).isSome = true ↔
      name = file ∨ name ∈ names := by
    intro name
    by_cases hname : name = file
    · simp [KeyedStore.write, hname]
    · rw [KeyedStore.write_of_ne hname, ← h.mem_iff, or_iff_right hname]
  split_ifs with hfile
  · refine ⟨h.nodup, fun name => ?_⟩
    rw [hwrite, or_iff_right_of_imp]
    rintro rfl
    exact hfile
  · refine ⟨?_, fun name => ?_⟩
    · exact List.nodup_append.mpr ⟨h.nodup, by simp, fun a ha b hb heq =>
        hfile (List.mem_singleton.mp hb ▸ heq ▸ ha)⟩
    · rw [hwrite, List.mem_append, List.mem_singleton, or_comm]

namespace Disk

variable (faults : IoFaults) (disk : Disk)

/-- A directory that is there is left as it is. -/
def create (disk : Disk) (dir : String) : Disk :=
  if (disk dir).isSome then disk else disk.write (dir, some .empty)

def createDirAll (dir : String) : Except String Disk :=
  match faults.createDirAll dir with
  | some e => .error e
  | none => .ok ((ancestors dir ++ [dir]).foldl create disk)

def writeFile (dir file : String) (bytes : Bytes) : Except String Disk :=
  match faults.write (join dir file), disk dir with
  | some e, _ => .error e
  | none, none => .error (faults.notFound (join dir file))
  | none, some files => .ok (disk.write (dir, some (files.write (file, some bytes))))

def readFile (dir file : String) : Except String Bytes :=
  match (disk dir).bind fun files => files file with
  | some bytes => .ok bytes
  | none => .error (faults.notFound (join dir file))

/-- The files of a directory; of one that does not exist, none. -/
def filesOf (dir : String) : Directory := (disk dir).getD .empty

variable {faults disk} {disk' : Disk} {dir other file : String} {bytes : Bytes}

theorem isSome_create (h : other = dir ∨ (disk other).isSome = true) :
    (disk.create dir other).isSome = true := by
  unfold create
  split_ifs with hsome
  · rcases h with rfl | h
    · exact hsome
    · exact h
  · by_cases heq : other = dir
    · simp [KeyedStore.write, heq]
    · rw [KeyedStore.write_of_ne heq]
      exact h.resolve_left heq

theorem filesOf_create (disk : Disk) (dir other : String) :
    (disk.create dir).filesOf other = disk.filesOf other := by
  unfold create
  split_ifs with hsome
  · rfl
  · by_cases heq : other = dir
    · simp [filesOf, KeyedStore.write, heq, Option.not_isSome_iff_eq_none.mp hsome]
    · rw [filesOf, KeyedStore.write_of_ne heq, filesOf]

theorem foldl_create (dirs : List String) (disk : Disk) :
    (∀ other, other ∈ dirs ∨ (disk other).isSome = true →
      ((dirs.foldl create disk) other).isSome = true)
    ∧ ∀ other, (dirs.foldl create disk).filesOf other = disk.filesOf other := by
  induction dirs generalizing disk with
  | nil => simp
  | cons dir dirs ih =>
    obtain ⟨hsome, hfiles⟩ := ih (disk.create dir)
    refine ⟨fun other h => hsome other ?_, fun other => ?_⟩
    · rcases h with hmem | hother
      · rcases List.mem_cons.mp hmem with rfl | hmem
        · exact .inr (isSome_create (.inl rfl))
        · exact .inl hmem
      · exact .inr (isSome_create (.inr hother))
    · exact (hfiles other).trans (filesOf_create disk dir other)

theorem foldl_create_of_isSome {dirs : List String} (h : ∀ dir ∈ dirs, (disk dir).isSome = true) :
    dirs.foldl create disk = disk := by
  induction dirs with
  | nil => rfl
  | cons dir dirs ih =>
    obtain ⟨hdir, hrest⟩ := List.forall_mem_cons.mp h
    rw [List.foldl_cons, create, if_pos hdir, ih hrest]

/-- A directory and those above it are there afterwards, and no file has changed. -/
theorem createDirAll_eq_ok (h : disk.createDirAll faults dir = .ok disk') :
    (∀ created ∈ ancestors dir ++ [dir], (disk' created).isSome = true)
    ∧ ∀ other, disk'.filesOf other = disk.filesOf other := by
  unfold createDirAll at h
  cases hfault : faults.createDirAll dir with
  | some e => simp [hfault] at h
  | none =>
    simp only [hfault, Except.ok.injEq] at h
    subst h
    obtain ⟨hsome, hfiles⟩ := foldl_create (ancestors dir ++ [dir]) disk
    exact ⟨fun created hmem => hsome created (.inl hmem), hfiles⟩

/-- Creating once more what is there changes nothing. -/
theorem createDirAll_again {disk₁ : Disk} (h : disk.createDirAll faults dir = .ok disk₁)
    (hkept : ∀ created ∈ ancestors dir ++ [dir], (disk' created).isSome = true) :
    disk'.createDirAll faults dir = .ok disk' := by
  unfold createDirAll at h ⊢
  cases hfault : faults.createDirAll dir with
  | some e => simp [hfault] at h
  | none => simp only [foldl_create_of_isSome hkept]

theorem writeFile_eq_ok (h : disk.writeFile faults dir file bytes = .ok disk') :
    (∀ other, (disk other).isSome = true → (disk' other).isSome = true)
    ∧ disk'.filesOf dir = (disk.filesOf dir).write (file, some bytes)
    ∧ ∀ other, other ≠ dir → disk'.filesOf other = disk.filesOf other := by
  unfold writeFile at h
  cases hfault : faults.write (join dir file) with
  | some e => simp [hfault] at h
  | none =>
    cases hdir : disk dir with
    | none => simp [hfault, hdir] at h
    | some files =>
      simp only [hfault, hdir, Except.ok.injEq] at h
      subst h
      refine ⟨fun other hsome => ?_, by simp [filesOf, KeyedStore.write, hdir],
        fun other hother => ?_⟩
      · by_cases heq : other = dir
        · simp [KeyedStore.write, heq]
        · rwa [KeyedStore.write_of_ne heq]
      · rw [filesOf, KeyedStore.write_of_ne hother, filesOf]

end Disk

/-! ## Names of files -/

/-- `Path::rsplit_file_at_dot`: what stands before the last dot, and after it. -/
def rsplitFileAtDot (file : List Char) : Option (List Char) × Option (List Char) :=
  if file = ['.', '.'] then (some file, none)
  else
    match Text.rsplitOnce '.' file with
    | none => (none, some file)
    | some ([], _) => (some file, none)
    | some (before, after) => (some before, some after)

def extension (file : String) : Option String :=
  let (before, after) := rsplitFileAtDot file.toList
  (before.bind fun _ => after).map String.ofList

def fileStem (file : String) : Option String :=
  let (before, after) := rsplitFileAtDot file.toList
  (before.or after).map String.ofList

def mvFile (name : String) : String := name ++ ".mv"

section Names

variable {name file : String}

theorem toList_mvFile (name : String) :
    (mvFile name).toList = name.toList ++ '.' :: ['m', 'v'] := by
  rw [mvFile, String.toList_append]
  rfl

theorem mvFile_injective : Function.Injective mvFile := by
  intro a b h
  have hlists := congrArg String.toList h
  rw [toList_mvFile, toList_mvFile] at hlists
  exact String.toList_inj.mp (List.append_cancel_right hlists)

@[simp] theorem mvFile_inj {a b : String} : mvFile a = mvFile b ↔ a = b := mvFile_injective.eq_iff

theorem rsplitFileAtDot_mvFile (h : name ≠ "") :
    rsplitFileAtDot (mvFile name).toList = (some name.toList, some ['m', 'v']) := by
  have hdots : (mvFile name).toList ≠ ['.', '.'] := by
    intro heq
    have hlast := congrArg List.getLast? heq
    simp [toList_mvFile] at hlast
  have hsplit : Text.rsplitOnce '.' (mvFile name).toList = some (name.toList, ['m', 'v']) := by
    rw [toList_mvFile]
    exact Text.rsplitOnce_append (by decide)
  rw [rsplitFileAtDot, if_neg hdots, hsplit]
  cases hname : name.toList with
  | nil => exact absurd (String.toList_eq_nil_iff.mp hname) h
  | cons c cs => rfl

theorem fileStem_mvFile (h : name ≠ "") : fileStem (mvFile name) = some name := by
  simp [fileStem, rsplitFileAtDot_mvFile h]

/-- The files that are taken for bytecode. -/
theorem extension_eq_mv : extension file = some "mv" ↔ ∃ name, name ≠ "" ∧ file = mvFile name := by
  constructor
  · intro h
    simp only [extension, rsplitFileAtDot] at h
    split_ifs at h with hdots
    · cases h
    · cases hsplit : Text.rsplitOnce '.' file.toList with
      | none => simp [hsplit] at h
      | some parts =>
        obtain ⟨before, after⟩ := parts
        cases before with
        | nil => simp [hsplit] at h
        | cons c cs =>
          have hafter : after = ['m', 'v'] := by
            have hmv : String.ofList after = "mv" := by simpa [hsplit] using h
            rw [← String.toList_ofList (l := after), hmv]
            rfl
          refine ⟨String.ofList (c :: cs), ?_, ?_⟩
          · intro hempty
            simpa using congrArg String.toList hempty
          · rw [← String.toList_inj, toList_mvFile, String.toList_ofList, Text.of_rsplitOnce hsplit,
              hafter]
  · rintro ⟨name, hname, rfl⟩
    simp [extension, rsplitFileAtDot_mvFile hname]

end Names

end NexusMove.Package
