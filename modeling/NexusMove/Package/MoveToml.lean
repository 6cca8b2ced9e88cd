import NexusMove.Core.AddressLiteral
import NexusMove.Lib.Text
import NexusMove.Package.Build

/-!
# Reading a Move.toml

`inspect_move_toml` of `nexus-move-package`: a loop over the lines of the file that cuts off
what follows a `#`, remembers the section, and takes the package's name, its policy and its
addresses from the lines of the form `key = value`.

* `inspectMoveToml` — the loop.
* `tomlEntries` — the `key = value` lines of a file, each with its section.
* `inspectMoveToml_eq` — what the loop returns, in terms of these.
-/

namespace NexusMove.Package

/-! ## One line -/

/-- `char::is_whitespace`: the property White_Space of Unicode. -/
def isWhitespace (c : Char) : Bool :=
  (9 ≤ c.toNat && c.toNat ≤ 13) || c.toNat ∈ [0x20, 0x85, 0xA0, 0x1680]
    || (0x2000 ≤ c.toNat && c.toNat ≤ 0x200A)
    || c.toNat ∈ [0x2028, 0x2029, 0x202F, 0x205F, 0x3000]

abbrev trim (text : List Char) : List Char := Text.trim isWhitespace text

/-- `trim_matches('"')`. -/
abbrev trimQuotes (text : List Char) : List Char := Text.trim (· == '"') text

inductive TomlLine where
  | header (name : String)
  | entry (key value : String)
deriving DecidableEq

/-- What a line says, if it is not skipped. -/
def readLine (rawLine : List Char) : Option TomlLine :=
  let line := trim (Text.before '#' rawLine)
  if line = [] then none
  else if line.head? = some '[' ∧ line.getLast? = some ']' then
    some (.header (String.ofList (trim line.tail.dropLast)))
  else
    (Text.splitOnce '=' line).map fun parts =>
      .entry (String.ofList (trim parts.1)) (String.ofList (trimQuotes (trim parts.2)))

/-! ## The loop -/

def pushNamedAddress (name value : String) (output : List NamedAddressAssignment) :
    List NamedAddressAssignment :=
  if value = "_" then output
  else
    match AccountAddress.ofHexLiteral value with
    | .ok address => output ++ [⟨name, address⟩]
    | .error _ => output

def upgradePolicyOf (value : String) : UpgradePolicy :=
  if value = "compatible" then .compatible
  else if value = "governance" ∨ value = "governance_only" then .governanceOnly
  else .immutable

/-- The variables of the loop. -/
structure TomlState where
  currentSection : String
  packageName : Option String
  packagePolicy : UpgradePolicy
  addresses : List NamedAddressAssignment
  devAddresses : List NamedAddressAssignment

namespace TomlState

def init : TomlState := ⟨"", none, .immutable, [], []⟩

def step (s : TomlState) : TomlLine → TomlState
  | .header name => { s with currentSection := name }
  | .entry key value =>
    if s.currentSection = "package" ∧ key = "name" then { s with packageName := some value }
    else if s.currentSection = "package" ∧ key = "upgrade_policy" then
      { s with packagePolicy := upgradePolicyOf value }
    else if s.currentSection = "addresses" then
      { s with addresses := pushNamedAddress key value s.addresses }
    else if s.currentSection = "dev-addresses" then
      { s with devAddresses := pushNamedAddress key value s.devAddresses }
    else s

end TomlState

/-- The lines of a file that are not skipped. -/
def tomlLines (contents : String) : List TomlLine :=
  (Text.lines '\n' '\r' contents.toList).filterMap readLine

deriving instance DecidableEq for NamedAddressAssignment

structure MoveTomlInfo where
  packageName : Option String
  upgradePolicy : UpgradePolicy
  namedAddresses : List NamedAddressAssignment
deriving DecidableEq

def inspectMoveToml (contents : String) : MoveTomlInfo :=
  let s := (tomlLines contents).foldl TomlState.step .init
  { packageName := s.packageName
    upgradePolicy := s.packagePolicy
    namedAddresses := if s.devAddresses.isEmpty then s.addresses else s.devAddresses }

/-! ## Entries -/

/-- A `key = value` line and the section that it is in. -/
structure TomlEntry where
  currentSection : String
  key : String
  value : String
deriving DecidableEq

def entriesFrom (currentSection : String) : List TomlLine → List TomlEntry
  | [] => []
  | .header name :: lines => entriesFrom name lines
  | .entry key value :: lines => ⟨currentSection, key, value⟩ :: entriesFrom currentSection lines

/-- The entries of a file, in order. -/
def tomlEntries (contents : String) : List TomlEntry := entriesFrom "" (tomlLines contents)

namespace TomlEntry

/-- The value of an entry for `key` in the section `[package]`. -/
def packageValue (key : String) (e : TomlEntry) : Option String :=
  if e.currentSection = "package" ∧ e.key = key then some e.value else none

/-- The address that an entry of a section gives its name. -/
def assignment (currentSection : String) (e : TomlEntry) : Option NamedAddressAssignment :=
  if e.currentSection = currentSection ∧ e.value ≠ "_" then
    (AccountAddress.ofHexLiteral e.value).toOption.map fun address => ⟨e.key, address⟩
  else none

end TomlEntry

def assignments (currentSection : String) (entries : List TomlEntry) :
    List NamedAddressAssignment :=
  entries.filterMap (TomlEntry.assignment currentSection)

section Loop

theorem pushNamedAddress_eq (currentSection key value : String)
    (output : List NamedAddressAssignment) :
    pushNamedAddress key value output
      = output ++ (TomlEntry.assignment currentSection ⟨currentSection, key, value⟩).toList := by
  unfold pushNamedAddress TomlEntry.assignment
  by_cases hplaceholder : value = "_"
  · simp [hplaceholder]
  · cases AccountAddress.ofHexLiteral value with
    | error e => simp [hplaceholder, Except.toOption]
    | ok address => simp [hplaceholder, Except.toOption]

/-- What one entry does to each variable of the loop. -/
theorem step_entry (s : TomlState) (key value : String) :
    let e : TomlEntry := ⟨s.currentSection, key, value⟩
    s.step (.entry key value) =
      { currentSection := s.currentSection
        packageName := (e.packageValue "name").or s.packageName
        packagePolicy :=
          ((e.packageValue "upgrade_policy").map upgradePolicyOf).getD s.packagePolicy
        addresses := s.addresses ++ (e.assignment "addresses").toList
        devAddresses := s.devAddresses ++ (e.assignment "dev-addresses").toList } := by
  obtain ⟨currentSection, name, policy, addresses, devAddresses⟩ := s
  -- the cases of the source's match, in its order
  by_cases hpackage : currentSection = "package"
  · subst hpackage
    by_cases hname : key = "name"
    · simp [TomlState.step, TomlEntry.packageValue, TomlEntry.assignment, hname]
    · by_cases hpolicy : key = "upgrade_policy"
      · simp [TomlState.step, TomlEntry.packageValue, TomlEntry.assignment, hpolicy]
      · simp [TomlState.step, TomlEntry.packageValue, TomlEntry.assignment, hname, hpolicy]
  · by_cases haddresses : currentSection = "addresses"
    · subst haddresses
      have hdev : (⟨"addresses", key, value⟩ : TomlEntry).assignment "dev-addresses" = none :=
        if_neg (by simp)
      simp [TomlState.step, TomlEntry.packageValue, pushNamedAddress_eq "addresses", hdev]
    · by_cases hdev : currentSection = "dev-addresses"
      · subst hdev
        have haddresses : (⟨"dev-addresses", key, value⟩ : TomlEntry).assignment "addresses"
            = none :=
          if_neg (by simp)
        simp [TomlState.step, TomlEntry.packageValue, pushNamedAddress_eq "dev-addresses",
          haddresses]
      · simp [TomlState.step, TomlEntry.packageValue, TomlEntry.assignment, hpackage, haddresses,
          hdev]

/-- The last of some values that are taken from a list. -/
theorem getLast?_filterMap_cons {α β : Type} (f : α → Option β) (a : α) (l : List α) :
    ((a :: l).filterMap f).getLast? = (l.filterMap f).getLast?.or (f a) := by
  rw [List.filterMap_cons]
  cases f a with
  | none => rw [Option.or_none]
  | some b =>
    show (b :: l.filterMap f).getLast? = _
    rw [List.getLast?_cons]
    cases (l.filterMap f).getLast? <;> rfl

/-- **The loop.** What it leaves in its variables after some lines. -/
theorem foldl_step (lines : List TomlLine) (s : TomlState) :
    let s' := lines.foldl TomlState.step s
    let entries := entriesFrom s.currentSection lines
    s'.packageName = (entries.filterMap (TomlEntry.packageValue "name")).getLast?.or s.packageName
    ∧ s'.packagePolicy = ((entries.filterMap
        (TomlEntry.packageValue "upgrade_policy")).getLast?.map upgradePolicyOf).getD s.packagePolicy
    ∧ s'.addresses = s.addresses ++ assignments "addresses" entries
    ∧ s'.devAddresses = s.devAddresses ++ assignments "dev-addresses" entries := by
  -- by induction on the lines that are left, whatever the variables are by then
  induction lines generalizing s with
  | nil => simp [entriesFrom, assignments]
  | cons line lines ih =>
    cases line with
    | header name => exact ih { s with currentSection := name }
    | entry key value =>
      obtain ⟨hname, hpolicy, haddresses, hdev⟩ := ih (s.step (.entry key value))
      rw [step_entry] at hname hpolicy haddresses hdev
      have hcons : ∀ sec : String, ∀ e entries, assignments sec (e :: entries)
          = (e.assignment sec).toList ++ assignments sec entries := by
        intro sec e entries
        rw [assignments, List.filterMap_cons]
        cases e.assignment sec <;> rfl
      simp only [List.foldl_cons, entriesFrom, getLast?_filterMap_cons, hcons]
      rw [step_entry]
      refine ⟨?_, ?_, ?_, ?_⟩
      · -- a later name is taken over that of this line
        rw [hname, Option.or_assoc]
      · rw [hpolicy]
        cases ((entriesFrom s.currentSection lines).filterMap
          (TomlEntry.packageValue "upgrade_policy")).getLast? <;> rfl
      · rw [haddresses, List.append_assoc]
      · rw [hdev, List.append_assoc]

end Loop

/-- **What is read.** The name and the policy are those of the last entries for them, and the
addresses are those of one section. -/
theorem inspectMoveToml_eq (contents : String) :
    let entries := tomlEntries contents
    inspectMoveToml contents =
      { packageName := (entries.filterMap (TomlEntry.packageValue "name")).getLast?
        upgradePolicy := ((entries.filterMap
          (TomlEntry.packageValue "upgrade_policy")).getLast?.map upgradePolicyOf).getD .immutable
        namedAddresses :=
          if (assignments "dev-addresses" entries).isEmpty then assignments "addresses" entries
          else assignments "dev-addresses" entries } := by
  intro entries
  obtain ⟨hname, hpolicy, haddresses, hdev⟩ := foldl_step (tomlLines contents) .init
  have hlayer : ((tomlLines contents).foldl TomlState.step .init).devAddresses
      = assignments "dev-addresses" entries := hdev
  rw [inspectMoveToml, hname.trans Option.or_none, hpolicy, haddresses, hlayer]
  rfl

end NexusMove.Package
