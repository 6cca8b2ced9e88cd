import NexusMove.Package.BuildPlan

/-!
# Effective named addresses

The addresses a package is compiled with come in three layers: the command line, the section
`[dev-addresses]`, and the section `[addresses]`. The command line is put over the file name by
name, but of the two sections only one counts: a `[dev-addresses]` with any address in it
replaces `[addresses]` as a whole.

* `Assigns` — the addresses that a section of a file gives.
* `Effective` — those that count.
* `merged_named_addresses_exact` — what the merged list holds.
-/

namespace NexusMove.Package

/-- A section of a file has a line that gives `name` the address `a`. A placeholder does not. -/
def Assigns (contents currentSection name : String) (a : AccountAddress) : Prop :=
  ∃ value, ⟨currentSection, name, value⟩ ∈ tomlEntries contents ∧ value ≠ "_"
    ∧ AccountAddress.HexLiteral value a.value

/-- No key occurs twice in a section. -/
def KeysUnique (contents : String) : Prop :=
  ((tomlEntries contents).map fun e => (e.currentSection, e.key)).Nodup

instance (contents : String) : Decidable (KeysUnique contents) :=
  inferInstanceAs (Decidable (List.Nodup _))

/-- The address that a file gives `name`: from `[dev-addresses]`, and only where that section gives
none to any name from `[addresses]`. -/
def Effective (contents name : String) (a : AccountAddress) : Prop :=
  Assigns contents "dev-addresses" name a
  ∨ (∀ other b, ¬ Assigns contents "dev-addresses" other b) ∧ Assigns contents "addresses" name a

/-- The last address that the command line gives a name. -/
def lastOverride (overrides : List NamedAddressAssignment) (name : String) :
    Option NamedAddressAssignment :=
  KeyedList.lastWith NamedAddressAssignment.name name overrides

section Sections

variable {contents currentSection : String}

theorem assignment_eq_some {e : TomlEntry} {n : NamedAddressAssignment} :
    e.assignment currentSection = some n ↔
      e.currentSection = currentSection ∧ e.value ≠ "_" ∧ e.key = n.name
      ∧ AccountAddress.HexLiteral e.value n.address.value := by
  rw [TomlEntry.assignment, ← AccountAddress.ofHexLiteral_eq_ok]
  split_ifs with hsection
  · rw [Option.map_eq_some_iff]
    simp only [Except.toOption_eq_some]
    constructor
    · rintro ⟨a, ha, rfl⟩
      exact ⟨hsection.1, hsection.2, rfl, ha⟩
    · rintro ⟨-, -, hkey, ha⟩
      exact ⟨n.address, ha, by rw [hkey]⟩
  · refine iff_of_false (by simp) ?_
    rintro ⟨hsame, hplaceholder, -⟩
    exact hsection ⟨hsame, hplaceholder⟩

/-- What is read of a section is what it gives. -/
theorem mem_assignments {n : NamedAddressAssignment} :
    n ∈ assignments currentSection (tomlEntries contents) ↔
      Assigns contents currentSection n.name n.address := by
  rw [assignments, List.mem_filterMap]
  simp only [assignment_eq_some]
  constructor
  · rintro ⟨e, he, rfl, hplaceholder, hkey, hliteral⟩
    exact ⟨e.value, hkey ▸ he, hplaceholder, hliteral⟩
  · rintro ⟨value, he, hplaceholder, hliteral⟩
    exact ⟨_, he, rfl, hplaceholder, rfl, hliteral⟩

/-- Entries with different keys give different names. -/
theorem nodup_assignments (h : KeysUnique contents) :
    ((assignments currentSection (tomlEntries contents)).map
      NamedAddressAssignment.name).Nodup := by
  have hpairs : (tomlEntries contents).Pairwise fun e e' =>
      (e.currentSection, e.key) ≠ (e'.currentSection, e'.key) := List.pairwise_map.mp h
  rw [List.Nodup, List.pairwise_map, assignments, List.pairwise_filterMap]
  -- two entries of the section that give one name have one key
  refine hpairs.imp fun {e e'} hne n hn n' hn' heq => ?_
  obtain ⟨hsection, -, hkey, -⟩ := assignment_eq_some.mp hn
  obtain ⟨hsection', -, hkey', -⟩ := assignment_eq_some.mp hn'
  rw [hsection, hsection', hkey, hkey', heq] at hne
  exact hne rfl

/-- The addresses that are read are those that count. -/
theorem mem_namedAddresses {n : NamedAddressAssignment} :
    n ∈ (inspectMoveToml contents).namedAddresses ↔ Effective contents n.name n.address := by
  have hdev := @mem_assignments contents "dev-addresses"
  rw [inspectMoveToml_eq, Effective, ← mem_assignments, ← mem_assignments]
  dsimp only
  split_ifs with hempty
  · -- nothing in `[dev-addresses]`: `[addresses]` counts
    rw [List.isEmpty_iff] at hempty
    have hnone : ∀ other b, ¬ Assigns contents "dev-addresses" other b := by
      intro other b h
      have hmem : (⟨other, b⟩ : NamedAddressAssignment) ∈ _ := hdev.mpr h
      rw [hempty] at hmem
      cases hmem
    simp [hempty, hnone]
  · -- one address there is enough to leave `[addresses]` out
    obtain ⟨m, hm⟩ := List.exists_mem_of_ne_nil _ (fun hnil => hempty (List.isEmpty_iff.mpr hnil))
    have hsome : ¬ ∀ other b, ¬ Assigns contents "dev-addresses" other b :=
      fun hnone => hnone m.name m.address (hdev.mp hm)
    rw [or_iff_left (fun h => hsome h.1)]

theorem nodup_namedAddresses (h : KeysUnique contents) :
    ((inspectMoveToml contents).namedAddresses.map NamedAddressAssignment.name).Nodup := by
  rw [inspectMoveToml_eq]
  dsimp only
  split_ifs
  · exact nodup_assignments h
  · exact nodup_assignments h

end Sections

/-- **Effective named addresses.** Where no key occurs twice in a section, no name occurs twice in
the merged list, and a name has the address that the command line gives it last, or else the one
of the section that counts. -/
theorem merged_named_addresses_exact {disk : Disk} {options : BuildOptions} {contents : String}
    {plan : BuildPlan} (hkeys : KeysUnique contents)
    (hplan : makeBuildPlan disk options contents = .ok plan) :
    ((mergedNamedAddresses plan).map NamedAddressAssignment.name).Nodup
    ∧ ∀ name a, ⟨name, a⟩ ∈ mergedNamedAddresses plan ↔
        lastOverride options.namedAddresses name = some ⟨name, a⟩
        ∨ lastOverride options.namedAddresses name = none ∧ Effective contents name a := by
  have hnodup := nodup_namedAddresses hkeys
  rw [mergedNamedAddresses_eq, makeBuildPlan_eq_ok hplan]
  refine ⟨KeyedList.nodup_upsertAll hnodup, fun name a => ?_⟩
  rw [KeyedList.mem_upsertAll hnodup, mem_namedAddresses]
  rfl

/-! ## A section that is replaced -/

/-- Two names in `[addresses]`, and one of them in `[dev-addresses]`. -/
def layeredToml : String :=
  "[addresses]\na = \"0x1\"\nb = \"0x2\"\n[dev-addresses]\na = \"0x3\"\n"

def layeredDisk : Disk := KeyedStore.empty.write ("package", some .empty)

def layeredOptions : BuildOptions :=
  { BuildOptions.bootstrap "package" with namedAddresses := [⟨"c", .ofTail [4] (by decide)⟩] }

def layeredPlan : BuildPlan where
  options := layeredOptions
  moveToml := inspectMoveToml layeredToml
  artifactLayout := .forPackageDir "package"

theorem makeBuildPlan_layered :
    makeBuildPlan layeredDisk layeredOptions layeredToml = .ok layeredPlan := by
  rw [makeBuildPlan, if_neg (by decide)]
  rfl

theorem keysUnique_layeredToml : KeysUnique layeredToml := by decide

theorem merged_named_addresses_exact_layered :
    ((mergedNamedAddresses layeredPlan).map NamedAddressAssignment.name).Nodup
    ∧ ∀ name a, ⟨name, a⟩ ∈ mergedNamedAddresses layeredPlan ↔
        lastOverride layeredOptions.namedAddresses name = some ⟨name, a⟩
        ∨ lastOverride layeredOptions.namedAddresses name = none ∧ Effective layeredToml name a :=
  merged_named_addresses_exact keysUnique_layeredToml makeBuildPlan_layered

/-- The layers of one name, whatever other names have. -/
def Layered (contents name : String) (a : AccountAddress) : Prop :=
  Assigns contents "dev-addresses" name a
  ∨ (∀ b, ¬ Assigns contents "dev-addresses" name b) ∧ Assigns contents "addresses" name a

/-- A name that is only in `[addresses]` is lost when another one is in `[dev-addresses]`. -/
theorem dev_address_drops_other :
    ¬ ∀ disk options contents plan, KeysUnique contents →
      makeBuildPlan disk options contents = .ok plan → ∀ name a,
        lastOverride options.namedAddresses name = none → Layered contents name a →
          ⟨name, a⟩ ∈ mergedNamedAddresses plan := by
  intro h
  have haddresses :
      ⟨"b", .ofTail [2] (by decide)⟩ ∈ assignments "addresses" (tomlEntries layeredToml) := by
    decide
  have hdev : ∀ n ∈ assignments "dev-addresses" (tomlEntries layeredToml), n.name ≠ "b" := by decide
  have hlayered : Layered layeredToml "b" (.ofTail [2] (by decide)) :=
    .inr ⟨fun b hb => hdev ⟨"b", b⟩ (mem_assignments.mpr hb) rfl, mem_assignments.mp haddresses⟩
  have hmem := h layeredDisk layeredOptions layeredToml layeredPlan keysUnique_layeredToml
    makeBuildPlan_layered "b" _ (by decide) hlayered
  revert hmem
  decide

end NexusMove.Package
