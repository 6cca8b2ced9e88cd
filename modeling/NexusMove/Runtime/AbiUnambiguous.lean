import NexusMove.Runtime.AbiSoundness

/-!
# One preimage, one interface

What `compute_module_abi_hash` hashes has no length in front of names and no count in front
of fields. It can be read back nevertheless, for every module within the limits of the
deserializer, and whatever order its definitions are in.

* `abiPreimage_unambiguous` — equal preimages are written from equal entries.
-/

namespace NexusMove

/-- The limits on a name: some bytes, at most 255, all of them letters, digits or underscores; or
one of the names that start with `'<'`. -/
structure Identifier.WithinLimits (n : Identifier) : Prop where
  nonempty : n.asBytes ≠ []
  length : n.asBytes.length ≤ 255
  chars : n.asBytes.all isValidIdentifierChar = true ∨ (n.asBytes.head? = some 60 ∧ n.IsValid)

theorem Identifier.WithinLimits.legible {n : Identifier} (h : n.WithinLimits) : n.Legible where
  chars := by
    intro b hb
    rcases h.chars with hall | ⟨-, hvalid⟩
    · exact le_of_mem_all le_of_isValidIdentifierChar hall hb
    · exact hvalid.le_of_mem hb
  length := Nat.le_trans h.length (by decide)

namespace CompiledModule

/-- The limits of the deserializer, on all that is hashed of a module: names within their limits,
lists in types of at most 255 elements, abilities of at most `0x0F`, and no list or encoded string
that a `u32` cannot count. -/
def WithinLimits (m : CompiledModule) : Prop := m.EntriesNamedBy Identifier.WithinLimits

theorem WithinLimits.legible {m : CompiledModule} (h : m.WithinLimits) :
    m.EntriesNamedBy Identifier.Legible :=
  EntriesNamedBy.mono (fun _ hn => hn.legible) h

/-- **One preimage, one interface.** Modules within the limits whose preimages are the same have the
same functions, by name, visibility, entry flag, parameters and results, and the same structs, by
name, abilities and layout, entry by entry. -/
theorem abiPreimage_unambiguous {m₁ m₂ : CompiledModule} (h₁ : m₁.WithinLimits)
    (h₂ : m₂.WithinLimits) (h : m₁.abiPreimage = m₂.abiPreimage) :
    m₁.functionEntries = m₂.functionEntries ∧ m₁.structEntries = m₂.structEntries := by
  exact entries_of_abiPreimage_eq h₁.legible h₂.legible h

end CompiledModule

/-- `module 0xCAFE::a { struct S has copy, drop { _0: u64 } public fun f() {} fun g() {} }`, with its
functions in a given order. -/
def sampleRich (functionDefs : List FunctionDefinition) : CompiledModule := { sampleA with
  identifiers := [⟨"a"⟩, ⟨"f"⟩, ⟨"g"⟩, ⟨"S"⟩, ⟨"_0"⟩]
  functionHandles :=
    [ { module := 0, name := 1, parameters := 0, returns := 0, typeParameters := [] },
      { module := 0, name := 2, parameters := 0, returns := 0, typeParameters := [] } ]
  structHandles := [{ module := 0, name := 3, abilities := ⟨3⟩, typeParameters := [] }]
  structDefs := [{ structHandle := 0, fieldInformation := .declared [{ name := 4, signature := .u64 }] }]
  functionDefs := functionDefs }

def definitionF : FunctionDefinition := { function := 0, visibility := .pub, isEntry := false }

def definitionG : FunctionDefinition := { function := 1, visibility := .priv, isEntry := false }

theorem sampleRich_withinLimits {functionDefs : List FunctionDefinition}
    (h : (sampleRich functionDefs).visibleFunctions = [definitionF]) :
    (sampleRich functionDefs).WithinLimits where
  functionCount := by
    rw [CompiledModule.functionEntries, h]
    exact show 1 < 2 ^ 32 by decide
  functions e he := by
    rw [CompiledModule.functionEntries, h] at he
    obtain rfl := List.mem_singleton.mp he
    have hname : Identifier.WithinLimits ⟨"f"⟩ := ⟨by decide, by decide, .inl (by decide)⟩
    exact ⟨⟨hname, rfl, rfl⟩, show LengthFits [] by decide, show LengthFits [] by decide⟩
  structCount := show 1 < 2 ^ 32 by decide
  structs e he := by
    obtain rfl := List.mem_singleton.mp he
    have hname : Identifier.WithinLimits ⟨"S"⟩ := ⟨by decide, by decide, .inl (by decide)⟩
    have hfield : Identifier.WithinLimits ⟨"_0"⟩ := ⟨by decide, by decide, .inl (by decide)⟩
    refine ⟨⟨hname, show (3 : UInt8) ≤ 15 by decide, fun f hf => ?_⟩, ?_⟩
    · obtain rfl := List.mem_singleton.mp hf
      exact ⟨hfield, rfl⟩
    · exact show LengthFits [2, 0, 0, 0, 95, 48, 1, 0, 0, 0, 5] by decide

theorem abiPreimage_unambiguous_sampleRich :
    (sampleRich [definitionF, definitionG]).functionEntries
        = (sampleRich [definitionG, definitionF]).functionEntries
      ∧ (sampleRich [definitionF, definitionG]).structEntries
        = (sampleRich [definitionG, definitionF]).structEntries :=
  CompiledModule.abiPreimage_unambiguous (sampleRich_withinLimits rfl) (sampleRich_withinLimits rfl)
    rfl

end NexusMove
