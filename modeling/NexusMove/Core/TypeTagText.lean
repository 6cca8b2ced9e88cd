import NexusMove.Core.FileFormat
import NexusMove.Core.LanguageStorage

/-!
# Type tags in text

The two texts of a type tag in `language_storage.rs`. The canonical one names the type
of an event and is what `type_name::get` returns; it separates the type arguments of a
struct by nothing. The other one is printed for people and is what the parser reads.

* `TypeTag.toCanonicalString`, `StructTag.toCanonicalString` — the canonical text.
* `TypeTag.display`, `StructTag.display` — the text for people.
-/

namespace NexusMove

/-- `short_str_lossless`: the hexadecimal digits from the first that is not zero. -/
def AccountAddress.shortStrLossless (a : AccountAddress) : String :=
  let digits := a.toHex.toList.dropWhile (· = '0')
  if digits.isEmpty then "0" else .ofList digits

namespace AbilitySet

def abilityName : Ability → String
  | .copy => "copy"
  | .drop => "drop"
  | .store => "store"
  | .key => "key"

def display (a : AbilitySet) : String := " + ".intercalate (a.toList.map abilityName)

def displayPostfix (a : AbilitySet) : String := if a.bits = 0 then "" else " has " ++ a.display

end AbilitySet

/-- A struct's name between its address and its type arguments. -/
def structText (address : String) (module name : Identifier) (generics : String) : String :=
  address ++ "::" ++ module.name ++ "::" ++ name.name ++ generics

def StructIdentifier.display (s : StructIdentifier) : String :=
  structText ("0x" ++ s.module.address.shortStrLossless) s.module.name s.name ""

mutual

def TypeTag.toCanonicalString : TypeTag → String
  | .bool => "bool"
  | .u8 => "u8"
  | .u16 => "u16"
  | .u32 => "u32"
  | .u64 => "u64"
  | .u128 => "u128"
  | .u256 => "u256"
  | .address => "address"
  | .signer => "signer"
  | .vector elem => "vector<" ++ elem.toCanonicalString ++ ">"
  | .struct ⟨a, m, n, typeArgs⟩ => structText a.toHex m n (canonicalGenerics typeArgs)
  | .function ⟨args, results, abilities⟩ =>
    "|" ++ canonicalList args ++ "|" ++ canonicalList results ++ abilities.displayPostfix

/-- The type arguments of a struct, one right after the other. -/
def canonicalGenerics : List TypeTag → String
  | [] => ""
  | tag :: tags => "<" ++ tag.toCanonicalString ++ canonicalRest tags ++ ">"

def canonicalRest : List TypeTag → String
  | [] => ""
  | tag :: tags => tag.toCanonicalString ++ canonicalRest tags

/-- The arguments or the results of a function, with commas between them. -/
def canonicalList : List TypeTag → String
  | [] => ""
  | tag :: tags => tag.toCanonicalString ++ canonicalItems tags

def canonicalItems : List TypeTag → String
  | [] => ""
  | tag :: tags => "," ++ tag.toCanonicalString ++ canonicalItems tags

end

def StructTag.toCanonicalString (t : StructTag) : String :=
  structText t.address.toHex t.module t.name (canonicalGenerics t.typeArgs)

mutual

def TypeTag.display : TypeTag → String
  | .bool => "bool"
  | .u8 => "u8"
  | .u16 => "u16"
  | .u32 => "u32"
  | .u64 => "u64"
  | .u128 => "u128"
  | .u256 => "u256"
  | .address => "address"
  | .signer => "signer"
  | .vector elem => "vector<" ++ elem.display ++ ">"
  | .struct ⟨a, m, n, typeArgs⟩ =>
    structText ("0x" ++ a.shortStrLossless) m n (displayGenerics typeArgs)
  | .function tag => (TypeTag.function tag).toCanonicalString

def displayGenerics : List TypeTag → String
  | [] => ""
  | tag :: tags => "<" ++ tag.display ++ displayRest tags ++ ">"

def displayRest : List TypeTag → String
  | [] => ""
  | tag :: tags => ", " ++ tag.display ++ displayRest tags

end

def StructTag.display (t : StructTag) : String :=
  structText ("0x" ++ t.address.shortStrLossless) t.module t.name (displayGenerics t.typeArgs)

end NexusMove
