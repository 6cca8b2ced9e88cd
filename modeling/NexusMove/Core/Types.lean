import Mathlib.Tactic.SplitIfs
import NexusMove.Lib.Bytes

/-!
# Addresses, identifiers and abilities

The ground types of the Move core (`move-core-types`) and of `nexus-move-types`.
The two address types of the source are both `[u8; 32]` newtypes and are one type
here: the conversions between them rewrap the same bytes.
-/

namespace NexusMove

/-- A 32-byte digest. -/
abbrev HashValue := FixedBytes 32

structure AccountAddress where
  bytes : FixedBytes 32
deriving DecidableEq

namespace AccountAddress

def intoBytes (a : AccountAddress) : Bytes := a.bytes.toBytes

@[simp] theorem length_intoBytes (a : AccountAddress) : a.intoBytes.length = 32 :=
  a.bytes.length_toBytes

theorem intoBytes_injective : Function.Injective intoBytes := by
  rintro ⟨a⟩ ⟨b⟩ h
  exact congrArg _ (FixedBytes.ext h)

@[simp] theorem intoBytes_inj {a b : AccountAddress} : a.intoBytes = b.intoBytes ↔ a = b :=
  intoBytes_injective.eq_iff

/-- An address of 32 big-endian bytes that ends in the given ones. -/
def ofTail (tail : Bytes) (h : tail.length ≤ 32) : AccountAddress where
  bytes := ⟨List.replicate (32 - tail.length) 0 ++ tail, by simp; omega⟩

/-- All 64 hexadecimal digits, in lower case. -/
def toHex (a : AccountAddress) : String :=
  String.ofList (a.intoBytes.flatMap fun b => [digit (b / 16), digit (b % 16)])
where
  digit (d : UInt8) : Char :=
    if d < 10 then Char.ofNat (48 + d.toNat) else Char.ofNat (87 + d.toNat)

/-- The first 63 hexadecimal digits are zero. -/
def isSpecial (a : AccountAddress) : Bool :=
  (a.intoBytes.take 31).all (· == 0) && (a.intoBytes.drop 31).all (· < 16)

/-- How an address is printed: special addresses short, all others in full. -/
def toStandardString (a : AccountAddress) : String :=
  "0x" ++ if a.isSpecial then String.ofList ((a.intoBytes.drop 31).map toHex.digit) else a.toHex

end AccountAddress

/-! ## Identifiers -/

/-- A name of the Move language. Values that come out of a deserialized type tag have not been
checked, so validity is the predicate `IsValid` and not part of the type. -/
structure Identifier where
  name : String
deriving DecidableEq

namespace Identifier

/-- Underscores, letters and digits. -/
def isValidIdentifierChar (b : UInt8) : Bool :=
  b == 95 || (97 ≤ b && b ≤ 122) || (65 ≤ b && b ≤ 90) || (48 ≤ b && b ≤ 57)

def isAsciiDigit (b : UInt8) : Bool := 48 ≤ b && b ≤ 57

/-- `<SELF>`, the name of the module of a script. -/
def selfName : Bytes := [60, 83, 69, 76, 70, 62]

/-- Which byte strings are identifiers: `<SELF>`, `<SELF>_` and digits, a letter and
identifier characters, or an underscore and at least one identifier character. -/
def isValid (b : Bytes) : Bool :=
  if b = selfName then true
  else if b.take 7 = selfName ++ [95] ∧ 7 < b.length then (b.drop 7).all isAsciiDigit
  else match b with
    | [] => false
    | c :: cs =>
      if (97 ≤ c && c ≤ 122) || (65 ≤ c && c ≤ 90) then cs.all isValidIdentifierChar
      else if c == 95 && !cs.isEmpty then cs.all isValidIdentifierChar
      else false

def asBytes (n : Identifier) : Bytes := n.name.utf8

def IsValid (n : Identifier) : Prop := isValid n.asBytes = true

instance (n : Identifier) : Decidable n.IsValid := inferInstanceAs (Decidable (_ = true))

/-- `Identifier::new`: a checked name. -/
def new (s : String) : Option Identifier := if isValid s.utf8 then some ⟨s⟩ else none

theorem asBytes_injective : Function.Injective asBytes := by
  rintro ⟨m⟩ ⟨n⟩ h
  exact congrArg _ (utf8_injective h)

@[simp] theorem asBytes_inj {m n : Identifier} : m.asBytes = n.asBytes ↔ m = n :=
  asBytes_injective.eq_iff

/-- The least byte that an identifier can have is a digit. -/
theorem le_of_isValidIdentifierChar {c : UInt8} (h : isValidIdentifierChar c = true) :
    48 ≤ c := by
  simp only [isValidIdentifierChar, Bool.or_eq_true, Bool.and_eq_true, beq_iff_eq,
    decide_eq_true_eq] at h
  rcases h with ((rfl | h) | h) | h
  · decide
  · exact UInt8.le_trans (by decide) h.1
  · exact UInt8.le_trans (by decide) h.1
  · exact h.1

theorem le_of_isAsciiDigit {c : UInt8} (h : isAsciiDigit c = true) : 48 ≤ c := by
  simp only [isAsciiDigit, Bool.and_eq_true, decide_eq_true_eq] at h
  exact h.1

theorem le_of_mem_all {p : UInt8 → Bool} {cs : Bytes} (hp : ∀ {c}, p c = true → 48 ≤ c)
    (h : cs.all p = true) {b : UInt8} (hb : b ∈ cs) : 48 ≤ b :=
  hp (List.all_eq_true.mp h b hb)

/-- **Identifier bytes.** Every byte of a valid identifier is at least `'0'`. -/
theorem IsValid.le_of_mem {n : Identifier} (h : n.IsValid) {b : UInt8} (hb : b ∈ n.asBytes) :
    48 ≤ b := by
  unfold IsValid isValid at h
  split_ifs at h with hself hnum
  · -- the reserved name itself
    rw [hself] at hb
    exact le_of_mem_all of_decide_eq_true (by decide) hb
  · -- the reserved name, an underscore and digits
    rw [← List.take_append_drop 7 n.asBytes, hnum.1, List.mem_append] at hb
    rcases hb with hb | hb
    · exact le_of_mem_all of_decide_eq_true (by decide) hb
    · exact le_of_mem_all le_of_isAsciiDigit h hb
  · cases hbytes : n.asBytes with
    | nil => simp [hbytes] at hb
    | cons c cs =>
      rw [hbytes] at h hb
      simp only at h
      split_ifs at h with hletter hunder
      · rcases List.mem_cons.mp hb with rfl | hb
        · exact le_of_isValidIdentifierChar (by simp only [isValidIdentifierChar]; grind)
        · exact le_of_mem_all le_of_isValidIdentifierChar h hb
      · rcases List.mem_cons.mp hb with rfl | hb
        · exact le_of_isValidIdentifierChar (by simp only [isValidIdentifierChar]; grind)
        · exact le_of_mem_all le_of_isValidIdentifierChar h hb

end Identifier

/-! ## Abilities -/

/-- The abilities as bits, in the order `copy`, `drop`, `store`, `key`. -/
structure AbilitySet where
  bits : UInt8
deriving DecidableEq, Inhabited

inductive Ability where
  | copy | drop | store | key
deriving DecidableEq

namespace AbilitySet

def empty : AbilitySet := ⟨0⟩
def primitives : AbilitySet := ⟨7⟩
def references : AbilitySet := ⟨3⟩
def signer : AbilitySet := ⟨2⟩
def vector : AbilitySet := ⟨7⟩

def union (a b : AbilitySet) : AbilitySet := ⟨a.bits ||| b.bits⟩
def intersect (a b : AbilitySet) : AbilitySet := ⟨a.bits &&& b.bits⟩

/-- Every bit of the first is one of the second. -/
def isSubset (a b : AbilitySet) : Bool := a.bits &&& b.bits == a.bits

end AbilitySet

def Ability.toSet : Ability → AbilitySet
  | copy => ⟨1⟩
  | drop => ⟨2⟩
  | store => ⟨4⟩
  | key => ⟨8⟩

/-- The abilities that need this one of every component. -/
def Ability.requiredBy : Ability → AbilitySet
  | copy => copy.toSet
  | drop => drop.toSet
  | store => store.toSet.union key.toSet
  | key => .empty

namespace AbilitySet

def hasAbility (a : AbilitySet) (x : Ability) : Bool := x.toSet.isSubset a

def toList (a : AbilitySet) : List Ability :=
  [Ability.copy, .drop, .store, .key].filter a.hasAbility

/-- The abilities of a generic type: the declared ones that every type argument supports, other
than those of phantom parameters. -/
def polymorphicAbilities (declaredAbilities : AbilitySet) (declaredPhantomParameters : List Bool)
    (typeArguments : List AbilitySet) : Option AbilitySet :=
  if declaredPhantomParameters.length ≠ typeArguments.length then none
  else
    let supported := (typeArguments.zip declaredPhantomParameters).filter (fun arg => !arg.2)
      |>.map fun arg => (arg.1.toList.map Ability.requiredBy).foldl union empty
    some (supported.foldl intersect declaredAbilities)

end AbilitySet

/-- The name of a module: where it is published and what it is called. -/
structure ModuleId where
  address : AccountAddress
  name : Identifier
deriving DecidableEq

/-- How an error names a module. -/
def ModuleId.display (id : ModuleId) : String :=
  id.address.toHex ++ "::" ++ id.name.name

end NexusMove
