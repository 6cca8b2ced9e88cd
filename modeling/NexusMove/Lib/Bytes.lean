import Mathlib.Algebra.Group.Nat.Defs
import Mathlib.Logic.Function.Basic

/-!
# Byte strings

Byte strings are lists of `UInt8`. This module adds the three views of them a
serialization format needs: byte arrays of a fixed length (a subtype, so the
length travels with the value), the UTF-8 bytes of a string, and little-endian
numbers of a fixed width.

* `FixedBytes n` — byte strings of length `n`.
* `utf8_injective`, `fromUtf8?_utf8` — a string is determined by its bytes.
* `leValue_leBytes` — a number below `256 ^ k` is read back from `k` bytes.
-/

abbrev Bytes := List UInt8

/-- A byte string of length `n`, the model of `[u8; n]`. -/
def FixedBytes (n : Nat) := { bs : Bytes // bs.length = n }

namespace FixedBytes

variable {n : Nat}

instance : DecidableEq (FixedBytes n) :=
  inferInstanceAs (DecidableEq { bs : Bytes // bs.length = n })

def toBytes (x : FixedBytes n) : Bytes := x.1

@[simp] theorem length_toBytes (x : FixedBytes n) : x.toBytes.length = n := x.2

@[ext] theorem ext {x y : FixedBytes n} (h : x.toBytes = y.toBytes) : x = y :=
  Subtype.ext h

def zero (n : Nat) : FixedBytes n := ⟨List.replicate n 0, List.length_replicate ..⟩

def ofBytes? (n : Nat) (bs : Bytes) : Option (FixedBytes n) :=
  if h : bs.length = n then some ⟨bs, h⟩ else none

@[simp] theorem ofBytes?_toBytes (x : FixedBytes n) : ofBytes? n x.toBytes = some x :=
  dif_pos x.2

end FixedBytes

/-! ## Strings -/

def String.utf8 (s : String) : Bytes := s.toByteArray.data.toList

def String.fromUtf8? (bs : Bytes) : Option String := String.fromUTF8? bs.toByteArray

theorem toByteArray_utf8 (s : String) : s.utf8.toByteArray = s.toByteArray := by
  apply ByteArray.ext
  simp [String.utf8, List.data_toByteArray]

theorem fromUtf8?_utf8 (s : String) : String.fromUtf8? s.utf8 = some s := by
  unfold String.fromUtf8? String.fromUTF8?
  rw [toByteArray_utf8]
  simp [s.isValidUTF8, String.fromUTF8]

theorem utf8_injective : Function.Injective String.utf8 := by
  intro s t h
  have := congrArg String.fromUtf8? h
  simpa [fromUtf8?_utf8] using this

@[simp] theorem utf8_inj {s t : String} : s.utf8 = t.utf8 ↔ s = t :=
  utf8_injective.eq_iff

theorem utf8_append (s t : String) : (s ++ t).utf8 = s.utf8 ++ t.utf8 := by
  simp [String.utf8]

theorem utf8_ofList (cs : List Char) :
    (String.ofList cs).utf8 = cs.flatMap String.utf8EncodeChar := by
  simp [String.utf8, List.utf8Encode]

/-! ## Little-endian numbers -/

/-- The low `k` bytes of `n`, least significant first. -/
def leBytes : Nat → Nat → Bytes
  | 0, _ => []
  | k + 1, n => UInt8.ofNat n :: leBytes k (n / 256)

/-- The number whose little-endian bytes are given. -/
def leValue : Bytes → Nat
  | [] => 0
  | b :: bs => b.toNat + 256 * leValue bs

@[simp] theorem length_leBytes (k n : Nat) : (leBytes k n).length = k := by
  induction k generalizing n with
  | zero => rfl
  | succ k ih => simp [leBytes, ih]

theorem leValue_leBytes {k n : Nat} (h : n < 256 ^ k) : leValue (leBytes k n) = n := by
  induction k generalizing n with
  | zero =>
    have : n = 0 := by simpa using h
    simp [leBytes, leValue, this]
  | succ k ih =>
    have hdiv : n / 256 < 256 ^ k := by
      rw [Nat.pow_succ] at h
      omega
    simp only [leBytes, leValue, ih hdiv, UInt8.toNat_ofNat']
    omega

theorem leBytes_inj {k m n : Nat} (hm : m < 256 ^ k) (hn : n < 256 ^ k)
    (h : leBytes k m = leBytes k n) : m = n := by
  rw [← leValue_leBytes hm, ← leValue_leBytes hn, h]
