import NexusMove.Lib.Bytes
import NexusMove.Lib.MarkedCode
import NexusMove.Lib.Text

/-!
# UTF-8

UTF-8 as a code with marks: the bytes `0x80` to `0xBF` continue a character, and all others
start one.

* `Utf8.Valid` — concatenations of encoded characters.
* `Utf8.isSome_fromUtf8?` — what the decoder accepts.
* `Utf8.markedCode` — the encodings of characters are told apart, and found by their first bytes.
* `Utf8.valid_slice`, `Utf8.boundary_firstIndex` — strings within strings.
-/

namespace Utf8

def Valid (bs : Bytes) : Prop := ∃ cs : List Char, bs = cs.flatMap String.utf8EncodeChar

theorem exists_fromUtf8? {bs : Bytes} (h : Valid bs) :
    ∃ s, String.fromUtf8? bs = some s ∧ s.utf8 = bs := by
  obtain ⟨cs, rfl⟩ := h
  refine ⟨String.ofList cs, ?_, utf8_ofList cs⟩
  rw [← utf8_ofList, fromUtf8?_utf8]

theorem isSome_fromUtf8? {bs : Bytes} : (String.fromUtf8? bs).isSome = true ↔ Valid bs := by
  apply Iff.intro
  · intro h
    unfold String.fromUtf8? String.fromUTF8? at h
    split at h
    · next hvalid =>
      obtain ⟨cs, hcs⟩ := hvalid
      refine ⟨cs, ?_⟩
      have hdata := congrArg (fun b => b.data.toList) hcs
      simpa [List.utf8Encode, List.data_toByteArray] using hdata
    · cases h
  · intro h
    obtain ⟨s, hs, -⟩ := exists_fromUtf8? h
    rw [hs]
    rfl

/-! ## The code -/

/-- The byte is not one that continues a character. -/
def IsStart (b : UInt8) : Prop := b < 0x80 ∨ 0xC0 ≤ b

instance (b : UInt8) : Decidable (IsStart b) := inferInstanceAs (Decidable (_ ∨ _))

/-- The byte that carries the low six bits of `v`. -/
def continuation (v : Nat) : UInt8 := .ofNat (v % 64 + 0x80)

theorem isStart_ofNat {n : Nat} (h : n < 256) : IsStart (.ofNat n) ↔ n < 0x80 ∨ 0xC0 ≤ n := by
  unfold IsStart
  rw [UInt8.lt_iff_toNat_lt, UInt8.le_iff_toNat_le, UInt8.toNat_ofNat', Nat.mod_eq_of_lt h]
  rfl

theorem not_isStart_continuation (v : Nat) : ¬ IsStart (continuation v) := by
  unfold continuation
  rw [isStart_ofNat (by omega)]
  omega

/-- A byte that can start a character, and bytes that continue it. -/
theorem starts_cons {n : Nat} (hstart : n < 0x80 ∨ 0xC0 ≤ n) (hbyte : n < 256) (vs : List Nat) :
    ∃ b bs, UInt8.ofNat n :: vs.map continuation = b :: bs ∧ IsStart b ∧ ∀ d ∈ bs, ¬ IsStart d := by
  refine ⟨_, _, rfl, (isStart_ofNat hbyte).mpr hstart, ?_⟩
  intro d hd
  obtain ⟨v, -, rfl⟩ := List.mem_map.mp hd
  exact not_isStart_continuation v

theorem utf8EncodeChar_starts (c : Char) :
    ∃ b bs, String.utf8EncodeChar c = b :: bs ∧ IsStart b ∧ ∀ d ∈ bs, ¬ IsStart d := by
  unfold String.utf8EncodeChar
  -- one case for each number of bytes
  generalize c.val.toNat = v
  dsimp only
  split
  · exact starts_cons (by omega) (by omega) []
  split
  · exact starts_cons (by omega) (by omega) [v]
  split
  · exact starts_cons (by omega) (by omega) [v / 64, v]
  · exact starts_cons (by omega) (by omega) [v / 4096, v / 64, v]

theorem prefixCode_utf8EncodeChar : PrefixCode (fun _ => True) String.utf8EncodeChar := by
  intro c d x y _ _ h
  have hbytes : (String.utf8EncodeChar c).toByteArray ++ x.toByteArray
      = (String.utf8EncodeChar d).toByteArray ++ y.toByteArray := by
    rw [← List.toByteArray_append, ← List.toByteArray_append, h]
  -- the decoder reads the same character from both
  have hchar : some c = some d := by
    rw [← @ByteArray.utf8DecodeChar?_utf8EncodeChar_append x.toByteArray c, hbytes,
      ByteArray.utf8DecodeChar?_utf8EncodeChar_append]
  obtain rfl : c = d := Option.some.inj hchar
  exact ⟨rfl, List.append_cancel_left h⟩

/-- **UTF-8.** Characters are told apart by what they begin with, and begin where a byte says so. -/
theorem markedCode : MarkedCode IsStart String.utf8EncodeChar where
  prefixCode := prefixCode_utf8EncodeChar
  starts := utf8EncodeChar_starts

/-! ## Strings within strings -/

theorem boundary_zero {s : Bytes} (hs : Valid s) : Boundary IsStart s 0 := by
  obtain ⟨cs, rfl⟩ := hs
  exact markedCode.boundary_iff.mpr ⟨[], cs, rfl, rfl⟩

/-- What is between two boundaries of a string is a string. -/
theorem valid_slice {s : Bytes} (hs : Valid s) {i j : Nat} (hi : Boundary IsStart s i)
    (hj : Boundary IsStart s j) (hij : i ≤ j) : Valid ((s.drop i).take (j - i)) := by
  obtain ⟨cs, rfl⟩ := hs
  exact markedCode.exists_slice hi hj hij

/-- **Self-synchronization.** Where a string occurs in a string, both ends are boundaries. -/
theorem boundary_of_occursAt {s r : Bytes} {i : Nat} (hs : Valid s) (hr : Valid r) (hne : r ≠ [])
    (h : Text.OccursAt r s i) :
    Boundary IsStart s i ∧ Boundary IsStart s (i + r.length) := by
  obtain ⟨cs, rfl⟩ := hs
  obtain ⟨ds, rfl⟩ := hr
  obtain ⟨pre, post, heq, rfl⟩ := h
  have hds : ds ≠ [] := by
    rintro rfl
    exact hne rfl
  obtain ⟨as₁, as₂, rfl, rfl, -⟩ := markedCode.occurrence hds heq
  constructor
  · refine markedCode.boundary_iff.mpr ⟨as₁, ds ++ as₂, ?_, rfl⟩
    rw [List.append_assoc]
  · refine markedCode.boundary_iff.mpr ⟨as₁ ++ ds, as₂, rfl, ?_⟩
    rw [List.flatMap_append, List.length_append]

/-- The search for a string in a string ends at a boundary, found or not. -/
theorem boundary_firstIndex {s r : Bytes} (hs : Valid s) (hr : Valid r) :
    Boundary IsStart s (Text.firstIndex r s) := by
  by_cases hempty : r = []
  · rw [hempty, Text.firstIndex_nil]
    exact boundary_zero hs
  rcases Text.firstIndex_spec r s with hfirst | ⟨hlength, -⟩
  · exact (boundary_of_occursAt hs hr hempty hfirst.1).1
  · exact .inl hlength

/-- What is found ends at a boundary. -/
theorem boundary_firstIndex_add {s r : Bytes} (hs : Valid s) (hr : Valid r) {i : Nat}
    (h : Text.OccursAt r s i) : Boundary IsStart s (Text.firstIndex r s + r.length) := by
  by_cases hempty : r = []
  · rw [hempty, Text.firstIndex_nil]
    exact boundary_zero hs
  · exact (boundary_of_occursAt hs hr hempty h.firstIndex).2

end Utf8
