import NexusMove.Lib.Text
import NexusMove.Lib.Utf8
import NexusMove.Vm.Vendor

/-!
# The natives of strings

The native functions behind `std::string`: whether bytes are UTF-8, whether an index is between
characters, the bytes between two indices, and the search of one string in another. They work on
bytes; only the first two look at characters.

* `NativeFunction` — natives, which pop their arguments off the end of a list.
* `isCharBoundary_iff` — the indices where a string can be cut.
* `makeNativeIndexOf_returns`, `makeNativeSubString_in_range` — what is found, and what is cut out.
* `split_valid` — a string cut at a boundary is two strings.
-/

namespace NexusMove

/-! ## Natives -/

abbrev InternalGas := UInt64

/-- A reference to a vector of bytes. No vector is longer than `isize::MAX` bytes. -/
structure VectorRef where
  bytes : Bytes
  fits : bytes.length ≤ 2 ^ 63 - 1

/-- An argument of a native, of a kind that these natives take. -/
inductive NativeArg where
  | vectorRef (r : VectorRef)
  | u64 (n : UInt64)

inductive NativeResult where
  | success (cost : InternalGas) (retVals : List Value)
  | abort (cost : InternalGas) (abortCode : UInt64)

/-- How a native fails to give a result. Errors are told by their status; their messages print
the argument. -/
inductive NativeError where
  | vm (majorStatus : UInt64) (subStatus : Option UInt64)
  | panic

abbrev NativeFunction := List NativeArg → Except NativeError NativeResult

/-- `Value::vector_u8`. -/
def Value.vectorU8 (bs : Bytes) : Value := .vector (bs.map .u8)

def zeroCost : InternalGas := 0

namespace NativeResult

def ok (cost : InternalGas) (values : List Value) : NativeResult := success cost values

def err (cost : InternalGas) (abortCode : UInt64) : NativeResult := abort cost abortCode

def mapPartialVmResultOne (cost : InternalGas) :
    Except NativeError Value → Except NativeError NativeResult
  | .ok val => .ok (ok cost [val])
  | .error (.vm majorStatus subStatus) =>
    if majorStatus = StatusCode.aborted then
      .ok (err cost (subStatus.getD StatusCode.unknownInvariantViolationError))
    else .error (.vm majorStatus subStatus)
  | .error .panic => .error .panic

end NativeResult

/-- `pop_back` of the arguments. -/
def popBack (args : List NativeArg) : Except NativeError (NativeArg × List NativeArg) :=
  match args.getLast? with
  | none => .error (.vm StatusCode.unknownInvariantViolationError none)
  | some arg => .ok (arg, args.dropLast)

/-- `pop_arg!` of a `VectorRef`. -/
def popVectorRef (args : List NativeArg) : Except NativeError (VectorRef × List NativeArg) := do
  match ← popBack args with
  | (.vectorRef r, args) => return (r, args)
  | (.u64 _, _) => throw (.vm StatusCode.internalTypeError none)

/-- `pop_arg!` of a `u64`. -/
def popU64 (args : List NativeArg) : Except NativeError (UInt64 × List NativeArg) := do
  match ← popBack args with
  | (.u64 n, args) => return (n, args)
  | (.vectorRef _, _) => throw (.vm StatusCode.internalTypeError none)

/-! ## Strings of the host language -/

/-- `str::is_char_boundary`. -/
def strIsCharBoundary (s : Bytes) (index : Nat) : Bool :=
  if index = 0 then true
  else
    match s[index]? with
    | none => index = s.length
    -- the byte, as a signed one, is at least `-0x40`
    | some b => b < 128 || 192 ≤ b

/-- `bytes[i..j]`. -/
def sliceBytes (bytes : Bytes) (i j : Nat) : Except NativeError Bytes :=
  if i ≤ j ∧ j ≤ bytes.length then .ok ((bytes.drop i).take (j - i)) else .error .panic

/-! ## The natives -/

def makeNativeCheckUtf8 : NativeFunction := fun args => do
  let (s, _) ← popVectorRef args
  let ok := (String.fromUtf8? s.bytes).isSome
  NativeResult.mapPartialVmResultOne zeroCost (.ok (.bool ok))

def makeNativeIsCharBoundary : NativeFunction := fun args => do
  let (i, args) ← popU64 args
  let (s, _) ← popVectorRef args
  let ok := ((String.fromUtf8? s.bytes).map fun str => strIsCharBoundary str.utf8 i.toNat).getD false
  NativeResult.mapPartialVmResultOne zeroCost (.ok (.bool ok))

def makeNativeSubString : NativeFunction := fun args => do
  let (j, args) ← popU64 args
  let (i, args) ← popU64 args
  if j.toNat < i.toNat then return NativeResult.err zeroCost 1
  let (s, _) ← popVectorRef args
  if j.toNat > s.bytes.length then return NativeResult.err zeroCost 1
  let v ← sliceBytes s.bytes i.toNat j.toNat
  NativeResult.mapPartialVmResultOne zeroCost (.ok (.vectorU8 v))

def makeNativeIndexOf : NativeFunction := fun args => do
  let (r, args) ← popVectorRef args
  let (s, _) ← popVectorRef args
  let pos := if r.bytes.isEmpty then 0 else (Text.find? r.bytes s.bytes).getD s.bytes.length
  NativeResult.mapPartialVmResultOne zeroCost (.ok (.u64 (.ofNat pos)))

/-! ## What they return -/

/-- The native returns `v`. -/
def NativeFunction.Returns (native : NativeFunction) (args : List NativeArg) (v : Value) : Prop :=
  native args = .ok (.success zeroCost [v])

section Spec

variable {s r : VectorRef} {i j : UInt64}

/-- The check accepts exactly the UTF-8 strings. -/
theorem checkUtf8_iff :
    makeNativeCheckUtf8.Returns [.vectorRef s] (.bool true) ↔ Utf8.Valid s.bytes := by
  rw [← Utf8.isSome_fromUtf8?]
  have heq : makeNativeCheckUtf8 [.vectorRef s]
      = .ok (.success zeroCost [.bool (String.fromUtf8? s.bytes).isSome]) := rfl
  rw [NativeFunction.Returns, heq]
  simp

theorem strIsCharBoundary_iff {s : Bytes} {i : Nat} (hs : Utf8.Valid s) :
    strIsCharBoundary s i = true ↔ Boundary Utf8.IsStart s i := by
  unfold strIsCharBoundary
  split
  · -- the source accepts 0 before it looks at a byte
    next hzero =>
    rw [hzero]
    exact iff_of_true rfl (Utf8.boundary_zero hs)
  · cases hget : s[i]? with
    -- no byte there: a boundary only where the string ends
    | none =>
      rw [Boundary, hget]
      simp
    | some b =>
      have hlt : i < s.length := (List.getElem?_eq_some_iff.mp hget).1
      have hne : i ≠ s.length := Nat.ne_of_lt hlt
      rw [Boundary, hget]
      simp [hne, Utf8.IsStart]

/-- `internal_is_char_boundary` holds. -/
def IsCharBoundary (s : VectorRef) (i : UInt64) : Prop :=
  makeNativeIsCharBoundary.Returns [.vectorRef s, .u64 i] (.bool true)

/-- **Boundaries.** A string can be cut where the native says so. -/
theorem isCharBoundary_iff (hs : Utf8.Valid s.bytes) :
    IsCharBoundary s i ↔ Boundary Utf8.IsStart s.bytes i.toNat := by
  obtain ⟨str, hstr, hbytes⟩ := Utf8.exists_fromUtf8? hs
  have heq : makeNativeIsCharBoundary [.vectorRef s, .u64 i] = .ok (.success zeroCost
      [.bool (((String.fromUtf8? s.bytes).map fun str =>
        strIsCharBoundary str.utf8 i.toNat).getD false)]) := rfl
  rw [IsCharBoundary, NativeFunction.Returns, heq, hstr, Option.map_some, Option.getD_some, hbytes,
    ← strIsCharBoundary_iff hs]
  simp

/-- Both tests abort with the same code; the second comes before the slice is taken. -/
theorem makeNativeSubString_out_of_range (h : j < i ∨ s.bytes.length < j.toNat) :
    makeNativeSubString [.vectorRef s, .u64 i, .u64 j] = .ok (.abort zeroCost 1) := by
  show (if j.toNat < i.toNat then _ else _) = _
  split
  · rfl
  · next hle =>
    have hlong : s.bytes.length < j.toNat := h.resolve_left hle
    show (if j.toNat > s.bytes.length then _ else _) = _
    rw [if_pos hlong]
    rfl

/-- Past the two tests, the slice does not panic. -/
theorem makeNativeSubString_in_range (hij : i ≤ j) (hj : j.toNat ≤ s.bytes.length) :
    makeNativeSubString.Returns [.vectorRef s, .u64 i, .u64 j]
      (.vectorU8 ((s.bytes.drop i.toNat).take (j.toNat - i.toNat))) := by
  have hle : i.toNat ≤ j.toNat := hij
  have hslice : sliceBytes s.bytes i.toNat j.toNat
      = .ok ((s.bytes.drop i.toNat).take (j.toNat - i.toNat)) := if_pos ⟨hle, hj⟩
  show (if j.toNat < i.toNat then _ else _) = _
  rw [if_neg (Nat.not_lt.mpr hle)]
  show (if j.toNat > s.bytes.length then _ else _) = _
  rw [if_neg (Nat.not_lt.mpr hj)]
  show (do let v ← sliceBytes _ _ _; _) = _
  rw [hslice]
  rfl

/-- The native returns the first index, as a `u64`. -/
theorem makeNativeIndexOf_returns (s r : VectorRef) :
    makeNativeIndexOf.Returns [.vectorRef s, .vectorRef r]
      (.u64 (.ofNat (Text.firstIndex r.bytes s.bytes))) := by
  have heq : makeNativeIndexOf [.vectorRef s, .vectorRef r] = .ok (.success zeroCost
      [.u64 (.ofNat (if r.bytes.isEmpty then 0 else Text.firstIndex r.bytes s.bytes))]) := rfl
  rw [NativeFunction.Returns, heq]
  split
  · next hempty =>
    rw [List.isEmpty_iff.mp hempty, Text.firstIndex_nil]
  · rfl

/-- Lengths and indices are numbers of 64 bits. -/
theorem VectorRef.toNat_ofNat (s : VectorRef) {n : Nat} (hn : n ≤ s.bytes.length) :
    (UInt64.ofNat n).toNat = n := by
  have := s.fits
  rw [UInt64.toNat_ofNat', Nat.mod_eq_of_lt (by omega)]

/-- **Searching.** The index found is a boundary. -/
theorem isCharBoundary_firstIndex (hs : Utf8.Valid s.bytes) (hr : Utf8.Valid r.bytes) :
    IsCharBoundary s (.ofNat (Text.firstIndex r.bytes s.bytes)) := by
  rw [isCharBoundary_iff hs, s.toNat_ofNat (Text.firstIndex_le _ _)]
  exact Utf8.boundary_firstIndex hs hr

/-- Where the found string ends is a boundary too. -/
theorem isCharBoundary_firstIndex_add (hs : Utf8.Valid s.bytes) (hr : Utf8.Valid r.bytes) {n : Nat}
    (h : Text.OccursAt r.bytes s.bytes n) :
    IsCharBoundary s (.ofNat (Text.firstIndex r.bytes s.bytes + r.bytes.length)) := by
  rw [isCharBoundary_iff hs, s.toNat_ofNat h.firstIndex.add_length_le]
  exact Utf8.boundary_firstIndex_add hs hr h

/-- No boundary lies behind the string. -/
theorem toNat_le_of_isCharBoundary (hs : Utf8.Valid s.bytes) (h : IsCharBoundary s i) :
    i.toNat ≤ s.bytes.length := by
  rcases (isCharBoundary_iff hs).mp h with hend | ⟨b, hb, -⟩
  · exact Nat.le_of_eq hend
  · exact Nat.le_of_lt (List.getElem?_eq_some_iff.mp hb).1

/-- **Cutting.** Between boundaries there is a string, and the native returns it. -/
theorem subString_valid (hs : Utf8.Valid s.bytes) (hi : IsCharBoundary s i)
    (hj : IsCharBoundary s j) (hij : i ≤ j) :
    ∃ sub, makeNativeSubString.Returns [.vectorRef s, .u64 i, .u64 j] (.vectorU8 sub)
      ∧ sub = (s.bytes.drop i.toNat).take (j.toNat - i.toNat) ∧ Utf8.Valid sub := by
  refine ⟨_, makeNativeSubString_in_range hij (toNat_le_of_isCharBoundary hs hj), rfl, ?_⟩
  apply Utf8.valid_slice hs
  · exact (isCharBoundary_iff hs).mp hi
  · exact (isCharBoundary_iff hs).mp hj
  · exact hij

/-- **Splitting.** A string cut at a boundary is two strings. -/
theorem split_valid (hs : Utf8.Valid s.bytes) (hi : IsCharBoundary s i) :
    ∃ front back, s.bytes = front ++ back
      ∧ makeNativeSubString.Returns [.vectorRef s, .u64 0, .u64 i] (.vectorU8 front)
      ∧ makeNativeSubString.Returns [.vectorRef s, .u64 i, .u64 (.ofNat s.bytes.length)]
          (.vectorU8 back)
      ∧ Utf8.Valid front ∧ Utf8.Valid back := by
  have hlength := s.toNat_ofNat (Nat.le_refl s.bytes.length)
  have hle := toNat_le_of_isCharBoundary hs hi
  -- both ends of a string are boundaries, so each half is cut between two
  have hstart : IsCharBoundary s 0 := (isCharBoundary_iff hs).mpr (Utf8.boundary_zero hs)
  have hend : IsCharBoundary s (.ofNat s.bytes.length) :=
    (isCharBoundary_iff hs).mpr (.inl hlength)
  obtain ⟨front, hfrontReturns, hfront, hfrontValid⟩ :=
    subString_valid hs hstart hi (Nat.zero_le i.toNat)
  have hiend : i ≤ .ofNat s.bytes.length := by
    rw [UInt64.le_iff_toNat_le, hlength]
    exact hle
  obtain ⟨back, hbackReturns, hback, hbackValid⟩ := subString_valid hs hi hend hiend
  refine ⟨front, back, ?_, hfrontReturns, hbackReturns, hfrontValid, hbackValid⟩
  rw [hlength, ← List.length_drop, List.take_length] at hback
  rw [hfront, hback]
  exact (List.take_append_drop i.toNat s.bytes).symm

end Spec

/-- **String natives preserve UTF-8.** The search returns the first index where `r` occurs, or the
length, and both ends of what is found are boundaries; between boundaries there is a string, so
that a string is split there into strings; and cutting never panics, and fails just outside. -/
theorem stringNatives_preserve_utf8 :
    (∀ s r : VectorRef, Utf8.Valid s.bytes → Utf8.Valid r.bytes → ∃ pos : UInt64,
      makeNativeIndexOf.Returns [.vectorRef s, .vectorRef r] (.u64 pos)
        ∧ (Text.FirstAt r.bytes s.bytes pos.toNat
          ∨ pos.toNat = s.bytes.length ∧ ∀ i, ¬ Text.OccursAt r.bytes s.bytes i)
        ∧ IsCharBoundary s pos
        ∧ ∀ i, Text.OccursAt r.bytes s.bytes i → ∃ stop : UInt64,
          stop.toNat = pos.toNat + r.bytes.length ∧ IsCharBoundary s stop)
    ∧ (∀ (s : VectorRef) (i j : UInt64), Utf8.Valid s.bytes → IsCharBoundary s i →
      IsCharBoundary s j → i ≤ j →
        ∃ sub, makeNativeSubString.Returns [.vectorRef s, .u64 i, .u64 j] (.vectorU8 sub)
          ∧ sub = (s.bytes.drop i.toNat).take (j.toNat - i.toNat) ∧ Utf8.Valid sub)
    ∧ (∀ (s r : VectorRef) (pos : UInt64), Utf8.Valid s.bytes → Utf8.Valid r.bytes →
      makeNativeIndexOf.Returns [.vectorRef s, .vectorRef r] (.u64 pos) →
        ∃ front back, s.bytes = front ++ back
          ∧ makeNativeSubString.Returns [.vectorRef s, .u64 0, .u64 pos] (.vectorU8 front)
          ∧ makeNativeSubString.Returns [.vectorRef s, .u64 pos, .u64 (.ofNat s.bytes.length)]
              (.vectorU8 back)
          ∧ Utf8.Valid front ∧ Utf8.Valid back)
    ∧ ∀ (s : VectorRef) (i j : UInt64),
      (j < i ∨ s.bytes.length < j.toNat →
        makeNativeSubString [.vectorRef s, .u64 i, .u64 j] = .ok (.abort zeroCost 1))
      ∧ (¬ (j < i ∨ s.bytes.length < j.toNat) →
        makeNativeSubString.Returns [.vectorRef s, .u64 i, .u64 j]
          (.vectorU8 ((s.bytes.drop i.toNat).take (j.toNat - i.toNat)))) := by
  refine ⟨?_, ?_, ?_, ?_⟩
  · intro s r hs hr
    have hpos := s.toNat_ofNat (Text.firstIndex_le r.bytes s.bytes)
    refine ⟨_, makeNativeIndexOf_returns s r, ?_, isCharBoundary_firstIndex hs hr, ?_⟩
    · rw [hpos]
      exact Text.firstIndex_spec r.bytes s.bytes
    · intro i hi
      refine ⟨_, ?_, isCharBoundary_firstIndex_add hs hr hi⟩
      rw [hpos, s.toNat_ofNat hi.firstIndex.add_length_le]
  · intro s i j hs hi hj hij
    exact subString_valid hs hi hj hij
  · intro s r pos hs hr hreturns
    have hpos : UInt64.ofNat (Text.firstIndex r.bytes s.bytes) = pos := by
      have heq := (makeNativeIndexOf_returns s r).symm.trans hreturns
      simpa using heq
    rw [← hpos]
    exact split_valid hs (isCharBoundary_firstIndex hs hr)
  · intro s i j
    refine ⟨makeNativeSubString_out_of_range, fun hin => ?_⟩
    rw [not_or, UInt64.not_lt, Nat.not_lt] at hin
    exact makeNativeSubString_in_range hin.1 hin.2

/-- `"né€"`: characters of one, two and three bytes. -/
def sampleText : VectorRef := ⟨[0x6E, 0xC3, 0xA9, 0xE2, 0x82, 0xAC], by decide⟩

/-- `"€"`. -/
def sampleEuro : VectorRef := ⟨[0xE2, 0x82, 0xAC], by decide⟩

theorem valid_sampleText : Utf8.Valid sampleText.bytes := ⟨['n', 'é', '€'], by decide⟩

theorem valid_sampleEuro : Utf8.Valid sampleEuro.bytes := ⟨['€'], by decide⟩

theorem stringNatives_preserve_utf8_sample :
    (∃ pos : UInt64, makeNativeIndexOf.Returns [.vectorRef sampleText, .vectorRef sampleEuro]
        (.u64 pos) ∧ IsCharBoundary sampleText pos)
      ∧ (∃ sub, makeNativeSubString.Returns [.vectorRef sampleText, .u64 1, .u64 3]
          (.vectorU8 sub) ∧ Utf8.Valid sub)
      ∧ (∃ front back, sampleText.bytes = front ++ back ∧ Utf8.Valid front ∧ Utf8.Valid back)
      ∧ makeNativeSubString [.vectorRef sampleText, .u64 1, .u64 7]
          = .ok (.abort zeroCost 1) := by
  obtain ⟨hsearch, hcut, hsplit, hrange⟩ := stringNatives_preserve_utf8
  have hone : IsCharBoundary sampleText 1 :=
    (isCharBoundary_iff valid_sampleText).mpr (.inr ⟨0xC3, rfl, by decide⟩)
  have hthree : IsCharBoundary sampleText 3 :=
    (isCharBoundary_iff valid_sampleText).mpr (.inr ⟨0xE2, rfl, by decide⟩)
  refine ⟨?_, ?_, ?_, ?_⟩
  · obtain ⟨pos, hreturns, -, hpos, -⟩ :=
      hsearch sampleText sampleEuro valid_sampleText valid_sampleEuro
    exact ⟨pos, hreturns, hpos⟩
  · obtain ⟨sub, hreturns, -, hsub⟩ :=
      hcut sampleText 1 3 valid_sampleText hone hthree (by decide)
    exact ⟨sub, hreturns, hsub⟩
  · obtain ⟨front, back, hbytes, -, -, hfront, hback⟩ :=
      hsplit sampleText sampleEuro 3 valid_sampleText valid_sampleEuro rfl
    exact ⟨front, back, hbytes, hfront, hback⟩
  · exact (hrange sampleText 1 7).1 (.inr (by decide))

end NexusMove
