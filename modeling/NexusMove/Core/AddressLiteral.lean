import Mathlib.Data.List.Forall2
import NexusMove.Core.Types
import NexusMove.Lib.BigEndian
import NexusMove.Lib.Except

/-!
# Addresses in text

`AccountAddress::from_hex_literal` of `nexus-move-types`, and the way an address is
printed there. The parser works on the bytes of the text: it drops a prefix, puts a zero
in front of an odd number of digits, and reads two digits at a time. Its second index
would panic on an odd number; `none` stands for the panic.

* `AccountAddress.HexLiteral` — the texts that denote a number, and which.
* `hexLiteral_iff` — the parser reads exactly these, and as that number.
* `address_literals` — parsing never panics, and it inverts printing.
-/

namespace NexusMove

/-- `AddressParseError`, with the place of the byte that is no digit. -/
inductive AddressParseError where
  | empty
  | invalidHex (index : Nat) (byte : UInt8)
  | tooLong (bytes : Nat)
deriving DecidableEq

abbrev AddressResult (α : Type) := Except AddressParseError α

/-- `decode_nibble`: decimal digits, then lower and upper case letters. -/
def decodeNibble (byte : UInt8) (index : Nat) : AddressResult UInt8 :=
  if 48 ≤ byte ∧ byte ≤ 57 then .ok (byte - 48)
  else if 97 ≤ byte ∧ byte ≤ 102 then .ok (byte - 97 + 10)
  else if 65 ≤ byte ∧ byte ≤ 70 then .ok (byte - 65 + 10)
  else .error (.invalidHex index byte)

/-- The loop of `decode_hex` from `index` on, where the bytes are what is left there. -/
def decodeHexFrom : Bytes → Nat → Option (AddressResult Bytes)
  | [], _ => some (.ok [])
  | hiByte :: rest, index =>
    match decodeNibble hiByte index with
    | .error e => some (.error e)
    | .ok hi =>
      match rest with
      | [] => none
      | loByte :: rest =>
        match decodeNibble loByte (index + 1) with
        | .error e => some (.error e)
        | .ok lo =>
          (decodeHexFrom rest (index + 2)).map fun decoded =>
            decoded.map fun decoded => (hi <<< 4 ||| lo) :: decoded

def decodeHex (bytes : Bytes) : Option (AddressResult Bytes) := decodeHexFrom bytes 0

def stripPrefix (pre input : Bytes) : Option Bytes :=
  if pre <+: input then some (input.drop pre.length) else none

namespace AccountAddress

def normalized (input : Bytes) : Bytes := if input.length % 2 = 0 then input else 48 :: input

/-- `from_hex`: what is decoded is put at the end of 32 zero bytes. -/
def fromHex (input : Bytes) : Option (AddressResult AccountAddress) :=
  if input.isEmpty then some (.error .empty)
  else
    (decodeHex (normalized input)).map fun decoded => do
      let decoded ← decoded
      if h : decoded.length ≤ 32 then return .ofTail decoded h
      else throw (.tooLong decoded.length)

/-- `from_hex_literal`: the prefix is dropped once, in either case. -/
def fromHexLiteral (input : String) : Option (AddressResult AccountAddress) :=
  let stripped := ((stripPrefix "0x".utf8 input.utf8).or (stripPrefix "0X".utf8 input.utf8)).getD
    input.utf8
  fromHex stripped

/-- `to_string`. -/
def toDisplay (a : AccountAddress) : String := "0x" ++ a.toHex

/-- The number whose 32 big-endian bytes an address is. -/
def value (a : AccountAddress) : Nat := BigEndian.value 256 (a.intoBytes.map UInt8.toNat)

end AccountAddress

/-! ## Hexadecimal digits -/

def lowerDigits : Bytes := "0123456789abcdef".utf8

def upperDigits : Bytes := "0123456789ABCDEF".utf8

/-- `c` is the digit for `d`, in either case. -/
def HexDigit (c : UInt8) (d : Nat) : Prop := lowerDigits[d]? = some c ∨ upperDigits[d]? = some c

instance (c : UInt8) (d : Nat) : Decidable (HexDigit c d) := inferInstanceAs (Decidable (_ ∨ _))

/-- A text is a number in hexadecimal digits, 1 to 64 of them, after at most one prefix. -/
def AccountAddress.HexLiteral (s : String) (n : Nat) : Prop :=
  ∃ pre ∈ ["", "0x", "0X"], ∃ digits values, s.utf8 = pre.utf8 ++ digits
    ∧ List.Forall₂ HexDigit digits values ∧ 1 ≤ digits.length ∧ digits.length ≤ 64
    ∧ BigEndian.value 16 values = n

section Digits

theorem HexDigit.lt {c : UInt8} {d : Nat} (h : HexDigit c d) : d < 16 := by
  rcases h with h | h
  · exact (List.getElem?_eq_some_iff.mp h).1
  · exact (List.getElem?_eq_some_iff.mp h).1

theorem lowerDigits_eq :
    lowerDigits = [48, 49, 50, 51, 52, 53, 54, 55, 56, 57, 97, 98, 99, 100, 101, 102] := by
  decide

theorem upperDigits_eq :
    upperDigits = [48, 49, 50, 51, 52, 53, 54, 55, 56, 57, 65, 66, 67, 68, 69, 70] := by
  decide

/-- The digits of the three ranges of `decode_nibble`. -/
theorem hexDigit_ranges :
    (∀ k : Fin 10, HexDigit (.ofNat (48 + k)) k)
    ∧ ∀ k : Fin 6, HexDigit (.ofNat (97 + k)) (k + 10) ∧ HexDigit (.ofNat (65 + k)) (k + 10) := by
  unfold HexDigit
  rw [lowerDigits_eq, upperDigits_eq]
  decide

/-- A byte is its distance from the first of a range. -/
theorem hexDigit_of_range {c : UInt8} {base d : Nat} (hbase : base ≤ c.toNat)
    (h : HexDigit (.ofNat (base + (c.toNat - base))) d) : HexDigit c d := by
  rwa [Nat.add_sub_cancel' hbase, UInt8.ofNat_toNat] at h

/-- The subtraction and the addition of `decode_nibble` do not wrap. -/
theorem toNat_letter {c base : UInt8} (hlo : base.toNat ≤ c.toNat)
    (hhi : c.toNat < base.toNat + 6) : (c - base + 10).toNat = c.toNat - base.toNat + 10 := by
  have hsub := UInt8.toNat_sub_of_le c base (UInt8.le_iff_toNat_le.mpr hlo)
  rw [UInt8.toNat_add, hsub]
  show (c.toNat - base.toNat + 10) % 256 = _
  omega

/-- What is read is the digit, by the range that the byte lies in. -/
theorem hexDigit_of_decodeNibble {c d : UInt8} {index : Nat} (h : decodeNibble c index = .ok d) :
    HexDigit c d.toNat := by
  obtain ⟨hdecimal, hletters⟩ := hexDigit_ranges
  unfold decodeNibble at h
  -- the three ranges as inequalities between numbers
  simp only [UInt8.le_iff_toNat_le, UInt8.reduceToNat] at h
  split_ifs at h with hrange hrange hrange
  · obtain rfl := Except.ok.inj h
    rw [UInt8.toNat_sub_of_le c 48 (UInt8.le_iff_toNat_le.mpr hrange.1)]
    exact hexDigit_of_range hrange.1 (hdecimal ⟨c.toNat - 48, by omega⟩)
  · obtain rfl := Except.ok.inj h
    rw [@toNat_letter c 97 hrange.1 (by show c.toNat < 103; omega)]
    exact hexDigit_of_range hrange.1 (hletters ⟨c.toNat - 97, by omega⟩).1
  · obtain rfl := Except.ok.inj h
    rw [@toNat_letter c 65 hrange.1 (by show c.toNat < 71; omega)]
    exact hexDigit_of_range hrange.1 (hletters ⟨c.toNat - 65, by omega⟩).2

/-- `decode_nibble` reads the digits, in either case. -/
theorem decodeNibble_eq_ok {c d : UInt8} {index : Nat} :
    decodeNibble c index = .ok d ↔ HexDigit c d.toNat := by
  refine ⟨hexDigit_of_decodeNibble, fun h => ?_⟩
  -- the index is part of the error only
  have hindex : decodeNibble c index = .ok d ↔ decodeNibble c 0 = .ok d := by
    unfold decodeNibble
    split_ifs <;> simp
  -- all sixteen digits, in both cases
  have hall : ∀ d : Fin 16,
      lowerDigits[d.val]?.all (fun c => decodeNibble c 0 = .ok (UInt8.ofNat d)) = true
      ∧ upperDigits[d.val]?.all (fun c => decodeNibble c 0 = .ok (UInt8.ofNat d)) = true := by
    rw [lowerDigits_eq, upperDigits_eq]
    decide
  obtain ⟨hlower, hupper⟩ := hall ⟨d.toNat, h.lt⟩
  rw [UInt8.ofNat_toNat] at hlower hupper
  rw [hindex]
  rcases h with h | h
  · simpa [h] using hlower
  · simpa [h] using hupper

/-- Shifting and or-ing puts the two digits side by side. -/
theorem combine_nibbles {hi lo : UInt8} (hhi : hi.toNat < 16) (hlo : lo.toNat < 16) :
    (hi <<< 4 ||| lo).toNat / 16 = hi.toNat ∧ (hi <<< 4 ||| lo).toNat % 16 = lo.toNat := by
  have hall : ∀ a b : Fin 16,
      (UInt8.ofNat a <<< 4 ||| UInt8.ofNat b).toNat / 16 = a
      ∧ (UInt8.ofNat a <<< 4 ||| UInt8.ofNat b).toNat % 16 = b := by
    decide
  simpa using hall ⟨hi.toNat, hhi⟩ ⟨lo.toNat, hlo⟩

/-- A byte is its two digits. -/
theorem exists_combine (b : UInt8) :
    ∃ hi lo : UInt8, hi.toNat = b.toNat / 16 ∧ lo.toNat = b.toNat % 16 ∧ (hi <<< 4 ||| lo) = b := by
  have hb := b.toNat_lt
  have hdiv : (UInt8.ofNat (b.toNat / 16)).toNat = b.toNat / 16 := by
    rw [UInt8.toNat_ofNat']
    omega
  have hmod : (UInt8.ofNat (b.toNat % 16)).toNat = b.toNat % 16 := by
    rw [UInt8.toNat_ofNat']
    omega
  refine ⟨_, _, hdiv, hmod, ?_⟩
  obtain ⟨hhi, hlo⟩ := @combine_nibbles (UInt8.ofNat (b.toNat / 16)) (UInt8.ofNat (b.toNat % 16))
    (by omega) (by omega)
  rw [← UInt8.toNat_inj]
  omega

/-- The bytes of an address, each as two digits. -/
def nibbles (decoded : Bytes) : List Nat := BigEndian.pairs 16 (decoded.map UInt8.toNat)

/-- One round of the loop. -/
theorem decodeHexFrom_cons_cons_eq_ok {hiByte loByte : UInt8} {rest decoded : Bytes} {index : Nat} :
    decodeHexFrom (hiByte :: loByte :: rest) index = some (.ok decoded) ↔
      ∃ hi lo tail, decodeNibble hiByte index = .ok hi ∧ decodeNibble loByte (index + 1) = .ok lo
        ∧ decodeHexFrom rest (index + 2) = some (.ok tail)
        ∧ (hi <<< 4 ||| lo) :: tail = decoded := by
  rw [decodeHexFrom]
  cases decodeNibble hiByte index with
  | error e => simp
  | ok hi =>
    dsimp only
    cases decodeNibble loByte (index + 1) with
    | error e => simp
    | ok lo =>
      cases decodeHexFrom rest (index + 2) with
      | none => simp
      | some result => cases result <;> simp [Except.map]

/-- An even number of bytes never panics. -/
theorem decodeHexFrom_ne_none : ∀ {bytes : Bytes} {index : Nat}, bytes.length % 2 = 0 →
    decodeHexFrom bytes index ≠ none
  | [], _, _ => by simp [decodeHexFrom]
  | hiByte :: loByte :: rest, index, heven => by
    -- two bytes less are an even number still
    have heven' : rest.length % 2 = 0 := by
      rw [List.length_cons, List.length_cons] at heven
      omega
    have hrest : decodeHexFrom rest (index + 2) ≠ none := decodeHexFrom_ne_none heven'
    rw [decodeHexFrom]
    cases decodeNibble hiByte index with
    | error e => simp
    | ok hi =>
      dsimp only
      cases decodeNibble loByte (index + 1) with
      | error e => simp
      | ok lo => simpa using hrest

/-- `decode_hex` reads the digits of the bytes that it returns. -/
theorem decodeHexFrom_eq_ok : ∀ {bytes decoded : Bytes} {index : Nat}, bytes.length % 2 = 0 →
    (decodeHexFrom bytes index = some (.ok decoded) ↔ List.Forall₂ HexDigit bytes (nibbles decoded))
  | [], decoded, _, _ => by
    cases decoded with
    | nil => exact iff_of_true rfl .nil
    | cons b tail =>
      refine iff_of_false ?_ ?_
      · simp [decodeHexFrom]
      · intro h
        cases h
  | hiByte :: loByte :: rest, decoded, index, heven => by
    have heven' : rest.length % 2 = 0 := by
      rw [List.length_cons, List.length_cons] at heven
      omega
    rw [decodeHexFrom_cons_cons_eq_ok]
    -- one round of the loop reads two digits and gives one byte
    constructor
    · rintro ⟨hi, lo, tail, hhi, hlo, htail, rfl⟩
      rw [decodeNibble_eq_ok] at hhi hlo
      obtain ⟨hdiv, hmod⟩ := combine_nibbles hhi.lt hlo.lt
      show List.Forall₂ HexDigit _ (_ / 16 :: _ % 16 :: nibbles tail)
      rw [hdiv, hmod]
      exact .cons hhi (.cons hlo ((decodeHexFrom_eq_ok heven').mp htail))
    · intro h
      cases decoded with
      | nil => cases h
      | cons b tail =>
        obtain ⟨hhi, hrest⟩ := List.forall₂_cons.mp h
        obtain ⟨hlo, htail⟩ := List.forall₂_cons.mp hrest
        obtain ⟨hi, lo, hdiv, hmod, rfl⟩ := exists_combine b
        rw [← hdiv] at hhi
        rw [← hmod] at hlo
        exact ⟨hi, lo, tail, decodeNibble_eq_ok.mpr hhi, decodeNibble_eq_ok.mpr hlo,
          (decodeHexFrom_eq_ok heven').mpr htail, rfl⟩

end Digits

namespace AccountAddress

/-! ## Addresses as numbers -/

/-- An address has 32 bytes, so its number determines it. -/
theorem value_injective : Function.Injective value := by
  intro a b h
  have hlt : ∀ (bs : Bytes), ∀ n ∈ bs.map UInt8.toNat, n < 256 := by
    intro bs n hn
    obtain ⟨byte, -, rfl⟩ := List.mem_map.mp hn
    exact byte.toNat_lt
  have hbytes :=
    (BigEndian.value_inj (by decide) (by simp) (hlt a.intoBytes) (hlt b.intoBytes)).mp h
  exact intoBytes_injective (List.map_injective_iff.mpr (fun _ _ => UInt8.toNat_inj.mp) hbytes)

/-- The zeros in front do not count. -/
theorem value_ofTail {tail : Bytes} (h : tail.length ≤ 32) :
    (ofTail tail h).value = BigEndian.value 16 (nibbles tail) := by
  have hbytes : (ofTail tail h).intoBytes = List.replicate (32 - tail.length) 0 ++ tail := rfl
  rw [value, hbytes, List.map_append, List.map_replicate, UInt8.toNat_zero,
    BigEndian.value_replicate_append, nibbles, BigEndian.value_pairs]

/-! ## The parser -/

/-- The character `0` is the digit zero and no other. -/
theorem hexDigit_zero {d : Nat} : HexDigit 48 d ↔ d = 0 := by
  have hall : ∀ d : Fin 16, HexDigit 48 d ↔ d.val = 0 := by
    unfold HexDigit
    rw [lowerDigits_eq, upperDigits_eq]
    decide
  constructor
  · intro h
    exact (hall ⟨d, h.lt⟩).mp h
  · rintro rfl
    exact (hall 0).mpr rfl

theorem lt_of_forall₂ {digits : Bytes} {values : List Nat}
    (h : List.Forall₂ HexDigit digits values) :
    ∀ d ∈ values, d < 16 := by
  induction h with
  | nil => simp
  | cons hd _ ih => exact List.forall_mem_cons.mpr ⟨hd.lt, ih⟩

/-- The values of an even number of digits are those of some bytes. -/
theorem exists_nibbles {values : List Nat} (heven : values.length % 2 = 0)
    (hlt : ∀ d ∈ values, d < 16) : ∃ decoded, nibbles decoded = values := by
  obtain ⟨es, hes, hbytes⟩ := BigEndian.exists_pairs (by decide) heven hlt
  refine ⟨es.map UInt8.ofNat, ?_⟩
  -- each of the numbers is below 256, so the cast to a byte keeps it
  have hsame : (es.map UInt8.ofNat).map UInt8.toNat = es := by
    rw [List.map_map]
    have hid : es.map (UInt8.toNat ∘ UInt8.ofNat) = es.map id := by
      refine List.map_congr_left fun e he => ?_
      have hlt := hbytes e he
      show (UInt8.ofNat e).toNat = e
      rw [UInt8.toNat_ofNat']
      omega
    rw [hid, List.map_id]
  rw [nibbles, hsame, hes]

/-- After the zero in front, the digits come in pairs. -/
theorem even_normalized (input : Bytes) : (normalized input).length % 2 = 0 := by
  unfold normalized
  split_ifs with heven
  · exact heven
  · rw [List.length_cons]
    omega

/-- A zero in front changes neither whether there are digits only, nor the number. -/
theorem forall₂_normalized {input decoded : Bytes} :
    List.Forall₂ HexDigit (normalized input) (nibbles decoded) ↔
      ∃ values, List.Forall₂ HexDigit input values
        ∧ nibbles decoded = (if input.length % 2 = 0 then values else 0 :: values) := by
  unfold normalized
  split_ifs with heven
  · simp
  · constructor
    · intro h
      -- the first digit is the zero that was put in front
      obtain ⟨v, values, hv, hvalues, hsplit⟩ := List.forall₂_cons_left_iff.mp h
      obtain rfl := hexDigit_zero.mp hv
      exact ⟨values, hvalues, hsplit⟩
    · rintro ⟨values, hvalues, hsplit⟩
      rw [hsplit]
      exact .cons (hexDigit_zero.mpr rfl) hvalues

/-- What `from_hex` returns, by the bytes that it decodes. -/
theorem fromHex_eq_ok_iff_decoded {input : Bytes} {a : AccountAddress} :
    fromHex input = some (.ok a) ↔ input ≠ [] ∧ ∃ decoded,
      List.Forall₂ HexDigit (normalized input) (nibbles decoded)
      ∧ ∃ h : decoded.length ≤ 32, ofTail decoded h = a := by
  have hdecode : ∀ decoded, decodeHexFrom (normalized input) 0 = some (.ok decoded)
      ↔ List.Forall₂ HexDigit (normalized input) (nibbles decoded) :=
    fun decoded => decodeHexFrom_eq_ok (even_normalized input)
  simp only [← hdecode]
  unfold fromHex
  cases input with
  | nil => simp
  | cons c cs =>
    rw [if_neg (by simp), Option.map_eq_some_iff]
    simp only [ne_eq, reduceCtorEq, not_false_eq_true, true_and]
    constructor
    · rintro ⟨result, hresult, ha⟩
      obtain ⟨decoded, rfl, hrest⟩ := Except.bind_eq_ok.mp ha
      split_ifs at hrest with h
      exact ⟨decoded, hresult, h, Except.pure_eq_ok.mp hrest⟩
    · rintro ⟨decoded, hdecoded, h, rfl⟩
      exact ⟨.ok decoded, hdecoded, dif_pos h⟩

section Values

variable {input decoded : Bytes} {values : List Nat} (hvalues : List.Forall₂ HexDigit input values)
include hvalues

/-- The bytes that digits stand for, with the zero in front if it is needed. -/
theorem exists_decoded :
    ∃ decoded, nibbles decoded = (if input.length % 2 = 0 then values else 0 :: values) := by
  have hsame := hvalues.length_eq
  have hlt := lt_of_forall₂ hvalues
  split_ifs with heven
  · exact exists_nibbles (by omega) hlt
  · refine exists_nibbles ?_ (List.forall_mem_cons.mpr ⟨by decide, hlt⟩)
    rw [List.length_cons]
    omega

/-- They fit into an address if the digits do, and denote the same number. -/
theorem value_decoded
    (h : nibbles decoded = (if input.length % 2 = 0 then values else 0 :: values)) :
    (decoded.length ≤ 32 ↔ input.length ≤ 64)
    ∧ BigEndian.value 16 (nibbles decoded) = BigEndian.value 16 values := by
  have hsame := hvalues.length_eq
  -- two digits for each byte
  have hcount : (nibbles decoded).length = 2 * decoded.length := by
    rw [nibbles, BigEndian.length_pairs, List.length_map]
  rw [h] at hcount ⊢
  split_ifs at hcount ⊢ with heven
  · -- an even number of digits, or one more with the zero
    exact ⟨by omega, rfl⟩
  · rw [List.length_cons] at hcount
    rw [BigEndian.value_cons, Nat.zero_mul, Nat.zero_add]
    exact ⟨by omega, rfl⟩

end Values

/-- What `from_hex` reads: 1 to 64 digits, as the number that they denote. -/
theorem fromHex_eq_ok {input : Bytes} {a : AccountAddress} :
    fromHex input = some (.ok a) ↔ ∃ values, List.Forall₂ HexDigit input values
      ∧ 1 ≤ input.length ∧ input.length ≤ 64 ∧ BigEndian.value 16 values = a.value := by
  rw [fromHex_eq_ok_iff_decoded]
  simp only [forall₂_normalized]
  constructor
  · rintro ⟨hne, decoded, ⟨values, hvalues, hsplit⟩, h, rfl⟩
    obtain ⟨hfits, hvalue⟩ := value_decoded hvalues hsplit
    refine ⟨values, hvalues, List.length_pos_iff.mpr hne, hfits.mp h, ?_⟩
    rw [value_ofTail, hvalue]
  · rintro ⟨values, hvalues, hpos, hle, hvalue⟩
    obtain ⟨decoded, hdecoded⟩ := exists_decoded hvalues
    obtain ⟨hfits, hsame⟩ := value_decoded hvalues hdecoded
    refine ⟨List.length_pos_iff.mp hpos, decoded, ⟨values, hvalues, hdecoded⟩, hfits.mpr hle, ?_⟩
    exact value_injective (by rw [value_ofTail, hsame, hvalue])

/-- No input makes the loop read past its end. -/
theorem fromHex_ne_none (input : Bytes) : fromHex input ≠ none := by
  unfold fromHex
  split_ifs with hempty
  · simp
  · intro hnone
    exact decodeHexFrom_ne_none (even_normalized input) (Option.map_eq_none_iff.mp hnone)

theorem utf8_zeroX : "0x".utf8 = [48, 120] ∧ "0X".utf8 = [48, 88] := by decide

theorem stripPrefix_append (pre rest : Bytes) : stripPrefix pre (pre ++ rest) = some rest := by
  rw [stripPrefix, if_pos (List.prefix_append pre rest), List.drop_left]

/-- No digit is the letter of a prefix. -/
theorem stripPrefix_digits {c : UInt8} (hc : ∀ d : Fin 16, ¬ HexDigit c d) {digits : Bytes}
    {values : List Nat} (h : List.Forall₂ HexDigit digits values) :
    stripPrefix [48, c] digits = none := by
  rw [stripPrefix, if_neg]
  rintro ⟨rest, rfl⟩
  obtain ⟨v, vs, -, hrest, -⟩ := List.forall₂_cons_left_iff.mp h
  obtain ⟨w, ws, hw, -, -⟩ := List.forall₂_cons_left_iff.mp hrest
  exact hc ⟨w, hw.lt⟩ hw

/-- `from_hex_literal` drops the prefix of a text that has one of these, and nothing else. -/
theorem stripped_append {digits : Bytes} {values : List Nat}
    (h : List.Forall₂ HexDigit digits values)
    {pre : String} (hpre : pre ∈ ["", "0x", "0X"]) :
    ((stripPrefix "0x".utf8 (pre.utf8 ++ digits)).or
      (stripPrefix "0X".utf8 (pre.utf8 ++ digits))).getD (pre.utf8 ++ digits) = digits := by
  obtain ⟨hlower, hupper⟩ := utf8_zeroX
  simp only [List.mem_cons, List.not_mem_nil, or_false] at hpre
  rcases hpre with rfl | rfl | rfl
  · -- no prefix: neither `x` nor `X` is a digit, so nothing is dropped
    have hempty : "".utf8 = [] := by decide
    have hletters :
        (∀ d : Fin 16, ¬ HexDigit 120 d) ∧ ∀ d : Fin 16, ¬ HexDigit 88 d := by
      unfold HexDigit
      rw [lowerDigits_eq, upperDigits_eq]
      decide
    rw [hempty, List.nil_append, hlower, hupper, stripPrefix_digits hletters.1 h,
      stripPrefix_digits hletters.2 h]
    rfl
  · rw [stripPrefix_append]
    rfl
  · -- `0X` is not taken for `0x`
    have hother : stripPrefix "0x".utf8 ("0X".utf8 ++ digits) = none := by
      rw [hlower, hupper, stripPrefix, if_neg (by simp)]
    rw [hother, stripPrefix_append]
    rfl

theorem of_stripPrefix {pre input rest : Bytes} (h : stripPrefix pre input = some rest) :
    input = pre ++ rest := by
  unfold stripPrefix at h
  split_ifs at h with hpre
  obtain ⟨t, rfl⟩ := hpre
  rw [List.drop_left] at h
  rw [Option.some.inj h]

/-- Every text is what was dropped and what was left. -/
theorem exists_prefix (s : String) : ∃ pre ∈ ["", "0x", "0X"], s.utf8 = pre.utf8
    ++ ((stripPrefix "0x".utf8 s.utf8).or (stripPrefix "0X".utf8 s.utf8)).getD s.utf8 := by
  cases hlower : stripPrefix "0x".utf8 s.utf8 with
  | some rest => exact ⟨"0x", by simp, of_stripPrefix hlower⟩
  | none =>
    cases hupper : stripPrefix "0X".utf8 s.utf8 with
    | some rest => exact ⟨"0X", by simp, of_stripPrefix hupper⟩
    | none => exact ⟨"", by simp, rfl⟩

/-- **What the parser reads.** It accepts the texts that denote a number, and returns the address
that is this number. -/
theorem fromHexLiteral_eq_ok {s : String} {a : AccountAddress} :
    fromHexLiteral s = some (.ok a) ↔ HexLiteral s a.value := by
  rw [fromHexLiteral, fromHex_eq_ok]
  constructor
  · rintro ⟨values, hvalues, hpos, hle, hvalue⟩
    obtain ⟨pre, hpre, hsplit⟩ := exists_prefix s
    exact ⟨pre, hpre, _, values, hsplit, hvalues, hpos, hle, hvalue⟩
  · rintro ⟨pre, hpre, digits, values, hsplit, hvalues, hpos, hle, hvalue⟩
    rw [hsplit, stripped_append hvalues hpre]
    exact ⟨values, hvalues, hpos, hle, hvalue⟩

/-- No text makes the parser panic. -/
theorem fromHexLiteral_ne_none (s : String) : fromHexLiteral s ≠ none := fromHex_ne_none _

/-- What `from_hex_literal` returns, which it does for every text. -/
def ofHexLiteral (s : String) : AddressResult AccountAddress :=
  (fromHexLiteral s).get (Option.isSome_iff_ne_none.mpr (fromHexLiteral_ne_none s))

/-- Reading succeeds exactly on literals of the address. -/
theorem ofHexLiteral_eq_ok {s : String} {a : AccountAddress} :
    ofHexLiteral s = .ok a ↔ HexLiteral s a.value := by
  rw [← fromHexLiteral_eq_ok, Option.eq_some_iff_get_eq]
  exact ⟨fun h => ⟨_, h⟩, fun ⟨_, h⟩ => h⟩

/-- A number in 64 digits is an address. -/
theorem HexLiteral.exists_value {s : String} {n : Nat} (h : HexLiteral s n) :
    ∃ a : AccountAddress, a.value = n := by
  obtain ⟨pre, -, digits, values, -, hvalues, -, hle, rfl⟩ := h
  obtain ⟨decoded, hdecoded⟩ := exists_decoded hvalues
  obtain ⟨hfits, hsame⟩ := value_decoded hvalues hdecoded
  exact ⟨ofTail decoded (hfits.mpr hle), by rw [value_ofTail, hsame]⟩

/-! ## Printing -/

/-- What is printed for some bytes is their digits. -/
theorem utf8_digits (bytes : Bytes) :
    (String.ofList (bytes.flatMap fun b => [toHex.digit (b / 16), toHex.digit (b % 16)])).utf8
      = (nibbles bytes).map fun d => lowerDigits.getD d 0 := by
  have hall : ∀ d : Fin 16,
      String.utf8EncodeChar (toHex.digit (.ofNat d)) = [lowerDigits.getD d 0] := by
    rw [lowerDigits_eq]
    decide
  -- the printer gives each digit in lower case
  have hdigit : ∀ d : UInt8, d.toNat < 16 →
      String.utf8EncodeChar (toHex.digit d) = [lowerDigits.getD d.toNat 0] := by
    intro d hd
    simpa using hall ⟨d.toNat, hd⟩
  rw [utf8_ofList]
  induction bytes with
  | nil => rfl
  | cons b bytes ih =>
    have hb := b.toNat_lt
    have hdiv : (b / 16).toNat = b.toNat / 16 := UInt8.toNat_div b 16
    have hmod : (b % 16).toNat = b.toNat % 16 := UInt8.toNat_mod b 16
    have hhi := hdigit (b / 16) (by omega)
    have hlo := hdigit (b % 16) (by omega)
    rw [hdiv] at hhi
    rw [hmod] at hlo
    rw [List.flatMap_cons, List.flatMap_append, ih, List.flatMap_cons, List.flatMap_cons, hhi, hlo]
    rfl

/-- **Printing.** The printed form of an address denotes it. -/
theorem hexLiteral_toDisplay (a : AccountAddress) : HexLiteral a.toDisplay a.value := by
  have hall : ∀ d : Fin 16, HexDigit (lowerDigits.getD d 0) d := by
    unfold HexDigit
    rw [lowerDigits_eq]
    decide
  -- the digits of bytes are digits
  have hlt : ∀ d ∈ nibbles a.intoBytes, d < 16 := by
    intro d hd
    obtain ⟨n, hn, hd⟩ := List.mem_flatMap.mp hd
    obtain ⟨b, -, rfl⟩ := List.mem_map.mp hn
    have hb := b.toNat_lt
    simp only [List.mem_cons, List.not_mem_nil, or_false] at hd
    omega
  have hlength : (nibbles a.intoBytes).length = 64 := by
    rw [nibbles, BigEndian.length_pairs, List.length_map, length_intoBytes]
  refine ⟨"0x", by simp, (nibbles a.intoBytes).map fun d => lowerDigits.getD d 0,
    nibbles a.intoBytes, ?_, ?_, ?_, ?_, ?_⟩
  · rw [toDisplay, utf8_append, toHex, utf8_digits]
  · rw [List.forall₂_map_left_iff, List.forall₂_same]
    exact fun d hd => hall ⟨d, hlt d hd⟩
  · rw [List.length_map, hlength]
    decide
  · rw [List.length_map, hlength]
  · rw [nibbles, BigEndian.value_pairs, value]

end AccountAddress

/-- **Addresses in text.** The parser never panics. It accepts exactly the texts that denote a number
and returns the address that is this number, so two texts are read as one address if and only if
they denote one number; and it reads an address back from its printed form. -/
theorem address_literals :
    (∀ s, AccountAddress.fromHexLiteral s ≠ none)
    ∧ (∀ s n, AccountAddress.HexLiteral s n ↔
        ∃ a, AccountAddress.fromHexLiteral s = some (.ok a) ∧ a.value = n)
    ∧ (∀ a, AccountAddress.fromHexLiteral a.toDisplay = some (.ok a))
    ∧ ∀ s t m n, AccountAddress.HexLiteral s m → AccountAddress.HexLiteral t n →
        (AccountAddress.fromHexLiteral s = AccountAddress.fromHexLiteral t ↔ m = n) := by
  have hread : ∀ s n, AccountAddress.HexLiteral s n ↔
      ∃ a, AccountAddress.fromHexLiteral s = some (.ok a) ∧ a.value = n := by
    intro s n
    constructor
    · intro h
      obtain ⟨a, rfl⟩ := h.exists_value
      exact ⟨a, AccountAddress.fromHexLiteral_eq_ok.mpr h, rfl⟩
    · rintro ⟨a, ha, rfl⟩
      exact AccountAddress.fromHexLiteral_eq_ok.mp ha
  refine ⟨AccountAddress.fromHexLiteral_ne_none, hread, ?_, ?_⟩
  · exact fun a => AccountAddress.fromHexLiteral_eq_ok.mpr (AccountAddress.hexLiteral_toDisplay a)
  · intro s t m n hs ht
    -- two literals are read as two addresses, which are equal if their numbers are
    obtain ⟨a, ha, rfl⟩ := (hread s m).mp hs
    obtain ⟨b, hb, rfl⟩ := (hread t n).mp ht
    rw [ha, hb, Option.some.injEq, Except.ok.injEq, AccountAddress.value_injective.eq_iff]

end NexusMove
