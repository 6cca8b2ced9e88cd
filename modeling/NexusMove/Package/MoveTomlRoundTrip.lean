import NexusMove.Package.MoveToml

/-!
# Reading a rendered Move.toml

A file that states a name, a policy and addresses, laid out in any way: blank lines, comments
and indentation anywhere. The reader gets back what was rendered, unless there is a `#` in the
name, which it takes for the start of a comment.

* `Renders` — the files that state these.
* `readLine_decorated`, `readLine_keyLine` — layout does not matter, and what a line says.
* `hash_not_mem_packageName` — no name with a `#` is ever read.
* `move_toml_inverts_iff` — when a file reads back.
-/

namespace NexusMove.Package

/-! ## Rendering -/

/-- Text that needs no escapes in a basic string. -/
def IsPlain (text : String) : Prop :=
  ∀ c ∈ text.toList, c ≠ '"' ∧ c ≠ '\\' ∧ ¬ (c.toNat < 0x20 ∨ c.toNat = 0x7F)

/-- What a line can have in front of the equals sign. -/
def IsName (name : String) : Prop :=
  name.toList ≠ [] ∧ ∀ c ∈ name.toList, (c.isAlphanum || c == '_') = true

instance (text : String) : Decidable (IsPlain text) := List.decidableBAll _ text.toList

instance (name : String) : Decidable (IsName name) :=
  have := List.decidableBAll (fun c => (c.isAlphanum || c == '_') = true) name.toList
  inferInstanceAs (Decidable (_ ∧ _))

/-- `key = "value"`. -/
def keyLine (key value : String) : List Char :=
  key.toList ++ ' ' :: '=' :: ' ' :: '"' :: value.toList ++ ['"']

/-- The texts of a policy. `governance_only` is read as well as `governance`. -/
def policyTexts : UpgradePolicy → List String
  | .immutable => ["immutable"]
  | .compatible => ["compatible"]
  | .governanceOnly => ["governance", "governance_only"]

/-- A line of the section of addresses, with any literal of the address. -/
def IsAddressLine (a : NamedAddressAssignment) (line : List Char) : Prop :=
  IsName a.name ∧ ∃ literal, AccountAddress.HexLiteral literal a.address.value
    ∧ line = keyLine a.name literal

/-- White space within a line. -/
def IsLayout (text : List Char) : Prop := ∀ c ∈ text, isWhitespace c = true ∧ c ≠ '\n'

instance (text : List Char) : Decidable (IsLayout text) := List.decidableBAll _ text

/-- Nothing, or a comment up to the end of the line. -/
def IsComment (text : List Char) : Prop := text = [] ∨ ∃ rest, text = '#' :: rest ∧ '\n' ∉ rest

/-- A line that says `content`. -/
def Decorated (content line : List Char) : Prop :=
  ∃ indent trailing comment, IsLayout indent ∧ IsLayout trailing ∧ IsComment comment
    ∧ line = indent ++ content ++ trailing ++ comment

/-- Lines that say `contents`, with blank lines and comments between them. -/
inductive LaidOut : List (List Char) → List (List Char) → Prop where
  | nil : LaidOut [] []
  | blank {line contents lines} : Decorated [] line → LaidOut contents lines →
      LaidOut contents (line :: lines)
  | line {content line contents lines} : Decorated content line → LaidOut contents lines →
      LaidOut (content :: contents) (line :: lines)

/-- The lines before those of the addresses. -/
def packageLines (name policyText : String) : List (List Char) :=
  ["[package]".toList, keyLine "name" name, keyLine "upgrade_policy" policyText,
    "[addresses]".toList]

/-- A file with the name, the policy and the addresses, in any layout. -/
def Renders (name : String) (policy : UpgradePolicy) (addresses : List NamedAddressAssignment)
    (contents : String) : Prop :=
  ∃ policyText ∈ policyTexts policy, ∃ addressLines,
    List.Forall₂ IsAddressLine addresses addressLines
    ∧ ∃ lines, LaidOut (packageLines name policyText ++ addressLines) lines
      ∧ contents = String.ofList (['\n'].intercalate lines)

/-! ## Layout -/

/-- A line is read without its comment and its margins. -/
theorem readLine_congr {line line' : List Char}
    (h : trim (Text.before '#' line) = trim (Text.before '#' line')) :
    readLine line = readLine line' := by
  unfold readLine
  rw [h]

/-- A carriage return before the line end makes no difference. -/
theorem readLine_cr (line : List Char) : readLine (line ++ ['\r']) = readLine line := by
  refine readLine_congr ?_
  by_cases hash : '#' ∈ line
  · rw [Text.before_append_of_mem hash]
  · rw [Text.before_of_not_mem hash, Text.before_of_not_mem (by simpa using hash)]
    have hpad : trim ([] ++ line ++ ['\r']) = trim line := Text.trim_append (by decide) (by decide)
    exact hpad

/-- Margins start no comment. -/
theorem IsLayout.hash_not_mem {text : List Char} (h : IsLayout text) : '#' ∉ text := by
  intro hash
  exact absurd (h '#' hash).1 (by decide)

/-- Margins end no line. -/
theorem IsLayout.newline_not_mem {text : List Char} (h : IsLayout text) : '\n' ∉ text :=
  fun hmem => (h '\n' hmem).2 rfl

/-- **Layout does not matter.** -/
theorem readLine_decorated {content line : List Char} (h : Decorated content line)
    (hash : '#' ∉ content) : readLine line = readLine content := by
  obtain ⟨indent, trailing, comment, hindent, htrailing, hcomment, rfl⟩ := h
  refine readLine_congr ?_
  have hline : '#' ∉ indent ++ content ++ trailing := by
    simp [hindent.hash_not_mem, hash, htrailing.hash_not_mem]
  -- the comment begins at the first `#` of the line
  have hbefore : Text.before '#' (indent ++ content ++ trailing ++ comment)
      = indent ++ content ++ trailing := by
    rcases hcomment with rfl | ⟨rest, rfl, -⟩
    · rw [List.append_nil, Text.before_of_not_mem hline]
    · exact Text.before_append hline
  rw [hbefore, Text.before_of_not_mem hash]
  exact Text.trim_append (List.all_eq_true.mpr fun c hc => (hindent c hc).1)
    (List.all_eq_true.mpr fun c hc => (htrailing c hc).1)

theorem newline_not_mem_decorated {content line : List Char} (h : Decorated content line)
    (hcontent : '\n' ∉ content) : '\n' ∉ line := by
  obtain ⟨indent, trailing, comment, hindent, htrailing, hcomment, rfl⟩ := h
  have hnone : '\n' ∉ comment := by
    rcases hcomment with rfl | ⟨rest, rfl, hrest⟩
    · simp
    · simpa using hrest
  simp [hindent.newline_not_mem, hcontent, htrailing.newline_not_mem, hnone]

namespace LaidOut

variable {contents lines : List (List Char)}

/-- No line holds the end of another one. -/
theorem newline_not_mem (h : LaidOut contents lines) (hcontents : ∀ c ∈ contents, '\n' ∉ c) :
    ∀ line ∈ lines, '\n' ∉ line := by
  induction h with
  | nil => simp
  | blank hline _ ih =>
    exact List.forall_mem_cons.mpr ⟨newline_not_mem_decorated hline (by simp), ih hcontents⟩
  | line hline _ ih =>
    obtain ⟨hcontent, hrest⟩ := List.forall_mem_cons.mp hcontents
    exact List.forall_mem_cons.mpr ⟨newline_not_mem_decorated hline hcontent, ih hrest⟩

/-- Decorations and blank lines are not read. -/
theorem filterMap_readLine (h : LaidOut contents lines) (hash : ∀ c ∈ contents, '#' ∉ c) :
    lines.filterMap readLine = contents.filterMap readLine := by
  induction h with
  | nil => rfl
  | blank hline _ ih =>
    have hblank : readLine [] = none := by decide
    rw [List.filterMap_cons, readLine_decorated hline (by simp), hblank]
    exact ih hash
  | line hline _ ih =>
    obtain ⟨hcontent, hrest⟩ := List.forall_mem_cons.mp hash
    rw [List.filterMap_cons, List.filterMap_cons, readLine_decorated hline hcontent, ih hrest]

/-- What is read from a file that is laid out from some lines. -/
theorem tomlLines_eq (h : LaidOut contents lines) (hcontents : ∀ c ∈ contents, '\n' ∉ c)
    (hash : ∀ c ∈ contents, '#' ∉ c) :
    tomlLines (String.ofList (['\n'].intercalate lines)) = contents.filterMap readLine := by
  have hempty : readLine [] = none := by decide
  rw [tomlLines, String.toList_ofList,
    Text.filterMap_lines readLine_cr hempty lines (h.newline_not_mem hcontents),
    h.filterMap_readLine hash]

end LaidOut

/-! ## What a line says -/

section Lines

/-- Letters, digits and the underscore, by their codes. -/
theorem nameChar_range {c : Char} (h : (c.isAlphanum || c == '_') = true) :
    (48 ≤ c.toNat ∧ c.toNat ≤ 57) ∨ (65 ≤ c.toNat ∧ c.toNat ≤ 90) ∨ c.toNat = 95
      ∨ (97 ≤ c.toNat ∧ c.toNat ≤ 122) := by
  have hc : c.toNat = c.val.toNat := rfl
  unfold Char.isAlphanum Char.isAlpha Char.isUpper Char.isLower Char.isDigit at h
  simp only [Bool.or_eq_true, Bool.and_eq_true, decide_eq_true_eq, UInt32.le_iff_toNat_le,
    ge_iff_le, beq_iff_eq] at h
  rcases h with h | rfl
  · simp at h
    omega
  · decide

/-- The characters of a name mean nothing to the reader. -/
theorem nameChar {c : Char} (h : (c.isAlphanum || c == '_') = true) :
    isWhitespace c = false ∧ c ∉ ['#', '=', '[', '\n', '"'] := by
  have hrange := nameChar_range h
  constructor
  · rw [← Bool.not_eq_true]
    simp only [isWhitespace, Bool.or_eq_true, Bool.and_eq_true, decide_eq_true_eq, List.mem_cons,
      List.not_mem_nil, or_false]
    omega
  · intro hmem
    simp only [List.mem_cons, List.not_mem_nil, or_false] at hmem
    rcases hmem with rfl | rfl | rfl | rfl | rfl <;> revert hrange <;> decide

variable {key value : String}

/-- A value that the reader finds again between its quotes. -/
def IsReadable (value : String) : Prop := ∀ c ∈ ['#', '"', '\n'], c ∉ value.toList

instance (value : String) : Decidable (IsReadable value) := List.decidableBAll _ ['#', '"', '\n']

/-- A name holds nothing that the reader looks for. -/
theorem IsName.not_mem {name : String} (h : IsName name) {c : Char}
    (hc : c ∈ ['#', '=', '[', '\n', '"']) :
    c ∉ name.toList :=
  fun hmem => (nameChar (h.2 c hmem)).2 hc

/-- Any other character of a line is one of the key or of the value. -/
theorem mem_keyLine {c : Char} (hc : c ∉ [' ', '=', '"']) :
    c ∈ keyLine key value ↔ c ∈ key.toList ∨ c ∈ value.toList := by
  simp only [List.mem_cons, List.not_mem_nil, or_false, not_or] at hc
  simp [keyLine, hc]

/-- A line begins with a letter and ends with a quote, so nothing is trimmed. -/
theorem trim_keyLine (hkey : IsName key) (hash : '#' ∉ value.toList) :
    trim (Text.before '#' (keyLine key value)) = keyLine key value := by
  have hnone : '#' ∉ keyLine key value := by
    rw [mem_keyLine (by decide)]
    exact not_or.mpr ⟨hkey.not_mem (by decide), hash⟩
  obtain ⟨a, rest, hsplit⟩ := List.exists_cons_of_ne_nil hkey.1
  have ha := nameChar (hkey.2 a (by simp [hsplit]))
  have hends : keyLine key value
      = a :: (rest ++ ' ' :: '=' :: ' ' :: '"' :: value.toList) ++ ['"'] := by
    simp [keyLine, hsplit]
  rw [Text.before_of_not_mem hnone, hends]
  exact Text.trim_of_ends ha.1 (by decide)

/-- The first equals sign is the one behind the key. -/
theorem splitOnce_keyLine (hkey : IsName key) :
    Text.splitOnce '=' (keyLine key value)
      = some (key.toList ++ [' '], ' ' :: '"' :: value.toList ++ ['"']) := by
  have hnone : '=' ∉ key.toList ++ [' '] := by
    simpa using hkey.not_mem (by decide)
  have happend : keyLine key value
      = (key.toList ++ [' ']) ++ '=' :: (' ' :: '"' :: value.toList ++ ['"']) := by
    simp [keyLine]
  rw [happend]
  exact Text.splitOnce_append hnone

theorem trim_key (hkey : IsName key) : trim (key.toList ++ [' ']) = key.toList := by
  have hpad : trim ([] ++ key.toList ++ [' ']) = trim key.toList :=
    Text.trim_append (by decide) (by decide)
  exact hpad.trans (Text.trim_of_forall fun c hc => (nameChar (hkey.2 c hc)).1)

theorem trim_value (value : List Char) :
    trim (' ' :: '"' :: value ++ ['"']) = '"' :: value ++ ['"'] := by
  have hpad : trim ([' '] ++ ('"' :: value ++ ['"']) ++ []) = trim ('"' :: value ++ ['"']) :=
    Text.trim_append (by decide) (by decide)
  rw [List.append_nil] at hpad
  exact hpad.trans (Text.trim_of_ends (by decide) (by decide))

theorem trimQuotes_value {value : List Char} (hquote : '"' ∉ value) :
    trimQuotes ('"' :: value ++ ['"']) = value := by
  have hpad : trimQuotes (['"'] ++ value ++ ['"']) = trimQuotes value :=
    Text.trim_append (by decide) (by decide)
  refine hpad.trans (Text.trim_of_forall fun c hc => ?_)
  simpa using ne_of_mem_of_not_mem hc hquote

/-- **What a rendered line says.** -/
theorem readLine_keyLine (hkey : IsName key) (hvalue : IsReadable value) :
    readLine (keyLine key value) = some (.entry key value) := by
  have hline := trim_keyLine hkey (hvalue '#' (by decide))
  have hunquoted := trimQuotes_value (hvalue '"' (by decide))
  have hnonempty : keyLine key value ≠ [] := by simp [keyLine]
  -- the line ends with a quote, so it is no section header
  have hheader :
      ¬ ((keyLine key value).head? = some '[' ∧ (keyLine key value).getLast? = some ']') := by
    have hlast : (keyLine key value).getLast? = some '"' := List.getLast?_concat
    simp [hlast]
  simp only [readLine, hline, if_neg hnonempty, if_neg hheader, splitOnce_keyLine hkey,
    Option.map_some, trim_key hkey, trim_value, hunquoted, String.ofList_toList]

theorem hexDigit_of_mem {digits : Bytes} {values : List Nat}
    (h : List.Forall₂ HexDigit digits values)
    {b : UInt8} (hb : b ∈ digits) : ∃ d, HexDigit b d := by
  induction h with
  | nil => cases hb
  | cons hdigit _ ih =>
    rcases List.mem_cons.mp hb with rfl | hrest
    · exact ⟨_, hdigit⟩
    · exact ih hrest

/-- A literal is of digits and letters. -/
theorem literal_not_mem {literal : String} {n : Nat} (h : AccountAddress.HexLiteral literal n)
    {c : Char} (hc : c ∈ ['#', '"', '\n', '_']) : c ∉ literal.toList := by
  intro hmem
  obtain ⟨pre, hpre, digits, values, hsplit, hvalues, -⟩ := h
  have hbytes : literal.utf8 = literal.toList.flatMap String.utf8EncodeChar := by
    rw [← utf8_ofList, String.ofList_toList]
  -- the characters are bytes that are neither in a prefix nor digits
  -- each of the four characters is one byte
  have hcode : ∃ k ∈ [35, 34, 10, 95], String.utf8EncodeChar c = [UInt8.ofNat k] := by
    simp only [List.mem_cons, List.not_mem_nil, or_false] at hc
    rcases hc with rfl | rfl | rfl | rfl <;> decide
  -- and none of these bytes is in a prefix or a digit
  have hbare : ∀ k ∈ [35, 34, 10, 95], (∀ pre ∈ ["", "0x", "0X"], UInt8.ofNat k ∉ pre.utf8)
      ∧ ∀ d : Fin 16, ¬ HexDigit (UInt8.ofNat k) d := by
    unfold HexDigit
    rw [lowerDigits_eq, upperDigits_eq]
    decide
  obtain ⟨k, hk, hencode⟩ := hcode
  obtain ⟨hprefixes, hdigits⟩ := hbare k hk
  have hmemBytes : UInt8.ofNat k ∈ literal.utf8 := by
    rw [hbytes]
    exact List.mem_flatMap.mpr ⟨c, hmem, by simp [hencode]⟩
  rw [hsplit, List.mem_append] at hmemBytes
  rcases hmemBytes with hin | hin
  · exact hprefixes pre hpre hin
  · obtain ⟨d, hd⟩ := hexDigit_of_mem hvalues hin
    exact hdigits ⟨d, hd.lt⟩ hd

/-- A literal can stand between quotes. -/
theorem literal_isReadable {literal : String} {n : Nat} (h : AccountAddress.HexLiteral literal n) :
    IsReadable literal :=
  fun _ hc => literal_not_mem h (List.mem_append_left ['_'] hc)

/-- A line of the file is one line, without a comment. -/
theorem keyLine_plain (hkey : IsName key) (hvalue : IsReadable value) :
    '\n' ∉ keyLine key value ∧ '#' ∉ keyLine key value := by
  rw [mem_keyLine (by decide), mem_keyLine (by decide), not_or, not_or]
  exact ⟨⟨hkey.not_mem (by decide), hvalue _ (by decide)⟩,
    ⟨hkey.not_mem (by decide), hvalue _ (by decide)⟩⟩

/-- A literal is read as the address that it denotes. -/
theorem assignment_of_literal {currentSection literal : String} {a : NamedAddressAssignment}
    (h : AccountAddress.HexLiteral literal a.address.value) :
    TomlEntry.assignment currentSection ⟨currentSection, a.name, literal⟩ = some a := by
  have hplaceholder : literal ≠ "_" := by
    rintro rfl
    exact literal_not_mem h (c := '_') (by decide) (by decide)
  rw [TomlEntry.assignment, if_pos ⟨rfl, hplaceholder⟩, AccountAddress.ofHexLiteral_eq_ok.mpr h]
  rfl

end Lines

/-! ## What a file says -/

section File

variable {addresses : List NamedAddressAssignment} {addressLines : List (List Char)}

theorem addressLines_plain (h : List.Forall₂ IsAddressLine addresses addressLines) :
    ∀ line ∈ addressLines, '\n' ∉ line ∧ '#' ∉ line := by
  induction h with
  | nil => simp
  | cons hline _ ih =>
    obtain ⟨hname, literal, hliteral, rfl⟩ := hline
    exact List.forall_mem_cons.mpr ⟨keyLine_plain hname (literal_isReadable hliteral), ih⟩

/-- The section is read back, and all of it is in the section. -/
theorem entries_addressLines (h : List.Forall₂ IsAddressLine addresses addressLines) :
    let entries := entriesFrom "addresses" (addressLines.filterMap readLine)
    assignments "addresses" entries = addresses
    ∧ ∀ e ∈ entries, e.currentSection = "addresses" := by
  induction h with
  | nil => exact ⟨rfl, by simp [entriesFrom]⟩
  | cons hline _ ih =>
    -- a line of the section is read as its key and the literal
    obtain ⟨hname, literal, hliteral, rfl⟩ := hline
    obtain ⟨hassignments, hsection⟩ := ih
    rw [List.filterMap_cons, readLine_keyLine hname (literal_isReadable hliteral)]
    refine ⟨?_, List.forall_mem_cons.mpr ⟨rfl, hsection⟩⟩
    rw [entriesFrom, assignments, List.filterMap_cons, assignment_of_literal hliteral,
      ← assignments, hassignments]

/-- Each text of a policy is read as that policy. -/
theorem policyText_readable {policy : UpgradePolicy} {text : String}
    (h : text ∈ policyTexts policy) :
    upgradePolicyOf text = policy ∧ IsReadable text := by
  have hall : ∀ text ∈ policyTexts policy, upgradePolicyOf text = policy ∧ IsReadable text := by
    cases policy <;> decide
  exact hall text h

/-- A plain text without `#` can stand between quotes. -/
theorem IsPlain.readable {name : String} (h : IsPlain name) (hash : '#' ∉ name.toList) :
    IsReadable name := by
  intro c hc hmem
  obtain ⟨hquote, -, hcontrol⟩ := h c hmem
  simp only [List.mem_cons, List.not_mem_nil, or_false] at hc
  rcases hc with rfl | rfl | rfl
  · exact hash hmem
  · exact hquote rfl
  · exact hcontrol (by decide)

section PackageLines

variable {name policyText : String} (hname : IsReadable name) (hpolicy : IsReadable policyText)
include hname hpolicy

theorem packageLines_plain : ∀ line ∈ packageLines name policyText, '\n' ∉ line ∧ '#' ∉ line := by
  have hnameKey : IsName "name" := by decide
  have hpolicyKey : IsName "upgrade_policy" := by decide
  simp only [packageLines, List.forall_mem_cons, List.not_mem_nil, false_imp_iff, implies_true,
    and_true]
  exact ⟨by decide, keyLine_plain hnameKey hname, keyLine_plain hpolicyKey hpolicy, by decide⟩

/-- What the package section is read as. -/
theorem read_packageLines : (packageLines name policyText).filterMap readLine
    = [.header "package", .entry "name" name, .entry "upgrade_policy" policyText,
      .header "addresses"] := by
  have hnameKey : IsName "name" := by decide
  have hpolicyKey : IsName "upgrade_policy" := by decide
  have hpackage : readLine "[package]".toList = some (.header "package") := by decide
  have hsection : readLine "[addresses]".toList = some (.header "addresses") := by decide
  simp only [packageLines, List.filterMap_cons, hpackage, hsection, readLine_keyLine hnameKey hname,
    readLine_keyLine hpolicyKey hpolicy, List.filterMap_nil]

end PackageLines

/-- The entries of a file, whatever its layout. -/
theorem tomlEntries_of_renders {name policyText : String} (hname : IsReadable name)
    (hpolicy : IsReadable policyText)
    (haddresses : List.Forall₂ IsAddressLine addresses addressLines)
    {lines : List (List Char)}
    (hlaid : LaidOut (packageLines name policyText ++ addressLines) lines) :
    tomlEntries (String.ofList (['\n'].intercalate lines))
      = ⟨"package", "name", name⟩ :: ⟨"package", "upgrade_policy", policyText⟩
        :: entriesFrom "addresses" (addressLines.filterMap readLine) := by
  have hplain : ∀ line ∈ packageLines name policyText ++ addressLines,
      '\n' ∉ line ∧ '#' ∉ line := by
    intro line hline
    rcases List.mem_append.mp hline with hline | hline
    · exact packageLines_plain hname hpolicy line hline
    · exact addressLines_plain haddresses line hline
  rw [tomlEntries, hlaid.tomlLines_eq (fun line hline => (hplain line hline).1)
    (fun line hline => (hplain line hline).2), List.filterMap_append,
    read_packageLines hname hpolicy]
  rfl

/-- **A file without `#` in its name** reads back. -/
theorem inspectMoveToml_of_renders {name contents : String} {policy : UpgradePolicy}
    (hname : IsPlain name) (h : Renders name policy addresses contents) (hash : '#' ∉ name.toList) :
    inspectMoveToml contents = ⟨some name, policy, addresses⟩ := by
  obtain ⟨policyText, hpolicy, addressLines, haddresses, lines, hlaid, rfl⟩ := h
  obtain ⟨hpolicyOf, hpolicyText⟩ := policyText_readable hpolicy
  have hentries := tomlEntries_of_renders (hname.readable hash) hpolicyText haddresses hlaid
  obtain ⟨hassignments, hsections⟩ := entries_addressLines haddresses
  -- the entries for addresses are in no other section
  have hpackage : ∀ key, (entriesFrom "addresses" (addressLines.filterMap readLine)).filterMap
      (TomlEntry.packageValue key) = [] := by
    intro key
    refine List.filterMap_eq_nil_iff.mpr fun e he => ?_
    simp [TomlEntry.packageValue, hsections e he]
  -- nor are they in the section that would replace them
  have hdev : assignments "dev-addresses"
      (entriesFrom "addresses" (addressLines.filterMap readLine)) = [] := by
    refine List.filterMap_eq_nil_iff.mpr fun e he => ?_
    simp [TomlEntry.assignment, hsections e he]
  rw [assignments] at hassignments hdev
  rw [inspectMoveToml_eq, hentries]
  simp [assignments, TomlEntry.packageValue, TomlEntry.assignment, hpackage, hdev, hassignments,
    hpolicyOf]

end File

/-! ## A name with a `#` -/

/-- An entry comes from a line. -/
theorem mem_entriesFrom {lines : List TomlLine} {currentSection : String} {e : TomlEntry}
    (h : e ∈ entriesFrom currentSection lines) : .entry e.key e.value ∈ lines := by
  induction lines generalizing currentSection with
  | nil => cases h
  | cons line lines ih =>
    cases line with
    | header name => exact List.mem_cons_of_mem _ (ih h)
    | entry key value =>
      rcases List.mem_cons.mp h with rfl | hrest
      · exact List.mem_cons_self
      · exact List.mem_cons_of_mem _ (ih hrest)

/-- The reader cuts a line off at its first `#`, so no value has one. -/
theorem hash_not_mem_value {line : List Char} {key value : String}
    (h : readLine line = some (.entry key value)) : '#' ∉ value.toList := by
  simp only [readLine] at h
  split_ifs at h with hempty hheader
  · cases h
  · obtain ⟨parts, hparts, heq⟩ := Option.map_eq_some_iff.mp h
    obtain ⟨-, rfl⟩ := TomlLine.entry.inj heq
    rw [String.toList_ofList]
    intro hmem
    have hright : '#' ∈ parts.2 := Text.mem_of_mem_trim (Text.mem_of_mem_trim hmem)
    have hline : '#' ∈ trim (Text.before '#' line) := Text.mem_of_splitOnce hparts hright
    exact Text.not_mem_before '#' line (Text.mem_of_mem_trim hline)

/-- Whatever the file, no package name that is read has a `#`. -/
theorem hash_not_mem_packageName {contents name : String}
    (h : (inspectMoveToml contents).packageName = some name) : '#' ∉ name.toList := by
  rw [inspectMoveToml_eq] at h
  obtain ⟨e, he, hvalue⟩ := List.mem_filterMap.mp (List.mem_of_getLast? h)
  obtain ⟨line, -, hline⟩ := List.mem_filterMap.mp (mem_entriesFrom he)
  rw [TomlEntry.packageValue] at hvalue
  split_ifs at hvalue
  obtain rfl := Option.some.inj hvalue
  exact hash_not_mem_value hline

/-- **Move.toml.** A rendered file reads back as what was rendered if and only if the name of the
package has no `#`. -/
theorem move_toml_inverts_iff {name contents : String} {policy : UpgradePolicy}
    {addresses : List NamedAddressAssignment} (hname : IsPlain name)
    (h : Renders name policy addresses contents) :
    inspectMoveToml contents = ⟨some name, policy, addresses⟩ ↔ '#' ∉ name.toList := by
  constructor
  · intro heq
    exact hash_not_mem_packageName (congrArg MoveTomlInfo.packageName heq)
  · exact inspectMoveToml_of_renders hname h

def tomlAddress : AccountAddress := .ofTail [0x42] (by decide)

/-- Comments, blank lines and margins around a package. -/
def sampleLines (name : String) : List (List Char) :=
  ["# a package".toList, "[package]".toList,
    "  ".toList ++ keyLine "name" name ++ " # its name".toList, [],
    keyLine "upgrade_policy" "governance", "[addresses]".toList, keyLine "x" "0x42", []]

def sampleToml (name : String) : String := String.ofList (['\n'].intercalate (sampleLines name))

/-- The sample is one of the layouts, for every name. -/
theorem renders_sampleToml (name : String) :
    Renders name .governanceOnly [⟨"x", tomlAddress⟩] (sampleToml name) := by
  -- a line without margins and comment
  have hbare : ∀ content, Decorated content content := by
    intro content
    exact ⟨[], [], [], by simp [IsLayout], by simp [IsLayout], .inl rfl, by simp⟩
  have hcomment : Decorated [] "# a package".toList :=
    ⟨[], [], "# a package".toList, by simp [IsLayout], by simp [IsLayout],
      .inr ⟨" a package".toList, by decide, by decide⟩, by simp⟩
  have hnameLine : Decorated (keyLine "name" name)
      ("  ".toList ++ keyLine "name" name ++ " # its name".toList) := by
    refine ⟨"  ".toList, [' '], "# its name".toList, by decide,
      by decide, .inr ⟨" its name".toList, by decide, by decide⟩, ?_⟩
    rw [List.append_assoc _ [' ']]
    rfl
  have haddress : IsAddressLine ⟨"x", tomlAddress⟩ (keyLine "x" "0x42") := by
    refine ⟨by decide, "0x42", ?_, rfl⟩
    exact AccountAddress.fromHexLiteral_eq_ok.mp (by decide)
  refine ⟨"governance", by decide, [keyLine "x" "0x42"], .cons haddress .nil, sampleLines name, ?_,
    rfl⟩
  exact .blank hcomment (.line (hbare _) (.line hnameLine (.blank (hbare []) (.line (hbare _)
    (.line (hbare _) (.line (hbare _) (.blank (hbare []) .nil)))))))

theorem move_toml_inverts_iff_sampleToml :
    inspectMoveToml (sampleToml "a = [b]")
        = ⟨some "a = [b]", .governanceOnly, [⟨"x", tomlAddress⟩]⟩
      ↔ '#' ∉ "a = [b]".toList :=
  move_toml_inverts_iff (by decide) (renders_sampleToml _)

/-- A `#` in the name cuts it off. -/
theorem hash_cuts_name :
    ¬ ∀ name policy addresses contents, IsPlain name → Renders name policy addresses contents →
      inspectMoveToml contents = ⟨some name, policy, addresses⟩ := by
  intro h
  have hread := h "a#b" .governanceOnly _ _ (by decide) (renders_sampleToml "a#b")
  have hhash := hash_not_mem_packageName (congrArg MoveTomlInfo.packageName hread)
  exact hhash (by decide)

end NexusMove.Package
