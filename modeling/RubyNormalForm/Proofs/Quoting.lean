import Mathlib.Tactic.SplitIfs
import RubyNormalForm.ByteString
import RubyNormalForm.Literal.Escape
import RubyNormalForm.Raw.Reader
import RubyNormalForm.Proofs.Utf8

/-!
# Reading a quoted string back

`ByteString.quote` writes a string as the body of a double-quoted literal. Two independent
readers meet that body: `Raw.Reader.quotedBody` finds where it ends, and `Literal.unescape`
turns its bytes into the bytes they denote. Both undo the writing unit by unit, so the main
statements are inductions over the units of the string; each rests on a step lemma for a
single unit, and that one on the short list of escapes that `quoteChar` uses. The same induction
shows of the body itself that every quote in it stands after an odd number of backslashes.
-/

namespace RubyNormalForm

namespace Literal

/-- Bytes that are no backslash denote themselves. -/
theorem unescape_append_of_plain {bytes : List UInt8} (plain : 0x5C ∉ bytes)
    (rest : List UInt8) : unescape (bytes ++ rest) = bytes ++ unescape rest := by
  induction bytes with
  | nil => rfl
  | cons b bytes ih =>
    have hb : ¬ b = 0x5C := fun h => plain (h ▸ List.mem_cons_self)
    rw [List.cons_append, unescape, if_neg hb, ih fun h => plain (List.mem_cons_of_mem _ h),
      List.cons_append]

theorem backslash_not_mem_utf8EncodeChar {c : Char} (h : c ≠ '\\') :
    0x5C ∉ String.utf8EncodeChar c := by
  intro mem
  exact h (Utf8.eq_of_mem_utf8EncodeChar mem (by decide))

/-- The bytes of a character that is no backslash denote themselves. -/
theorem unescape_utf8EncodeChar_append {c : Char} (h : c ≠ '\\') (rest : List UInt8) :
    unescape (String.utf8EncodeChar c ++ rest) = String.utf8EncodeChar c ++ unescape rest :=
  unescape_append_of_plain (backslash_not_mem_utf8EncodeChar h) rest

/-- A backslash hands over to `escape`. -/
theorem unescape_backslash (rest : List UInt8) :
    unescape (0x5C :: rest) = (escape rest).bytes ++ unescape (rest.drop (escape rest).used) := by
  rw [unescape, if_pos rfl]

theorem digit?_hexDigit (n : Fin 16) :
    digit? 16 (UInt8.ofNat (ByteString.hexDigit n).toNat) = some n.val := by
  revert n
  decide

theorem hexDigit_ascii (n : Fin 16) : (ByteString.hexDigit n).toNat < 0x80 := by
  revert n
  decide

theorem encode_hexEscape {n : Nat} (h : n < 256) :
    Utf8.encode (ByteString.hexEscape n) =
      [0x5C, 0x78, UInt8.ofNat (ByteString.hexDigit (n / 16)).toNat,
        UInt8.ofNat (ByteString.hexDigit (n % 16)).toNat] := by
  have high := Utf8.utf8EncodeChar_one (hexDigit_ascii ⟨n / 16, by omega⟩)
  have low := Utf8.utf8EncodeChar_one (hexDigit_ascii ⟨n % 16, by omega⟩)
  simp only at high low
  simp only [Utf8.encode, ByteString.hexEscape, List.flatMap_cons, List.flatMap_nil, high, low]
  rfl

/-- The two digits of a hexadecimal escape are read, and no more. -/
theorem unescape_hexEscape {n : Nat} (h : n < 256) (rest : List UInt8) :
    unescape (Utf8.encode (ByteString.hexEscape n) ++ rest) = UInt8.ofNat n :: unescape rest := by
  have high := digit?_hexDigit ⟨n / 16, by omega⟩
  have low := digit?_hexDigit ⟨n % 16, by omega⟩
  have digits : leadingDigits 16 2 (UInt8.ofNat (ByteString.hexDigit (n / 16)).toNat ::
      UInt8.ofNat (ByteString.hexDigit (n % 16)).toNat :: rest) = [n / 16, n % 16] := by
    simp only [leadingDigits, high, low]
  have value : digitsValue 16 [n / 16, n % 16] = n := by
    simp only [digitsValue, List.foldl_cons, List.foldl_nil]
    omega
  rw [encode_hexEscape h]
  simp only [List.cons_append, List.nil_append]
  rw [unescape_backslash]
  simp only [escape, hexByteEscape, digits, value, List.length_cons, List.length_nil]
  rfl

end Literal

namespace ByteString

/-- The bytes that a unit stands for. -/
def Glyph.bytes : Glyph → List UInt8
  | .char c => String.utf8EncodeChar c
  | .byte b => [b]

/-- The ways in which a character is written: by a letter after a backslash that denotes it, by
its number, or as it is. -/
inductive Written (c : Char) : List Char → Prop where
  | letter (d : Char) (ascii : c.toNat < 0x80) (ascii' : d.toNat < 0x80)
      (denotes : ∀ rest, Literal.escape (UInt8.ofNat d.toNat :: rest) =
        { bytes := [UInt8.ofNat c.toNat], used := 1 }) :
      Written c ['\\', d]
  | number (ascii : c.toNat < 0x80) : Written c (hexEscape c.toNat)
  | plain (quote : c ≠ '\x22') (backslash : c ≠ '\\') : Written c [c]

theorem Written.self {c : Char} (ascii : c.toNat < 0x80)
    (denotes : ∀ rest, Literal.escape (UInt8.ofNat c.toNat :: rest) =
      { bytes := [UInt8.ofNat c.toNat], used := 1 }) : Written c ['\\', c] :=
  .letter c ascii ascii denotes

/-- The letters of control characters are those that `Literal.mnemonic?` knows. -/
theorem Written.control {c letter : Char} (h : controlLetter? c = some letter) :
    Written c ['\\', letter] := by
  rw [controlLetter?] at h
  split_ifs at h with h1 h2 h3 h4 h5 h6 h7 h8
  all_goals
    obtain rfl := Option.some.inj h
    refine .letter _ (by omega) (by decide) fun rest => ?_
    simp only [*]
    rfl

/-- What `quoteChar` writes for a character denotes that character. -/
theorem written_quoteChar (c : Char) (next : Option Glyph) : Written c (quoteChar c next) := by
  rw [quoteChar]
  split
  case isTrue h =>
    simp only [Bool.or_eq_true, beq_iff_eq] at h
    obtain rfl | rfl := h
    all_goals exact .self (by decide) fun rest => rfl
  case isFalse h =>
    simp only [Bool.or_eq_true, beq_iff_eq, not_or] at h
    cases letter : controlLetter? c with
    | some d => exact .control letter
    | none =>
      simp only
      split_ifs with hash small
      · simp only [Bool.and_eq_true, beq_iff_eq] at hash
        obtain ⟨rfl, -⟩ := hash
        exact .self (by decide) fun rest => rfl
      · simp only [Bool.or_eq_true, decide_eq_true_eq, beq_iff_eq] at small
        exact .number (by omega)
      · exact .plain h.1 h.2

theorem Written.unescape {c : Char} {text : List Char} (h : Written c text) (rest : List UInt8) :
    Literal.unescape (Utf8.encode text ++ rest) =
      String.utf8EncodeChar c ++ Literal.unescape rest := by
  cases h with
  | letter d ascii ascii' denotes =>
    have backslash : String.utf8EncodeChar '\\' = [0x5C] := rfl
    rw [Utf8.encode_cons, Utf8.encode_cons, backslash, Utf8.utf8EncodeChar_one ascii,
      Utf8.utf8EncodeChar_one ascii']
    change Literal.unescape (0x5C :: UInt8.ofNat d.toNat :: rest) = _
    rw [Literal.unescape_backslash, denotes]
    rfl
  | number ascii =>
    rw [Literal.unescape_hexEscape (by omega), Utf8.utf8EncodeChar_one ascii,
      List.singleton_append]
  | plain _ backslash =>
    rw [Utf8.encode, List.flatMap_singleton, Literal.unescape_utf8EncodeChar_append backslash]

/-- The bytes that the body of a literal denotes are those of the units it was written for. -/
theorem unescape_quote (units : List Glyph) :
    Literal.unescape (Utf8.encode (quote units)) = units.flatMap Glyph.bytes := by
  induction units with
  | nil => rw [quote, Utf8.encode, List.flatMap_nil, Literal.unescape, List.flatMap_nil]
  | cons unit rest ih =>
    rw [List.flatMap_cons]
    cases unit with
    | char c =>
      rw [quote, Utf8.encode_append, (written_quoteChar c rest.head?).unescape, ih, Glyph.bytes]
    | byte b =>
      rw [quote, Utf8.encode_append, Literal.unescape_hexEscape b.toNat_lt, ih, Glyph.bytes,
        UInt8.ofNat_toNat, List.singleton_append]

/-- A text is shown by its characters. -/
theorem glyphs_ofText (text : String) : (ofText text).glyphs = text.toList.map .char := by
  simp only [glyphs, ofText, Utf8.ofText, Utf8.decode?_encode]

/-- Reading the body of the literal for a text gives back the text. -/
theorem denoted_quote_glyphs (text : String) :
    Raw.Reader.denoted (quote (ofText text).glyphs) = text := by
  rw [Raw.Reader.denoted, unescape_quote, glyphs_ofText, List.flatMap_map]
  exact Utf8.toText_ofText text

theorem bytes_glyphOfByte (b : UInt8) : (glyphOfByte b).bytes = [b] := by
  rw [glyphOfByte]
  split
  · rename_i ascii
    have small : b.toNat < 0x80 := UInt8.lt_iff_toNat_lt.1 ascii
    have code := Utf8.toNat_char (n := b.toNat) (by omega)
    rw [Glyph.bytes, Utf8.utf8EncodeChar_one (by omega), code, UInt8.ofNat_toNat]
  · rfl

/-- The units of a string stand for its bytes, whether or not these form text. -/
theorem flatMap_bytes_glyphs (s : ByteString) : s.glyphs.flatMap Glyph.bytes = s.bytes := by
  have single : (s.bytes.map glyphOfByte).flatMap Glyph.bytes = s.bytes := by
    simp only [List.flatMap_map, bytes_glyphOfByte]
    exact List.flatMap_singleton' s.bytes
  rw [glyphs]
  split
  · exact single
  · rename_i decoded _
    rw [List.flatMap_map]
    exact Utf8.encode_of_decode? decoded
  · exact single

/-- What is shown of a string determines its bytes. -/
theorem bytes_eq_of_quote_eq {s t : ByteString} (shown : quote s.glyphs = quote t.glyphs) :
    s.bytes = t.bytes := by
  rw [← flatMap_bytes_glyphs s, ← flatMap_bytes_glyphs t, ← unescape_quote, shown, unescape_quote]

theorem hexDigit_delimiter (n : Fin 16) :
    hexDigit n ≠ '\x22' ∧ hexDigit n ≠ '\\' := by
  revert n
  decide

/-! ### Quotes inside the quotes -/

/-- How many backslashes stand at the end of a text. -/
def trailingBackslashes (text : List Char) : Nat :=
  (text.reverse.takeWhile (· == '\\')).length

/-- Every double quote in the text stands after a backslash that escapes it. A backslash escapes
the one after it, so the run of backslashes before the quote is odd in length. -/
def QuotesEscaped (text : List Char) : Prop :=
  ∀ before after, text = before ++ '\x22' :: after → trailingBackslashes before % 2 = 1

/-- A text that a whole number of escapes makes up: its quotes are escaped, and it leaves no
backslash to escape what comes after it. -/
structure Sealed (text : List Char) : Prop where
  quotes : QuotesEscaped text
  even : trailingBackslashes text % 2 = 0

/-- A run of backslashes may go on into the text before it. -/
theorem trailingBackslashes_append (text more : List Char) :
    trailingBackslashes (text ++ more) = trailingBackslashes more ∨
      trailingBackslashes (text ++ more) =
        trailingBackslashes more + trailingBackslashes text := by
  unfold trailingBackslashes
  rw [List.reverse_append, List.takeWhile_append]
  split
  · rename_i whole
    right
    rw [List.length_append, whole]
  · left
    rfl

theorem sealed_nil : Sealed [] := by
  refine ⟨?_, rfl⟩
  intro before after split
  simp at split

theorem Sealed.append {text more : List Char} (first : Sealed text) (second : Sealed more) :
    Sealed (text ++ more) := by
  have parity : ∀ rest, trailingBackslashes (text ++ rest) % 2 = trailingBackslashes rest % 2 := by
    intro rest
    have even := first.even
    obtain same | longer := trailingBackslashes_append text rest
    · rw [same]
    · omega
  refine ⟨?_, (parity more).trans second.even⟩
  intro before after split
  obtain ⟨rest, rfl, isRest⟩ | ⟨rest, isText, isRest⟩ := List.append_eq_append_iff.1 split
  · rw [parity]
    exact second.quotes rest after isRest
  · cases rest with
    | nil =>
      -- the quote is the first character of the second text, where nothing could escape it
      have bare := second.quotes [] after isRest.symm
      cases bare
    | cons quote rest =>
      obtain ⟨rfl, -⟩ := List.cons_eq_cons.1 isRest
      exact first.quotes before rest isText

/-- A character that is neither a quote nor a backslash needs no escape. -/
theorem sealed_plain {c : Char} (quote : c ≠ '\x22') (backslash : c ≠ '\\') : Sealed [c] := by
  constructor
  · intro before after split
    have member : '\x22' ∈ [c] := by simp [split]
    exact absurd (List.mem_singleton.1 member).symm quote
  · simp [trailingBackslashes, backslash]

/-- Whatever stands after a single backslash is escaped by it. -/
theorem sealed_escape (d : Char) : Sealed ['\\', d] := by
  constructor
  · intro before after split
    rcases before with _ | ⟨first, _ | ⟨second, rest⟩⟩
    · cases split
    · cases split
      rfl
    · simp at split
  · by_cases same : d = '\\' <;> simp [trailingBackslashes, same]

theorem sealed_hexEscape {n : Nat} (h : n < 256) : Sealed (hexEscape n) := by
  have high := hexDigit_delimiter ⟨n / 16, by omega⟩
  have low := hexDigit_delimiter ⟨n % 16, by omega⟩
  exact (sealed_escape 'x').append ((sealed_plain high.1 high.2).append (sealed_plain low.1 low.2))

theorem Written.isSealed {c : Char} {text : List Char} (h : Written c text) : Sealed text := by
  cases h with
  | letter d => exact sealed_escape d
  | number ascii => exact sealed_hexEscape (by omega)
  | plain quote backslash => exact sealed_plain quote backslash

theorem sealed_quote (units : List Glyph) : Sealed (quote units) := by
  induction units with
  | nil => exact sealed_nil
  | cons unit units ih =>
    cases unit with
    | char c => exact (written_quoteChar c units.head?).isSealed.append ih
    | byte b => exact (sealed_hexEscape b.toNat_lt).append ih

/-- Reading a shown string gives back its bytes, whatever they are and however they are tagged:
between its quotes stands a text in which no quote is bare, and which denotes the bytes. -/
theorem unescape_inspect (s : ByteString) :
    ∃ body : String, s.inspect = "\x22" ++ body ++ "\x22" ∧
      Literal.unescape (Utf8.ofText body) = s.bytes ∧ QuotesEscaped body.toList := by
  refine ⟨String.ofList (quote s.glyphs), ?_, ?_, ?_⟩
  · rw [inspect, ← String.toList_inj]
    simp
  · rw [Utf8.ofText, String.toList_ofList, unescape_quote, flatMap_bytes_glyphs]
  · rw [String.toList_ofList]
    exact (sealed_quote s.glyphs).quotes

end ByteString

namespace Raw.Reader

open ByteString

/-- The result of `quotedBody` with more text before the body. -/
def prepend (text : List Char) (found : List Char × List Char) : List Char × List Char :=
  (text ++ found.1, found.2)

theorem quotedBody_plain {c : Char} (quote : c ≠ '\x22') (backslash : c ≠ '\\')
    (rest : List Char) : quotedBody (c :: rest) = (quotedBody rest).map (prepend [c]) := by
  rw [quotedBody.eq_def]
  simp only [beq_iff_eq, quote, backslash, if_false]
  rfl

theorem quotedBody_escape (d : Char) (rest : List Char) :
    quotedBody ('\\' :: d :: rest) = (quotedBody rest).map (prepend ['\\', d]) := by
  rw [quotedBody.eq_def]
  rfl

theorem quotedBody_hexEscape {n : Nat} (h : n < 256) (rest : List Char) :
    quotedBody (hexEscape n ++ rest) = (quotedBody rest).map (prepend (hexEscape n)) := by
  have high := hexDigit_delimiter ⟨n / 16, by omega⟩
  have low := hexDigit_delimiter ⟨n % 16, by omega⟩
  change quotedBody ('\\' :: 'x' :: hexDigit (n / 16) :: hexDigit (n % 16) :: rest) = _
  rw [quotedBody_escape, quotedBody_plain high.1 high.2, quotedBody_plain low.1 low.2,
    Option.map_map, Option.map_map]
  rfl

theorem quotedBody_written {c : Char} {text : List Char} (h : Written c text)
    (rest : List Char) : quotedBody (text ++ rest) = (quotedBody rest).map (prepend text) := by
  cases h with
  | letter d => exact quotedBody_escape d rest
  | number ascii => exact quotedBody_hexEscape (by omega) rest
  | plain quote backslash => exact quotedBody_plain quote backslash rest

/-- A literal ends where its body was ended, and no sooner: no quote in the body is bare. -/
theorem quotedBody_quote (units : List Glyph) (rest : List Char) :
    quotedBody (quote units ++ '\x22' :: rest) = some (quote units, rest) := by
  induction units with
  | nil =>
    rw [quote, List.nil_append, quotedBody.eq_def]
    rfl
  | cons unit units ih =>
    cases unit with
    | char c =>
      rw [quote, List.append_assoc, quotedBody_written (written_quoteChar c units.head?), ih]
      rfl
    | byte b =>
      rw [quote, List.append_assoc, quotedBody_hexEscape b.toNat_lt, ih]
      rfl

end Raw.Reader

end RubyNormalForm
