import Mathlib.Tactic.SplitIfs
import RubyNormalForm.Proofs.Quoting

/-!
# Escapes that keep text well formed

A double-quoted literal can denote bytes that are no text, but only through the escapes that name a
byte (`NamesByte`). All others stay within text, malformed ones included (`escape_staysText`): such
an escape denotes whole characters, and what it takes up of the source ends where a character ends.
The decoder therefore always stands at the first byte of a character, and the induction over a
literal follows its jumps from one escape to the next.

An escape ends before a character of several bytes for one of two reasons. The bytes it is told by
(digits, braces, letters) are all in the ASCII range, where a byte is a character; or it takes up as
many bytes as the first one announces, and that is the width of the character.
-/

namespace RubyNormalForm.Literal

/-- What stands after a backslash names a byte and not a character: in octal or hexadecimal digits,
or through a meta or control prefix. -/
inductive NamesByte : List UInt8 → Prop
  | octal {d : UInt8} (rest : List UInt8) : 0x30 ≤ d → d ≤ 0x37 → NamesByte (d :: rest)
  | hexadecimal (rest : List UInt8) : NamesByte (0x78 :: rest)
  | high (rest : List UInt8) : NamesByte (0x4D :: 0x2D :: rest)
  | control (rest : List UInt8) : NamesByte (0x43 :: 0x2D :: rest)
  | shortControl (rest : List UInt8) : NamesByte (0x63 :: rest)

theorem namesByte_cons_iff {c : UInt8} {rest : List UInt8} :
    NamesByte (c :: rest) ↔ (0x30 ≤ c ∧ c ≤ 0x37) ∨ c = 0x78 ∨ c = 0x63 ∨
      (c = 0x4D ∨ c = 0x43) ∧ rest.head? = some 0x2D := by
  constructor
  · intro names
    cases names <;> simp_all
  · rintro (⟨low, high⟩ | rfl | rfl | ⟨isLetter, isDash⟩)
    · exact .octal rest low high
    · exact .hexadecimal rest
    · exact .shortControl rest
    · obtain ⟨rest, rfl⟩ := List.head?_eq_some_iff.1 isDash
      obtain rfl | rfl := isLetter
      · exact .high rest
      · exact .control rest

instance : DecidablePred NamesByte
  | [] => .isFalse nofun
  | _ :: _ => decidable_of_iff _ namesByte_cons_iff.symm

/-- What stands after each backslash that begins an escape, from the first escape of a text to the
last one. A backslash inside an escape begins none. -/
def escapesIn : List UInt8 → List (List UInt8)
  | [] => []
  | b :: rest =>
    if b = 0x5C then rest :: escapesIn (rest.drop (escape rest).used)
    else escapesIn rest
termination_by text => text.length
decreasing_by all_goals simp only [List.length_drop, List.length_cons]; omega

/-- These are the escapes among which a wide one is looked for. -/
theorem hasWideEscape_eq_any (text : List UInt8) :
    hasWideEscape text = (escapesIn text).any fun source => (escape source).wide := by
  fun_induction hasWideEscape text with
  | case1 =>
    rw [escapesIn]
    rfl
  | case2 rest e ih => rw [escapesIn, if_pos rfl, List.any_cons, ih]
  | case3 b rest plain ih => rw [escapesIn, if_neg plain, ih]

/-- The escape denotes text, and it ends where a character of the source begins. -/
structure Escape.StaysText (e : Escape) (source : List UInt8) : Prop where
  bytes : Utf8.isValid e.bytes = true
  boundary : Utf8.isValid (source.drop e.used) = true

/-! ### Escapes told by ASCII bytes -/

theorem digit?_cases {radix : Nat} {b : UInt8} {d : Nat} (isDigit : digit? radix b = some d) :
    (b.toNat = d + 0x30 ∧ d < 10 ∨ (b.toNat = d + 0x57 ∨ b.toNat = d + 0x37) ∧ 10 ≤ d ∧ d < 16) ∧
      d < radix := by
  simp only [digit?, Option.filter_eq_some_iff, decide_eq_true_eq, Bool.and_eq_true,
    UInt8.le_iff_toNat_le, UInt8.reduceToNat] at isDigit
  obtain ⟨value, small⟩ := isDigit
  refine ⟨?_, small⟩
  split_ifs at value <;> cases value <;> omega

theorem digit?_ascii {radix : Nat} {b : UInt8} {d : Nat} (isDigit : digit? radix b = some d) :
    b < 0x80 := by
  have range := (digit?_cases isDigit).1
  simp only [UInt8.lt_iff_toNat_lt, UInt8.reduceToNat]
  omega

theorem namesByte_of_octal {b : UInt8} {d : Nat} (isDigit : digit? 8 b = some d)
    (rest : List UInt8) : NamesByte (b :: rest) := by
  have range := digit?_cases isDigit
  apply NamesByte.octal rest
  all_goals
    simp only [UInt8.le_iff_toNat_le, UInt8.reduceToNat]
    omega

theorem mnemonic?_ascii {c b : UInt8} (known : mnemonic? c = some b) : c < 0x80 ∧ b < 0x80 := by
  rw [mnemonic?] at known
  split_ifs at known
  all_goals
    obtain rfl := Option.some.inj known
    subst c
    decide

/-- Digits at the front of well-formed text can be taken off. -/
theorem isValid_drop_leadingDigits (radix most : Nat) {text : List UInt8}
    (valid : Utf8.isValid text = true) :
    Utf8.isValid (text.drop (leadingDigits radix most text).length) = true := by
  fun_induction leadingDigits radix most text with
  | case1 => exact valid
  | case2 => exact valid
  | case3 most b rest d isDigit ih =>
    rw [Utf8.isValid_cons (digit?_ascii isDigit)] at valid
    exact ih valid
  | case4 => exact valid

theorem isValid_codePoint (n : Nat) : Utf8.isValid (codePoint n) = true := by
  rw [codePoint]
  split
  · exact Utf8.isValid_utf8EncodeChar _
  · exact Utf8.isValid_encode []

theorem isValid_codePoints (body : List UInt8) : Utf8.isValid (codePoints body) = true := by
  apply Utf8.isValid_flatMap
  intro word _
  split
  · exact isValid_codePoint _
  · exact Utf8.isValid_encode []

/-- What stands before the first closing brace can be taken off together with it. -/
theorem isValid_drop_braced {tail : List UInt8} (valid : Utf8.isValid tail = true)
    (closed : (tail.takeWhile (· != 0x7D)).length ≠ tail.length) :
    Utf8.isValid (tail.drop ((tail.takeWhile (· != 0x7D)).length + 1)) = true := by
  have parts := List.takeWhile_append_dropWhile (p := (· != (0x7D : UInt8))) (l := tail)
  have stop := List.head?_dropWhile_not (· != (0x7D : UInt8)) tail
  cases isAfter : tail.dropWhile (· != 0x7D) with
  | nil =>
    rw [isAfter, List.append_nil] at parts
    exact absurd (congrArg List.length parts) closed
  | cons brace after =>
    rw [isAfter] at parts stop
    obtain rfl : brace = 0x7D := by simpa using stop
    generalize tail.takeWhile (· != 0x7D) = body at parts
    rw [← parts] at valid ⊢
    rw [← List.drop_drop, List.drop_left]
    exact Utf8.isValid_of_append_cons (by decide) valid

theorem unicodeEscape_staysText {rest : List UInt8} (valid : Utf8.isValid rest = true) :
    (unicodeEscape rest).StaysText (0x75 :: rest) := by
  have letter : Escape.StaysText { bytes := [0x75], used := 1, wide := true } (0x75 :: rest) :=
    ⟨Utf8.isValid_singleton (by decide), valid⟩
  unfold unicodeEscape
  dsimp only
  split
  · rename_i tail
    split
    · exact letter
    · rename_i closed
      rw [Utf8.isValid_cons (by decide)] at valid
      exact ⟨isValid_codePoints _, isValid_drop_braced valid closed⟩
  · split
    · rename_i four
      have boundary := isValid_drop_leadingDigits 16 4 valid
      rw [four] at boundary
      exact ⟨isValid_codePoint _, boundary⟩
    · exact letter

/-! ### Escaped characters -/

/-- The first byte of a character tells how many bytes it has. -/
theorem length_utf8EncodeChar {c : Char} {first : UInt8} {tail : List UInt8}
    (isChar : String.utf8EncodeChar c = first :: tail) :
    (String.utf8EncodeChar c).length = charWidth first := by
  have bound := (Utf8.toNat_bounds c).1
  have width {n : Nat} (h : n < 256) : charWidth (UInt8.ofNat n) =
      if 0xF0 ≤ n then 4 else if 0xE0 ≤ n then 3 else if 0xC0 ≤ n then 2 else 1 := by
    simp only [charWidth, ge_iff_le, UInt8.le_iff_toNat_le, Utf8.toNat_byte h, UInt8.reduceToNat]
  by_cases h1 : c.toNat < 0x80
  · rw [Utf8.utf8EncodeChar_one h1] at isChar ⊢
    obtain ⟨rfl, -⟩ := List.cons_eq_cons.1 isChar
    rw [width (by omega), if_neg (by omega), if_neg (by omega), if_neg (by omega)]
    rfl
  by_cases h2 : c.toNat < 0x800
  · rw [Utf8.utf8EncodeChar_two (by omega) h2] at isChar ⊢
    obtain ⟨rfl, -⟩ := List.cons_eq_cons.1 isChar
    rw [width (by omega), if_neg (by omega), if_neg (by omega), if_pos (by omega)]
    rfl
  by_cases h3 : c.toNat < 0x10000
  · rw [Utf8.utf8EncodeChar_three (by omega) h3] at isChar ⊢
    obtain ⟨rfl, -⟩ := List.cons_eq_cons.1 isChar
    rw [width (by omega), if_neg (by omega), if_pos (by omega)]
    rfl
  · rw [Utf8.utf8EncodeChar_four (by omega)] at isChar ⊢
    obtain ⟨rfl, -⟩ := List.cons_eq_cons.1 isChar
    rw [width (by omega), if_pos (by omega)]
    rfl

theorem character_staysText {c : UInt8} {rest : List UInt8}
    (valid : Utf8.isValid (c :: rest) = true) :
    Escape.StaysText { bytes := (c :: rest).take (charWidth c), used := charWidth c }
      (c :: rest) := by
  obtain ⟨chars, isText⟩ := Utf8.exists_encode_of_isValid valid
  cases chars with
  | nil => cases isText
  | cons first chars =>
    rw [Utf8.encode_cons] at isText
    obtain ⟨b, tail, isChar⟩ := List.exists_cons_of_ne_nil
      (String.utf8EncodeChar_ne_nil (c := first))
    have isFirst : b = c := by
      rw [isChar] at isText
      exact (List.cons_eq_cons.1 isText).1
    have width := length_utf8EncodeChar isChar
    rw [isFirst] at width
    rw [← isText, ← width]
    constructor
    · rw [List.take_left]
      exact Utf8.isValid_utf8EncodeChar first
    · rw [List.drop_left]
      exact Utf8.isValid_encode chars

/-! ### Every escape, and the whole text -/

theorem escape_staysText {source : List UInt8} (valid : Utf8.isValid source = true)
    (other : ¬ NamesByte source) : (escape source).StaysText source := by
  fun_cases escape source with
  | case1 => exact ⟨Utf8.isValid_singleton (by decide), valid⟩
  | case2 rest =>
    rw [Utf8.isValid_cons (by decide)] at valid
    exact ⟨Utf8.isValid_encode [], valid⟩
  | case3 rest => exact absurd (.hexadecimal rest) other
  | case4 rest =>
    rw [Utf8.isValid_cons (by decide)] at valid
    exact unicodeEscape_staysText valid
  | case5 rest => exact absurd (.high rest) other
  | case6 rest => exact absurd (.control rest) other
  | case7 rest => exact absurd (.shortControl rest) other
  | case8 c rest _ _ _ _ _ _ _ b known =>
    obtain ⟨ascii, ascii'⟩ := mnemonic?_ascii known
    rw [Utf8.isValid_cons ascii] at valid
    exact ⟨Utf8.isValid_singleton ascii', valid⟩
  | case9 => exact character_staysText valid
  | case10 c rest _ _ _ _ _ _ digits =>
    cases isDigit : digit? 8 c with
    | some d => exact absurd (namesByte_of_octal isDigit rest) other
    | none =>
      rw [leadingDigits, isDigit] at digits
      exact absurd rfl digits

/-- Bytes that are no backslash begin no escape. -/
theorem escapesIn_append_of_plain {bytes : List UInt8} (plain : 0x5C ∉ bytes)
    (rest : List UInt8) : escapesIn (bytes ++ rest) = escapesIn rest := by
  induction bytes with
  | nil => rfl
  | cons b bytes ih =>
    rw [List.mem_cons, not_or] at plain
    rw [List.cons_append, escapesIn, if_neg (Ne.symm plain.1), ih plain.2]

theorem escapesIn_backslash (rest : List UInt8) :
    escapesIn (0x5C :: rest) = rest :: escapesIn (rest.drop (escape rest).used) := by
  rw [escapesIn, if_pos rfl]

/-- Decoding leaves text well formed unless a byte is asked for: if no escape of a well-formed text
is octal, hexadecimal, or a meta or control prefix, the bytes it denotes are well formed, whatever
else stands after its backslashes. -/
theorem isValid_unescape (text : List UInt8) (valid : Utf8.isValid text = true)
    (others : ∀ source ∈ escapesIn text, ¬ NamesByte source) :
    Utf8.isValid (unescape text) = true := by
  induction size : text.length using Nat.strongRecOn generalizing text with
  | ind n ih =>
    obtain ⟨chars, rfl⟩ := Utf8.exists_encode_of_isValid valid
    cases chars with
    | nil =>
      rw [Utf8.encode, List.flatMap_nil, unescape]
      exact Utf8.isValid_encode []
    | cons c chars =>
      rw [Utf8.encode_cons] at others size ⊢
      by_cases backslash : c = '\\'
      · -- the next character read is the one after the escape
        have alone : String.utf8EncodeChar c = [0x5C] := by rw [backslash]; rfl
        rw [alone, List.singleton_append] at others size ⊢
        rw [escapesIn_backslash, List.forall_mem_cons] at others
        obtain ⟨bytes, boundary⟩ := escape_staysText (Utf8.isValid_encode chars) others.1
        rw [unescape_backslash, Utf8.isValid_append bytes]
        refine ih _ ?_ _ boundary others.2 rfl
        rw [List.length_cons] at size
        rw [List.length_drop]
        omega
      · rw [escapesIn_append_of_plain (backslash_not_mem_utf8EncodeChar backslash)] at others
        rw [unescape_utf8EncodeChar_append backslash,
          Utf8.isValid_append (Utf8.isValid_utf8EncodeChar c)]
        refine ih _ ?_ _ (Utf8.isValid_encode chars) others rfl
        have positive := List.length_pos_iff.2 (String.utf8EncodeChar_ne_nil (c := c))
        rw [List.length_append] at size
        omega

/-- A useless escape of a wide character, a splice, a surrogate and an entry that is no number in
braces, a truncated and an unclosed Unicode escape, and a backslash at the end. -/
def malformedEscapes : String := "\\é\\\n\\u\x7bD800 z\x7d\\u1\\u\x7bé\\"

/-- With all of these in it a literal denotes text. -/
theorem isValid_unescape_malformed :
    (∀ source ∈ escapesIn (Utf8.ofText malformedEscapes), ¬ NamesByte source) ∧
      Utf8.isValid (unescape (Utf8.ofText malformedEscapes)) = true := by
  have others : ∀ source ∈ escapesIn (Utf8.ofText malformedEscapes), ¬ NamesByte source := by
    decide +kernel
  exact ⟨others, isValid_unescape _ (Utf8.isValid_encode _) others⟩

end RubyNormalForm.Literal
