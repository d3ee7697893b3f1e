import RubyNormalForm.Text.Blank
import RubyNormalForm.Text.Utf8

/-!
# Escapes of double-quoted literals

`unescape` turns the source text of a double-quoted literal, as bytes, into the bytes the
literal denotes. After a backslash stand an octal or hexadecimal byte, Unicode code points,
a meta or control prefix (these compose in any order), a letter for a control character, a
line end that is dropped, or any other character, which stands for itself.
-/

namespace RubyNormalForm.Literal

/-- The control character that a letter stands for after a backslash. -/
def mnemonic? (c : UInt8) : Option UInt8 :=
  if c = 0x61 then some 0x07
  else if c = 0x62 then some 0x08
  else if c = 0x65 then some 0x1B
  else if c = 0x66 then some 0x0C
  else if c = 0x6E then some 0x0A
  else if c = 0x72 then some 0x0D
  else if c = 0x73 then some 0x20
  else if c = 0x74 then some 0x09
  else if c = 0x76 then some 0x0B
  else none

/-- The value of a byte as a digit in a radix of at most sixteen. -/
def digit? (radix : Nat) (b : UInt8) : Option Nat :=
  let value :=
    if 0x30 ≤ b && b ≤ 0x39 then some (b.toNat - 0x30)
    else if 0x61 ≤ b && b ≤ 0x66 then some (b.toNat - 0x57)
    else if 0x41 ≤ b && b ≤ 0x46 then some (b.toNat - 0x37)
    else none
  value.filter (· < radix)

/-- The digits at the front of a byte sequence, at most `most` of them. -/
def leadingDigits (radix : Nat) : (most : Nat) → List UInt8 → List Nat
  | 0, _ => []
  | _, [] => []
  | most + 1, b :: rest =>
    match digit? radix b with
    | some d => d :: leadingDigits radix most rest
    | none => []

/-- The number written by a sequence of digits. -/
def digitsValue (radix : Nat) (digits : List Nat) : Nat :=
  digits.foldl (fun n d => n * radix + d) 0

/-- Where a control prefix takes a byte: `?` to DEL, any other byte into the control range. -/
def control (b : UInt8) : UInt8 :=
  if b = 0x3F then 0x7F else b &&& 0x9F

/-- Where a meta prefix takes a byte: into the upper half. -/
def lift (b : UInt8) : UInt8 :=
  b ||| 0x80

/-- The byte denoted by the text after a meta or control prefix, and the length of that text.
A further prefix may stand there; a missing operand is the byte zero. -/
def operand : List UInt8 → UInt8 × Nat
  | 0x5C :: 0x4D :: 0x2D :: rest => match operand rest with | (b, n) => (lift b, n + 3)
  | 0x5C :: 0x43 :: 0x2D :: rest => match operand rest with | (b, n) => (control b, n + 3)
  | 0x5C :: 0x63 :: rest => match operand rest with | (b, n) => (control b, n + 2)
  | 0x5C :: c :: _ => ((mnemonic? c).getD c, 2)
  | b :: _ => (b, 1)
  | [] => (0, 0)

/-- The bytes of a code point; nothing if there is no such character. -/
def codePoint (n : Nat) : List UInt8 :=
  if n.isValidChar then String.utf8EncodeChar (Char.ofNat n) else []

/-- The value of a hexadecimal numeral, which may have a plus sign. -/
def hexNumeral? (digits : List UInt8) : Option Nat :=
  let body := match digits with
    | 0x2B :: rest => rest
    | _ => digits
  if body.isEmpty then none
  else (body.mapM (digit? 16)).map (digitsValue 16)

/-- The bytes of the code points listed between braces. Entries that are no numeral or no
character contribute nothing. -/
def codePoints (body : List UInt8) : List UInt8 :=
  (Text.words (Utf8.decodeLossy body)).flatMap fun word =>
    match hexNumeral? (Utf8.encode word) with
    | some n => codePoint n
    | none => []

/-- What an escape denotes. -/
structure Escape where
  bytes : List UInt8
  /-- How many bytes after the backslash belong to the escape. -/
  used : Nat
  /-- Whether the escape can denote text past ASCII: `\x` or `\u`. -/
  wide : Bool := false

/-- The escape `\u`, given what follows the letter. An escape that is not well formed is the
letter alone. -/
def unicodeEscape (rest : List UInt8) : Escape :=
  let letter : Escape := { bytes := [0x75], used := 1, wide := true }
  match rest with
  | 0x7B :: tail =>
    let body := tail.takeWhile (· != 0x7D)
    if body.length = tail.length then letter
    else { bytes := codePoints body, used := body.length + 3, wide := true }
  | _ =>
    let digits := leadingDigits 16 4 rest
    if digits.length = 4 then
      { bytes := codePoint (digitsValue 16 digits), used := 5, wide := true }
    else letter

/-- The escape `\x`, given what follows the letter. -/
def hexByteEscape (rest : List UInt8) : Escape :=
  match leadingDigits 16 2 rest with
  | [] => { bytes := [0x78], used := 1, wide := true }
  | digits =>
    { bytes := [UInt8.ofNat (digitsValue 16 digits)], used := 1 + digits.length, wide := true }

/-- The number of bytes of a character, by its first byte. -/
def charWidth (first : UInt8) : Nat :=
  if first ≥ 0xF0 then 4 else if first ≥ 0xE0 then 3 else if first ≥ 0xC0 then 2 else 1

/-- The escape after a backslash, by the bytes that follow it. A backslash that ends the text
stands for itself. -/
def escape : List UInt8 → Escape
  | [] => { bytes := [0x5C], used := 0 }
  | 0x0A :: _ => { bytes := [], used := 1 }
  | 0x78 :: rest => hexByteEscape rest
  | 0x75 :: rest => unicodeEscape rest
  | 0x4D :: 0x2D :: rest => match operand rest with | (b, n) => { bytes := [lift b], used := n + 2 }
  | 0x43 :: 0x2D :: rest =>
    match operand rest with | (b, n) => { bytes := [control b], used := n + 2 }
  | 0x63 :: rest => match operand rest with | (b, n) => { bytes := [control b], used := n + 1 }
  | c :: rest =>
    match leadingDigits 8 3 (c :: rest) with
    | [] =>
      match mnemonic? c with
      | some b => { bytes := [b], used := 1 }
      | none => { bytes := (c :: rest).take (charWidth c), used := charWidth c }
    | digits => { bytes := [UInt8.ofNat (digitsValue 8 digits)], used := digits.length }

/-- The bytes that a double-quoted text denotes. -/
def unescape : List UInt8 → List UInt8
  | [] => []
  | b :: rest =>
    if b = 0x5C then
      let e := escape rest
      e.bytes ++ unescape (rest.drop e.used)
    else b :: unescape rest
termination_by text => text.length
decreasing_by all_goals simp only [List.length_drop, List.length_cons]; omega

/-- Whether a double-quoted text holds a wide escape. -/
def hasWideEscape : List UInt8 → Bool
  | [] => false
  | b :: rest =>
    if b = 0x5C then
      let e := escape rest
      e.wide || hasWideEscape (rest.drop e.used)
    else hasWideEscape rest
termination_by text => text.length
decreasing_by all_goals simp only [List.length_drop, List.length_cons]; omega

end RubyNormalForm.Literal
