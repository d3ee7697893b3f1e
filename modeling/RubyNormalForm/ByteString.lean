import RubyNormalForm.Encoding
import RubyNormalForm.Text.Utf8

/-!
# Byte strings

String literals denote bytes that carry an encoding. `ByteString.inspect` writes one as a
double-quoted literal: bytes that form text are written as that text, all others in
hexadecimal, and whatever would read as the end of the literal, as an escape or as the start
of an interpolation is escaped.
-/

namespace RubyNormalForm

/-- Bytes with the encoding they are tagged with. -/
structure ByteString where
  bytes : List UInt8
  encoding : Encoding
deriving DecidableEq

namespace ByteString

/-- A text in UTF-8. -/
def ofText (text : String) : ByteString :=
  ⟨Utf8.ofText text, .utf8⟩

/-- No bytes, in the given encoding. -/
def empty (encoding : Encoding) : ByteString :=
  ⟨[], encoding⟩

/-- Whether there are no bytes. -/
def isEmpty (s : ByteString) : Bool :=
  s.bytes.isEmpty

/-- Joins two strings. The encoding is that of the first string unless that one is empty. -/
def append (s t : ByteString) : ByteString :=
  ⟨s.bytes ++ t.bytes, if s.bytes.isEmpty then t.encoding else s.encoding⟩

/-- The bytes as text, whatever the encoding; broken stretches show as U+FFFD. -/
def toText (s : ByteString) : String :=
  Utf8.toText s.bytes

/-- A unit of a shown string: a character, or a byte that belongs to none. -/
inductive Glyph where
  | char (c : Char)
  | byte (b : UInt8)
deriving DecidableEq

/-- A byte by itself: a character if it is ASCII. -/
def glyphOfByte (b : UInt8) : Glyph :=
  if b < 0x80 then .char (Char.ofNat b.toNat) else .byte b

/-- The units a string is shown by. Characters past ASCII are recognised only if the whole
string is well-formed text and not tagged as raw bytes. -/
def glyphs (s : ByteString) : List Glyph :=
  match s.encoding, Utf8.decode? s.bytes with
  | .binary, _ => s.bytes.map glyphOfByte
  | _, some chars => chars.map .char
  | _, none => s.bytes.map glyphOfByte

/-- A hexadecimal digit in upper case. -/
def hexDigit (n : Nat) : Char :=
  if n < 10 then Char.ofNat (48 + n) else Char.ofNat (55 + n)

/-- The escape of a byte in hexadecimal. -/
def hexEscape (n : Nat) : List Char :=
  ['\\', 'x', hexDigit (n / 16), hexDigit (n % 16)]

/-- The letter of the short escape for a control character, if it has one. -/
def controlLetter? (c : Char) : Option Char :=
  if c.toNat = 0x0A then some 'n'
  else if c.toNat = 0x09 then some 't'
  else if c.toNat = 0x0D then some 'r'
  else if c.toNat = 0x07 then some 'a'
  else if c.toNat = 0x08 then some 'b'
  else if c.toNat = 0x0B then some 'v'
  else if c.toNat = 0x0C then some 'f'
  else if c.toNat = 0x1B then some 'e'
  else none

/-- Whether a unit after `#` would start an interpolation. -/
def opensInterpolation : Option Glyph → Bool
  | some (.char c) => c == '\x7b' || c == '$' || c == '@'
  | _ => false

/-- How a character is written when the given unit follows it. -/
def quoteChar (c : Char) (next : Option Glyph) : List Char :=
  if c == '\x22' || c == '\\' then ['\\', c]
  else
    match controlLetter? c with
    | some letter => ['\\', letter]
    | none =>
      if c == '#' && opensInterpolation next then ['\\', '#']
      else if c.toNat < 0x20 || c.toNat == 0x7F then hexEscape c.toNat
      else [c]

/-- The body of a double-quoted literal. -/
def quote : List Glyph → List Char
  | [] => []
  | .char c :: rest => quoteChar c rest.head? ++ quote rest
  | .byte b :: rest => hexEscape b.toNat ++ quote rest

/-- The string as a double-quoted literal. -/
def inspect (s : ByteString) : String :=
  String.ofList ('\x22' :: quote s.glyphs ++ ['\x22'])

end ByteString

end RubyNormalForm
