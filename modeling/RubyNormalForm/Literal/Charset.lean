import RubyNormalForm.ByteString
import RubyNormalForm.Literal.Escape
import RubyNormalForm.Literal.Minimal

/-!
# Character sets of literals

The strings of a source file are tagged with its encoding. A double-quoted literal in a file
that is not UTF-8 is promoted to UTF-8 when it holds a wide escape and its bytes form text
past ASCII; `extraCompatible` turns that off.
-/

namespace RubyNormalForm

/-- How the literals of a source file are tagged. -/
structure Charset where
  encoding : Encoding
  extraCompatible : Bool
deriving DecidableEq

namespace Charset

/-- Whether bytes are well-formed text that leaves ASCII. -/
def isWideText (bytes : List UInt8) : Bool :=
  Utf8.isValid bytes && bytes.any (· ≥ 0x80)

/-- The encoding of a double-quoted literal that denotes the given bytes. -/
def encodingOf (cs : Charset) (wide : Bool) (bytes : List UInt8) : Encoding :=
  if wide && !cs.extraCompatible && isWideText bytes then .utf8 else cs.encoding

/-- A double-quoted literal. -/
def doubleQuoted (cs : Charset) (text : String) : ByteString :=
  let source := Utf8.ofText text
  let bytes := Literal.unescape source
  ⟨bytes, cs.encodingOf (Literal.hasWideEscape source) bytes⟩

/-- A text taken as it stands. -/
def verbatim (cs : Charset) (text : String) : ByteString :=
  ⟨Utf8.ofText text, cs.encoding⟩

/-- A single-quoted literal. -/
def singleQuoted (cs : Charset) (opening : Char) (text : String) : ByteString :=
  cs.verbatim (Literal.unescapeSingle opening text)

/-- An element of a word list. -/
def word (cs : Charset) (opening : Char) (text : String) : ByteString :=
  cs.verbatim (Literal.unescapeWord opening text)

end Charset

end RubyNormalForm
