/-!
# Encodings

The encodings a source file can declare. An encoding is a tag that travels with bytes; it
decides how they are shown, never what they are.
-/

namespace RubyNormalForm

/-- The encoding of a source file or of a string. -/
inductive Encoding where
  | utf8
  /-- Raw bytes with no characters. -/
  | binary
  | usAscii
deriving DecidableEq, Inhabited

namespace Encoding

/-- The encoding that a magic comment names, in either case. -/
def ofName? (name : String) : Option Encoding :=
  let lower := String.ofList (name.toList.map Char.toLower)
  if lower == "utf-8" || lower == "utf8" then some .utf8
  else if lower == "binary" || lower == "ascii-8bit" then some .binary
  else if lower == "us-ascii" || lower == "ascii" then some .usAscii
  else none

/-- The name an encoding is shown by. -/
def name : Encoding → String
  | .utf8 => "UTF-8"
  | .binary => "ASCII-8BIT"
  | .usAscii => "US-ASCII"

/-- The constant that holds the encoding in a running program. -/
def constantName : Encoding → String
  | .utf8 => "UTF_8"
  | .binary => "ASCII_8BIT"
  | .usAscii => "US_ASCII"

end Encoding

end RubyNormalForm
