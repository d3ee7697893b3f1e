import RubyNormalForm.ByteString

/-!
# Symbols

A symbol is written after a colon: bare if its name is an identifier, a variable or an
operator, and as a double-quoted literal otherwise.
-/

namespace RubyNormalForm.Symbol

/-- Whether a character can begin an identifier. -/
def isNameStart (c : Char) : Bool :=
  c.isAlpha || c == '_'

/-- Whether a character can continue an identifier. -/
def isNameChar (c : Char) : Bool :=
  c.isAlphanum || c == '_'

/-- Whether a text is an identifier. -/
def isName : List Char → Bool
  | [] => false
  | c :: rest => isNameStart c && rest.all isNameChar

/-- Whether a text is an identifier followed by one of the marks `?`, `!` and `=`. -/
def isMarkedName (text : List Char) : Bool :=
  match text.getLast? with
  | some mark => (mark == '?' || mark == '!' || mark == '=') && isName text.dropLast
  | none => false

/-- The punctuation that names a special global variable. -/
def specialGlobals : List Char :=
  "~*$?!@/\\;,.=:<>&\x60\x27+\x22_0".toList

/-- Whether the text after a dollar sign names a numbered or special global variable. -/
def isSpecialGlobal (text : List Char) : Bool :=
  (!text.isEmpty && text.all Char.isDigit) ||
    match text with
    | [c] => specialGlobals.contains c
    | _ => false

/-- The operators whose symbols are written bare. -/
def operators : List String :=
  ["[]", "[]=", "*", "**", "+", "+@", "-", "-@", "/", "%", "~", "!", "^", "&", "|", "<", ">",
   "\x60", "<=>", "=", "==", "===", "=~", "!=", "!~", "<=", ">=", "<<", ">>"]

/-- Whether a name is written bare. -/
def isPlain (text : List Char) : Bool :=
  isName text || isMarkedName text ||
    (match text with
     | '@' :: '@' :: rest => isName rest
     | '@' :: rest => isName rest
     | '$' :: rest => isName rest || isSpecialGlobal rest
     | _ => false) ||
    operators.contains (String.ofList text)

/-- The text of a symbol. -/
def inspect (name : String) : String :=
  if isPlain name.toList then ":" ++ name else ":" ++ (ByteString.ofText name).inspect

end RubyNormalForm.Symbol
