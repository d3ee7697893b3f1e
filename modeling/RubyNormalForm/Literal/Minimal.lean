import RubyNormalForm.Text.Blank

/-!
# Minimal escapes

In a single-quoted literal a backslash is dropped only before another backslash or before one
of the two delimiters; in a word list it is dropped before white space as well. Every other
character, backslashes included, stands for itself.
-/

namespace RubyNormalForm.Literal

/-- The delimiter that closes what the given one opens. -/
def closing (opening : Char) : Char :=
  if opening == '(' then ')'
  else if opening == '[' then ']'
  else if opening == '\x7b' then '\x7d'
  else if opening == '<' then '>'
  else opening

/-- The delimiter of an opening token: its last character, or a double quote if it is empty. -/
def delimiter (opener : String) : Char :=
  opener.toList.getLast?.getD '\x22'

/-- Drops each backslash that stands before an escapable character. An escaped character is
not itself read as a backslash. -/
def dropEscapes (escapable : Char → Bool) : List Char → List Char
  | [] => []
  | '\\' :: d :: rest =>
    if escapable d then d :: dropEscapes escapable rest
    else '\\' :: dropEscapes escapable (d :: rest)
  | c :: rest => c :: dropEscapes escapable rest

/-- The characters that can be escaped in a single-quoted literal. -/
def escapableSingle (opening d : Char) : Bool :=
  d == '\\' || d == opening || d == closing opening

/-- The characters that can be escaped in a word list. -/
def escapableWord (opening d : Char) : Bool :=
  escapableSingle opening d || Text.isBlank d

/-- The text of a single-quoted literal. -/
def unescapeSingle (opening : Char) (text : String) : String :=
  String.ofList (dropEscapes (escapableSingle opening) text.toList)

/-- The text of an element of a word list. -/
def unescapeWord (opening : Char) (text : String) : String :=
  String.ofList (dropEscapes (escapableWord opening) text.toList)

end RubyNormalForm.Literal
