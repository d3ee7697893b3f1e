import RubyNormalForm.Literal.Charset
import RubyNormalForm.Literal.Heredoc
import RubyNormalForm.Literal.Regexp

/-!
# Quoting

The token that opens a literal decides how the text inside it is read.
-/

namespace RubyNormalForm

/-- How the text of a literal is read. -/
inductive Quoting where
  | double
  | single (opening : Char)
  | word (opening : Char)
  /-- Nothing is an escape, as in a single-quoted heredoc. -/
  | verbatim
  | regexp (opening : Char)
deriving DecidableEq

namespace Quoting

/-- Whether a token begins with a word. -/
def begins (word : String) (token : String) : Bool :=
  word.toList.isPrefixOf token.toList

/-- The quoting of a literal that is not a heredoc. -/
def ofDelimited (opener : String) : Quoting :=
  let opening := Literal.delimiter opener
  if begins "%w" opener || begins "%i" opener then .word opening
  else if opener == "\x27" || opener == ":\x27" || begins "%q" opener || begins "%s" opener then
    .single opening
  else if opener == "/" || begins "%r" opener then .regexp opening
  else .double

/-- The quoting that a token opens; without a token it is double. -/
def ofOpener : Option String → Quoting
  | none => .double
  | some opener =>
    match Heredoc.Opener.ofToken? opener with
    | some heredoc => if heredoc.quote == .single then .verbatim else .double
    | none => ofDelimited opener

/-- The string that a text denotes. -/
def decode (q : Quoting) (cs : Charset) (text : String) : ByteString :=
  match q with
  | .double => cs.doubleQuoted text
  | .single opening => cs.singleQuoted opening text
  | .word opening => cs.word opening text
  | .verbatim => cs.verbatim text
  | .regexp opening => cs.verbatim (Regexp.unescape opening text)

end Quoting

end RubyNormalForm
