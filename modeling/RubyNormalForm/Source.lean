import RubyNormalForm.Encoding
import RubyNormalForm.Error
import RubyNormalForm.Text.Word

/-!
# Source files

What the library needs to know about a source file: its name, the number of its first line,
and its encoding, which a comment on one of the first two lines can declare.
-/

namespace RubyNormalForm

namespace MagicComment

open Text

/-- The text after a word, if it begins with that word in either case. -/
def afterWord? (word : String) (text : List Char) : Option (List Char) :=
  let front := text.take word.length
  if front.map Char.toLower == word.toList then some (text.drop word.length) else none

/-- Whether a character can be part of the name of an encoding. -/
def isEncodingChar (c : Char) : Bool :=
  isWordChar c || c == '.' || c == '-'

/-- The name after `:` or `=`. -/
def value? (text : List Char) : Option (List Char) :=
  match text.dropWhile isBlank with
  | c :: rest =>
    if c == ':' || c == '=' then
      let name := (rest.dropWhile isBlank).takeWhile isEncodingChar
      if name.isEmpty then none else some name
    else none
  | [] => none

/-- The name declared by a text that begins with `coding` or `encoding`. -/
def declared? (text : List Char) : Option (List Char) :=
  ((afterWord? "encoding" text).or (afterWord? "coding" text)).bind value?

/-- The name in the first declaration of a text that begins at the start of a word. -/
def search (before : Char) : List Char → Option (List Char)
  | [] => none
  | c :: rest =>
    match if isWordChar before then none else declared? (c :: rest) with
    | some name => some name
    | none => search c rest

/-- The name of the encoding that a line declares, if it is a comment that declares one. -/
def encodingName? (line : List Char) : Option String :=
  match line.dropWhile isBlank with
  | '#' :: rest => (search '#' rest).map String.ofList
  | _ => none

/-- The encoding declared on the first of some lines that declares one, UTF-8 if none does. -/
def encodingOfLines (filename : String) : (number : Nat) → List (List Char) → Result Encoding
  | _, [] => .ok .utf8
  | number, line :: rest =>
    match encodingName? line with
    | none => encodingOfLines filename (number + 1) rest
    | some name =>
      match Encoding.ofName? name with
      | some encoding => .ok encoding
      | none => .error (.source (.unknownEncoding name) filename (some number))

/-- The encoding declared on the first two lines of a text. -/
def encoding (text filename : String) : Result Encoding :=
  encodingOfLines filename 1 ((splitAt (· == '\n') text.toList).take 2)

end MagicComment

/-- A source file. -/
structure Source where
  /-- The name used for `__FILE__` and in errors. -/
  filename : String
  /-- The number of the first line. -/
  firstLine : Nat := 1
  encoding : Encoding := .utf8

namespace Source

/-- What is added to the lines a parser counts, which begin at one. -/
def lineOffset (s : Source) : Nat :=
  s.firstLine - 1

/-- The source file with the given text. -/
def ofText (text filename : String) (firstLine : Nat) : Result Source := do
  return { filename, firstLine, encoding := ← MagicComment.encoding text filename }

end Source

end RubyNormalForm
