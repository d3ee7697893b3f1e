/-!
# Regular expressions

The body of a regular expression keeps its escapes: they are its own notation. Only a line
end after a backslash and, between slashes, an escaped slash are resolved. The letters after
the closing delimiter are options.
-/

namespace RubyNormalForm

/-- The text of a regular expression and its option bits. -/
structure Regexp where
  source : String
  options : Nat
deriving DecidableEq

namespace Regexp

/-- The option bits. -/
def ignoreCase : Nat := 1

@[inherit_doc ignoreCase]
def extended : Nat := 2

@[inherit_doc ignoreCase]
def multiline : Nat := 4

@[inherit_doc ignoreCase]
def fixedEncoding : Nat := 16

@[inherit_doc ignoreCase]
def noEncoding : Nat := 32

/-- The options of a literal. -/
structure Flags where
  options : Nat := 0
  /-- Whether interpolations are evaluated only once. -/
  once : Bool := false
deriving DecidableEq

/-- Adds the option of one letter; unknown letters are ignored. -/
def Flags.add (flags : Flags) (letter : Char) : Flags :=
  if letter == 'i' then { flags with options := flags.options ||| ignoreCase }
  else if letter == 'x' then { flags with options := flags.options ||| extended }
  else if letter == 'm' then { flags with options := flags.options ||| multiline }
  else if letter == 'n' then { flags with options := flags.options ||| noEncoding }
  else if letter == 'e' || letter == 's' || letter == 'u' then
    { flags with options := flags.options ||| fixedEncoding }
  else if letter == 'o' then { flags with once := true }
  else flags

/-- The options written after the delimiter of a closing token. -/
def Flags.ofClosing (token : String) : Flags :=
  (token.toList.drop 1).foldl Flags.add {}

/-- The body of a literal, given the character that opened it. -/
def resolve (opening : Char) : List Char → List Char
  | [] => []
  | c :: rest =>
    if c == '\\' then
      match rest with
      | [] => ['\\']
      | d :: tail =>
        if d == '\n' then resolve opening tail
        else if d == '/' && opening == '/' then '/' :: resolve opening tail
        else '\\' :: d :: resolve opening tail
    else c :: resolve opening rest

/-- The body of a literal as a text. -/
def unescape (opening : Char) (text : String) : String :=
  String.ofList (resolve opening text.toList)

/-- A body as it is written between slashes: a slash outside an escape is escaped. -/
def escapeSlashes : List Char → List Char
  | [] => []
  | c :: rest =>
    if c == '\\' then
      match rest with
      | [] => ['\\']
      | d :: tail => '\\' :: d :: escapeSlashes tail
    else if c == '/' then '\\' :: '/' :: escapeSlashes rest
    else c :: escapeSlashes rest

/-- Whether an option bit is set. -/
def has (r : Regexp) (option : Nat) : Bool :=
  r.options &&& option != 0

/-- The letters of the options that are shown. -/
def flagLetters (r : Regexp) : List Char :=
  (if r.has multiline then ['m'] else []) ++ (if r.has ignoreCase then ['i'] else []) ++
    (if r.has extended then ['x'] else []) ++ (if r.has noEncoding then ['n'] else [])

/-- The text of a regular expression. -/
def inspect (r : Regexp) : String :=
  String.ofList ('/' :: escapeSlashes r.source.toList ++ '/' :: r.flagLetters)

end Regexp

end RubyNormalForm
