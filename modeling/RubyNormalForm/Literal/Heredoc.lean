/-!
# Heredocs

A heredoc opener tells how the body is indented and quoted. In a squiggly heredoc the least
indentation of the lines that count is removed from every line of the body. Lines of white
space do not count unless they run into an interpolation, and neither do lines that begin
with an interpolation.
-/

namespace RubyNormalForm.Heredoc

/-- The sigil after `<<`. -/
inductive Kind where
  | plain
  | dash
  | squiggly
deriving DecidableEq

/-- The quotes around the closing word. -/
inductive Quote where
  | double
  | single
  | command
deriving DecidableEq

/-- A heredoc opener. -/
structure Opener where
  kind : Kind
  quote : Quote
deriving DecidableEq

/-- The quoting announced at the front of a closing word. -/
def Quote.ofWord : List Char → Quote
  | '\x27' :: _ => .single
  | '\x60' :: _ => .command
  | _ => .double

/-- Reads an opening token such as `<<~EOS`; `none` if it opens something else. -/
def Opener.ofToken? (token : String) : Option Opener :=
  match token.toList with
  | '<' :: '<' :: '~' :: word => some ⟨.squiggly, .ofWord word⟩
  | '<' :: '<' :: '-' :: word => some ⟨.dash, .ofWord word⟩
  | '<' :: '<' :: word => some ⟨.plain, .ofWord word⟩
  | _ => none

/-- Whether a token opens a squiggly heredoc. -/
def isSquiggly (token : String) : Bool :=
  match Opener.ofToken? token with
  | some opener => opener.kind == .squiggly
  | none => false

/-- Cuts a text after each newline. No piece is empty, and only the last may lack a newline. -/
def linePieces : List Char → List (List Char)
  | [] => []
  | c :: rest =>
    if c == '\n' then [c] :: linePieces rest
    else
      match linePieces rest with
      | [] => [[c]]
      | line :: lines => (c :: line) :: lines

/-- Whether a text ends in a newline. -/
def endsLine (text : List Char) : Bool :=
  text.getLast? == some '\n'

/-- Whether a character is indentation. -/
def isIndent (c : Char) : Bool :=
  c == ' ' || c == '\t'

/-- The column after an indentation character; tabs lead to multiples of eight. -/
def advance (column : Nat) (c : Char) : Nat :=
  if c == '\t' then (column / 8 + 1) * 8 else column + 1

/-- The width of the indentation of a line. -/
def indentWidth (line : List Char) : Nat :=
  (line.takeWhile isIndent).foldl advance 0

/-- Whether a line holds nothing but indentation and line ends. -/
def isBlankLine (line : List Char) : Bool :=
  (line.dropWhile isIndent).all fun c => c == '\n' || c == '\r'

/-- The widths of the lines of one text that count. The first piece counts only at the start
of a line; a blank piece counts only if an interpolation follows it on its line. -/
def lineWidths (atStart beforeCode : Bool) : List (List Char) → List Nat
  | [] => []
  | line :: rest =>
    let runsIntoCode := rest.isEmpty && !endsLine line && beforeCode
    let counted := atStart && (!isBlankLine line || runsIntoCode)
    (if counted then [indentWidth line] else []) ++ lineWidths true beforeCode rest

/-- Whether the next character begins a line, once a text has been passed. -/
def startAfter (atStart : Bool) (text : List Char) : Bool :=
  if text.isEmpty then atStart else endsLine text

/-- The widths of all lines of a body that count. `none` stands for an interpolation. -/
def bodyWidths : (atStart : Bool) → List (Option (List Char)) → List Nat
  | _, [] => []
  | _, none :: rest => bodyWidths false rest
  | atStart, some text :: rest =>
    lineWidths atStart (rest.head? == some none) (linePieces text) ++
      bodyWidths (startAfter atStart text) rest

/-- Removes indentation up to a width. A tab that would pass the width is kept. -/
def stripIndent (width : Nat) : (column : Nat) → List Char → List Char
  | _, [] => []
  | column, c :: rest =>
    if isIndent c && advance column c ≤ width then stripIndent width (advance column c) rest
    else c :: rest

/-- Removes indentation from the line pieces of one text. -/
def stripPieces (width : Nat) : (atStart : Bool) → List (List Char) → List Char
  | _, [] => []
  | atStart, line :: rest =>
    (if atStart then stripIndent width 0 line else line) ++ stripPieces width true rest

/-- Removes indentation from every line of a body. -/
def stripBody (width : Nat) : (atStart : Bool) → List (Option (List Char)) →
    List (Option (List Char))
  | _, [] => []
  | _, none :: rest => none :: stripBody width false rest
  | atStart, some text :: rest =>
    some (stripPieces width atStart (linePieces text)) ::
      stripBody width (startAfter atStart text) rest

/-- Removes the common indentation of a body. -/
def dedentChars (body : List (Option (List Char))) : List (Option (List Char)) :=
  match (bodyWidths true body).min? with
  | none => body
  | some width => if width = 0 then body else stripBody width true body

/-- Removes the common indentation of a squiggly heredoc. `none` stands for an
interpolation. -/
def dedent (body : List (Option String)) : List (Option String) :=
  (dedentChars (body.map (·.map String.toList))).map (·.map String.ofList)

end RubyNormalForm.Heredoc
