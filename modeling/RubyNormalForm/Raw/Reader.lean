import RubyNormalForm.Error
import RubyNormalForm.Literal.Escape
import RubyNormalForm.Number.Reading
import RubyNormalForm.Number.Width

/-!
# Reading raw trees

The notation of raw trees: arrays in brackets, symbols, double-quoted strings, numbers,
`nil`, `true` and `false`. Blanks and comments from `#` to the end of the line may stand
around the items of an array and around the whole, and a comma may follow the last item.
An array that begins with a symbol is a node with that tag, a pair of numbers is a position,
and any other array is an untagged sequence.

The reader never goes back, so it can tell where a text stops making sense: an error names
the line on which a value was last looked for.
-/

namespace RubyNormalForm.Raw

namespace Reader

/-- Whether a character may stand between the items of an array. -/
def isGap (c : Char) : Bool :=
  c == ' ' || c == '\t' || c == '\r' || c == '\n'

/-- Passes blanks and comments; the flag tells whether the text begins inside a comment. -/
def skipFrom : (inComment : Bool) → List Char → List Char
  | _, [] => []
  | true, c :: rest => skipFrom (c != '\n') rest
  | false, c :: rest =>
    if isGap c then skipFrom false rest
    else if c == '#' then skipFrom true rest
    else c :: rest

/-- Passes blanks and comments. -/
def skip (text : List Char) : List Char :=
  skipFrom false text

/-- The body of a double-quoted text up to its closing quote, escapes kept, and the rest. -/
def quotedBody : List Char → Option (List Char × List Char)
  | [] => none
  | c :: rest =>
    if c == '\x22' then some ([], rest)
    else if c == '\\' then
      match rest with
      | [] => none
      | d :: rest => (quotedBody rest).map fun (body, rest) => (c :: d :: body, rest)
    else (quotedBody rest).map fun (body, rest) => (c :: body, rest)

/-- The text that the body of a quoted text denotes. -/
def denoted (body : List Char) : String :=
  Utf8.toText (Literal.unescape (Utf8.encode body))

/-- An identifier and the rest. -/
def identifier? : List Char → Option (List Char × List Char)
  | [] => none
  | c :: rest =>
    if Symbol.isNameStart c then
      some (c :: rest.takeWhile Symbol.isNameChar, rest.dropWhile Symbol.isNameChar)
    else none

/-- An identifier with at most one mark after it, and the rest. -/
def markedIdentifier? (text : List Char) : Option (List Char × List Char) :=
  (identifier? text).map fun (name, rest) =>
    match rest with
    | c :: tail => if c == '?' || c == '!' || c == '=' then (name ++ [c], tail) else (name, rest)
    | [] => (name, rest)

/-- The name of a global variable after its dollar sign, and the rest. -/
def globalName? (text : List Char) : Option (List Char × List Char) :=
  match identifier? text with
  | some found => some found
  | none =>
    match text with
    | [] => none
    | c :: rest =>
      if c.isDigit then some (Number.spanDigits (c :: rest)) else some ([c], rest)

/-- The operators that are read as bare symbols. An operator that begins like another one
stands before it. -/
def operators : List (List Char) :=
  ["[]=", "[]", "**", "<=>", "===", "==", "=~", "!=", "!~", "<=", ">=", "<<", ">>", "+@", "-@",
   "!", "~", "+", "-", "*", "/", "%", "<", ">", "^", "&", "|", "\x60"].map String.toList

/-- The first operator that a text begins with, and the rest. -/
def operator? (text : List Char) : Option (List Char × List Char) :=
  (operators.find? (·.isPrefixOf text)).map fun op => (op, text.drop op.length)

/-- The name of a bare symbol and the rest. -/
def bareSymbol? (text : List Char) : Option (List Char × List Char) :=
  match text with
  | '@' :: '@' :: rest => (markedIdentifier? rest).map fun (n, rest) => ('@' :: '@' :: n, rest)
  | '@' :: rest => (markedIdentifier? rest).map fun (n, rest) => ('@' :: n, rest)
  | '$' :: rest => (globalName? rest).map fun (n, rest) => ('$' :: n, rest)
  | _ =>
    match markedIdentifier? text with
    | some found => some found
    | none => operator? text

/-- A symbol after its colon, and the rest. -/
def symbol? : List Char → Option (Raw × List Char)
  | '\x22' :: rest => (quotedBody rest).map fun (body, rest) => (.sym (denoted body), rest)
  | text => (bareSymbol? text).map fun (name, rest) => (.sym (String.ofList name), rest)

/-- The exponent at the front of a text, if there is a whole one, and the rest. -/
def spanExponent (text : List Char) : List Char × List Char :=
  match text with
  | mark :: rest =>
    if mark == 'e' || mark == 'E' then
      let (sign, rest) := match rest with
        | c :: tail => if c == '+' || c == '-' then ([c], tail) else ([], rest)
        | [] => ([], [])
      let (digits, rest) := Number.spanDigits rest
      if digits.isEmpty then ([], text) else (mark :: sign ++ digits, rest)
    else ([], text)
  | [] => ([], [])

/-- A number without its sign, and the rest: a float if a point and a digit follow the whole
part, an integer otherwise. -/
def number? (negative : Bool) (text : List Char) : Option (Raw × List Char) :=
  let (whole, rest) := Number.spanDigits text
  if whole.isEmpty then none
  else
    let integer : Int := Number.decimalValue whole
    let asInteger := some (.int (if negative then -integer else integer), rest)
    match rest with
    | '.' :: tail =>
      let (fraction, rest) := Number.spanDigits tail
      if fraction.isEmpty then asInteger
      else
        let (exponent, rest) := spanExponent rest
        (Number.unsigned? negative (whole ++ '.' :: fraction ++ exponent)).map fun x =>
          (.float x, rest)
    | _ => asInteger

/-- A value that is not an array, and the rest. -/
def scalar? : List Char → Option (Raw × List Char)
  | ':' :: rest => symbol? rest
  | '\x22' :: rest => (quotedBody rest).map fun (body, rest) => (.str (denoted body), rest)
  | '-' :: rest => number? true rest
  | 'n' :: 'i' :: 'l' :: rest => some (.nil, rest)
  | 't' :: 'r' :: 'u' :: 'e' :: rest => some (.bool true, rest)
  | 'f' :: 'a' :: 'l' :: 's' :: 'e' :: rest => some (.bool false, rest)
  | text => number? false text

/-- The value that an array stands for. -/
def ofItems : List Raw → Raw
  | .sym tag :: children => .node tag children
  | [.int line, .int column] =>
    if line ≥ 0 && column ≥ 0 then .pos line.toNat column.toNat
    else .node listTag [.int line, .int column]
  | items => .node listTag items

/-- What the reader remembers for its errors. -/
structure Trail where
  /-- The text that was left where a value was last looked for. -/
  tried : List Char
  /-- The first integer that does not fit 64 bits: its sign and the text from it on. -/
  outOfRange : Option (Bool × List Char) := none

/-- Remembers a value that does not fit, unless one is already remembered. -/
def Trail.check (t : Trail) (value : Raw) (text : List Char) : Trail :=
  match value, t.outOfRange with
  | .int n, none =>
    if Number.fits64 n then t else { t with outOfRange := some (decide (n < 0), text) }
  | _, _ => t

mutual

/-- Reads a value at the front of a text. -/
def value : (fuel : Nat) → Trail → List Char → Trail × Option (Raw × List Char)
  | 0, t, _ => (t, none)
  | fuel + 1, t, text =>
    let t := { t with tried := text }
    match text with
    | '[' :: rest =>
      match items fuel t (skip rest) with
      | (t, some (children, rest)) => (t, some (ofItems children, rest))
      | (t, none) => (t, none)
    | _ =>
      match scalar? text with
      | some (v, rest) => (t.check v text, some (v, rest))
      | none => (t, none)

/-- Reads the items of an array up to its closing bracket. -/
def items : (fuel : Nat) → Trail → List Char → Trail × Option (List Raw × List Char)
  | 0, t, _ => (t, none)
  | fuel + 1, t, text =>
    match value fuel t text with
    | (t, none) =>
      match text with
      | ']' :: rest => (t, some ([], rest))
      | _ => (t, none)
    | (t, some (v, rest)) =>
      match skip rest with
      | ']' :: rest => (t, some ([v], rest))
      | ',' :: rest =>
        match items fuel t (skip rest) with
        | (t, some (vs, rest)) => (t, some (v :: vs, rest))
        | (t, none) => (t, none)
      | _ => (t, none)

end

/-- The line on which the last part of a text begins. -/
def lineOf (text rest : List Char) : Nat :=
  text.count '\n' - rest.count '\n' + 1

/-- Reads a whole text. -/
def whole (text : List Char) (origin : String) : Result Raw :=
  let fail (fault : SourceFault) (rest : List Char) : Result Raw :=
    .error (.source fault origin (some (lineOf text rest)))
  match value (2 * text.length + 2) { tried := text } (skip text) with
  | (t, none) => fail .malformedDump t.tried
  | (t, some (v, rest)) =>
    if !(skip rest).isEmpty then fail .malformedDump (skip rest)
    else
      match t.outOfRange with
      | some (negative, at') => fail (.integerRange negative) at'
      | none => .ok v

end Reader

/-- Reads a raw tree. The origin names the text in errors. -/
def read (text origin : String) : Result Raw :=
  Reader.whole text.toList origin

/-- Reads a raw tree that must be a node. -/
def readNode (text origin : String) : Result Node := do
  match ← read text origin with
  | .node tag children => return ⟨tag, children⟩
  | other => throw (.source (.notArray other) origin (some 1))

end RubyNormalForm.Raw
