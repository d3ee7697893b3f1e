/-!
# JSON documents

JSON values as they are written out: an object keeps its members in order, and a number is
kept as its text. Documents are laid out with one item a line and two spaces for each level.
-/

namespace RubyNormalForm

/-- A JSON value. -/
inductive JsonValue where
  | null
  | bool (b : Bool)
  | number (text : String)
  | string (text : String)
  | array (items : List JsonValue)
  | object (members : List (String × JsonValue))

namespace JsonValue

instance : Inhabited JsonValue := ⟨.null⟩

/-- The integer as a number. -/
def ofInt (n : Int) : JsonValue :=
  .number (toString n)

/-- The natural as a number. -/
def ofNat (n : Nat) : JsonValue :=
  .number (toString n)

/-- A hexadecimal digit in lower case. -/
def hexDigit (n : Nat) : Char :=
  if n < 10 then Char.ofNat (48 + n) else Char.ofNat (87 + n)

/-- A character inside a string: quotes, backslashes and control characters are escaped. -/
def escapeChar (c : Char) : List Char :=
  if c == '\x22' || c == '\\' then ['\\', c]
  else if c.toNat == 0x08 then ['\\', 'b']
  else if c.toNat == 0x09 then ['\\', 't']
  else if c.toNat == 0x0A then ['\\', 'n']
  else if c.toNat == 0x0C then ['\\', 'f']
  else if c.toNat == 0x0D then ['\\', 'r']
  else if c.toNat < 0x20 then
    ['\\', 'u', '0', '0', hexDigit (c.toNat / 16), hexDigit (c.toNat % 16)]
  else [c]

/-- A string between its quotes. -/
def quote (text : String) : List Char :=
  '\x22' :: text.toList.flatMap escapeChar ++ ['\x22']

/-- A new line at the given level. -/
def newLine (level : Nat) : List Char :=
  '\n' :: List.replicate (2 * level) ' '

mutual

/-- The characters of a value inside a document at the given level. -/
def render (level : Nat) : JsonValue → List Char
  | .null => "null".toList
  | .bool b => (if b then "true" else "false").toList
  | .number text => text.toList
  | .string text => quote text
  | .array [] => ['[', ']']
  | .array (item :: items) =>
    '[' :: newLine (level + 1) ++ render (level + 1) item ++ renderItems (level + 1) items ++
      newLine level ++ [']']
  | .object [] => ['\x7b', '\x7d']
  | .object ((name, value) :: members) =>
    '\x7b' :: newLine (level + 1) ++ quote name ++ ':' :: ' ' :: render (level + 1) value ++
      renderMembers (level + 1) members ++ newLine level ++ ['\x7d']

/-- The characters of the items of an array after the first. -/
def renderItems (level : Nat) : List JsonValue → List Char
  | [] => []
  | item :: items => ',' :: newLine level ++ render level item ++ renderItems level items

/-- The characters of the members of an object after the first. -/
def renderMembers (level : Nat) : List (String × JsonValue) → List Char
  | [] => []
  | (name, value) :: members =>
    ',' :: newLine level ++ quote name ++ ':' :: ' ' :: render level value ++
      renderMembers level members

end

/-- The text of a document. -/
def pretty (j : JsonValue) : String :=
  String.ofList (j.render 0)

end JsonValue

end RubyNormalForm
