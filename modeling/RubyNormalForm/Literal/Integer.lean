/-!
# Integer literals

An integer literal is an optional sign and digits, which a prefix may put into another radix:
`0x`, `0b`, `0o` and `0d` in either case, or a bare leading zero for octal. Underscores are
ignored wherever they stand.
-/

namespace RubyNormalForm.Literal

/-- A literal without its underscores. -/
def withoutUnderscores (text : List Char) : List Char :=
  text.filter (· != '_')

/-- The value of a character as a digit in a radix of at most sixteen, letters in lower case. -/
def digitValue? (radix : Nat) (c : Char) : Option Nat :=
  let value :=
    if c.isDigit then some (c.toNat - 48)
    else if 'a'.toNat ≤ c.toNat && c.toNat ≤ 'f'.toNat then some (c.toNat - 87)
    else none
  value.filter (· < radix)

/-- The value of a non-empty sequence of digits. -/
def natural? (radix : Nat) (digits : List Char) : Option Nat :=
  if digits.isEmpty then none
  else (digits.mapM (digitValue? radix)).map (·.foldl (fun n d => n * radix + d) 0)

/-- The radix that the front of a literal announces, and the digits after it. -/
def radixOf : List Char → Nat × List Char
  | '0' :: 'x' :: digits => (16, digits)
  | '0' :: 'b' :: digits => (2, digits)
  | '0' :: 'o' :: digits => (8, digits)
  | '0' :: 'd' :: digits => (10, digits)
  | '0' :: c :: digits => (8, c :: digits)
  | digits => (10, digits)

/-- The value of a literal without its sign. -/
def magnitude? (text : List Char) : Option Nat :=
  let (radix, digits) := radixOf (text.map Char.toLower)
  natural? radix digits

/-- Reads an optional sign and hands the rest to a reader of naturals. -/
def signed? (read : List Char → Option Nat) : List Char → Option Int
  | '-' :: rest => (read rest).map fun n => -(n : Int)
  | '+' :: rest => (read rest).map Int.ofNat
  | rest => (read rest).map Int.ofNat

/-- The value of an integer literal. -/
def integer? (text : String) : Option Int :=
  signed? magnitude? (withoutUnderscores text.toList)

/-- The value of a decimal numeral with an optional sign. -/
def decimal? (text : List Char) : Option Int :=
  signed? (natural? 10) text

end RubyNormalForm.Literal
