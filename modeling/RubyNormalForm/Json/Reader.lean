/-!
# Reading JSON

Strict JSON, as far as a configuration needs it: strings are decoded, and other values are
only passed over. A value that is passed over has to be well formed, but numbers of any size
and escapes of lone surrogates are accepted in it.
-/

namespace RubyNormalForm.JsonReader

/-- Passes the blanks of JSON. -/
def skipBlanks (text : List Char) : List Char :=
  text.dropWhile fun c => c == ' ' || c == '\n' || c == '\t' || c == '\r'

/-- A unit of a string: a character, or a 16-bit unit given by an escape. -/
inductive StringUnit where
  | char (c : Char)
  | unit (n : Nat)

/-- The value of a hexadecimal digit in either case. -/
def hexValue? (c : Char) : Option Nat :=
  if c.isDigit then some (c.toNat - 48)
  else if 'a'.toNat ≤ c.toNat && c.toNat ≤ 'f'.toNat then some (c.toNat - 87)
  else if 'A'.toNat ≤ c.toNat && c.toNat ≤ 'F'.toNat then some (c.toNat - 55)
  else none

/-- The character that a letter stands for after a backslash. -/
def escaped? (c : Char) : Option Char :=
  if c == '\x22' || c == '\\' || c == '/' then some c
  else if c == 'b' then some (Char.ofNat 0x08)
  else if c == 'f' then some (Char.ofNat 0x0C)
  else if c == 'n' then some (Char.ofNat 0x0A)
  else if c == 'r' then some (Char.ofNat 0x0D)
  else if c == 't' then some (Char.ofNat 0x09)
  else none

/-- The units of a string after its opening quote, and what follows its closing quote. -/
def stringUnits : List Char → Option (List StringUnit × List Char)
  | [] => none
  | '\x22' :: rest => some ([], rest)
  | '\\' :: 'u' :: a :: b :: c :: d :: rest => do
    let n := (((← hexValue? a) * 16 + (← hexValue? b)) * 16 + (← hexValue? c)) * 16 +
      (← hexValue? d)
    let (units, rest) ← stringUnits rest
    return (.unit n :: units, rest)
  | '\\' :: c :: rest => do
    let ch ← escaped? c
    let (units, rest) ← stringUnits rest
    return (.char ch :: units, rest)
  | c :: rest =>
    if c.toNat < 0x20 || c == '\\' then none
    else do
      let (units, rest) ← stringUnits rest
      return (.char c :: units, rest)

/-- The text that units make up; a surrogate that is not one of a pair makes up none. -/
def unitsText? : List StringUnit → Option (List Char)
  | [] => some []
  | .char c :: rest => (unitsText? rest).map (c :: ·)
  | .unit n :: rest =>
    if 0xD800 ≤ n && n ≤ 0xDBFF then
      match rest with
      | .unit m :: rest =>
        if 0xDC00 ≤ m && m ≤ 0xDFFF then
          (unitsText? rest).map
            (Char.ofNat (0x10000 + (n - 0xD800) * 0x400 + (m - 0xDC00)) :: ·)
        else none
      | _ => none
    else if 0xDC00 ≤ n && n ≤ 0xDFFF then none
    else (unitsText? rest).map (Char.ofNat n :: ·)

/-- A string after its opening quote, and the rest. -/
def string? (text : List Char) : Option (String × List Char) := do
  let (units, rest) ← stringUnits text
  let chars ← unitsText? units
  return (String.ofList chars, rest)

/-- Passes one or more digits. -/
def skipDigits (text : List Char) : Option (List Char) :=
  match text with
  | c :: rest => if c.isDigit then some (rest.dropWhile Char.isDigit) else none
  | [] => none

/-- Passes the fraction and the exponent of a number, each of which may be missing. -/
def skipTail (text : List Char) : Option (List Char) := do
  let rest ← match text with
    | '.' :: rest => skipDigits rest
    | _ => some text
  match rest with
  | c :: tail =>
    if c == 'e' || c == 'E' then
      match tail with
      | d :: digits => if d == '+' || d == '-' then skipDigits digits else skipDigits tail
      | [] => none
    else some rest
  | [] => some rest

/-- Passes a number without its sign. -/
def skipNumber (text : List Char) : Option (List Char) :=
  match text with
  | '0' :: rest =>
    match rest with
    | c :: _ => if c.isDigit then none else skipTail rest
    | [] => some []
  | _ => (skipDigits text).bind skipTail

mutual

/-- Passes a value. -/
def skipValue : (fuel : Nat) → List Char → Option (List Char)
  | 0, _ => none
  | fuel + 1, text =>
    match text with
    | '\x22' :: rest => (stringUnits rest).map Prod.snd
    | '-' :: rest => skipNumber rest
    | 'n' :: 'u' :: 'l' :: 'l' :: rest => some rest
    | 't' :: 'r' :: 'u' :: 'e' :: rest => some rest
    | 'f' :: 'a' :: 'l' :: 's' :: 'e' :: rest => some rest
    | '[' :: rest =>
      match skipBlanks rest with
      | ']' :: rest => some rest
      | rest => skipItems fuel rest
    | '\x7b' :: rest =>
      match skipBlanks rest with
      | '\x7d' :: rest => some rest
      | rest => skipMembers fuel rest
    | _ => skipNumber text

/-- Passes the items of an array up to its closing bracket. -/
def skipItems : (fuel : Nat) → List Char → Option (List Char)
  | 0, _ => none
  | fuel + 1, text => do
    match skipBlanks (← skipValue fuel text) with
    | ']' :: rest => some rest
    | ',' :: rest => skipItems fuel (skipBlanks rest)
    | _ => none

/-- Passes the members of an object up to its closing brace. -/
def skipMembers : (fuel : Nat) → List Char → Option (List Char)
  | 0, _ => none
  | fuel + 1, text =>
    match text with
    | '\x22' :: rest => do
      let (_, rest) ← stringUnits rest
      match skipBlanks rest with
      | ':' :: rest =>
        match skipBlanks (← skipValue fuel (skipBlanks rest)) with
        | '\x7d' :: rest => some rest
        | ',' :: rest => skipMembers fuel (skipBlanks rest)
        | _ => none
      | _ => none
    | _ => none

end

/-- Passes a value of any depth. -/
def skipAny (text : List Char) : Option (List Char) :=
  skipValue (2 * text.length + 2) text

/-- A truth value and the rest. -/
def bool? : List Char → Option (Bool × List Char)
  | 't' :: 'r' :: 'u' :: 'e' :: rest => some (true, rest)
  | 'f' :: 'a' :: 'l' :: 's' :: 'e' :: rest => some (false, rest)
  | _ => none

end RubyNormalForm.JsonReader
