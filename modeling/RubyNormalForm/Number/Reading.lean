import RubyNormalForm.Number.Binary64

/-!
# Reading doubles

The text of a double is an optional sign followed by a name for an infinity or for NaN, in
either case, or by decimal digits with an optional point and an optional exponent. Digits may
stand on either side of the point, but not on neither.
-/

namespace RubyNormalForm.Number

/-- The value of a run of decimal digits. -/
def decimalValue (digits : List Char) : Nat :=
  digits.foldl (fun n c => n * 10 + (c.toNat - 48)) 0

/-- The leading decimal digits of a text and what follows them. -/
def spanDigits (text : List Char) : List Char × List Char :=
  (text.takeWhile Char.isDigit, text.dropWhile Char.isDigit)

/-- Takes an optional sign off a text; `true` stands for minus. -/
def takeSign : List Char → Bool × List Char
  | '-' :: rest => (true, rest)
  | '+' :: rest => (false, rest)
  | rest => (false, rest)

/-- The exponent of a number, which ends its text: nothing at all counts as zero. -/
def exponent? : List Char → Option Int
  | [] => some 0
  | mark :: rest =>
    if mark == 'e' || mark == 'E' then
      let (negative, digits) := takeSign rest
      if digits.isEmpty || !digits.all Char.isDigit then none
      else some (if negative then -(decimalValue digits : Int) else decimalValue digits)
    else none

/-- The digits after a decimal point, if there is one, and the rest. -/
def spanFraction : List Char → List Char × List Char
  | '.' :: rest => spanDigits rest
  | rest => ([], rest)

/-- An unsigned decimal with the given sign. -/
def unsigned? (negative : Bool) (text : List Char) : Option Binary64 :=
  let (whole, rest) := spanDigits text
  let (fraction, rest) := spanFraction rest
  if whole.isEmpty && fraction.isEmpty then none
  else
    (exponent? rest).map fun e =>
      Binary64.ofDecimal negative (decimalValue (whole ++ fraction)) (e - fraction.length)

/-- The double that a text stands for. -/
def float? (text : List Char) : Option Binary64 :=
  let (negative, body) := takeSign text
  let word := String.ofList (body.map Char.toLower)
  if word == "inf" || word == "infinity" then
    some (Binary64.ofMagnitude negative Binary64.infinityBits)
  else if word == "nan" then
    some (Binary64.ofMagnitude negative (Binary64.infinityBits + Binary64.unitBit / 2))
  else unsigned? negative body

end RubyNormalForm.Number
