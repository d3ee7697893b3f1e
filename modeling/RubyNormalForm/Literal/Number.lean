import RubyNormalForm.Literal.Integer
import RubyNormalForm.Number.Inspect
import RubyNormalForm.Number.Reading

/-!
# Float, rational and imaginary literals

A rational literal is exact and shown in lowest terms. An imaginary literal is shown as the
product of its number and `i`.
-/

namespace RubyNormalForm.Literal

/-- The value of a float literal. -/
def float? (text : String) : Option Binary64 :=
  Number.float? (withoutUnderscores text.toList)

/-- A text without a last character, if it ends with that character. -/
def withoutLast? (last : Char) (text : List Char) : Option (List Char) :=
  if text.getLast? == some last then some text.dropLast else none

/-- The denominator of a decimal with the given characters after its point, which are counted
in a word of 32 bits. -/
def denominatorOf (decimals : List Char) : Nat :=
  Nat.pow 10 (decimals.length % 0x100000000)

/-- The numerator and the denominator that a decimal writes, before reduction. The parts on
both sides of the point are read as one numeral. -/
def fraction? (text : List Char) : Option (Int × Nat) :=
  match text.dropWhile (· != '.') with
  | [] => (signed? magnitude? text).map fun n => (n, 1)
  | _ :: decimals =>
    (decimal? (text.takeWhile (· != '.') ++ decimals)).map fun n => (n, denominatorOf decimals)

/-- Euclid's algorithm. A remainder has the sign of its dividend, so that the result is a
greatest common divisor up to its sign. -/
def euclid (a b : Int) : Int :=
  if b = 0 then a else euclid b (a.tmod b)
termination_by b.natAbs
decreasing_by
  rw [Int.natAbs_tmod]
  exact Nat.mod_lt _ (Int.natAbs_pos.2 ‹_›)

/-- The greatest common divisor of two integers. -/
def commonDivisor (a b : Int) : Int :=
  (euclid a b).natAbs

/-- A fraction in lowest terms. -/
def fractionText (numerator : Int) (denominator : Nat) : String :=
  let divisor := commonDivisor numerator denominator
  "(" ++ toString (numerator.tdiv divisor) ++ "/" ++
    toString ((denominator : Int).tdiv divisor) ++ ")"

/-- The text of the value of a rational literal such as `1.5r`. -/
def rational? (text : List Char) : Option String :=
  (withoutLast? 'r' text).bind fun number =>
    (fraction? (withoutUnderscores number)).map fun (n, d) => fractionText n d

/-- Whether the number of an imaginary literal is written as a float. -/
def isFloatNumber (number : List Char) : Bool :=
  number.any (fun c => c == '.' || c == 'e' || c == 'E') && !(['0', 'x'].isPrefixOf number)

/-- The text of the value of an imaginary literal such as `2i` or `1.5ri`. -/
def imaginary? (text : List Char) : Option String :=
  (withoutLast? 'i' text).bind fun number =>
    if number.getLast? == some 'r' then
      (rational? number).map fun r => "(0+" ++ r ++ "*i)"
    else if isFloatNumber number then
      (Number.float? (withoutUnderscores number)).map fun x => "(0+" ++ x.inspect ++ "i)"
    else
      (signed? magnitude? (withoutUnderscores number)).map fun n => "(0+" ++ toString n ++ "i)"

end RubyNormalForm.Literal
