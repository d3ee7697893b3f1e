import RubyNormalForm.Number.Shortest

/-!
# Layout of decimals

How a double is written once its digits are known. The decisions that differ between the
texts this library writes (where positional notation ends, how an exponent looks, what stands
for the values that have no digits) are the fields of one record.
-/

namespace RubyNormalForm

/-- The decisions of one way to write doubles. -/
structure NumberLayout where
  /-- Positional notation is used while the decimal point stands from `leastPoint` … -/
  leastPoint : Int
  /-- … to `mostPoint` places right of the first digit's left edge. -/
  mostPoint : Int
  /-- Whether a lone digit before an exponent is followed by `.0`. -/
  pointBeforeExponent : Bool
  /-- Whether an exponent that is not negative has a plus sign. -/
  plusSign : Bool
  /-- The least number of digits of an exponent. -/
  exponentWidth : Nat
  tie : Tie
  nan : String
  infinity : String
  negativeInfinity : String

namespace NumberLayout

/-- A run of zeros. -/
def zeros (n : Nat) : List Char :=
  List.replicate n (Char.ofNat 48)

/-- The exponent that follows the mark `e`. -/
def exponentText (layout : NumberLayout) (exponent : Int) : List Char :=
  let digits := Nat.toDigits 10 exponent.natAbs
  let sign := if exponent < 0 then ['-'] else if layout.plusSign then ['+'] else []
  sign ++ zeros (layout.exponentWidth - digits.length) ++ digits

/-- Positional notation; there is always a digit on both sides of the point. -/
def positional (d : Digits) : List Char :=
  if d.point ≤ 0 then '0' :: '.' :: zeros d.point.natAbs ++ d.digits
  else
    let n := d.point.toNat
    if d.digits.length ≤ n then d.digits ++ zeros (n - d.digits.length) ++ ['.', '0']
    else d.digits.take n ++ '.' :: d.digits.drop n

/-- Scientific notation with one digit before the point. -/
def scientific (layout : NumberLayout) (d : Digits) : List Char :=
  let fraction :=
    match d.digits.drop 1 with
    | [] => if layout.pointBeforeExponent then ['.', '0'] else []
    | rest => '.' :: rest
  d.digits.take 1 ++ fraction ++ 'e' :: layout.exponentText (d.point - 1)

/-- The text of a double. -/
def render (layout : NumberLayout) (x : Binary64) : String :=
  if x.isNaN then layout.nan
  else if x.isInfinite then (if x.negative then layout.negativeInfinity else layout.infinity)
  else
    let d := Shortest.digits x layout.tie
    let body :=
      if layout.leastPoint ≤ d.point && d.point ≤ layout.mostPoint then positional d
      else layout.scientific d
    String.ofList (if x.negative then '-' :: body else body)

end NumberLayout

end RubyNormalForm
