import RubyNormalForm.Number.Layout

/-!
# Doubles in trees

How doubles stand in the text of a normal form: positional from 0.0001 up to sixteen digits
before the point, otherwise with a signed exponent of at least two digits.
-/

namespace RubyNormalForm

/-- The layout of doubles in the text of a normal form. -/
def inspectLayout : NumberLayout where
  leastPoint := -3
  mostPoint := 16
  pointBeforeExponent := true
  plusSign := true
  exponentWidth := 2
  tie := .up
  nan := "NaN"
  infinity := "Infinity"
  negativeInfinity := "-Infinity"

/-- The text of a double in a normal form. -/
def Binary64.inspect (x : Binary64) : String :=
  inspectLayout.render x

end RubyNormalForm
