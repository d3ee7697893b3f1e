/-!
# Integer widths

Which integers a signed word of a given width can hold, and how the sign of one is changed.
-/

namespace RubyNormalForm.Number

/-- Whether an integer fits a signed word of 64 bits. -/
def fits64 (n : Int) : Bool :=
  -0x8000000000000000 ≤ n && n < 0x8000000000000000

/-- Whether an integer fits a signed word of 128 bits. -/
def fits128 (n : Int) : Bool :=
  -0x80000000000000000000000000000000 ≤ n && n < 0x80000000000000000000000000000000

/-- The opposite of a signed word of 128 bits. That of the least word does not fit and wraps
around to the least word. -/
def opposite128 (n : Int) : Int :=
  (-n).bmod 0x100000000000000000000000000000000

end RubyNormalForm.Number
