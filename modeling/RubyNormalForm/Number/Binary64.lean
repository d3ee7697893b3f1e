/-!
# Binary floating point

A double-precision number is its 64 bits: a sign, eleven bits of exponent and 52 bits of
fraction. Everything that the library does with such numbers (reading, negating, comparing,
printing) is integer arithmetic on these fields, so it can be computed and reasoned about
without the processor's floating-point unit.
-/

namespace RubyNormalForm

/-- A double-precision number, given by its bits. -/
structure Binary64 where
  bits : UInt64
deriving DecidableEq

namespace Binary64

/-- The place value of the sign bit. -/
def signBit : Nat := 0x8000000000000000

/-- The place value of the bit above the fraction, which every normal number has unwritten. -/
def unitBit : Nat := 0x10000000000000

/-- Whether the sign bit is set. -/
def negative (x : Binary64) : Bool :=
  x.bits.toNat ≥ signBit

/-- The bits below the sign. -/
def magnitude (x : Binary64) : Nat :=
  x.bits.toNat % signBit

/-- The bits of an infinity, the sign apart. -/
def infinityBits : Nat := 0x7FF * unitBit

/-- Whether the number is not a number. -/
def isNaN (x : Binary64) : Bool :=
  x.magnitude > infinityBits

/-- Whether the number is one of the two infinities. -/
def isInfinite (x : Binary64) : Bool :=
  x.magnitude == infinityBits

/-- The number with the given sign and magnitude bits. -/
def ofMagnitude (negative : Bool) (magnitude : Nat) : Binary64 :=
  ⟨UInt64.ofNat (if negative then signBit + magnitude else magnitude)⟩

/-- The number with its sign reversed. -/
def neg (x : Binary64) : Binary64 :=
  ofMagnitude (!x.negative) x.magnitude

/-- Equality of numbers: the two zeros are equal and a NaN equals nothing. -/
def same (x y : Binary64) : Bool :=
  !x.isNaN && !y.isNaN && (x.bits == y.bits || x.magnitude == 0 && y.magnitude == 0)

/-- The integer `m` of a finite number `m · 2 ^ q`, the sign apart. -/
def significand (x : Binary64) : Nat :=
  if x.magnitude < unitBit then x.magnitude else x.magnitude % unitBit + unitBit

/-- The exponent `q` of a finite number `m · 2 ^ q`. -/
def scale (x : Binary64) : Int :=
  if x.magnitude < unitBit then -1074 else (x.magnitude / unitBit : Nat) - 1075

/-- The quotient of two naturals rounded to the nearest natural, a half to the even one. -/
def roundDiv (num den : Nat) : Nat :=
  let q := num / den
  let r := num % den
  if 2 * r < den || (2 * r == den && q % 2 == 0) then q else q + 1

/-- The quotient `num / den` divided by a power of two, as a quotient. -/
def scaled (num den : Nat) (q : Int) : Nat × Nat :=
  (num * Nat.pow 2 (-q).toNat, den * Nat.pow 2 q.toNat)

/-- The exponent at which the quotient `num / den` has 53 significant bits, or the least
exponent there is. -/
def scaleOf (num den : Nat) : Int :=
  let q : Int := (Nat.log2 num : Int) - (Nat.log2 den : Int) - 52
  let (n, d) := scaled num den q
  max (if n < d * unitBit then q - 1 else q) (-1074)

/-- The number nearest to the quotient `num / den`, ties to the even significand; an infinity
if it is too large. -/
def ofRatio (negative : Bool) (num den : Nat) : Binary64 :=
  let q := scaleOf num den
  let (n, d) := scaled num den q
  let magnitude := (q + 1074).toNat * unitBit + roundDiv n d
  ofMagnitude negative (min magnitude infinityBits)

/-- The number nearest to `digits · 10 ^ exponent`. Magnitudes that are certain to overflow
or to vanish are settled before any large power is taken. -/
def ofDecimal (negative : Bool) (digits : Nat) (exponent : Int) : Binary64 :=
  let reach := exponent + (Nat.toDigits 10 digits).length
  if digits = 0 || reach < -330 then ofMagnitude negative 0
  else if reach > 310 then ofMagnitude negative infinityBits
  else if exponent ≥ 0 then ofRatio negative (digits * Nat.pow 10 exponent.toNat) 1
  else ofRatio negative digits (Nat.pow 10 (-exponent).toNat)

end Binary64

end RubyNormalForm
