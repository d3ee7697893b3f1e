import RubyNormalForm.Number.Binary64

/-!
# Shortest decimals

A finite double is written with the fewest digits that read back as the same double; of the
candidates with that many digits the nearest one is taken. The search is exact: the reals
that round to the double form an interval, and for each number of digits the two neighbours
of the double on that decimal grid are tested against it.
-/

namespace RubyNormalForm

/-- Which of two equally near decimals is written. -/
inductive Tie where
  | up
  | even
deriving DecidableEq

/-- A positive decimal `0.d₁d₂… · 10 ^ point`, with no trailing zero among its digits. -/
structure Digits where
  digits : List Char
  point : Int
deriving DecidableEq

namespace Shortest

/-- A grid of decimals around a double: the double lies `value / unit` grid steps above zero,
and the reals that round to it lie from `low / unit` to `high / unit` steps. -/
structure Grid where
  low : Nat
  value : Nat
  high : Nat
  unit : Nat
  /-- Whether the two ends of the interval round to the double as well. -/
  closed : Bool

/-- The grid of multiples of `10 ^ exponent` around a finite double. -/
def grid (x : Binary64) (exponent : Int) : Grid :=
  let m := x.significand
  let narrow := m == Binary64.unitBit && x.scale > -1074
  let q := x.scale - 2
  let up := Nat.pow 2 q.toNat * Nat.pow 10 (-exponent).toNat
  { low := (4 * m - (if narrow then 1 else 2)) * up
    value := 4 * m * up
    high := (4 * m + 2) * up
    unit := Nat.pow 2 (-q).toNat * Nat.pow 10 exponent.toNat
    closed := m % 2 == 0 }

/-- Whether the decimal at grid step `n` reads back as the double. -/
def Grid.reads (g : Grid) (n : Nat) : Bool :=
  let p := n * g.unit
  if g.closed then g.low ≤ p && p ≤ g.high else g.low < p && p < g.high

/-- The grid step nearest to the double among its two neighbours, if one reads back. -/
def Grid.pick (g : Grid) (tie : Tie) : Option Nat :=
  let below := g.value / g.unit
  let above := below + 1
  match g.reads below, g.reads above with
  | false, false => none
  | true, false => some below
  | false, true => some above
  | true, true =>
    let down := g.value - below * g.unit
    let rise := above * g.unit - g.value
    if down < rise then some below
    else if rise < down then some above
    else
      match tie with
      | .up => some above
      | .even => some (if below % 2 == 0 then below else above)

/-- The decimal exponent of the first significant digit of a positive finite double. -/
def leading (x : Binary64) : Int :=
  let g := grid x (-400)
  (Nat.toDigits 10 (g.value / g.unit)).length - 401

/-- The first of the grids with `n`, `n + 1`, … digits on which the double can be written. -/
def search (x : Binary64) (tie : Tie) (first : Int) : (fuel n : Nat) → Nat × Int
  | 0, n => (0, first - n)
  | fuel + 1, n =>
    let exponent := first - n + 1
    match (grid x exponent).pick tie with
    | some step => (step, exponent)
    | none => search x tie first fuel (n + 1)

/-- The shortest decimal of a finite double, the sign apart; zero is the single digit 0. -/
def digits (x : Binary64) (tie : Tie) : Digits :=
  if x.magnitude == 0 then ⟨[Char.ofNat 48], 1⟩
  else
    let (step, exponent) := search x tie (leading x) 20 1
    let all := Nat.toDigits 10 step
    let kept := (all.reverse.dropWhile (· == Char.ofNat 48)).reverse
    ⟨kept, exponent + all.length⟩

end Shortest

end RubyNormalForm
