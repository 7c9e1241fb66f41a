import RavenLang.Number.Binary64

/-!
# Shortest decimal

The fewest decimal digits that are read back as the same double. The reals that
round to `mantissa * 2 ^ exponent` form an interval; on the grid of decimals with
a given number of digits only the two neighbours of the double can lie in it.
-/

namespace RavenLang.Number

structure Decimal where
  digits : Nat
  exponent : Int
  deriving DecidableEq, Repr

/-- Number of decimal digits; zero has none. -/
def digitCount (n : Nat) : Nat :=
  if h : n = 0 then 0 else digitCount (n / 10) + 1
termination_by n
decreasing_by omega

def leadingExponent (num den : Nat) : Int :=
  if den ≤ num then (digitCount (num / den) : Int) - 1
  else -(digitCount ((den - 1) / num) : Int)

/-- The reals that round to a double, in units of a quarter of its last place:
from `centre - below` to `centre + 2`, each unit being `num / den`. -/
structure Interval where
  centre : Nat
  below : Nat
  closed : Bool
  num : Nat
  den : Nat

/-- Below a power of two the doubles stand twice as close. -/
def Interval.around (mantissa : Nat) (exponent : Int) : Interval where
  centre := 4 * mantissa
  below := if mantissa = twoTo 52 ∧ leastExponent < exponent then 1 else 2
  closed := mantissa % 2 = 0
  num := twoTo (exponent - 2).toNat
  den := twoTo (2 - exponent).toNat

def Interval.contains (i : Interval) (digits : Nat) (exponent : Int) : Bool :=
  let d := digits * tenTo exponent.toNat * i.den
  let unit := i.num * tenTo (-exponent).toNat
  let low := (i.centre - i.below) * unit
  let high := (i.centre + 2) * unit
  if i.closed then low ≤ d && d ≤ high else low < d && d < high

/-- The neighbours of the double on the grid of step `10 ^ exponent`: the nearer
one that rounds to it, the upper one on a tie. -/
def Interval.onGrid? (i : Interval) (exponent : Int) : Option Nat :=
  let num := i.centre * i.num * tenTo (-exponent).toNat
  let den := i.den * tenTo exponent.toNat
  let lower := num / den
  let upperFirst := den ≤ 2 * (num % den)
  match i.contains lower exponent, i.contains (lower + 1) exponent with
  | true, true => some (if upperFirst then lower + 1 else lower)
  | true, false => some lower
  | false, true => some (lower + 1)
  | false, false => none

def Interval.firstGrid (i : Interval) (exponent : Int) : Nat → Decimal
  | 0 => ⟨i.centre * i.num * tenTo (-exponent).toNat / (i.den * tenTo exponent.toNat), exponent⟩
  | more + 1 =>
    match i.onGrid? exponent with
    | some digits => ⟨digits, exponent⟩
    | none => i.firstGrid (exponent - 1) more

def Decimal.trim (d : Decimal) : Decimal :=
  if h : d.digits = 0 then ⟨0, 0⟩
  else if d.digits % 10 = 0 then Decimal.trim ⟨d.digits / 10, d.exponent + 1⟩
  else d
termination_by d.digits
decreasing_by omega

/-- The shortest decimal of `mantissa * 2 ^ exponent`; seventeen digits always
suffice. -/
def shortest (mantissa : Nat) (exponent : Int) : Decimal :=
  if mantissa = 0 then ⟨0, 0⟩
  else
    let i := Interval.around mantissa exponent
    (i.firstGrid (leadingExponent (i.centre * i.num) i.den) 17).trim

end RavenLang.Number
