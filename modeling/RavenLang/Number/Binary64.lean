/-!
# Binary64

A number is a double. Its view as sign, mantissa and power of two is exact,
and so is everything that is computed from that view.
-/

namespace RavenLang.Number

def twoTo (n : Nat) : Nat := Nat.pow 2 n

def tenTo (n : Nat) : Nat := Nat.pow 10 n

/-- A double taken apart: a finite one is `mantissa * 2 ^ exponent`. -/
inductive Parts where
  | nan
  | infinite (negative : Bool)
  | finite (negative : Bool) (mantissa : Nat) (exponent : Int)
  deriving DecidableEq, Repr

/-- Bit pattern of positive infinity; the patterns below it are the finite
doubles in increasing order. -/
def infinityBits : Nat := 0x7ff0000000000000

def leastExponent : Int := -1074

def Parts.ofBits (bits : Nat) : Parts :=
  let negative := bits / twoTo 63 % 2 = 1
  let exponent : Nat := bits / twoTo 52 % twoTo 11
  let fraction : Nat := bits % twoTo 52
  if exponent = 2047 then
    if fraction = 0 then .infinite negative else .nan
  else if exponent = 0 then .finite negative fraction leastExponent
  else .finite negative (twoTo 52 + fraction) ((exponent : Int) - 1075)

def Parts.ofFloat (x : Float) : Parts := .ofBits x.toBits.toNat

/-- Quotient rounded to the nearest integer, a half to the even neighbour. -/
def nearestQuotient (num den : Nat) : Nat :=
  let q := num / den
  let r := num % den
  if den < 2 * r ∨ (den = 2 * r ∧ q % 2 = 1) then q + 1 else q

def scaleDown (num den : Nat) (exponent : Int) : Nat × Nat :=
  if 0 ≤ exponent then (num, den * twoTo exponent.toNat) else (num * twoTo (-exponent).toNat, den)

/-- The power of two in whose units a positive ratio has 53 binary digits,
but never less than the least exponent. -/
def unitExponent (num den : Nat) : Int :=
  let guess : Int := (num.log2 : Int) - den.log2 - 53
  let (n, d) := scaleDown num den guess
  max leastExponent (if n < d * twoTo 53 then guess else guess + 1)

/-- Bit pattern of the double nearest to `num / den`, ties to even. A mantissa
that rounds up to 54 digits carries into the exponent by itself. -/
def nearestBits (num den : Nat) : Nat :=
  if num = 0 then 0
  else
    let exponent := unitExponent num den
    let (n, d) := scaleDown num den exponent
    min infinityBits ((exponent - leastExponent).toNat * twoTo 52 + nearestQuotient n d)

def ofMagnitude (negative : Bool) (bits : Nat) : Float :=
  .ofBits (.ofNat (if negative then twoTo 63 + bits else bits))

def ofRatio (negative : Bool) (num den : Nat) : Float := ofMagnitude negative (nearestBits num den)

def ofDyadic (negative : Bool) (mantissa : Nat) (exponent : Int) : Float :=
  if 0 ≤ exponent then ofRatio negative (mantissa * twoTo exponent.toNat) 1
  else ofRatio negative mantissa (twoTo (-exponent).toNat)

def infinity (negative : Bool) : Float := ofMagnitude negative infinityBits

def nan : Float := ofMagnitude false (infinityBits + twoTo 51)

/-- The part of `x` that is left when `y` is taken from it as often as it goes,
with the sign of `x`; the difference of the two mantissas in a common unit is
exact. -/
def remainder (x y : Float) : Float :=
  match Parts.ofFloat x, Parts.ofFloat y with
  | .finite negative m p, .finite _ n q =>
    if n = 0 then nan
    else
      let unit := min p q
      ofDyadic negative (m * twoTo (p - unit).toNat % (n * twoTo (q - unit).toNat)) unit
  | .finite .., .infinite _ => x
  | _, _ => nan

end RavenLang.Number
