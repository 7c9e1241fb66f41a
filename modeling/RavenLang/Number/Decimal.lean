import RavenLang.Number.Shortest

/-!
# Decimal text

How a double is written and read. Two styles are in use: the plain one, which
never has an exponent, and the one for literals inside a dumped tree.
-/

namespace RavenLang.Number

/-- What a written double looks like beyond its digits. -/
structure Style where
  positional : Int → Bool
  wholePoint : Bool

def Style.plain : Style := ⟨fun _ => true, false⟩

/-- Always recognisable as a fraction: a point, or an exponent for magnitudes
below `10 ^ -4` and from `10 ^ 16` on. -/
def Style.literal : Style := ⟨fun e => -4 ≤ e && e < 16, true⟩

def digitChars (n : Nat) : List Char := Nat.toDigits 10 n

def positional (wholePoint : Bool) (d : Decimal) : List Char :=
  let ds := digitChars d.digits
  if 0 ≤ d.exponent then
    ds ++ List.replicate d.exponent.toNat '0' ++ (if wholePoint then ['.', '0'] else [])
  else
    let places := (-d.exponent).toNat
    if places < ds.length then ds.take (ds.length - places) ++ '.' :: ds.drop (ds.length - places)
    else '0' :: '.' :: List.replicate (places - ds.length) '0' ++ ds

def scientific (d : Decimal) : List Char :=
  match digitChars d.digits with
  | [] => []
  | first :: more =>
    first :: ((if more = [] then [] else '.' :: more) ++
      'e' :: (toString (d.exponent + more.length)).toList)

def write (style : Style) (x : Float) : String :=
  match Parts.ofFloat x with
  | .nan => "NaN"
  | .infinite negative => if negative then "-inf" else "inf"
  | .finite negative mantissa exponent =>
    let d := shortest mantissa exponent
    let leading := d.exponent + (digitChars d.digits).length - 1
    let body :=
      if mantissa = 0 ∨ style.positional leading then positional style.wholePoint d else scientific d
    String.ofList (if negative then '-' :: body else body)

/-! ## Reading -/

def digitsValue (ds : List Char) : Nat := ds.foldl (fun n c => 10 * n + (c.toNat - '0'.toNat)) 0

/-- The double nearest to `digits * 10 ^ exponent`. Magnitudes that are certain to
overflow or to vanish are not computed. -/
def ofDecimal (negative : Bool) (digits : Nat) (exponent : Int) : Float :=
  let leading := exponent + digitCount digits
  if digits = 0 ∨ leading < -400 then ofMagnitude negative 0
  else if 400 < leading then infinity negative
  else ofRatio negative (digits * tenTo exponent.toNat) (tenTo (-exponent).toNat)

def readDigits? (negative : Bool) (ds : List Char) : Option Int :=
  if ds = [] ∨ !ds.all Char.isDigit then none
  else some (if negative then -(digitsValue ds : Int) else digitsValue ds)

/-- An exponent part: nothing, or `e`, an optional sign and digits. -/
def readExponent? : List Char → Option Int
  | [] => some 0
  | 'e' :: '-' :: ds | 'E' :: '-' :: ds => readDigits? true ds
  | 'e' :: '+' :: ds | 'E' :: '+' :: ds => readDigits? false ds
  | 'e' :: ds | 'E' :: ds => readDigits? false ds
  | _ => none

def takeFraction : List Char → List Char × List Char
  | '.' :: cs => (cs.takeWhile Char.isDigit, cs.dropWhile Char.isDigit)
  | cs => ([], cs)

/-- Digits with an optional point among them, then an optional exponent. At least
one digit must stand before the exponent. -/
def readMagnitude? (negative : Bool) (cs : List Char) : Option Float :=
  let whole := cs.takeWhile Char.isDigit
  let (fraction, rest) := takeFraction (cs.dropWhile Char.isDigit)
  if whole = [] ∧ fraction = [] then none
  else (readExponent? rest).map fun exponent =>
    ofDecimal negative (digitsValue (whole ++ fraction)) (exponent - fraction.length)

def readName? (negative : Bool) (cs : List Char) : Option Float :=
  match cs.map Char.toLower with
  | ['i', 'n', 'f'] | ['i', 'n', 'f', 'i', 'n', 'i', 't', 'y'] => some (infinity negative)
  | ['n', 'a', 'n'] => some nan
  | _ => none

def readUnsigned? (negative : Bool) (cs : List Char) : Option Float :=
  (readName? negative cs).or (readMagnitude? negative cs)

def read? (text : String) : Option Float :=
  match text.toList with
  | '-' :: cs => readUnsigned? true cs
  | '+' :: cs => readUnsigned? false cs
  | cs => readUnsigned? false cs

end RavenLang.Number
