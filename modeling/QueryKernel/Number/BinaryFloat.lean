import QueryKernel.Number.Power

/-!
# Binary floating-point numbers

Numbers of the form `± m · 2 ^ e`, the two infinities and one not-a-number.  Every finite number is
kept with an odd mantissa (or as a signed zero), so a number has one representation whatever format
it was rounded to, and a single-precision number *is* the double-precision number it equals.

## Functions

* `BinaryFormat.round` rounds a positive fraction to the nearest number of a format, ties to even.
* `add`, `sub`, `mul`, `div`, `mod` are the exact result of the operation, rounded once.
* `trunc`, `roundHalfAway` and `toInt?` go to whole numbers.
* `compare?` is the order of the numbers; not-a-number is unordered.
* `toBits` is the interchange encoding.
-/

namespace QueryKernel

/-- The parameters of a binary interchange format. -/
structure BinaryFormat where
  /-- Number of mantissa bits. -/
  precision : Nat
  /-- Exponent of the last bit of the smallest positive number. -/
  minExponent : Int
  /-- The least power of two that is too large. -/
  maxExponent : Int
  deriving DecidableEq

/-- Double precision. -/
def BinaryFormat.double : BinaryFormat := ⟨53, -1074, 1024⟩

/-- Single precision. -/
def BinaryFormat.single : BinaryFormat := ⟨24, -149, 128⟩

/-- A binary floating-point number.  Finite numbers denote `± mantissa · 2 ^ exponent`. -/
inductive BinaryFloat where
  | nan
  | infinity (negative : Bool)
  | finite (negative : Bool) (mantissa : Nat) (exponent : Int)
  deriving DecidableEq

/-- The whole number nearest to `num / den`, a half going to the even neighbour. -/
def roundHalfEven (num den : Nat) : Nat :=
  let quotient := num / den
  let rest := 2 * (num % den)
  if rest < den then quotient
  else if den < rest then quotient + 1
  else quotient + quotient % 2

namespace BinaryFloat

/-- Positive or negative zero. -/
def zero (negative : Bool) : BinaryFloat := .finite negative 0 0

/-- Halves an even mantissa as often as `fuel` allows. -/
def stripTwos : Nat → Nat → Int → Nat × Int
  | 0, mantissa, exponent => (mantissa, exponent)
  | fuel + 1, mantissa, exponent =>
      if mantissa % 2 = 0 then stripTwos fuel (mantissa / 2) (exponent + 1)
      else (mantissa, exponent)

/-- The number `± mantissa · 2 ^ exponent` in its one representation. -/
def ofDyadic (negative : Bool) (mantissa : Nat) (exponent : Int) : BinaryFloat :=
  if mantissa = 0 then zero negative
  else
    let (odd, shifted) := stripTwos mantissa.log2 mantissa exponent
    .finite negative odd shifted

/-- Whether this is not-a-number. -/
def isNaN : BinaryFloat → Bool
  | .nan => true
  | _ => false

/-- Whether this is neither an infinity nor not-a-number. -/
def isFinite : BinaryFloat → Bool
  | .finite .. => true
  | _ => false

/-- Whether this is positive or negative zero. -/
def isZero : BinaryFloat → Bool
  | .finite _ 0 _ => true
  | _ => false

/-- The sign bit; not-a-number counts as positive. -/
def isNegative : BinaryFloat → Bool
  | .nan => false
  | .infinity negative => negative
  | .finite negative _ _ => negative

end BinaryFloat

/-- The number of the format nearest to `± num / den`; a tie goes to the even mantissa, and what
rounds beyond the largest number becomes an infinity. -/
def BinaryFormat.round (format : BinaryFormat) (negative : Bool) (num den : Nat) : BinaryFloat :=
  if num = 0 then .zero negative
  else
    let magnitude : Int := (num.log2 : Int) - (den.log2 : Int)
    let trial := max format.minExponent (magnitude - format.precision)
    let scaled (exponent : Int) : Nat × Nat :=
      (num * twoTo (-exponent).toNat, den * twoTo exponent.toNat)
    let (n, d) := scaled trial
    let exponent := if d * twoTo format.precision ≤ n then trial + 1 else trial
    let (n, d) := scaled exponent
    let mantissa := roundHalfEven n d
    if format.maxExponent ≤ (mantissa.log2 : Int) + exponent ∧ mantissa ≠ 0 then .infinity negative
    else BinaryFloat.ofDyadic negative mantissa exponent

namespace BinaryFloat

/-- Numerator and denominator of `mantissa · 2 ^ exponent`. -/
def fraction (mantissa : Nat) (exponent : Int) : Nat × Nat :=
  (mantissa * twoTo exponent.toNat, twoTo (-exponent).toNat)

/-- `± mantissa · 2 ^ exponent`, rounded to the format. -/
def roundDyadic (format : BinaryFormat) (negative : Bool) (mantissa : Nat) (exponent : Int) :
    BinaryFloat :=
  let (num, den) := fraction mantissa exponent
  format.round negative num den

/-- The number rounded to another format. -/
def convert (format : BinaryFormat) : BinaryFloat → BinaryFloat
  | .finite negative mantissa exponent => roundDyadic format negative mantissa exponent
  | special => special

/-- The number of the format nearest to a whole number. -/
def ofInt (format : BinaryFormat) (i : Int) : BinaryFloat :=
  format.round (decide (i < 0)) i.natAbs 1

/-- The same magnitude with the sign flipped. -/
def neg : BinaryFloat → BinaryFloat
  | .nan => .nan
  | .infinity negative => .infinity !negative
  | .finite negative mantissa exponent => .finite (!negative) mantissa exponent

/-- `± mantissa · 2 ^ exponent` as a multiple of `2 ^ unit`, for a unit no larger than the exponent. -/
def units (unit : Int) (negative : Bool) (mantissa : Nat) (exponent : Int) : Int :=
  let size : Int := mantissa * twoTo (exponent - unit).toNat
  if negative then -size else size

/-- The rounded sum.  Opposite infinities have none, and an exact zero is positive unless both
operands are negative. -/
def add (format : BinaryFormat) : BinaryFloat → BinaryFloat → BinaryFloat
  | .nan, _ => .nan
  | _, .nan => .nan
  | .infinity a, .infinity b => if a = b then .infinity a else .nan
  | .infinity a, _ => .infinity a
  | _, .infinity b => .infinity b
  | .finite a m e, .finite b n f =>
      let unit := min e f
      let sum := units unit a m e + units unit b n f
      if sum = 0 then zero (a && b)
      else roundDyadic format (decide (sum < 0)) sum.natAbs unit

/-- The rounded difference. -/
def sub (format : BinaryFormat) (x y : BinaryFloat) : BinaryFloat := add format x y.neg

/-- The rounded product. -/
def mul (format : BinaryFormat) : BinaryFloat → BinaryFloat → BinaryFloat
  | .nan, _ => .nan
  | _, .nan => .nan
  | .infinity a, y => if y.isZero then .nan else .infinity (a != y.isNegative)
  | x, .infinity b => if x.isZero then .nan else .infinity (x.isNegative != b)
  | .finite a m e, .finite b n f => roundDyadic format (a != b) (m * n) (e + f)

/-- The rounded quotient; a number over zero is an infinity. -/
def div (format : BinaryFormat) : BinaryFloat → BinaryFloat → BinaryFloat
  | .nan, _ => .nan
  | _, .nan => .nan
  | .infinity _, .infinity _ => .nan
  | .infinity a, y => .infinity (a != y.isNegative)
  | .finite a _ _, .infinity b => zero (a != b)
  | .finite a m e, .finite b n f =>
      if n = 0 then (if m = 0 then .nan else .infinity (a != b))
      else
        let (num, den) := fraction m (e - f)
        format.round (a != b) num (den * n)

/-- The remainder of truncated division.  It is exact and has the sign of the dividend. -/
def mod : BinaryFloat → BinaryFloat → BinaryFloat
  | .nan, _ => .nan
  | _, .nan => .nan
  | .infinity _, _ => .nan
  | x, .infinity _ => x
  | .finite a m e, .finite _ n f =>
      if n = 0 then .nan
      else
        let unit := min e f
        ofDyadic a ((units unit false m e).natAbs % (units unit false n f).natAbs) unit

/-- The whole number of units below the magnitude, and whether the rest reaches a half. -/
private def wholePart (mantissa : Nat) (exponent : Int) : Nat × Bool :=
  let (num, den) := fraction mantissa exponent
  (num / den, decide (den ≤ 2 * (num % den)))

/-- The number without its fraction; the sign of zero is kept. -/
def trunc : BinaryFloat → BinaryFloat
  | .finite negative mantissa exponent => ofDyadic negative (wholePart mantissa exponent).1 0
  | special => special

/-- The nearest whole number in the format, a half going away from zero. -/
def roundHalfAway (format : BinaryFormat) : BinaryFloat → BinaryFloat
  | .finite negative mantissa exponent =>
      let (whole, up) := wholePart mantissa exponent
      roundDyadic format negative (if up then whole + 1 else whole) 0
  | special => special

/-- Whether the number has no fraction. -/
def isWhole : BinaryFloat → Bool
  | .finite _ mantissa exponent =>
      let (num, den) := fraction mantissa exponent
      num % den == 0
  | _ => false

/-- The whole part of a finite number as an integer. -/
def toInt? : BinaryFloat → Option Int
  | .finite negative mantissa exponent =>
      let whole : Int := (wholePart mantissa exponent).1
      some (if negative then -whole else whole)
  | _ => none

/-- The order of two numbers, `none` if one of them is not-a-number.  The zeros are equal. -/
def compare? : BinaryFloat → BinaryFloat → Option Ordering
  | .nan, _ => none
  | _, .nan => none
  | .infinity a, .infinity b => some (compare b.toNat a.toNat)
  | .infinity a, _ => some (if a then .lt else .gt)
  | _, .infinity b => some (if b then .gt else .lt)
  | .finite a m e, .finite b n f =>
      let unit := min e f
      some (compare (units unit a m e) (units unit b n f))

/-- Numeric equality: not-a-number differs from itself, and the zeros are equal. -/
def sameNumber (x y : BinaryFloat) : Bool := compare? x y == some .eq

end BinaryFloat

/-- The exponent field of infinities and not-a-number, in which every bit is set. -/
def BinaryFormat.specialField (format : BinaryFormat) : Nat :=
  (format.maxExponent - format.minExponent - format.precision + 2).toNat

namespace BinaryFloat

/-- The interchange encoding: sign bit, exponent field, mantissa without its leading bit. -/
def toBits (format : BinaryFormat) (x : BinaryFloat) : Nat :=
  let field := format.precision - 1
  let signBit := (format.specialField + 1) * twoTo field
  let special := format.specialField * twoTo field
  match x with
  | .nan => special + twoTo (field - 1)
  | .infinity negative => special + (if negative then signBit else 0)
  | .finite negative mantissa exponent =>
      let lifted := max format.minExponent ((mantissa.log2 : Int) + exponent - field)
      let bits := mantissa * twoTo (exponent - lifted).toNat
      let magnitude :=
        if mantissa = 0 then 0 else bits + (lifted - format.minExponent).toNat * twoTo field
      magnitude + (if negative then signBit else 0)

end BinaryFloat

end QueryKernel
