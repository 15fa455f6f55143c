import QueryKernel.Number.BinaryFloat

/-!
# Decimal numbers of 96 bits

A decimal is `coefficient / 10 ^ scale` with fewer than 2 ^ 96 units and at most 28 places.  A result
that does not fit keeps as many places as it can, rounded half to even; one that does not fit
even as a whole number overflows.

## Functions

* `Decimal.fit` rounds a fraction to the most places that fit.
* `add?`, `sub?`, `mul?`, `div?`, `mod?` are the operations; `none` is an overflow.
* `compare` is exact, whatever the scales.
* `toFloat` is the double nearest to the whole part plus the fraction, put back on the decimal grid.
-/

namespace QueryKernel

/-- The number `coefficient / 10 ^ scale`. -/
structure Decimal where
  coefficient : Int
  scale : Nat
  deriving DecidableEq

namespace Decimal

/-- Magnitudes of coefficients stay below this. -/
def limit : Nat := twoTo 96

/-- The most places after the point. -/
def maxScale : Nat := 28

/-- A whole number as a decimal. -/
def ofInt (i : Int) : Decimal := ⟨i, 0⟩

/-- Whether the number is zero. -/
def isZero (d : Decimal) : Bool := d.coefficient == 0

/-- `± num / den` with the most places, at most `places`, that fit. -/
def fit (negative : Bool) (num den : Nat) : Nat → Option Decimal
  | 0 => place 0 none
  | places + 1 => place (places + 1) (fit negative num den places)
where
  /-- The fraction rounded to the given places, or `otherwise` if it has too many units. -/
  place (places : Nat) (otherwise : Option Decimal) : Option Decimal :=
    let units := roundHalfEven (num * tenTo places) den
    if units < limit then some ⟨if negative then -(units : Int) else units, places⟩ else otherwise

/-- The coefficient with the given number of places, at least as many as the number has. -/
def unitsAt (d : Decimal) (places : Nat) : Int := d.coefficient * tenTo (places - d.scale)

/-- `units / 10 ^ scale` made to fit. -/
private def ofUnits (units : Int) (scale places : Nat) : Option Decimal :=
  fit (decide (units < 0)) units.natAbs (tenTo scale) places

/-- The sum, with the places of the operand that has more.  Adding zero changes nothing. -/
def add? (a b : Decimal) : Option Decimal :=
  let places := max a.scale b.scale
  if a.isZero then some b
  else if b.isZero then some a
  else ofUnits (a.unitsAt places + b.unitsAt places) places places

/-- The difference, which is the sum with the opposite number. -/
def sub? (a b : Decimal) : Option Decimal := add? a ⟨-b.coefficient, b.scale⟩

/-- The product, with the places of both operands together. -/
def mul? (a b : Decimal) : Option Decimal :=
  ofUnits (a.coefficient * b.coefficient) (a.scale + b.scale) (min maxScale (a.scale + b.scale))

/-- Drops final zeros after the point. -/
def stripZeros (coefficient : Int) : Nat → Decimal
  | 0 => ⟨coefficient, 0⟩
  | places + 1 =>
      if coefficient % 10 = 0 then stripZeros (coefficient / 10) places
      else ⟨coefficient, places + 1⟩

/-- The number without final zeros after the point. -/
def normalize (d : Decimal) : Decimal := stripZeros d.coefficient d.scale

/-- The largest power of ten, at most the given one, by which units can be multiplied. -/
def room (units : Nat) : Nat → Nat
  | 0 => 0
  | power + 1 => if units * tenTo (power + 1) < limit then power + 1 else room units power

theorem room_le (units most : Nat) : room units most ≤ most := by
  induction most with
  | zero => simp [room]
  | succ power ih => unfold room; split <;> omega

/-- The units of `num / den` when there may be `left` more places, and how many of those it does not
need.  Places are brought in nine at a time, or as many as there is room for, until nothing remains;
what remains in the end is rounded half to even.  It is an overflow if there is no room for the places
beyond `maxScale`, which stand before the point. -/
def divideOut (num den left : Nat) : Option (Nat × Nat) :=
  let withPlaceLess := if maxScale ≤ left then none else some (roundHalfEven num (den * 10), left + 1)
  if limit ≤ num / den then withPlaceLess
  else if num % den = 0 then
    if left ≤ maxScale then some (num / den, left)
    else divideOut (num * tenTo (min 9 (left - maxScale))) den (left - min 9 (left - maxScale))
  else match _h : room (num / den) (min 9 left) with
    | 0 =>
        if maxScale < left then none
        else if roundHalfEven num den < limit then some (roundHalfEven num den, left)
        else withPlaceLess
    | power + 1 => divideOut (num * tenTo (power + 1)) den (left - (power + 1))
termination_by left
decreasing_by
  · omega
  · have := room_le (num / den) (min 9 left)
    omega

/-- Final zeros after the point are dropped eight, four, two and one at a time, each if a power of two
divides the units.  For eight zeros that is `2 ^ 32`, so that some may stay. -/
def dropZeros (units scale : Nat) : Nat × Nat :=
  [(32, 8), (32, 8), (32, 8), (4, 4), (2, 2), (1, 1)].foldl (fun (units, scale) (bits, zeros) =>
    if units % twoTo bits = 0 ∧ zeros ≤ scale ∧ units % tenTo zeros = 0 then
      (units / tenTo zeros, scale - zeros)
    else (units, scale)) (units, scale)

/-- The quotient.  If the units divide without remainder it has no more places than needed for that;
otherwise final zeros are dropped.  The caller excludes a zero divisor. -/
def div? (a b : Decimal) : Option Decimal :=
  let negative := decide (a.coefficient < 0) != decide (b.coefficient < 0)
  let num := a.coefficient.natAbs
  let den := b.coefficient.natAbs
  (divideOut num den (maxScale + b.scale - a.scale)).map fun (units, left) =>
    let (units, scale) :=
      if num % den = 0 then (units, maxScale - left) else dropZeros units (maxScale - left)
    ⟨if negative then -(units : Int) else units, scale⟩

/-- The remainder of truncated division.  A dividend smaller than the divisor is left as it is.  The
caller excludes a zero divisor. -/
def mod? (a b : Decimal) : Option Decimal :=
  let places := max a.scale b.scale
  let dividend := a.unitsAt places
  let divisor := b.unitsAt places
  if dividend.natAbs < divisor.natAbs then some a
  else ofUnits (dividend.tmod divisor) places places

/-- The number without its fraction, as an integer. -/
def truncate (d : Decimal) : Int := d.coefficient.tdiv (tenTo d.scale)

/-- The order of the numbers. -/
def compare (a b : Decimal) : Ordering :=
  let places := max a.scale b.scale
  Ord.compare (a.unitsAt places) (b.unitsAt places)

/-- The double for a decimal: the nearest one for a whole number; otherwise the rounded whole part
plus the rounded fraction, brought back to the nearest multiple of the last place. -/
def toFloat (d : Decimal) : BinaryFloat :=
  let format := BinaryFormat.double
  let magnitude := d.coefficient.natAbs
  let power := tenTo d.scale
  let rounded (n : Nat) : BinaryFloat := format.round false n 1
  let unsigned :=
    if d.scale = 0 then rounded magnitude
    else
      let fraction := (rounded (magnitude % power)).div format (rounded power)
      let whole := rounded (magnitude / power)
      if fraction.isZero then whole
      else (((whole.add format fraction).mul format (rounded power)).roundHalfAway format).div format
        (rounded power)
  if d.coefficient < 0 then unsigned.neg else unsigned

/-- The digits, without an exponent and without final zeros after the point. -/
def text (d : Decimal) : String :=
  let n := d.normalize
  let digits := toString n.coefficient.natAbs
  let padded := "".pushn '0' (n.scale + 1 - digits.length) ++ digits
  let cut := padded.length - n.scale
  let sign := if n.coefficient < 0 then "-" else ""
  let fraction := String.ofList (padded.toList.drop cut)
  sign ++ String.ofList (padded.toList.take cut) ++ (if n.scale = 0 then "" else "." ++ fraction)

end Decimal

end QueryKernel
