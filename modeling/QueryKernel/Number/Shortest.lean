import QueryKernel.Number.BinaryFloat

/-!
# The fewest digits that read back

`shortest` finds, for a positive floating-point number, a decimal with the fewest significant digits
that rounds back to the number, and of those the nearest one, the larger if two are equally near.  It
tries the decimal grids of 1, 2, … 17 digits in turn; on each grid only the two neighbours of the
number can round back to it.
-/

namespace QueryKernel

/-- The positive decimal number `digits · 10 ^ exponent`. -/
structure Numeral where
  digits : Nat
  exponent : Int
  deriving DecidableEq

namespace Numeral

/-- Numerator and denominator of the number. -/
def fraction (n : Numeral) : Nat × Nat :=
  (n.digits * tenTo n.exponent.toNat, tenTo (-n.exponent).toNat)

/-- The floating-point number nearest to the numeral. -/
def round (format : BinaryFormat) (negative : Bool) (n : Numeral) : BinaryFloat :=
  let (num, den) := n.fraction
  format.round negative num den

/-- Moves final zeros of the digits, at most `fuel` of them, into the exponent. -/
def stripZeros : Nat → Numeral → Numeral
  | 0, n => n
  | fuel + 1, n =>
      if n.digits % 10 = 0 ∧ n.digits ≠ 0 then stripZeros fuel ⟨n.digits / 10, n.exponent + 1⟩
      else n

/-- Position of the first digit: `num / den < 10 ^ p`, and `10 ^ (p - 1) ≤ num / den`. -/
def magnitude (num den : Nat) : Int :=
  if den ≤ num then ((Nat.toDigits 10 (num / den)).length : Int)
  else 1 - (leadingZeros (den.log2 + 1) 0 num : Int)
where
  /-- How often the numerator is multiplied by ten until it reaches the denominator. -/
  leadingZeros : Nat → Nat → Nat → Nat
    | 0, count, _ => count
    | fuel + 1, count, n => if den ≤ n then count else leadingZeros fuel (count + 1) (n * 10)

/-- The neighbours of `num / den` on the grid of multiples of `10 ^ exponent`, nearer one first.
Halfway between them the larger one comes first. -/
def neighbours (num den : Nat) (exponent : Int) : List Numeral :=
  let n := num * tenTo (-exponent).toNat
  let d := den * tenTo exponent.toNat
  let below : Numeral := ⟨n / d, exponent⟩
  let above : Numeral := ⟨n / d + 1, exponent⟩
  if 2 * (n % d) < d then [below, above] else [above, below]

/-- The fewest digits, `18 - fuel` or more, that round to the positive number `num / den`. -/
def search (format : BinaryFormat) (num den : Nat) : Nat → Numeral
  | 0 => stripZeros 17 ((neighbours num den (magnitude num den - 17)).headD ⟨0, 0⟩)
  | fuel + 1 =>
      let exponent := magnitude num den - (17 - fuel : Nat)
      let target := format.round false num den
      match (neighbours num den exponent).find? (fun n => decide (n.round format false = target)) with
      | some found => stripZeros 17 found
      | none => search format num den fuel

end Numeral

/-- The fewest decimal digits that round to `mantissa · 2 ^ exponent`, which is not zero. -/
def BinaryFloat.shortest (format : BinaryFormat) (mantissa : Nat) (exponent : Int) : Numeral :=
  let (num, den) := BinaryFloat.fraction mantissa exponent
  Numeral.search format num den 17

end QueryKernel
