import QueryKernel.Number.Shortest

/-!
# The text of floating-point numbers

`BinaryFloat.text` is the canonical form of a double: the fewest digits that read back, written
positionally near one and with an exponent elsewhere.  `BinaryFloat.ofNumeral?` reads the usual
decimal notation.
-/

namespace QueryKernel

/-- How a number is written. -/
structure FloatLayout where
  /-- Numbers whose first digit is worth at least `10 ^ leastPower` are written positionally, … -/
  leastPower : Int
  /-- … if it is worth less than `10 ^ tooLargePower`. -/
  tooLargePower : Int
  exponentMark : String
  nanText : String
  infinityText : String

/-- Canonical doubles: positional from a millionth up to a million, otherwise a mantissa with at
least one place and a bare exponent. -/
def FloatLayout.canonical : FloatLayout := ⟨-6, 6, "E", "NaN", "INF"⟩

namespace Numeral

/-- The digits with the decimal point in its place. -/
def positional (n : Numeral) : String :=
  let digits := (toString n.digits).toList
  if 0 ≤ n.exponent then String.ofList (digits ++ List.replicate n.exponent.toNat '0')
  else
    let places := (-n.exponent).toNat
    let padded := List.replicate (places + 1 - digits.length) '0' ++ digits
    let cut := padded.length - places
    String.ofList (padded.take cut ++ '.' :: padded.drop cut)

/-- One digit, the point, the other digits (or a zero), the mark and the exponent. -/
def scientific (mark : String) (n : Numeral) : String :=
  let digits := (toString n.digits).toList
  let places := if digits.length ≤ 1 then ['0'] else digits.drop 1
  String.ofList (digits.take 1 ++ '.' :: places) ++ mark ++ toString (n.exponent + (digits.length - 1 : Nat))

end Numeral

namespace BinaryFloat

/-- The number written as the layout says. -/
def layout (l : FloatLayout) (x : BinaryFloat) : String :=
  let signed (negative : Bool) (s : String) : String := if negative then "-" ++ s else s
  match x with
  | .nan => l.nanText
  | .infinity negative => signed negative l.infinityText
  | .finite negative 0 _ => signed negative "0"
  | .finite negative mantissa exponent =>
      let n := shortest .double mantissa exponent
      let power := n.exponent + ((toString n.digits).length - 1 : Nat)
      signed negative <|
        if l.leastPower ≤ power ∧ power < l.tooLargePower then n.positional
        else n.scientific l.exponentMark

/-- The canonical text of a double. -/
def text (x : BinaryFloat) : String := x.layout .canonical

end BinaryFloat

/-- The value of a digit string, `none` if another character occurs. -/
def digitsValue? (digits : List Char) : Option Nat :=
  digits.foldl (fun total c => total.bind fun n =>
    if c.isDigit then some (10 * n + (c.toNat - '0'.toNat)) else none) (some 0)

/-- Splits an optional sign off a text. -/
def splitSign : List Char → Bool × List Char
  | '-' :: rest => (true, rest)
  | '+' :: rest => (false, rest)
  | rest => (false, rest)

/-- An optionally signed string of one or more digits. -/
def signedDigits? (s : List Char) : Option Int :=
  let (negative, digits) := splitSign s
  if digits.isEmpty then none
  else (digitsValue? digits).map fun n => if negative then -(n : Int) else n

namespace BinaryFloat

/-- The nearest number to an unsigned numeral.  Powers of ten beyond ± 400 decide without the digits. -/
def ofDigits (format : BinaryFormat) (negative : Bool) (digits : Nat) (exponent : Int) : BinaryFloat :=
  let top := exponent + (toString digits).length
  if digits = 0 ∨ top < -400 then zero negative
  else if 400 < top then .infinity negative
  else Numeral.round format negative ⟨digits, exponent⟩

/-- Reads a sign, digits with at most one point, and an optional exponent after `e` or `E`. -/
def ofNumeral? (format : BinaryFormat) (s : List Char) : Option BinaryFloat := do
  let (negative, unsigned) := splitSign s
  let isMark (c : Char) : Bool := c == 'e' || c == 'E'
  let number := unsigned.takeWhile (fun c => !isMark c)
  let exponent ← match unsigned.dropWhile (fun c => !isMark c) with
    | [] => some 0
    | _ :: rest => signedDigits? rest
  let whole := number.takeWhile (· != '.')
  let places := (number.dropWhile (· != '.')).drop 1
  if whole.isEmpty && places.isEmpty then none
  else
    let digits ← digitsValue? (whole ++ places)
    some (ofDigits format negative digits (exponent - places.length))

end BinaryFloat

end QueryKernel
