import QueryKernel.Atom
import QueryKernel.Text.Blank

/-!
# Reading atoms from text

The lexical forms of booleans, decimals, doubles and integers, with blanks allowed at both ends.
-/

namespace QueryKernel

/-- `true`, `1`, `false` or `0`. -/
def readBoolean? (s : String) : Option Bool :=
  match String.ofList (trimBlanks s.toList) with
  | "true" | "1" => some true
  | "false" | "0" => some false
  | _ => none

/-- Continues a decimal with digits after its point, as long as they fit.  The first digit that does
not fit rounds half up; if that does not fit either, one place less is kept. -/
def appendPlaces? (units scale : Nat) : List Char → Option (Nat × Nat)
  | [] => some (units, scale)
  | c :: rest =>
      let longer := 10 * units + (c.toNat - '0'.toNat)
      if scale < Decimal.maxScale ∧ longer < Decimal.limit then appendPlaces? longer (scale + 1) rest
      else if c.toNat < '5'.toNat then some (units, scale)
      else if units + 1 < Decimal.limit then some (units + 1, scale)
      else if scale = 0 then none
      else some ((units + 5) / 10, scale - 1)

/-- An optional sign and digits with at most one point.  The whole part has to fit. -/
def readDecimal? (s : String) : Option Decimal := do
  let (negative, unsigned) := splitSign (trimBlanks s.toList)
  let whole := unsigned.takeWhile (· != '.')
  let places := (unsigned.dropWhile (· != '.')).drop 1
  let units ← digitsValue? whole
  if Decimal.limit ≤ units ∨ !places.all Char.isDigit then none
  else
    let (units, scale) ← appendPlaces? units 0 places
    some ⟨if negative then -(units : Int) else units, scale⟩

/-- A decimal numeral, or one of the names of infinity and not-a-number. -/
def readDouble? (s : String) : Option BinaryFloat :=
  let trimmed := trimBlanks s.toList
  match String.ofList trimmed with
  | "INF" | "+INF" => some (.infinity false)
  | "-INF" => some (.infinity true)
  | "NaN" => some .nan
  | _ => BinaryFloat.ofNumeral? .double trimmed

/-- An integer of 64 bits.  A plus sign before the signed number is allowed. -/
def readInteger? (s : String) : Option Int64 :=
  let trimmed := trimBlanks s.toList
  let number := match trimmed with
    | '+' :: rest => rest
    | other => other
  (signedDigits? number).bind long?

/-- An untyped atom counts as a double; others are left as they are. -/
def Atom.untypedToDouble : Atom → Except AtomError Atom
  | .untyped s =>
      match readDouble? s with
      | some x => .ok (.double x)
      | none => .error (.notADouble s)
  | other => .ok other

end QueryKernel
