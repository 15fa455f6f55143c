import QueryKernel.Atom

/-!
# Comparing atoms

Values are compared within a class: numbers with numbers, texts with texts, binary data with binary
data, and everything else with its own type.  Durations of months and seconds, and names, can only be
equal.

## Functions

* `Atom.compare?` is the order of two values of one class.
* `Atom.sameKey` is equality of map keys.
* `Atom.identical` tells values apart by type as well.
-/

namespace QueryKernel

/-- Values of different classes cannot be compared. -/
inductive ComparisonClass where
  | number | text | boolean | yearMonth | dayTime | duration | dateTime | date | time | binary | name
  deriving DecidableEq

namespace Atom

/-- The class in which a value is compared. -/
def comparisonClass : Atom → ComparisonClass
  | integer _ | decimal _ | double _ | float _ => .number
  | untyped _ | string _ | anyUri _ => .text
  | boolean _ => .boolean
  | yearMonthDuration _ => .yearMonth
  | dayTimeDuration _ => .dayTime
  | duration .. => .duration
  | dateTime _ => .dateTime
  | date .. => .date
  | time .. => .time
  | base64Binary _ | hexBinary _ => .binary
  | qName _ => .name

/-- Numbers: exactly if neither is a floating-point number, otherwise as doubles. -/
def compareNumbers : Atom → Atom → Option Ordering
  | integer a, integer b => some (compare a.toInt b.toInt)
  | integer a, decimal b => some ((Decimal.ofInt a.toInt).compare b)
  | decimal a, integer b => some (a.compare (Decimal.ofInt b.toInt))
  | decimal a, decimal b => some (a.compare b)
  | a, b => do (← a.toFloat?).compare? (← b.toFloat?)

/-- Octet by octet; a proper beginning comes first. -/
def compareOctets : List UInt8 → List UInt8 → Ordering
  | [], [] => .eq
  | [], _ :: _ => .lt
  | _ :: _, [] => .gt
  | a :: as, b :: bs => (compare a.toNat b.toNat).then (compareOctets as bs)

/-- The order of two values of the same class. -/
def compareWithin : Atom → Atom → Option Ordering
  | boolean a, boolean b => some (compare a.toNat b.toNat)
  | yearMonthDuration a, yearMonthDuration b => some (compare a.toInt b.toInt)
  | dayTimeDuration a, dayTimeDuration b => some (compare a.toInt b.toInt)
  | duration m s, duration n t => if m = n ∧ s = t then some .eq else none
  | dateTime a, dateTime b => some (a.compare b)
  | date a _, date b _ => some (a.compare b)
  | time a _, time b _ => some (a.compare b)
  | base64Binary a, base64Binary b | base64Binary a, hexBinary b
  | hexBinary a, base64Binary b | hexBinary a, hexBinary b => some (compareOctets a b)
  | qName a, qName b =>
      if a.namespaceUri = b.namespaceUri ∧ a.localPart = b.localPart then some .eq else none
  | a, b =>
      match a.comparisonClass with
      | .number => compareNumbers a b
      | .text => some (compare a.text b.text)
      | _ => none

/-- The order of two values.  It is `none` if they are not ordered, and an error if their classes
differ. -/
def compare? (a b : Atom) : Except AtomError (Option Ordering) :=
  if a.comparisonClass = b.comparisonClass then .ok (compareWithin a b)
  else .error (.incomparable a.type b.type)

/-- Equality of map keys: equal values of one class, and not-a-number is itself. -/
def sameKey (a b : Atom) : Bool :=
  match a.toFloat?, b.toFloat? with
  | some .nan, some .nan => true
  | _, _ =>
      match a.compare? b with
      | .ok (some .eq) => true
      | _ => false

/-- Equality of type and value.  Offsets count for dates and times; moments are equal
whatever their offsets. -/
def identical : Atom → Atom → Bool
  | untyped a, untyped b | string a, string b | anyUri a, anyUri b => a == b
  | boolean a, boolean b => a == b
  | integer a, integer b => a == b
  | decimal a, decimal b => a.compare b == .eq
  | double a, double b | float a, float b => a.sameNumber b
  | qName a, qName b => a == b
  | dateTime a, dateTime b => a.compare b == .eq
  | date a o, date b p => a == b && o == p
  | time a o, time b p => a == b && o == p
  | duration m s, duration n t => m == n && s == t
  | yearMonthDuration a, yearMonthDuration b => a == b
  | dayTimeDuration a, dayTimeDuration b => a == b
  | base64Binary a, base64Binary b | hexBinary a, hexBinary b => a == b
  | _, _ => false

end Atom

end QueryKernel
