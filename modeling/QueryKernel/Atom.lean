import QueryKernel.Calendar
import QueryKernel.ItemType
import QueryKernel.Name
import QueryKernel.Number.Decimal
import QueryKernel.Number.FloatText
import QueryKernel.Number.Word
import QueryKernel.Text.Binary

/-!
# Atoms

The atomic values: texts, numbers, dates, durations, binary data and names.

## Functions

* `Atom.type` is the atomic type of a value.
* `Atom.text` is the canonical text, `Atom.literal` the form shown in expressions.
* `Atom.toFloat?` reads a number as a double.
* `Atom.boolean?` is the boolean value of a single atom.
-/

namespace QueryKernel

/-- An atomic value.  Durations are kept as whole months and whole seconds. -/
inductive Atom where
  | untyped (s : String)
  | string (s : String)
  | anyUri (s : String)
  | boolean (b : Bool)
  | integer (i : Int64)
  | decimal (d : Decimal)
  | double (x : BinaryFloat)
  | float (x : BinaryFloat)
  | qName (name : QualifiedName)
  | dateTime (t : DateTime)
  | date (d : Date) (offset : Option Offset)
  | time (t : TimeOfDay) (offset : Option Offset)
  | duration (months : Int32) (seconds : Int64)
  | yearMonthDuration (months : Int32)
  | dayTimeDuration (seconds : Int64)
  | base64Binary (octets : List UInt8)
  | hexBinary (octets : List UInt8)

/-- What can go wrong with atoms alone. -/
inductive AtomError where
  | incomparable (a b : AtomicType)
  | noBoolean (type : AtomicType)
  | notADouble (text : String)
  | overflow
  | divisionByZero
  | nanFactor
  | undefinedOperator (symbol : String) (a b : AtomicType)

namespace Atom

/-- The type of a value. -/
def type : Atom → AtomicType
  | untyped _ => .untypedAtomic
  | string _ => .string
  | anyUri _ => .anyUri
  | boolean _ => .boolean
  | integer _ => .integer
  | decimal _ => .decimal
  | double _ => .double
  | float _ => .float
  | qName _ => .qName
  | dateTime _ => .dateTime
  | date .. => .date
  | time .. => .time
  | duration .. => .duration
  | yearMonthDuration _ => .yearMonthDuration
  | dayTimeDuration _ => .dayTimeDuration
  | base64Binary _ => .base64Binary
  | hexBinary _ => .hexBinary

/-- Whether this is a number. -/
def isNumeric : Atom → Bool
  | integer _ | decimal _ | double _ | float _ => true
  | _ => false

/-- A number as the nearest double. -/
def toFloat? : Atom → Option BinaryFloat
  | integer i => some (.ofInt .double i.toInt)
  | decimal d => some d.toFloat
  | double x => some x
  | float x => some x
  | _ => none

/-- The canonical text. -/
def text : Atom → String
  | untyped s | string s | anyUri s => s
  | boolean b => if b then "true" else "false"
  | integer i => toString i.toInt
  | decimal d => d.text
  | double x => x.text
  | float x => x.text
  | qName name => name.text
  | dateTime t => t.text
  | date d offset => d.text ++ zoneText offset
  | time t offset => t.text ++ zoneText offset
  | duration months seconds => durationText months.toInt seconds.toInt
  | yearMonthDuration months => durationText months.toInt 0
  | dayTimeDuration seconds => durationText 0 seconds.toInt
  | base64Binary octets => String.ofList (Base64.encode octets)
  | hexBinary octets => hexText upperHexDigits octets

/-- A text between quotes, where a quote inside is written twice. -/
def quoted (s : String) : String :=
  "\"" ++ String.ofList (s.toList.flatMap fun c => if c = '"' then ['"', '"'] else [c]) ++ "\""

/-- The value as shown in an expression: literals where the language has them, otherwise a
constructor call around the text. -/
def literal : Atom → String
  | untyped s | string s => quoted s
  | integer i => text (integer i)
  | decimal d => text (decimal d)
  | boolean b => text (boolean b) ++ "()"
  | double x =>
      if x.isFinite && !x.isWhole then x.text else call (double x)
  | other => call other
where
  /-- The constructor call of a value. -/
  call (a : Atom) : String := "xs:" ++ a.type.localName ++ "(\"" ++ a.text ++ "\")"

/-- The boolean value of a single atom: texts and numbers have one. -/
def boolean? : Atom → Except AtomError Bool
  | boolean b => .ok b
  | untyped s | string s | anyUri s => .ok (!s.isEmpty)
  | integer i => .ok (i != 0)
  | decimal d => .ok (!d.isZero)
  | double x | float x => .ok (!x.isZero && !x.isNaN)
  | other => .error (.noBoolean other.type)

end Atom

end QueryKernel
