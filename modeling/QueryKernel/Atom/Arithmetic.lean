import QueryKernel.Atom.Reading

/-!
# Arithmetic

The six operators on numbers and durations.  Two numbers are first brought to their common type:
double, float, decimal or integer, whichever comes first.

## Functions

* `Operator.resultType` is the static type of a result.
* `Operator.apply` computes it.
-/

namespace QueryKernel

/-- Arithmetic operators. -/
inductive Operator where
  | plus | minus | times | divide | integerDivide | modulo
  deriving DecidableEq

/-- All operators. -/
def Operator.all : List Operator := [plus, minus, times, divide, integerDivide, modulo]

/-- The operator as written. -/
def Operator.symbol : Operator → String
  | plus => "+"
  | minus => "-"
  | times => "*"
  | divide => "div"
  | integerDivide => "idiv"
  | modulo => "mod"

/-- The primitive numeric types. -/
inductive NumericType where
  | integer | decimal | float | double
  deriving DecidableEq

namespace NumericType

/-- The numeric type of the numbers that items of a type become. -/
def of? (t : ItemType) : Option NumericType :=
  match t.atomicType? with
  | none => none
  | some a =>
      if (ItemType.atomic a).isSubtype .integer then some integer
      else match a with
        | .decimal => some decimal
        | .float => some float
        | .double | .untypedAtomic => some double
        | _ => none

/-- The common type of two operands. -/
def promote : NumericType → NumericType → NumericType
  | double, _ | _, double => double
  | float, _ | _, float => float
  | decimal, _ | _, decimal => decimal
  | integer, integer => integer

/-- The item type of the numbers. -/
def itemType : NumericType → ItemType
  | integer => .integer
  | decimal => .atomic .decimal
  | float => .atomic .float
  | double => .double

end NumericType

/-- A pair of numbers of one type. -/
inductive NumberPair where
  | integers (a b : Int64)
  | decimals (a b : Decimal)
  | floats (a b : BinaryFloat)
  | doubles (a b : BinaryFloat)

/-- Two numbers brought to their common type; `none` unless both are numbers. -/
def NumberPair.of? : Atom → Atom → Option NumberPair
  | .integer a, .integer b => some (.integers a b)
  | .integer a, .decimal b => some (.decimals (.ofInt a.toInt) b)
  | .decimal a, .integer b => some (.decimals a (.ofInt b.toInt))
  | .decimal a, .decimal b => some (.decimals a b)
  | .float a, .float b => some (.floats a b)
  | .float a, .integer b => some (.floats a (.ofInt .single b.toInt))
  | .integer a, .float b => some (.floats (.ofInt .single a.toInt) b)
  | .float a, .decimal b => some (.floats a (b.toFloat.convert .single))
  | .decimal a, .float b => some (.floats (a.toFloat.convert .single) b)
  | .double a, b => b.toFloat?.map (.doubles a)
  | a, .double b => a.toFloat?.map (.doubles · b)
  | _, _ => none

namespace Operator

/-- The item type of results for operands of the given types. -/
def resultType (op : Operator) (a b : ItemType) : ItemType :=
  match NumericType.of? a, NumericType.of? b with
  | some m, some n =>
      match op, m.promote n with
      | integerDivide, _ => .integer
      | divide, .integer => .atomic .decimal
      | _, common => common.itemType
  | _, _ =>
      if (op = plus ∨ op = minus) ∧ a = b ∧
          (a = .atomic .yearMonthDuration ∨ a = .atomic .dayTimeDuration) then a
      else if op = integerDivide then .integer
      else .anyAtomic

/-- The result, or an overflow. -/
def orOverflow {α : Type} : Option α → Except AtomError α
  | some a => .ok a
  | none => .error .overflow

/-- Integers: division gives a decimal, the other operators truncate and stay within 64 bits. -/
def onIntegers (op : Operator) (a b : Int) : Except AtomError Atom :=
  match op with
  | plus => (orOverflow (long? (a + b))).map .integer
  | minus => (orOverflow (long? (a - b))).map .integer
  | times => (orOverflow (long? (a * b))).map .integer
  | divide =>
      if b = 0 then .error .divisionByZero
      else (orOverflow ((Decimal.ofInt a).div? (Decimal.ofInt b))).map .decimal
  | integerDivide =>
      if b = 0 then .error .divisionByZero else (orOverflow (long? (a.tdiv b))).map .integer
  | modulo =>
      if b = 0 then .error .divisionByZero
      else (orOverflow ((long? (a.tdiv b)).bind fun _ => long? (a.tmod b))).map .integer

/-- Decimals: integer division truncates the rounded quotient. -/
def onDecimals (op : Operator) (a b : Decimal) : Except AtomError Atom :=
  match op with
  | plus => (orOverflow (a.add? b)).map .decimal
  | minus => (orOverflow (a.sub? b)).map .decimal
  | times => (orOverflow (a.mul? b)).map .decimal
  | divide =>
      if b.isZero then .error .divisionByZero else (orOverflow (a.div? b)).map .decimal
  | integerDivide =>
      if b.isZero then .error .divisionByZero
      else (orOverflow ((a.div? b).bind fun q => long? q.truncate)).map .integer
  | modulo =>
      if b.isZero then .error .divisionByZero else (orOverflow (a.mod? b)).map .decimal

/-- Doubles; also floats, before their result is rounded again. -/
def onDoubles (op : Operator) (a b : BinaryFloat) : BinaryFloat :=
  match op with
  | plus => a.add .double b
  | minus => a.sub .double b
  | times => a.mul .double b
  | divide => a.div .double b
  | integerDivide => (a.div .double b).trunc
  | modulo => a.mod b

/-- Whole quotients of floating-point numbers are integers. -/
def floatQuotient (a b : BinaryFloat) : Except AtomError Atom :=
  if b.isZero then .error .divisionByZero
  else (orOverflow ((a.div .double b).toInt?.bind long?)).map .integer

/-- The operator on two numbers of one type. -/
def onNumbers (op : Operator) : NumberPair → Except AtomError Atom
  | .integers a b => op.onIntegers a.toInt b.toInt
  | .decimals a b => op.onDecimals a b
  | .floats a b =>
      if op = integerDivide then floatQuotient a b
      else .ok (.float ((op.onDoubles a b).convert .single))
  | .doubles a b =>
      if op = integerDivide then floatQuotient a b else .ok (.double (op.onDoubles a b))

/-- A duration multiplied or divided by a number, as a double. -/
def scale (op : Operator) (length : Int) (factor : Atom) : Except AtomError BinaryFloat :=
  let length := BinaryFloat.ofInt .double length
  match (factor.toFloat?).getD .nan with
  | .nan => .error .nanFactor
  | n =>
      if op = divide then
        if n.isZero then .error .divisionByZero else .ok (length.div .double n)
      else .ok (length.mul .double n)

/-- A duration scaled by a number, rounded to a whole one; `none` unless the operands are such. -/
def onScaledDuration (op : Operator) (a b : Atom) : Option (Except AtomError Atom) :=
  if b.isNumeric && (op == times || op == divide) then
    match a with
    | .yearMonthDuration months => some do
        let scaled ← op.scale months.toInt b
        (orOverflow ((scaled.roundHalfAway .double).toInt?.bind int?)).map .yearMonthDuration
    | .dayTimeDuration seconds => some do
        let scaled ← op.scale seconds.toInt b
        (orOverflow ((scaled.roundHalfAway .double).toInt?.bind long?)).map .dayTimeDuration
    | _ => none
  else none

/-- Sum or difference of two durations of one kind; `none` unless the operands are such. -/
def onDurations (op : Operator) (a b : Atom) : Option (Except AtomError Atom) :=
  match op, a, b with
  | plus, .yearMonthDuration m, .yearMonthDuration n =>
      some ((orOverflow (int? (m.toInt + n.toInt))).map .yearMonthDuration)
  | minus, .yearMonthDuration m, .yearMonthDuration n =>
      some ((orOverflow (int? (m.toInt - n.toInt))).map .yearMonthDuration)
  | plus, .dayTimeDuration s, .dayTimeDuration t =>
      some ((orOverflow (long? (s.toInt + t.toInt))).map .dayTimeDuration)
  | minus, .dayTimeDuration s, .dayTimeDuration t =>
      some ((orOverflow (long? (s.toInt - t.toInt))).map .dayTimeDuration)
  | times, _, _ =>
      match onScaledDuration op a b with
      | some result => some result
      | none => onScaledDuration op b a
  | _, _, _ => onScaledDuration op a b

/-- The operator on two atoms.  Untyped atoms count as doubles. -/
def apply (op : Operator) (a b : Atom) : Except AtomError Atom := do
  let a ← a.untypedToDouble
  let b ← b.untypedToDouble
  match NumberPair.of? a b with
  | some pair => op.onNumbers pair
  | none =>
      match op.onDurations a b with
      | some result => result
      | none => .error (.undefinedOperator op.symbol a.type b.type)

end Operator

end QueryKernel
