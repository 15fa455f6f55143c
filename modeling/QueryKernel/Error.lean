import QueryKernel.Fault
import QueryKernel.Value.Text

/-!
# Errors

An error is a cause and, once it is known, the place of the expression that raised it.  Code, kind,
message and diagnostic payload all follow from the cause.

## Functions

* `ErrorOf.code`, `kind`, `message`, `payload` describe an error.
* `ErrorOf.locate` attaches a place unless one is known.
* `ErrorOf.text` is the printed form.
-/

namespace QueryKernel

/-- The standard codes raised by the library. -/
inductive ErrorCode where
  /-- Division by zero. -/
  | FOAR0001
  /-- Numeric overflow. -/
  | FOAR0002
  /-- Array index out of bounds. -/
  | FOAY0001
  /-- An error without a code of its own, and cancellation. -/
  | FOER0000
  /-- Invalid lexical form. -/
  | FORG0001
  /-- Invalid argument type. -/
  | FORG0006
  /-- Atomization of a function. -/
  | FOTY0013
  /-- Undefined focus. -/
  | XPDY0002
  /-- Limit exceeded. -/
  | XPDY0130
  /-- Undeclared variable. -/
  | XPST0008
  /-- Unknown function or wrong number of arguments. -/
  | XPST0017
  /-- Type error. -/
  | XPTY0004
  /-- Context item that is not a node. -/
  | XPTY0020
  /-- Cast of an untyped atom to a name. -/
  | XPTY0117
  /-- Updating expression that is not allowed. -/
  | XUST0001
  /-- Any other code. -/
  | unknown
  deriving DecidableEq

namespace ErrorCode

/-- All codes. -/
def all : List ErrorCode :=
  [FOAR0001, FOAR0002, FOAY0001, FOER0000, FORG0001, FORG0006, FOTY0013, XPDY0002, XPDY0130, XPST0008,
    XPST0017, XPTY0004, XPTY0020, XPTY0117, XUST0001, unknown]

/-- The local name of a code. -/
def localName : ErrorCode → String
  | FOAR0001 => "FOAR0001"
  | FOAR0002 => "FOAR0002"
  | FOAY0001 => "FOAY0001"
  | FOER0000 => "FOER0000"
  | FORG0001 => "FORG0001"
  | FORG0006 => "FORG0006"
  | FOTY0013 => "FOTY0013"
  | XPDY0002 => "XPDY0002"
  | XPDY0130 => "XPDY0130"
  | XPST0008 => "XPST0008"
  | XPST0017 => "XPST0017"
  | XPTY0004 => "XPTY0004"
  | XPTY0020 => "XPTY0020"
  | XPTY0117 => "XPTY0117"
  | XUST0001 => "XUST0001"
  | unknown => "UNKNOWN"

/-- The name of a code. -/
def expandedName (c : ErrorCode) : ExpandedName := ⟨some errorNamespace, c.localName⟩

/-- The code with a local name. -/
def ofLocalName (s : String) : ErrorCode :=
  ((all.filter (· ≠ unknown)).find? (fun c => c.localName == s)).getD unknown

/-- The code written with the usual qualifier in front. -/
def ofWritten (s : String) : ErrorCode :=
  match s.toList with
  | 'e' :: 'r' :: 'r' :: ':' :: rest => ofLocalName (String.ofList rest)
  | _ => unknown

end ErrorCode

/-- Categories of errors. -/
inductive ErrorKind where
  | cardinality | emptyInput | cast | namespaceSensitive | comparisonClass | update | context
  | arithmetic | dynamic | cancelled
  deriving DecidableEq

/-- The name of a category. -/
def ErrorKind.label : ErrorKind → String
  | cardinality => "Cardinality"
  | emptyInput => "EmptyInput"
  | cast => "Cast"
  | namespaceSensitive => "NamespaceSensitive"
  | comparisonClass => "ComparisonClass"
  | update => "Update"
  | context => "Context"
  | arithmetic => "Arithmetic"
  | dynamic => "Dynamic"
  | cancelled => "Cancelled"

/-- A place in the text of a query. -/
structure Location where
  line : Nat
  column : Nat
  path : Option String
  deriving DecidableEq

/-- Path, line and column, separated by colons. -/
def Location.text (l : Location) : String :=
  (match l.path with
    | some path => path ++ ":"
    | none => "") ++ toString l.line ++ ":" ++ toString l.column

variable {F : Type}

/-- What went wrong. -/
inductive Cause (F : Type) where
  /-- More items than one; `more` tells whether there were others than the two. -/
  | manyItems (first second : ItemOf F) (more : Bool)
  /-- The boolean value of several items. -/
  | booleanOfMany (first second : ItemOf F) (more : Bool)
  | emptyInput (expected : Option ItemType)
  | wrongType (item : ItemOf F) (expected : ItemType)
  /-- A text that does not fit a type; `chained` tells whether a decoder gave the reason. -/
  | wrongForm (item : ItemOf F) (target : ItemType) (chained : Bool)
  | namespaceNeeded (item : ItemOf F) (target : ItemType)
  | incomparable (a b : ItemType)
  /-- An item outside the class of those before it. -/
  | outOfClass (expected : ItemType) (item : ItemOf F)
  | notSummable (item : ItemOf F)
  | updateNotAllowed (description : String)
  | mixedUpdates (description : String)
  | noContext (description : String)
  | notAtomizable (item : ItemOf F)
  | rangeTooLong (first last : Int64)
  | stopped (message : String)
  | overflow
  | divisionByZero
  | nanFactor
  | undefinedOperator (symbol : String) (a b : AtomicType)
  | noBoolean (type : ItemType)
  | wrongArity (callee : ItemOf F) (arity supplied : Nat)
  | keyCount (callee : ItemOf F) (supplied : Nat)
  | keyNotSingle (callee : ItemOf F)
  | arrayIndex (index : Int64) (length : Nat)
  | undeclared (name : String)
  | rootNotNode (type : ItemType)
  /-- A bound value with a number of items that the declared type does not allow. -/
  | declaredSize (name : String) (declared found : SequenceType)
  | argumentCount (name : String) (least most supplied : Nat)
  | tooLongToCount (size : Nat)
  /-- An error raised by the query itself. -/
  | raised (code : ExpandedName) (message : String) (items : List (ItemOf F))
  /-- An error with a given code, kind and message. -/
  | given (code : ErrorCode) (kind : ErrorKind) (message : String)

/-- A diagnostic value of an error. -/
inductive Payload (F : Type) where
  | item (i : ItemOf F)
  | type (t : ItemType)
  | text (s : String)

/-- An error. -/
structure ErrorOf (F : Type) where
  cause : Cause F
  location : Option Location

/-- At most `most` characters of a text; a longer one ends in dots. -/
def chopText (most : Nat) (s : String) : String :=
  if s.length ≤ most then s else String.ofList (s.toList.take (most - 3)) ++ "..."

/-- An item in a message. -/
def shownItem (i : ItemOf F) : String := chopText 64 i.text

/-- The beginning of a sequence in a message. -/
def shownStart (first second : ItemOf F) (more : Bool) : String :=
  shownItem first ++ ", " ++ shownItem second ++ (if more then ", ..." else "")

/-- The beginning of a sequence as a payload. -/
def startPayload (first second : ItemOf F) (more : Bool) : List (Payload F) :=
  [.item first, .item second] ++ (if more then [.text "..."] else [])

namespace Cause

/-- The code of an error. -/
def code : Cause F → ExpandedName
  | raised code _ _ => code
  | given code _ _ => code.expandedName
  | manyItems .. | emptyInput _ | wrongType .. | incomparable .. | undefinedOperator ..
  | wrongArity .. | keyCount .. | keyNotSingle _ | declaredSize .. => ErrorCode.XPTY0004.expandedName
  | booleanOfMany .. | outOfClass .. | notSummable _ | noBoolean _ => ErrorCode.FORG0006.expandedName
  | wrongForm .. => ErrorCode.FORG0001.expandedName
  | namespaceNeeded .. => ErrorCode.XPTY0117.expandedName
  | updateNotAllowed _ | mixedUpdates _ => ErrorCode.XUST0001.expandedName
  | noContext _ => ErrorCode.XPDY0002.expandedName
  | notAtomizable _ => ErrorCode.FOTY0013.expandedName
  | rangeTooLong .. => ErrorCode.XPDY0130.expandedName
  | stopped _ => ErrorCode.FOER0000.expandedName
  | overflow | nanFactor | tooLongToCount _ => ErrorCode.FOAR0002.expandedName
  | divisionByZero => ErrorCode.FOAR0001.expandedName
  | arrayIndex .. => ErrorCode.FOAY0001.expandedName
  | undeclared _ => ErrorCode.XPST0008.expandedName
  | rootNotNode _ => ErrorCode.XPTY0020.expandedName
  | argumentCount .. => ErrorCode.XPST0017.expandedName

/-- The category of an error. -/
def kind : Cause F → ErrorKind
  | given _ kind _ => kind
  | manyItems .. | booleanOfMany .. | declaredSize .. => .cardinality
  | emptyInput _ => .emptyInput
  | wrongType .. | wrongForm .. | notAtomizable _ | undefinedOperator .. => .cast
  | namespaceNeeded .. => .namespaceSensitive
  | incomparable .. | outOfClass .. | notSummable _ => .comparisonClass
  | updateNotAllowed _ | mixedUpdates _ => .update
  | noContext _ => .context
  | overflow | divisionByZero | nanFactor => .arithmetic
  | stopped _ => .cancelled
  | rangeTooLong .. | noBoolean _ | wrongArity .. | keyCount .. | keyNotSingle _ | arrayIndex ..
  | undeclared _ | rootNotNode _ | argumentCount .. | tooLongToCount _ | raised .. => .dynamic

/-- The message of an error. -/
def message : Cause F → String
  | manyItems first second more =>
      "Item expected, sequence found: (" ++ shownStart first second more ++ ")."
  | booleanOfMany first second more =>
      "Effective boolean value not defined for (" ++ shownStart first second more ++ ")."
  | emptyInput (some type) => type.text ++ " expected, empty sequence found."
  | emptyInput none => "Item expected, empty sequence found."
  | wrongType item expected =>
      "Cannot convert " ++ item.type.text ++ " to " ++ expected.text ++ ": " ++ shownItem item ++ "."
  | wrongForm item target _ =>
      "Cannot cast " ++ item.type.text ++ " to " ++ target.text ++ ": " ++ shownItem item ++ "."
  | namespaceNeeded item target =>
      "No namespace-sensitive cast from " ++ item.type.text ++ " to " ++ target.text ++ "."
  | incomparable a b => "Types " ++ a.text ++ " and " ++ b.text ++ " are not comparable."
  | outOfClass expected item =>
      expected.text ++ " expected, " ++ item.type.text ++ " found: " ++ shownItem item ++ "."
  | notSummable item => "Numbers or durations expected, " ++ item.type.text ++ " found."
  | updateNotAllowed description => description ++ ": no updating expression allowed."
  | mixedUpdates description =>
      description ++ ": all expressions must be updating or return an empty sequence."
  | noContext description => description ++ ": no context value bound."
  | notAtomizable item => "Items of type " ++ item.type.text ++ " cannot be atomized."
  | rangeTooLong first last => rangeTooLongText first last
  | stopped message => message
  | overflow => "Numeric overflow."
  | divisionByZero => "Division by zero."
  | nanFactor => "Invalid duration factor: NaN."
  | undefinedOperator symbol a b =>
      "Operator '" ++ symbol ++ "' not defined for xs:" ++ a.localName ++ " and xs:" ++ b.localName ++ "."
  | noBoolean type => "effective boolean value not defined for " ++ type.text
  | wrongArity callee arity supplied =>
      callee.text ++ " expects " ++ toString arity ++ " arguments, " ++ toString supplied ++ " supplied"
  | keyCount callee supplied =>
      callee.text ++ " expects 1 argument, " ++ toString supplied ++ " supplied"
  | keyNotSingle callee => callee.text ++ ": single key expected"
  | arrayIndex index length =>
      "array index " ++ toString index.toInt ++ " out of bounds (1.." ++ toString length ++ ")"
  | undeclared name => "Undeclared variable: $" ++ name ++ "."
  | rootNotNode type => "Root of the context must be a node, " ++ type.text ++ " found."
  | declaredSize name declared found =>
      "$" ++ name ++ ": " ++ declared.text ++ " expected, " ++ found.text ++ " found."
  | argumentCount name least most supplied =>
      name ++ "() expects " ++ toString least ++ " to " ++ toString most ++ " arguments, " ++
        toString supplied ++ " supplied."
  | tooLongToCount size => "Sequence of " ++ toString size ++ " items is too long to be counted."
  | raised _ message _ => message
  | given _ _ message => message

/-- The diagnostic values of an error. -/
def payload : Cause F → List (Payload F)
  | manyItems first second more | booleanOfMany first second more => startPayload first second more
  | emptyInput (some type) => [.type type]
  | wrongType item type | wrongForm item type _ => [.item item, .type item.type, .type type]
  | namespaceNeeded item target => [.item item, .type target]
  | incomparable a b => [.type a, .type b]
  | outOfClass expected item => [.type expected, .item item]
  | notSummable item | notAtomizable item => [.item item]
  | raised _ _ items => items.map .item
  | _ => []

/-- The cause of an error among atoms. -/
def ofAtomError : AtomError → Cause F
  | .incomparable a b => incomparable (.atomic a) (.atomic b)
  | .noBoolean type => noBoolean (.atomic type)
  | .notADouble text => wrongForm (.atom (.untyped text)) .double false
  | .overflow => overflow
  | .divisionByZero => divisionByZero
  | .nanFactor => nanFactor
  | .undefinedOperator symbol a b => undefinedOperator symbol a b

end Cause

namespace ErrorOf

/-- An error at a place that is not known yet. -/
def of (cause : Cause F) : ErrorOf F := ⟨cause, none⟩

/-- The error with a place, unless it has one. -/
def locate (e : ErrorOf F) (location : Option Location) : ErrorOf F :=
  match e.location with
  | some _ => e
  | none => { e with location }

/-- The code of an error. -/
def code (e : ErrorOf F) : ExpandedName := e.cause.code

/-- The message of an error. -/
def message (e : ErrorOf F) : String := e.cause.message

/-- The standard code of an error. -/
def standardCode (e : ErrorOf F) : ErrorCode :=
  if e.code.namespaceUri = some errorNamespace then .ofLocalName e.code.localPart else .unknown

/-- The code as written: with the usual qualifier if it is in the namespace of errors. -/
def codeText (e : ErrorOf F) : String :=
  if e.code.namespaceUri = some errorNamespace then "err:" ++ e.code.localPart else e.code.text

/-- Whether another error led to this one. -/
def isChained (e : ErrorOf F) : Bool :=
  match e.cause with
  | .wrongForm _ _ chained => chained
  | _ => false

/-- Place, message and code. -/
def text (e : ErrorOf F) : String :=
  (match e.location with
    | some location => "[" ++ location.text ++ "] "
    | none => "") ++ "error: " ++ e.message ++ " (" ++ e.codeText ++ ")"

end ErrorOf

end QueryKernel
