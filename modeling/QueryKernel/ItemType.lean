/-!
# Item types

The hierarchy of item types below `item()`: atomic types, node kinds and function types.  A type is a
subtype of itself and of all its ancestors.

## Functions

* `ItemType.ancestors` is the chain of parents, the type itself first.
* `isSubtype` is membership in that chain.
* `union` is the least common ancestor, `intersect?` the narrower of two comparable types.
-/

namespace QueryKernel

/-- Atomic types, in the order of their declaration. -/
inductive AtomicType where
  | anyAtomic | untypedAtomic
  | string | normalizedString | token | language | nmToken | name | ncName | id | idRef | entity
  | numeric | float | double | decimal
  | integer | nonPositiveInteger | negativeInteger
  | long | int | short | byte
  | nonNegativeInteger | unsignedLong | unsignedInt | unsignedShort | unsignedByte | positiveInteger
  | duration | yearMonthDuration | dayTimeDuration
  | dateTime | date | time
  | boolean | base64Binary | hexBinary | anyUri | qName | notationName
  deriving DecidableEq

namespace AtomicType

/-- All atomic types, in the order of their declaration. -/
def all : List AtomicType :=
  [anyAtomic, untypedAtomic, string, normalizedString, token, language, nmToken, name, ncName, id,
    idRef, entity, numeric, float, double, decimal, integer, nonPositiveInteger, negativeInteger,
    long, int, short, byte, nonNegativeInteger, unsignedLong, unsignedInt, unsignedShort,
    unsignedByte, positiveInteger, duration, yearMonthDuration, dayTimeDuration, dateTime, date,
    time, boolean, base64Binary, hexBinary, anyUri, qName, notationName]

/-- The type that a type is derived from. -/
def parent? : AtomicType → Option AtomicType
  | anyAtomic => none
  | normalizedString => some string
  | token => some normalizedString
  | language | nmToken | name => some token
  | ncName => some name
  | id | idRef | entity => some ncName
  | float | double | decimal => some numeric
  | integer => some decimal
  | nonPositiveInteger | long | nonNegativeInteger => some integer
  | negativeInteger => some nonPositiveInteger
  | int => some long
  | short => some int
  | byte => some short
  | unsignedLong | positiveInteger => some nonNegativeInteger
  | unsignedInt => some unsignedLong
  | unsignedShort => some unsignedInt
  | unsignedByte => some unsignedShort
  | yearMonthDuration | dayTimeDuration => some duration
  | untypedAtomic | string | numeric | duration | dateTime | date | time | boolean | base64Binary
  | hexBinary | anyUri | qName | notationName => some anyAtomic

/-- The name in the schema namespace. -/
def localName : AtomicType → String
  | anyAtomic => "anyAtomicType"
  | untypedAtomic => "untypedAtomic"
  | string => "string"
  | normalizedString => "normalizedString"
  | token => "token"
  | language => "language"
  | nmToken => "NMTOKEN"
  | name => "Name"
  | ncName => "NCName"
  | id => "ID"
  | idRef => "IDREF"
  | entity => "ENTITY"
  | numeric => "numeric"
  | float => "float"
  | double => "double"
  | decimal => "decimal"
  | integer => "integer"
  | nonPositiveInteger => "nonPositiveInteger"
  | negativeInteger => "negativeInteger"
  | long => "long"
  | int => "int"
  | short => "short"
  | byte => "byte"
  | nonNegativeInteger => "nonNegativeInteger"
  | unsignedLong => "unsignedLong"
  | unsignedInt => "unsignedInt"
  | unsignedShort => "unsignedShort"
  | unsignedByte => "unsignedByte"
  | positiveInteger => "positiveInteger"
  | duration => "duration"
  | yearMonthDuration => "yearMonthDuration"
  | dayTimeDuration => "dayTimeDuration"
  | dateTime => "dateTime"
  | date => "date"
  | time => "time"
  | boolean => "boolean"
  | base64Binary => "base64Binary"
  | hexBinary => "hexBinary"
  | anyUri => "anyURI"
  | qName => "QName"
  | notationName => "NOTATION"

end AtomicType

/-- Types of nodes. -/
inductive NodeType where
  | node | text | processingInstruction | element | document | documentElement | attributeNode
  | comment | namespaceNode
  deriving DecidableEq

namespace NodeType

/-- All node types. -/
def all : List NodeType :=
  [node, text, processingInstruction, element, document, documentElement, attributeNode, comment,
    namespaceNode]

/-- The type that a node type narrows. -/
def parent? : NodeType → Option NodeType
  | node => none
  | documentElement => some document
  | _ => some node

/-- The kind test for the type. -/
def testText : NodeType → String
  | node => "node()"
  | text => "text()"
  | processingInstruction => "processing-instruction()"
  | element => "element()"
  | document => "document-node()"
  | documentElement => "document-node(element())"
  | attributeNode => "attribute()"
  | comment => "comment()"
  | namespaceNode => "namespace-node()"

end NodeType

/-- Types of function items.  Maps and arrays are functions. -/
inductive FunctionType where
  | function | map | array
  deriving DecidableEq

/-- The kind test for a function type. -/
def FunctionType.testText : FunctionType → String
  | function => "function(*)"
  | map => "map(*)"
  | array => "array(*)"

/-- The type of an item. -/
inductive ItemType where
  | item
  | atomic (type : AtomicType)
  | node (type : NodeType)
  | function (type : FunctionType)
  deriving DecidableEq

namespace ItemType

/-- All item types. -/
def all : List ItemType :=
  item :: AtomicType.all.map atomic ++ NodeType.all.map node ++
    [function .function, function .map, function .array]

/-- `node()`. -/
def anyNode : ItemType := .node .node

/-- `xs:anyAtomicType`. -/
def anyAtomic : ItemType := .atomic .anyAtomic

/-- `xs:integer`. -/
def integer : ItemType := .atomic .integer

/-- `xs:boolean`. -/
def boolean : ItemType := .atomic .boolean

/-- `xs:double`. -/
def double : ItemType := .atomic .double

/-- `function(*)`. -/
def anyFunction : ItemType := .function .function

/-- The next wider type. -/
def parent? : ItemType → Option ItemType
  | item => none
  | atomic a => some ((a.parent?.map atomic).getD item)
  | node n => some ((n.parent?.map node).getD item)
  | function .function => some item
  | function _ => some anyFunction

/-- The type and the wider ones above it, up to the given number. -/
def ancestorsUpTo : Nat → ItemType → List ItemType
  | 0, _ => []
  | fuel + 1, t =>
      t :: match t.parent? with
        | none => []
        | some wider => ancestorsUpTo fuel wider

/-- The type and all wider types, up to `item()`.  No chain is longer than ten. -/
def ancestors (t : ItemType) : List ItemType := ancestorsUpTo 10 t

/-- Whether every item of the first type is one of the second. -/
def isSubtype (t wider : ItemType) : Bool := t.ancestors.contains wider

/-- The least type above both. -/
def union (a b : ItemType) : ItemType := (a.ancestors.find? b.isSubtype).getD item

/-- The narrower of two comparable types; other types are disjoint. -/
def intersect? (a b : ItemType) : Option ItemType :=
  if a.isSubtype b then some a else if b.isSubtype a then some b else none

/-- Whether this is an atomic type. -/
def isAtomic : ItemType → Bool
  | atomic _ => true
  | _ => false

/-- Whether this is a node type. -/
def isNode : ItemType → Bool
  | node _ => true
  | _ => false

/-- Whether this is a function type. -/
def isFunction : ItemType → Bool
  | function _ => true
  | _ => false

/-- Whether all items are numbers. -/
def isNumber (t : ItemType) : Bool := t.isSubtype (.atomic .numeric)

/-- Whether items atomize to untyped atoms. -/
def isUntyped : ItemType → Bool
  | atomic .untypedAtomic => true
  | node _ => true
  | _ => false

/-- Whether all items are strings. -/
def isString (t : ItemType) : Bool := t.isSubtype (.atomic .string)

/-- Numbers, and what becomes one. -/
def isNumberOrUntyped (t : ItemType) : Bool := t.isNumber || t.isUntyped

/-- Strings, and what becomes one. -/
def isStringOrUntyped (t : ItemType) : Bool := t.isString || t.isUntyped

/-- Whether items can be put in order. -/
def isSortable (t : ItemType) : Bool :=
  t.isNumberOrUntyped || t.isString ||
    [.yearMonthDuration, .dayTimeDuration, .dateTime, .date, .time, .boolean, .base64Binary,
      .hexBinary, .anyUri].any (fun a => t == atomic a)

/-- Whether items hold a name whose qualifier stands for a namespace. -/
def isNamespaceSensitive (t : ItemType) : Bool :=
  t.isSubtype (.atomic .qName) || t.isSubtype (.atomic .notationName)

/-- The type of the atoms of an item, if all items of the type have the same. -/
def atomicType? : ItemType → Option AtomicType
  | atomic a => some a
  | node _ => some .untypedAtomic
  | _ => none

/-- The type as written in a query. -/
def text : ItemType → String
  | item => "item()"
  | atomic a => "xs:" ++ a.localName
  | node n => n.testText
  | function f => f.testText

/-- Reads a written type. -/
def ofText? (s : String) : Option ItemType := all.find? (fun t => t.text == s)

end ItemType

end QueryKernel
