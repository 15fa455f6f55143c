import QueryKernel.Atom.Order
import QueryKernel.Node
import QueryKernel.Sequence.Buffer
import QueryKernel.Variable

/-!
# Items and values

The data model: an item is an atom, a node, a function, a map or an array, and a value is a sequence of
items.  Values come in five shapes that stand for plain lists of items: nothing, one item, a few
items, a range of integers, a long rope.  The type of the bodies of function items is a parameter.

## Functions

* `ItemOf.type` is the type of an item, `ItemOf.same` their identity.
* `ValueOf.items` is the list that a value stands for; `size` and `get?` agree with it.
* `ValueOf.ofItems` and `range?` build values.
* `ValueOf.type` and `isHomogeneous` are what is recorded about the types of the items.
-/

namespace QueryKernel

/-- What is recorded about the types of the items of a sequence: a type that all of them have, and
whether it is the exact type of each. -/
structure TypeTag where
  type : ItemType
  homogeneous : Bool
  deriving DecidableEq

namespace TypeTag

/-- The tag after adding an item of a type. -/
def add (t : TypeTag) (type : ItemType) : TypeTag :=
  ⟨t.type.union type, t.homogeneous && decide (t.type = type)⟩

/-- The tag of two sequences together. -/
def merge (t u : TypeTag) : TypeTag :=
  ⟨t.type.union u.type, (t.homogeneous && decide (t.type = u.type)) && u.homogeneous⟩

/-- The tag after all items are known to be of a type.  They may be of subtypes of it. -/
def refine (t : TypeTag) (type : ItemType) : TypeTag := if t.type = type then t else ⟨type, false⟩

/-- The tag of items of the given types. -/
def ofTypes : List ItemType → TypeTag
  | [] => ⟨.item, true⟩
  | first :: rest => rest.foldl add ⟨first, true⟩

end TypeTag

/-- Ascending integers, `length` of them from `first` on. -/
structure IntegerRange where
  first : Int64
  length : Nat
  deriving DecidableEq

namespace IntegerRange

/-- The most integers that a range may hold. -/
def maxLength : Nat := UInt64.size / 2

/-- The integer at a position. -/
def get (r : IntegerRange) (i : Nat) : Int64 := Int64.ofInt (r.first.toInt + i)

/-- The last integer. -/
def last (r : IntegerRange) : Int64 := Int64.ofInt (r.first.toInt + r.length - 1)

end IntegerRange

/-- A function with named parameters.  The identity stays when the type tag is narrowed. -/
structure FunctionItem (F : Type) where
  identity : Nat
  name : Option ExpandedName
  parameters : List Variable
  body : F
  type : ItemType

mutual

/-- An item.  Functions, maps and arrays carry an identity and a type tag. -/
inductive ItemOf (F : Type) where
  | atom (a : Atom)
  | node (n : Node)
  | function (f : FunctionItem F)
  | map (identity : Nat) (entries : List (Atom × ValueOf F)) (type : ItemType)
  | array (identity : Nat) (members : List (ValueOf F)) (type : ItemType)

/-- A sequence of items. -/
inductive ValueOf (F : Type) where
  | empty
  | one (item : ItemOf F)
  | flat (items : List (ItemOf F)) (tag : TypeTag)
  | range (r : IntegerRange)
  | tree (rope : Rope (ItemOf F)) (tag : TypeTag)

end

variable {F : Type}

namespace ItemOf

/-- An integer item. -/
def integer (i : Int64) : ItemOf F := .atom (.integer i)

/-- A boolean item. -/
def boolean (b : Bool) : ItemOf F := .atom (.boolean b)

/-- The type of an item. -/
def type : ItemOf F → ItemType
  | atom a => .atomic a.type
  | node n => .node n.type
  | function f => f.type
  | map _ _ type => type
  | array _ _ type => type

/-- Whether this is a node. -/
def isNode : ItemOf F → Bool
  | node _ => true
  | _ => false

/-- Whether this is a function, a map or an array. -/
def isFunction : ItemOf F → Bool
  | function _ | map .. | array .. => true
  | _ => false

/-- Sets the type tag of a function, map or array.  The type of other items is fixed. -/
def refine (type : ItemType) : ItemOf F → ItemOf F
  | function f => function { f with type }
  | map identity entries _ => map identity entries type
  | array identity members _ => array identity members type
  | fixed => fixed

/-- Whether two items are the same: atoms by type and value, all others by identity. -/
def same : ItemOf F → ItemOf F → Bool
  | atom a, atom b => a.identical b
  | node a, node b => a == b
  | function f, function g => f.identity == g.identity
  | map i _ _, map j _ _ => i == j
  | array i _ _, array j _ _ => i == j
  | _, _ => false

end ItemOf

/-- The most specific tag for some items. -/
def TypeTag.ofItems (items : List (ItemOf F)) : TypeTag := ofTypes (items.map (·.type))

namespace ValueOf

/-- The value of up to seven items with a known tag. -/
def ofFew (items : List (ItemOf F)) (tag : TypeTag) : ValueOf F :=
  match items with
  | [] => empty
  | [item] => one item
  | _ => flat items tag

/-- The value of a bundle of items with a known tag. -/
def ofBundle (tag : TypeTag) : Bundle (ItemOf F) → ValueOf F
  | .flat items => ofFew items tag
  | .rope r => tree r tag

/-- The value of a list of items. -/
def ofItems (items : List (ItemOf F)) : ValueOf F := ofBundle (.ofItems items) (.ofList items)

/-- A single integer. -/
def integer (i : Int64) : ValueOf F := one (.integer i)

/-- The integers between two bounds, both included; `none` if they are too many. -/
def range? (first last : Int64) : Option (ValueOf F) :=
  let span := last.toInt - first.toInt
  if span < 0 then some empty
  else if (IntegerRange.maxLength : Int) ≤ span then none
  else if span = 0 then some (integer first)
  else some (range ⟨first, span.toNat + 1⟩)

/-- The number of items. -/
def size : ValueOf F → Nat
  | empty => 0
  | one _ => 1
  | flat items _ => items.length
  | range r => r.length
  | tree rope _ => rope.size

/-- Whether this is the empty sequence. -/
def isEmpty : ValueOf F → Bool
  | empty => true
  | _ => false

/-- The items, in order. -/
def items : ValueOf F → List (ItemOf F)
  | empty => []
  | one item => [item]
  | flat items _ => items
  | range r => (List.range r.length).map fun i => .integer (r.get i)
  | tree rope _ => rope.items

/-- The first items, up to the given number. -/
def firstItems (n : Nat) : ValueOf F → List (ItemOf F)
  | range r => (List.range (min n r.length)).map fun i => .integer (r.get i)
  | tree rope _ => rope.firstItems n
  | v => v.items.take n

/-- The item at a position. -/
def get? (i : Nat) : ValueOf F → Option (ItemOf F)
  | empty => none
  | one item => if i = 0 then some item else none
  | flat items _ => items[i]?
  | range r => if i < r.length then some (.integer (r.get i)) else none
  | tree rope _ => if i < rope.size then rope.get? i else none

/-- The first item. -/
def first? (v : ValueOf F) : Option (ItemOf F) := v.get? 0

/-- The most specific type known of all items. -/
def type : ValueOf F → ItemType
  | empty => .item
  | one item => item.type
  | flat _ tag => tag.type
  | range _ => .integer
  | tree _ tag => tag.type

/-- Whether all items are known to have exactly the type recorded. -/
def isHomogeneous : ValueOf F → Bool
  | flat _ tag => tag.homogeneous
  | tree _ tag => tag.homogeneous
  | _ => true

/-- The type of a value as a sequence. -/
def sequenceType : ValueOf F → SequenceType
  | empty => .empty
  | v => ⟨v.type, .ofSize v.size⟩

/-- Records that all items of a sequence of several are of a type. -/
def refine (type : ItemType) : ValueOf F → ValueOf F
  | flat items tag => flat items (tag.refine type)
  | tree rope tag => tree rope (tag.refine type)
  | v => v

end ValueOf

end QueryKernel
