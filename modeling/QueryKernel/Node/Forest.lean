import QueryKernel.Node

/-!
# Forests

The trees built so far.  Nodes are built from below: a node is complete before it becomes the child
or attribute of another, and the first node built over it is its parent for good.

## Functions

* `Forest.build` adds a node over given attributes and children.
* `Forest.parent?` and `Forest.root` navigate upwards.
-/

namespace QueryKernel

/-- The number of nodes built so far, and the parent of each serial number that has one. -/
structure Forest where
  built : Nat
  parents : List (Nat × Node)

namespace Forest

/-- No nodes. -/
def empty : Forest := ⟨0, []⟩

/-- The parent recorded for a serial number. -/
def parentOfSerial? (f : Forest) (serial : Nat) : Option Node := f.parents.lookup serial

/-- The node above a node. -/
def parent? (f : Forest) (n : Node) : Option Node :=
  match n.identity with
  | .built serial => f.parentOfSerial? serial
  | .stored .. => none

/-- Records a parent, unless there is one already. -/
def adopt (parent : Node) (f : Forest) (child : Node) : Forest :=
  match child.identity with
  | .stored .. => f
  | .built serial =>
      match f.parentOfSerial? serial with
      | some _ => f
      | none => { f with parents := (serial, parent) :: f.parents }

/-- Builds a node over complete attributes and children. -/
def build (f : Forest) (kind : NodeKind) (name : Option QualifiedName) (value : Option String)
    (attributeNodes children : List Node) : Node × Forest :=
  let node := Node.mk (.built f.built) kind name value attributeNodes children none
  (node, (attributeNodes ++ children).foldl (adopt node) { f with built := f.built + 1 })

/-- An empty element, new to the forest. -/
def buildPlaceholderElement (f : Forest) : Node × Forest :=
  f.build .element (some ⟨none, none, "dummy"⟩) none [] []

/-- An empty document, new to the forest. -/
def buildPlaceholderDocument (f : Forest) : Node × Forest := f.build .document none none [] []

/-- The node reached by at most the given number of steps upwards. -/
def rootWithin (f : Forest) : Nat → Node → Node
  | 0, n => n
  | steps + 1, n =>
      match f.parent? n with
      | some above => f.rootWithin steps above
      | none => n

/-- The topmost node above a node.  Every step leads to a node built later. -/
def root (f : Forest) (n : Node) : Node := f.rootWithin f.built n

end Forest

end QueryKernel
