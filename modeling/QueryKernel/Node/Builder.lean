import QueryKernel.Node.Forest

/-!
# Building nodes

An element or a document is put together piece by piece: its attributes and children are handed to a
builder, which makes the node in the end.  Nodes without anything below them have a value instead.

## Functions

* `NodeBuilder.withAttribute` and `withChild` hand a complete node to a builder.
* `NodeBuilder.build` makes the node.
* `Forest.buildAttribute`, `buildText` and `buildComment` make nodes with a value.
-/

namespace QueryKernel

/-- An element or a document that is not complete yet. -/
structure NodeBuilder where
  /-- The name of an element.  A document has none. -/
  name : Option String
  attributeNodes : List Node
  children : List Node

namespace NodeBuilder

/-- A document without children. -/
def document : NodeBuilder := ⟨none, [], []⟩

/-- An element without attributes and children. -/
def element (name : String) : NodeBuilder := ⟨some name, [], []⟩

/-- The kind of the node that is built. -/
def kind (b : NodeBuilder) : NodeKind :=
  match b.name with
  | some _ => .element
  | none => .document

/-- Adds an attribute. -/
def withAttribute (b : NodeBuilder) (n : Node) : NodeBuilder :=
  { b with attributeNodes := b.attributeNodes ++ [n] }

/-- Adds a child. -/
def withChild (b : NodeBuilder) (n : Node) : NodeBuilder := { b with children := b.children ++ [n] }

/-- Makes the node. -/
def build (b : NodeBuilder) (f : Forest) : Node × Forest :=
  f.build b.kind (b.name.map (⟨none, none, ·⟩)) none b.attributeNodes b.children

end NodeBuilder

namespace Forest

/-- An attribute, new to the forest. -/
def buildAttribute (f : Forest) (name value : String) : Node × Forest :=
  f.build .attributeNode (some ⟨none, none, name⟩) (some value) [] []

/-- A text node, new to the forest. -/
def buildText (f : Forest) (value : String) : Node × Forest := f.build .text none (some value) [] []

/-- A comment, new to the forest. -/
def buildComment (f : Forest) (value : String) : Node × Forest := f.build .comment none (some value) [] []

end Forest

end QueryKernel
