import QueryKernel.ItemType
import QueryKernel.Name

/-!
# Nodes

Nodes of documents.  A node holds everything below it; what is above a node is known to the forest in
which it was built (`QueryKernel.Node.Forest`).  Nodes are equal when their identities are.

## Functions

* `Node.stringValue` is the text of a node: its own, or that of the text nodes below it.
* `Node.text` is the printed form.
-/

namespace QueryKernel

/-- Kinds of nodes. -/
inductive NodeKind where
  | document | element | attributeNode | text | comment | processingInstruction | namespaceNode
  deriving DecidableEq

/-- All kinds. -/
def NodeKind.all : List NodeKind :=
  [document, element, attributeNode, text, comment, processingInstruction, namespaceNode]

/-- The item type of the nodes of a kind. -/
def NodeKind.type : NodeKind → NodeType
  | document => .document
  | element => .element
  | attributeNode => .attributeNode
  | text => .text
  | comment => .comment
  | processingInstruction => .processingInstruction
  | namespaceNode => .namespaceNode

/-- What tells nodes apart: the order in which they were built, or a place in a data source. -/
inductive NodeIdentity where
  | built (serial : Nat)
  | stored (source position : Nat)
  deriving DecidableEq

mutual

/-- A node with its attributes and children.  The value is absent from nodes whose text is that of
the text nodes below them. -/
inductive Node where
  | mk (identity : NodeIdentity) (kind : NodeKind) (name : Option QualifiedName)
      (value : Option String) (attributeNodes children : List Node) (source : Option DataSource)

/-- A named collection of documents.  Sources are told apart by their serial numbers. -/
inductive DataSource where
  | mk (serial : Nat) (name : String) (documents : List Node)

end

namespace DataSource

/-- The serial number. -/
def serial : DataSource → Nat
  | .mk serial _ _ => serial

/-- The name. -/
def name : DataSource → String
  | .mk _ name _ => name

/-- The documents, in order. -/
def documents : DataSource → List Node
  | .mk _ _ documents => documents

end DataSource

namespace Node

/-- What tells the node apart from others. -/
def identity : Node → NodeIdentity
  | .mk identity .. => identity

/-- The kind of the node. -/
def kind : Node → NodeKind
  | .mk _ kind .. => kind

/-- The name, if the node has one. -/
def name : Node → Option QualifiedName
  | .mk _ _ name .. => name

/-- The node's own text. -/
def value : Node → Option String
  | .mk _ _ _ value .. => value

/-- The attributes. -/
def attributeNodes : Node → List Node
  | .mk _ _ _ _ attributeNodes _ _ => attributeNodes

/-- The children. -/
def children : Node → List Node
  | .mk _ _ _ _ _ children _ => children

/-- The data source the node belongs to. -/
def source : Node → Option DataSource
  | .mk _ _ _ _ _ _ source => source

/-- The item type of the node. -/
def type (n : Node) : NodeType := n.kind.type

instance : BEq Node := ⟨fun a b => a.identity == b.identity⟩

/-- An element that stands for the nodes of a data source. -/
def sourcePlaceholder (source : DataSource) : Node :=
  .mk (.stored source.serial 0) .element none (some "") [] [] (some source)

mutual

/-- The values of the text nodes at and below a node, in document order. -/
def textBelow : Node → String
  | .mk _ kind _ value _ children _ =>
      (if kind = .text then value.getD "" else "") ++ textBelowAll children

/-- The values of the text nodes at and below some nodes. -/
def textBelowAll : List Node → String
  | [] => ""
  | n :: rest => textBelow n ++ textBelowAll rest

end

/-- The text of a node: its own value, or the text below it. -/
def stringValue (n : Node) : String :=
  match n.value with
  | some value => value
  | none => textBelowAll n.children

/-- The name with its qualifier. -/
def printedName (name : QualifiedName) : String :=
  match name.qualifier with
  | some q => q ++ ":" ++ name.localPart
  | none => name.localPart

/-- The printed form of a node. -/
def text (n : Node) : String :=
  match n.kind, n.name with
  | .element, some name => "<" ++ printedName name ++ "/>"
  | .attributeNode, some name => printedName name ++ "=\"" ++ n.stringValue ++ "\""
  | .text, _ => "text \x7b \"" ++ n.stringValue ++ "\" \x7d"
  | .comment, _ => "<!--" ++ n.stringValue ++ "-->"
  | kind, _ => kind.type.testText

end Node

end QueryKernel
