import QueryKernel.Atom.Reading
import QueryKernel.Eval.Modes

/-!
# Coercions

Results of expressions as plain data.  Each function asks for one item or atom, refuses the empty
sequence, reads untyped atoms, and refuses what has another type.
-/

namespace QueryKernel

namespace Modes

/-- The thing that was found, or an error about the empty sequence. -/
def present {α : Type} (m : Modes) (expected : Option ItemType) : Option α → Eval α
  | some a => pure a
  | none => Eval.raise (.emptyInput expected) m.location

/-- An item of the wrong type. -/
def refuse {α : Type} (m : Modes) (item : Item) (expected : ItemType) : Eval α :=
  Eval.raise (.wrongType item expected) m.location

/-- An atom of the wrong type. -/
def refuseAtom {α : Type} (m : Modes) (a : Atom) (expected : ItemType) : Eval α :=
  m.refuse (.atom a) expected

/-- An atom with a text that does not fit. -/
def misread {α : Type} (m : Modes) (text : String) (target : ItemType) (chained : Bool) :
    Eval α :=
  Eval.raise (.wrongForm (.atom (.untyped text)) target chained) m.location

/-- Exactly one item. -/
def toItem (m : Modes) : Eval Item := do m.present none (← m.item)

/-- Exactly one atom. -/
def toAtom (m : Modes) : Eval Atom := do m.present none (← m.atomItem)

/-- Exactly one item of a type. -/
def toItemOfType (m : Modes) (expected : ItemType) : Eval Item := do
  let item ← m.present (some expected) (← m.item)
  if item.type.isSubtype expected then pure item else m.refuse item expected

/-- Exactly one atom, when one of a type is expected. -/
def expectAtom (m : Modes) (expected : ItemType) : Eval Atom := do
  m.present (some expected) (← m.atomItem)

/-- The text of a string, a URI or an untyped atom. -/
def toText (m : Modes) : Eval String := do
  match ← m.expectAtom (.atomic .string) with
  | .string s | .untyped s | .anyUri s => pure s
  | a => m.refuseAtom a (.atomic .string)

/-- A boolean. -/
def toBoolean (m : Modes) : Eval Bool := do
  match ← m.expectAtom .boolean with
  | .boolean b => pure b
  | .untyped s =>
      match readBoolean? s with
      | some b => pure b
      | none => m.misread s .boolean false
  | a => m.refuseAtom a .boolean

/-- A number; an untyped atom becomes a double. -/
def toNumber (m : Modes) : Eval Atom := do
  match ← m.expectAtom (.atomic .numeric) with
  | .untyped s =>
      match readDouble? s with
      | some x => pure (.double x)
      | none => m.misread s .double false
  | a => if a.isNumeric then pure a else m.refuseAtom a (.atomic .numeric)

/-- A double. -/
def toDouble (m : Modes) : Eval BinaryFloat := do
  return (← m.toNumber).toFloat?.getD .nan

/-- A single-precision number. -/
def toSingle (m : Modes) : Eval BinaryFloat := do
  return (← m.toDouble).convert .single

/-- The integer of an atom. -/
def longOf (m : Modes) : Atom → Eval Int64
  | .integer i => pure i
  | .untyped s =>
      match readInteger? s with
      | some i => pure i
      | none => m.misread s .integer false
  | a => m.refuseAtom a .integer

/-- An integer. -/
def toLong (m : Modes) : Eval Int64 := do m.longOf (← m.expectAtom .integer)

/-- An integer, if there is an atom. -/
def toLong? (m : Modes) : Eval (Option Int64) := do
  match ← m.atomItem with
  | none => pure none
  | some a => return some (← m.longOf a)

/-- A node. -/
def toNode (m : Modes) : Eval Node := do
  match ← m.present (some .anyNode) (← m.item) with
  | .node n => pure n
  | item => m.refuse item .anyNode

/-- The octets of a binary atom, or of the text of a string. -/
def toOctets (m : Modes) : Eval (List UInt8) := do
  match ← m.expectAtom (.atomic .base64Binary) with
  | .base64Binary octets | .hexBinary octets => pure octets
  | .string s | .untyped s => pure s.toUTF8.toList
  | a => m.refuseAtom a (.atomic .base64Binary)

/-- The octets of a binary atom, or those that a string writes in base64. -/
def toBase64 (m : Modes) : Eval (List UInt8) := do
  match ← m.expectAtom (.atomic .base64Binary) with
  | .base64Binary octets | .hexBinary octets => pure octets
  | .string s | .untyped s =>
      match Base64.decode? (trimBlanks s.toList) with
      | some octets => pure octets
      | none => m.misread s (.atomic .base64Binary) true
  | a => m.refuseAtom a (.atomic .base64Binary)

/-- A name.  An untyped atom has no namespace to offer. -/
def toName (m : Modes) : Eval QualifiedName := do
  match ← m.expectAtom (.atomic .qName) with
  | .qName name => pure name
  | .untyped s => Eval.raise (.namespaceNeeded (.atom (.untyped s)) (.atomic .qName)) m.location
  | a => m.refuseAtom a (.atomic .qName)

/-- A function, a map or an array. -/
def toCallee (m : Modes) : Eval Item := do
  let item ← m.present (some .anyFunction) (← m.item)
  if item.isFunction then pure item else m.refuse item .anyFunction

/-- A function proper. -/
def toFunction (m : Modes) : Eval (FunctionItem Expr) := do
  match ← m.toCallee with
  | .function f => pure f
  | item => m.refuse item .anyFunction

/-- The entries and the type tag of a map. -/
def toMap (m : Modes) : Eval (List (Atom × Value) × ItemType) := do
  match ← m.present (some (.function .map)) (← m.item) with
  | .map _ entries type => pure (entries, type)
  | item => m.refuse item (.function .map)

/-- The members and the type tag of an array. -/
def toArray (m : Modes) : Eval (List Value × ItemType) := do
  match ← m.present (some (.function .array)) (← m.item) with
  | .array _ members type => pure (members, type)
  | item => m.refuse item (.function .array)

end Modes

/-- The value of the focus. -/
def contextValue (description : String) (location : Option Location) : Eval Value := do
  match (← Eval.context).focus.value with
  | some v => pure v
  | none => Eval.raise (.noContext description) location

end QueryKernel
