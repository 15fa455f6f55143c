import QueryKernel.Compile
import QueryKernel.Eval.Run

/-!
# Stand-ins for items

While a predicate is compiled, an item stands for the items that it will be tested on.

## Functions

* `Compile.placeholder?` finds an item of a type.
* `Compile.contextValue?` is the value that the focus would have for an expression, and
  `contextItem?` an item that stands for all its items.
-/

namespace QueryKernel

/-- The atom that stands for all atoms of a type. -/
def AtomicType.placeholder? : AtomicType → Option Atom
  | .string => some (.string "")
  | .integer => some (.integer 0)
  | .double => some (.double (.ofInt .double 0))
  | .float => some (.float (.ofInt .single 0))
  | .decimal => some (.decimal ⟨0, 0⟩)
  | .boolean => some (.boolean false)
  | _ => none

namespace Compile

/-- An item around a new node. -/
def newNode (build : Forest → Node × Forest) : Compile (Option Item) := fun c =>
  let (node, context) := c.context.newNode build
  (.ok (some (.node node)), { c with context })

/-- An item with a new identity. -/
def newItem (item : Nat → Item) : Compile (Option Item) := fun c =>
  let (item, context) := c.context.newItem item
  (.ok (some item), { c with context })

/-- An item that stands for items of a type: the first of some known items if it has just this type,
else an element of a data source, else an empty or zero item. -/
def placeholder? (type : ItemType) (known : Option Value) (source : Option DataSource) :
    Compile (Option Item) :=
  match (known.bind (·.first?)).filter (fun item => item.type = type), source with
  | some item, _ => pure (some item)
  | none, some source => pure (some (.node (.sourcePlaceholder source)))
  | none, none =>
      match type with
      | .atomic atomic => pure (atomic.placeholder?.map .atom)
      | .node .document | .node .documentElement => newNode Forest.buildPlaceholderDocument
      | .node _ => newNode Forest.buildPlaceholderElement
      | .function .map => newItem fun identity => .map identity [] (.function .map)
      | .function .array => newItem fun identity => .array identity [] (.function .array)
      | _ => pure none

/-- The value that the context would have for an expression; without one, that of the focus. -/
def contextValue? (base : Option Expr) : Compile (Option Value) := do
  let c ← state
  let focus := c.context.focus.value
  match base with
  | none | some (.contextValue ..) => pure focus
  | some (.root _) =>
      pure (focus.map fun v =>
        match distinctRoots c.context.forest v with
        | .ok roots => .ofItems (roots.map .node)
        | .error _ => v)
  | some (.literal v) => pure (some v)
  | some e => return (← placeholder? e.sequenceType.type none e.source?).map .one

/-- One item that stands for the items of that value. -/
def contextItem? (base : Option Expr) : Compile (Option Item) := do
  match ← contextValue? base with
  | none | some .empty => pure none
  | some (.one item) => pure (some item)
  | some v => placeholder? v.type (some v) (base.bind (·.source?))

end Compile

end QueryKernel
