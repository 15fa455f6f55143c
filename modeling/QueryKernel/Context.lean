import QueryKernel.Expr
import QueryKernel.Node.Forest

/-!
# Query contexts

The state of one execution: focus, variables, recorded updates, options, and what is needed to stop.

## Functions

* `Focus.ofValue` is the focus on a value.
* `Context.newVariable`, `bind` and `lookup?` deal with variables; `newItem` and `newNode` make what has
  an identity.
* `Context.stopCause?` is the reason to stop, if there is one.
-/

namespace QueryKernel

/-- Limits of compilation and evaluation. -/
structure Options where
  /-- The largest result computed before evaluation. -/
  largestPrecomputed : Nat := 262144
  /-- The longest sequence over which a loop is unrolled. -/
  unrollLimit : Nat := 5
  /-- How many characters of an expression a trace line shows. -/
  shownCharacters : Nat := 128
  /-- Whether evaluation runs out of time as soon as the clock is started. -/
  outOfTime : Bool := false

/-- The context value with position and size. -/
structure Focus where
  value : Option Value
  position : Nat
  size : Nat

namespace Focus

/-- No context value. -/
def undefined : Focus := ⟨none, 0, 0⟩

/-- The focus on the first item of a value. -/
def ofValue (value : Option Value) : Focus :=
  let size := (value.map (·.size)).getD 0
  ⟨value, if 0 < size then 1 else 0, size⟩

end Focus

/-- Values of variables, by number. -/
abbrev Bindings := List (Nat × Value)

/-- The bindings with a variable set to a value. -/
def Bindings.set (bindings : Bindings) (id : Nat) (value : Value) : Bindings :=
  match bindings with
  | [] => [(id, value)]
  | (other, bound) :: rest =>
      if other = id then (id, value) :: rest else (other, bound) :: Bindings.set rest id value

/-- An update recorded for later. -/
inductive PendingUpdate where
  | delete (node : Node)

/-- The state of an execution. -/
structure Context where
  focus : Focus
  bindings : Bindings
  /-- The number of the next variable. -/
  nextVariable : Nat
  /-- The identity of the next function, map or array. -/
  nextIdentity : Nat
  /-- Updates recorded so far, in order. -/
  updates : Array PendingUpdate
  options : Options
  /-- Whether someone asked the query to stop. -/
  cancelled : Bool
  /-- Whether the clock has been started. -/
  clockStarted : Bool
  /-- Lines about what compilation changed, in order. -/
  trace : Array String
  forest : Forest

namespace Context

/-- A context without focus and variables. -/
def initial (options : Options) : Context :=
  ⟨.undefined, [], 0, 0, #[], options, false, false, #[], .empty⟩

/-- A new variable. -/
def newVariable (c : Context) (name : String) (declared : Option SequenceType) : Variable × Context :=
  (⟨c.nextVariable, name, declared⟩, { c with nextVariable := c.nextVariable + 1 })

/-- A new function, map or array, made from its identity. -/
def newItem (c : Context) (item : Nat → Item) : Item × Context :=
  (item c.nextIdentity, { c with nextIdentity := c.nextIdentity + 1 })

/-- A new node of the forest. -/
def newNode (c : Context) (build : Forest → Node × Forest) : Node × Context :=
  let (node, forest) := build c.forest
  (node, { c with forest })

/-- Sets a variable. -/
def bind (c : Context) (var : Variable) (value : Value) : Context :=
  { c with bindings := c.bindings.set var.id value }

/-- The value of a variable. -/
def lookup? (c : Context) (var : Variable) : Option Value := c.bindings.lookup var.id

/-- The reason to stop, if there is one.  A request to stop comes before the clock. -/
def stopCause? (c : Context) : Option (Cause Expr) :=
  if c.cancelled then some (.stopped "Query was cancelled.")
  else if c.clockStarted ∧ c.options.outOfTime then some (.stopped "Query timed out.")
  else none

/-- Starts the clock. -/
def startClock (c : Context) : Context := { c with clockStarted := true }

end Context

end QueryKernel
