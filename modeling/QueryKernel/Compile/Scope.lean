import QueryKernel.Expr

/-!
# Scopes of variables

The variables declared by one construct while it is compiled, each with what is known of its binding:
the type, and the value if that is a literal.  A variable declared again hides the older declaration.

## Functions

* `Scope.add` declares a variable; `setType` and `setValue` record what is known of it.
* `Scope.get?` and `value?` look at the latest declaration of a variable.
-/

namespace QueryKernel

/-- A declared variable with what is known of its binding. -/
structure ScopeEntry where
  var : Variable
  sequenceType : Option SequenceType
  value : Option Value

/-- The variables declared by one construct, latest first. -/
abbrev Scope := List ScopeEntry

namespace Scope

/-- Declares a variable of which nothing is known. -/
def add (s : Scope) (var : Variable) : Scope := ⟨var, none, none⟩ :: s

/-- Changes the latest declaration of a variable. -/
def change (f : ScopeEntry → ScopeEntry) (id : Nat) : Scope → Scope
  | [] => []
  | entry :: rest => if entry.var.id = id then f entry :: rest else entry :: Scope.change f id rest

/-- Records the type of a binding. -/
def setType (s : Scope) (var : Variable) (type : SequenceType) : Scope :=
  s.change (fun entry => { entry with sequenceType := some type }) var.id

/-- Records the value of a binding, and its type. -/
def setValue (s : Scope) (var : Variable) (value : Value) : Scope :=
  s.change (fun entry => { entry with sequenceType := some value.sequenceType, value := some value })
    var.id

/-- The latest declaration of a variable. -/
def get? (s : Scope) (id : Nat) : Option ScopeEntry := s.find? fun entry => entry.var.id = id

/-- The value recorded with the latest declaration of a variable. -/
def value? (s : Scope) (id : Nat) : Option Value := (s.get? id).bind (·.value)

end Scope

end QueryKernel
