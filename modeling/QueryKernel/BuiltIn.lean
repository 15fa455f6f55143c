import QueryKernel.Name

/-!
# Built-in functions

The functions that a query can call by name, with the numbers of arguments they take.
-/

namespace QueryKernel

/-- The built-in functions. -/
inductive BuiltIn where
  | head | count | sum | avg | reverse | error | foldLeft1 | sortWith
  deriving DecidableEq

namespace BuiltIn

/-- All functions. -/
def all : List BuiltIn := [head, count, sum, avg, reverse, error, foldLeft1, sortWith]

/-- The local name. -/
def localName : BuiltIn → String
  | head => "head"
  | count => "count"
  | sum => "sum"
  | avg => "avg"
  | reverse => "reverse"
  | error => "error"
  | foldLeft1 => "fold-left1"
  | sortWith => "sort-with"

/-- Whether the function belongs to the additional higher-order functions. -/
def isHigherOrder : BuiltIn → Bool
  | foldLeft1 | sortWith => true
  | _ => false

/-- The name with its namespace. -/
def expandedName (f : BuiltIn) : ExpandedName :=
  ⟨some (if f.isHigherOrder then higherOrderNamespace else functionNamespace), f.localName⟩

/-- The fewest arguments. -/
def leastArguments : BuiltIn → Nat
  | error => 0
  | foldLeft1 | sortWith => 2
  | _ => 1

/-- The most arguments. -/
def mostArguments : BuiltIn → Nat
  | sum | foldLeft1 | sortWith => 2
  | error => 3
  | _ => 1

/-- Whether the function takes a number of arguments. -/
def takes (f : BuiltIn) (arguments : Nat) : Bool :=
  decide (f.leastArguments ≤ arguments) && decide (arguments ≤ f.mostArguments)

/-- The function of a name that takes a number of arguments. -/
def lookup? (name : ExpandedName) (arguments : Nat) : Option BuiltIn :=
  all.find? fun f => decide (f.expandedName = name) && f.takes arguments

end BuiltIn

end QueryKernel
