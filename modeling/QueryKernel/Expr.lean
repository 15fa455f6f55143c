import QueryKernel.Atom.Arithmetic
import QueryKernel.BuiltIn
import QueryKernel.Error

/-!
# Expressions

The expression trees of the query language.  A node carries its static type where that can be
narrowed, and the place where it was written.  Function items have expressions for bodies, so values
and expressions contain each other; `Item`, `Value` and `Error` are the data of the language proper.

## Functions

* `Expr.location` is the place of an expression.
* `Expr.literal?` and `Expr.operands?` recognise literals and sequence constructors.
-/

namespace QueryKernel

/-- Value comparisons. -/
inductive Comparison where
  | eq | ne | lt | le | gt | ge
  deriving DecidableEq

namespace Comparison

/-- All comparisons. -/
def all : List Comparison := [eq, ne, lt, le, gt, ge]

/-- The comparison as written. -/
def symbol : Comparison → String
  | eq => "eq"
  | ne => "ne"
  | lt => "lt"
  | le => "le"
  | gt => "gt"
  | ge => "ge"

/-- Whether operands in the given order satisfy the comparison.  Unordered ones are only unequal. -/
def holds : Comparison → Option Ordering → Bool
  | ne, none => true
  | _, none => false
  | eq, some o => o.isEq
  | ne, some o => o.isNe
  | lt, some o => o.isLT
  | le, some o => o.isLE
  | gt, some o => o.isGT
  | ge, some o => o.isGE

end Comparison

/-- An expression. -/
inductive Expr where
  /-- A value. -/
  | literal (v : ValueOf Expr)
  /-- `(a, b, …)` -/
  | list (operands : List Expr) (type : StaticType) (location : Option Location)
  /-- `a to b` -/
  | range (first last : Expr) (type : StaticType) (location : Option Location)
  | arithmetic (op : Operator) (a b : Expr) (type : StaticType) (location : Option Location)
  | comparison (op : Comparison) (a b : Expr) (type : StaticType) (location : Option Location)
  /-- `if (test) then yes else no` -/
  | conditional (test yes no : Expr) (type : StaticType) (location : Option Location)
  /-- `.` -/
  | contextValue (type : StaticType) (location : Option Location)
  /-- `/` -/
  | root (location : Option Location)
  /-- The documents of a data source. -/
  | documents (source : DataSource) (location : Option Location)
  /-- `base[predicate]…` -/
  | filter (base : Expr) (predicates : List Expr) (type : StaticType) (location : Option Location)
  /-- `let $var := bound return body` -/
  | letIn (var : Variable) (bound body : Expr) (location : Option Location)
  /-- `for $var in source return body` -/
  | forIn (var : Variable) (source body : Expr) (type : StaticType) (location : Option Location)
  /-- `$var` -/
  | varRef (var : Variable) (type : StaticType) (location : Option Location)
  /-- Call of a built-in function. -/
  | call (f : BuiltIn) (arguments : List Expr) (type : StaticType) (location : Option Location)
  /-- An error known before evaluation, raised whenever the expression is evaluated. -/
  | deferred (error : ErrorOf Expr) (type : StaticType) (location : Option Location)
  /-- Call of a function item. -/
  | dynamicCall (callee : Expr) (arguments : List Expr) (type : StaticType) (location : Option Location)
  /-- `delete nodes target` -/
  | delete (target : Expr) (location : Option Location)

/-- An item of the language. -/
abbrev Item := ItemOf Expr

/-- A value of the language. -/
abbrev Value := ValueOf Expr

/-- An error of the language. -/
abbrev Error := ErrorOf Expr

namespace Expr

/-- The empty sequence. -/
def emptySequence : Expr := literal .empty

/-- The place where an expression was written. -/
def location : Expr → Option Location
  | literal _ => none
  | list _ _ l | range _ _ _ l | arithmetic _ _ _ _ l | comparison _ _ _ _ l | conditional _ _ _ _ l
  | contextValue _ l | root l | documents _ l | filter _ _ _ l | letIn _ _ _ l | forIn _ _ _ _ l
  | varRef _ _ l | call _ _ _ l | deferred _ _ l | dynamicCall _ _ _ l | delete _ l => l

/-- The value of a literal. -/
def literal? : Expr → Option Value
  | literal v => some v
  | _ => none

/-- Whether this is a literal. -/
def isLiteral : Expr → Bool
  | literal _ => true
  | _ => false

/-- Whether this is the empty sequence. -/
def isEmptyLiteral : Expr → Bool
  | literal v => v.isEmpty
  | _ => false

/-- The operands of a sequence constructor. -/
def operands? : Expr → Option (List Expr)
  | list operands _ _ => some operands
  | _ => none

/-- What an expression is called in traces and messages. -/
def description : Expr → String
  | literal .empty => "empty sequence"
  | literal (.one item) => item.type.text ++ " item"
  | literal v => v.sequenceType.text ++ " sequence"
  | list .. => "list"
  | range .. => "range"
  | arithmetic op .. => "'" ++ op.symbol ++ "' operator"
  | comparison op .. => "'" ++ op.symbol ++ "' comparison"
  | conditional .. => "conditional"
  | contextValue .. => "context value"
  | root .. => "root"
  | documents .. => "data source"
  | filter .. => "filter"
  | letIn .. => "let clause"
  | forIn .. => "for clause"
  | varRef .. => "variable"
  | call f .. => f.localName ++ "()"
  | deferred .. => BuiltIn.error.localName ++ "()"
  | dynamicCall .. => "dynamic function call"
  | delete .. => "delete"

/-- The data source that the results stem from. -/
def source? : Expr → Option DataSource
  | literal (.one (.node n)) => n.source
  | documents source _ => some source
  | filter base _ _ _ => base.source?
  | _ => none

end Expr

end QueryKernel
