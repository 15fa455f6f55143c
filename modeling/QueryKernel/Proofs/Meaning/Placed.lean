import QueryKernel.Proofs.Meaning.Allowed
import QueryKernel.Proofs.Meaning.Outcome
import QueryKernel.Proofs.Value.Shaped

/-!
# Expressions in their place

What an expression may refer to.  The expressions of interest are made of
plain literals and of nodes that call no function items.
-/

namespace QueryKernel

/-- What an expression can refer to: a variable by its number, the focus, or the trees around nodes. -/
inductive Reference where
  | variable (id : Nat)
  | focus
  | forest

/-- What may be referred to. -/
abbrev Visible := Reference → Prop

namespace Visible

/-- Nothing is visible. -/
def nothing : Visible := fun _ => False

/-- A variable in addition. -/
def add (visible : Visible) (id : Nat) : Visible :=
  fun reference => reference = .variable id ∨ visible reference

/-- The focus in addition. -/
def focused (visible : Visible) : Visible := fun reference => reference = .focus ∨ visible reference

end Visible

/-- A value in shape of atoms and nodes. -/
structure ValueOf.Simple (v : Value) : Prop where
  shaped : v.Shaped
  plain : ∀ item ∈ v.items, item.IsPlain

namespace Expr

/-- The expression refers only to what is visible.  If it is compiled, no operand of it updates, and
errors may be left for evaluation. -/
inductive Placed (compiled : Bool) : Visible → Expr → Prop where
  | literal {visible : Visible} {v : Value} (simple : v.Simple) : Placed compiled visible (.literal v)
  | list {visible : Visible} {operands : List Expr} {type : StaticType} {location : Option Location}
      (parts : ∀ e ∈ operands, Placed compiled visible e) :
      Placed compiled visible (.list operands type location)
  | range {visible : Visible} {first last : Expr} {type : StaticType} {location : Option Location}
      (low : Placed compiled visible first) (high : Placed compiled visible last)
      (quiet : compiled = true → first.hasUpdates = false ∧ last.hasUpdates = false) :
      Placed compiled visible (.range first last type location)
  | arithmetic {visible : Visible} {op : Operator} {a b : Expr} {type : StaticType}
      {location : Option Location} (left : Placed compiled visible a) (right : Placed compiled visible b)
      (quiet : compiled = true → a.hasUpdates = false ∧ b.hasUpdates = false) :
      Placed compiled visible (.arithmetic op a b type location)
  | comparison {visible : Visible} {op : Comparison} {a b : Expr} {type : StaticType}
      {location : Option Location} (left : Placed compiled visible a) (right : Placed compiled visible b)
      (quiet : compiled = true → a.hasUpdates = false ∧ b.hasUpdates = false) :
      Placed compiled visible (.comparison op a b type location)
  | conditional {visible : Visible} {test yes no : Expr} {type : StaticType}
      {location : Option Location} (condition : Placed compiled visible test)
      (positive : Placed compiled visible yes) (negative : Placed compiled visible no)
      (quiet : compiled = true → test.hasUpdates = false) :
      Placed compiled visible (.conditional test yes no type location)
  | contextValue {visible : Visible} {type : StaticType} {location : Option Location}
      (seen : visible .focus) : Placed compiled visible (.contextValue type location)
  | root {visible : Visible} {location : Option Location} (seen : visible .focus)
      (around : visible .forest) : Placed compiled visible (.root location)
  | documents {visible : Visible} {source : DataSource} {location : Option Location} :
      Placed compiled visible (.documents source location)
  | filter {visible : Visible} {base : Expr} {predicates : List Expr} {type : StaticType}
      {location : Option Location} (input : Placed compiled visible base)
      (conditions : ∀ e ∈ predicates, Placed compiled visible.focused e)
      (quiet : compiled = true → base.hasUpdates = false ∧ ∀ e ∈ predicates, e.hasUpdates = false) :
      Placed compiled visible (.filter base predicates type location)
  | letIn {visible : Visible} {var : Variable} {bound body : Expr} {location : Option Location}
      (meets : var.MeetsAny) (value : Placed compiled visible bound)
      (result : Placed compiled (visible.add var.id) body)
      (quiet : compiled = true → bound.hasUpdates = false) :
      Placed compiled visible (.letIn var bound body location)
  | forIn {visible : Visible} {var : Variable} {source body : Expr} {type : StaticType}
      {location : Option Location} (meets : var.MeetsAny)
      (input : Placed compiled visible source) (result : Placed compiled (visible.add var.id) body)
      (quiet : compiled = true → source.hasUpdates = false) :
      Placed compiled visible (.forIn var source body type location)
  | varRef {visible : Visible} {var : Variable} {type : StaticType} {location : Option Location}
      (seen : visible (.variable var.id)) : Placed compiled visible (.varRef var type location)
  | call {visible : Visible} {f : BuiltIn} {arguments : List Expr} {type : StaticType}
      {location : Option Location} (firstOrder : f.isHigherOrder = false)
      (takes : f.takes arguments.length = true) (parts : ∀ e ∈ arguments, Placed compiled visible e)
      (quiet : compiled = true → ∀ e ∈ arguments, e.hasUpdates = false) :
      Placed compiled visible (.call f arguments type location)
  | deferred {visible : Visible} {error : Error} {type : StaticType} {location : Option Location}
      (later : compiled = true) : Placed compiled visible (.deferred error type location)
  | delete {visible : Visible} {target : Expr} {location : Option Location}
      (input : Placed compiled visible target) (quiet : compiled = true → target.hasUpdates = false) :
      Placed compiled visible (.delete target location)

end Expr

end QueryKernel
