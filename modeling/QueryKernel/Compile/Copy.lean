import QueryKernel.Compile

/-!
# Copies of expressions

A copy binds new variables in place of those that are bound in the expression.  Which variable stands
for which is recorded, and variables bound elsewhere may be replaced as well.

## Functions

* `Renaming` maps the numbers of variables to the variables that replace them.
* `Expr.copy` copies an expression; `Compile.copy` does so in a compilation.
-/

namespace QueryKernel

/-- Variables by the number of the variable that they replace. -/
abbrev Renaming := List (Nat × Variable)

namespace Renaming

/-- The renaming with a variable replaced. -/
def set (r : Renaming) (id : Nat) (var : Variable) : Renaming :=
  (id, var) :: r.filter fun entry => entry.1 ≠ id

/-- The variable that replaces a variable: another or itself. -/
def apply (r : Renaming) (var : Variable) : Variable := (r.lookup var.id).getD var

end Renaming

/-- The state of copying: the number of the next variable, the replaced variables, and all new
variables, latest first. -/
structure Copying where
  nextVariable : Nat
  renames : Renaming
  declared : List Variable

/-- A new variable in place of another, with its name and declared type. -/
def Copying.replace (s : Copying) (var : Variable) : Variable × Copying :=
  let fresh : Variable := { var with id := s.nextVariable }
  (fresh, ⟨s.nextVariable + 1, s.renames.set var.id fresh, fresh :: s.declared⟩)

namespace Expr

mutual

/-- A copy of an expression. -/
def copy : Expr → Copying → Expr × Copying
  | literal v, s => (literal v, s)
  | list operands type location, s =>
      let (operands, s) := copyAll operands s
      (list operands type location, s)
  | range first last type location, s =>
      let (first, s) := copy first s
      let (last, s) := copy last s
      (range first last type location, s)
  | arithmetic op a b type location, s =>
      let (a, s) := copy a s
      let (b, s) := copy b s
      (arithmetic op a b type location, s)
  | comparison op a b type location, s =>
      let (a, s) := copy a s
      let (b, s) := copy b s
      (comparison op a b type location, s)
  | conditional test yes no type location, s =>
      let (test, s) := copy test s
      let (yes, s) := copy yes s
      let (no, s) := copy no s
      (conditional test yes no type location, s)
  | contextValue type location, s => (contextValue type location, s)
  | root location, s => (root location, s)
  | documents source location, s => (documents source location, s)
  | filter base predicates type location, s =>
      let (base, s) := copy base s
      let (predicates, s) := copyAll predicates s
      (filter base predicates type location, s)
  | letIn var bound body location, s =>
      let (bound, s) := copy bound s
      let (var, s) := s.replace var
      let (body, s) := copy body s
      (letIn var bound body location, s)
  | forIn var source body type location, s =>
      let (source, s) := copy source s
      let (var, s) := s.replace var
      let (body, s) := copy body s
      (forIn var source body type location, s)
  | varRef var type location, s => (varRef (s.renames.apply var) type location, s)
  | call f arguments type location, s =>
      let (arguments, s) := copyAll arguments s
      (call f arguments type location, s)
  | deferred error type location, s => (deferred error type location, s)
  | dynamicCall callee arguments type location, s =>
      let (callee, s) := copy callee s
      let (arguments, s) := copyAll arguments s
      (dynamicCall callee arguments type location, s)
  | delete target location, s =>
      let (target, s) := copy target s
      (delete target location, s)

/-- Copies of some expressions, in order. -/
def copyAll : List Expr → Copying → List Expr × Copying
  | [], s => ([], s)
  | e :: rest, s =>
      let (e, s) := copy e s
      let (rest, s) := copyAll rest s
      (e :: rest, s)

end

end Expr

namespace Compile

/-- Copies something with a renaming.  The new variables are declared in the innermost scope. -/
def copying {α : Type} (renames : Renaming) (copy : Copying → α × Copying) :
    Compile (α × Renaming) := fun c =>
  let (copied, s) := copy ⟨c.context.nextVariable, renames, []⟩
  let declared := s.declared.map fun var => (⟨var, none, none⟩ : ScopeEntry)
  (.ok (copied, s.renames), { c with
    context := { c.context with nextVariable := s.nextVariable }
    innermost := declared ++ c.innermost })

/-- A new variable in place of another. -/
def copyVariable (var : Variable) (renames : Renaming) : Compile (Variable × Renaming) :=
  copying renames (·.replace var)

/-- A copy of an expression. -/
def copy (e : Expr) (renames : Renaming) : Compile (Expr × Renaming) := copying renames e.copy

end Compile

end QueryKernel
