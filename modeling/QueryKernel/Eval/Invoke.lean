import QueryKernel.Eval.Modes
import QueryKernel.Value.Entries

/-!
# Calling items

Functions, maps and arrays are called with values.  How the body of a function is evaluated is left
to the caller: `Calls` says what a function gives for arguments in the right number.
-/

namespace QueryKernel

/-- What function items give for their arguments. -/
abbrev Calls := FunctionItem Expr → List Value → Eval Value

/-- The only atom among the arguments of a map or an array. -/
def singleKey (callee : Item) (arguments : List Value) : Eval Atom :=
  match arguments with
  | [argument] => do
      match ← Eval.ofExcept none argument.atoms with
      | [key] => pure key
      | [] => Eval.raise (.emptyInput none) none
      | _ => Eval.raise (.keyNotSingle callee) none
  | _ => Eval.raise (.keyCount callee arguments.length) none

/-- Calls a function with its arguments, a map with a key, or an array with a position. -/
def invoke (calls : Calls) (callee : Item) (arguments : List Value) : Eval Value :=
  match callee with
  | .function f =>
      if arguments.length = f.parameters.length then calls f arguments
      else Eval.raise (.wrongArity callee f.parameters.length arguments.length) none
  | .map _ entries _ => do
      let key ← singleKey callee arguments
      pure ((Entries.get? entries key).getD .empty)
  | .array _ members _ => do
      match ← singleKey callee arguments with
      | .integer i => Eval.ofExcept none (arrayMember members i)
      | other => Eval.raise (.wrongType (.atom other) .integer) none
  | _ => Eval.raise (.wrongType callee .anyFunction) none

end QueryKernel
