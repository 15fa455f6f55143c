import QueryKernel.Expr

/-!
# The text of expressions

The printed form of an expression, as shown in traces.
-/

namespace QueryKernel

namespace Expr

mutual

/-- The printed form of an expression. -/
def text : Expr → String
  | literal v => v.text
  | list operands _ _ => "(" ++ commaSeparated (texts operands) ++ ")"
  | range first last _ _ => "(" ++ first.text ++ " to " ++ last.text ++ ")"
  | arithmetic op a b _ _ => "(" ++ a.text ++ " " ++ op.symbol ++ " " ++ b.text ++ ")"
  | comparison op a b _ _ => "(" ++ a.text ++ " " ++ op.symbol ++ " " ++ b.text ++ ")"
  | conditional test yes no _ _ =>
      "if (" ++ test.text ++ ") then " ++ yes.text ++ " else " ++ no.text
  | contextValue .. => "."
  | root .. => "/"
  | documents source _ => "db:get(\"" ++ source.name ++ "\")"
  | filter base predicates _ _ =>
      base.text ++ String.join ((texts predicates).map fun p => "[" ++ p ++ "]")
  | letIn var bound body _ => "let $" ++ var.name ++ " := " ++ bound.text ++ " return " ++ body.text
  | forIn var source body _ _ =>
      "for $" ++ var.name ++ " in " ++ source.text ++ " return " ++ body.text
  | varRef var _ _ => "$" ++ var.name
  | call f arguments _ _ =>
      (if f.isHigherOrder then "hof:" else "") ++ f.localName ++ "(" ++
        commaSeparated (texts arguments) ++ ")"
  | deferred error _ _ => "error(" ++ error.codeText ++ ", \"" ++ error.message ++ "\")"
  | dynamicCall callee arguments _ _ => callee.text ++ "(" ++ commaSeparated (texts arguments) ++ ")"
  | delete target _ => "delete nodes " ++ target.text

/-- The printed forms of some expressions. -/
def texts : List Expr → List String
  | [] => []
  | e :: rest => e.text :: texts rest

end

end Expr

end QueryKernel
