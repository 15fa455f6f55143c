import QueryKernel.Compile
import QueryKernel.Eval.Run
import QueryKernel.Expr.Text

/-!
# Replacing expressions

Compilation replaces an expression by another one with the same results.  A replacement leaves a line in
the trace if it can be seen, and takes over what was known about the type of what it replaces.

## Functions

* `Compile.note` adds a line to the trace.
* `Compile.replace` and `replaceWith` put a replacement in place of an expression, `emptyFor` the
  empty sequence; `replaceCondition` does not narrow the type.
* `Compile.precompute` replaces an expression by its value, and by an error for later if it has none.
-/

namespace QueryKernel

/-- What stays known of an expression after it has been taken apart. -/
structure ExprSummary where
  text : String
  description : String
  sequenceType : SequenceType

/-- Text, description and type of an expression. -/
def Expr.summary (e : Expr) : ExprSummary := ⟨e.text, e.description, e.sequenceType⟩

/-- The narrower type that an expression with the second type has if it also has the first. -/
def narrowed? (known found : SequenceType) : Option SequenceType :=
  if known = found ∨ !known.isSubtype found then none
  else match known.intersect? found with
    | some narrower => if narrower = found then none else some narrower
    | none => none

/-- A value with the type that is known of it.  The size of a sequence is exact, so that only the type
of its items can be narrowed. -/
def ValueOf.narrow {F : Type} (known : SequenceType) (v : ValueOf F) : ValueOf F :=
  match v with
  | .one item =>
      if item.isFunction then
        match narrowed? known v.sequenceType with
        | some narrower => .one (item.refine narrower.type)
        | none => v
      else v
  | .flat .. | .tree .. =>
      if known.type ≠ v.type ∧ known.type.isSubtype v.type then
        match known.type.intersect? v.type with
        | some type => v.refine type
        | none => v
      else v
  | _ => v

/-- An expression with the type that is known of it. -/
def Expr.narrow (known : SequenceType) : Expr → Expr
  | .literal v => .literal (v.narrow known)
  | e =>
      match narrowed? known e.sequenceType with
      | some narrower => e.assignType narrower
      | none => e

/-- The characters of a message with its percent signs filled in. -/
def fillIn : List Char → List String → List Char
  | [], _ => []
  | '%' :: rest, text :: texts => text.toList ++ fillIn rest texts
  | c :: rest, texts => c :: fillIn rest texts

namespace Compile

/-- Adds a message to the trace.  Its percent signs are filled in with texts of limited length. -/
def note (message : String) (texts : List String) : Compile Unit := change fun c =>
  let shown := texts.map (chopText c.context.options.shownCharacters)
  { c with context := { c.context with
      trace := c.context.trace.push (String.ofList (fillIn message.toList shown)) } }

/-- Notes a replacement, unless both expressions look the same. -/
def noteReplacement (verb : String) (before : ExprSummary) (after : Expr) : Compile Unit := do
  let most := (← options).shownCharacters
  if chopText most before.text = chopText most after.text then pure ()
  else note (verb ++ " %: % -> %") [before.description, before.text, after.text]

/-- Puts a replacement in place of an expression and narrows its type. -/
def replace (before : ExprSummary) (after : Expr) : Compile Expr := do
  noteReplacement "simplify" before after
  pure (after.narrow before.sequenceType)

/-- Puts a replacement in place of an expression and narrows its type. -/
def replaceWith (e after : Expr) : Compile Expr := replace e.summary after

/-- Puts a replacement in place of an expression of which only the boolean value counts. -/
def replaceCondition (e after : Expr) : Compile Expr := do
  noteReplacement "simplify" e.summary after
  pure after

/-- Puts the empty sequence in place of an expression. -/
def emptyFor (e : Expr) : Compile Expr := replaceCondition e .emptySequence

/-- Puts an error for later in place of an expression. -/
def deferError (error : Error) (e : Expr) : Compile Expr := do
  let after := Expr.deferred (error.locate e.location) (.ofSequenceType e.sequenceType) e.location
  noteReplacement "pre-evaluate" e.summary after
  pure after

/-- Puts the value of an expression in its place.  An error is kept for evaluation. -/
def precompute (calls : Calls) (e : Expr) : Compile Expr := do
  match ← attempt (e.modes calls).value with
  | .ok v =>
      noteReplacement "pre-evaluate" e.summary (.literal v)
      pure (.narrow e.sequenceType (.literal v))
  | .error error => deferError error e

/-- Refuses an updating expression. -/
def requireNoUpdates (description : String) (e : Expr) : Compile Unit :=
  if e.hasUpdates then raise (.updateNotAllowed description) e.location else pure ()

/-- Refuses some expressions if one of them is updating. -/
def requireNoneUpdates (description : String) : List Expr → Compile Unit
  | [] => pure ()
  | e :: rest => do
      requireNoUpdates description e
      requireNoneUpdates description rest

/-- Refuses some expressions if updating and other ones are mixed.  Those without results and effects
do not count. -/
def requireUniformUpdates (description : String) (operands : List Expr) : Compile Unit :=
  match operands.filter (!·.isVacuous) with
  | [] => pure ()
  | first :: rest =>
      match rest.find? (·.hasUpdates != first.hasUpdates) with
      | some e => raise (.mixedUpdates description) e.location
      | none => pure ()

end Compile

end QueryKernel
