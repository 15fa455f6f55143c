import QueryKernel.Atom
import QueryKernel.Atom.Arithmetic
import QueryKernel.Atom.Order
import QueryKernel.Atom.Reading
import QueryKernel.BuiltIn
import QueryKernel.Calendar
import QueryKernel.Compile
import QueryKernel.Compile.Copy
import QueryKernel.Compile.Optimize
import QueryKernel.Compile.Placeholder
import QueryKernel.Compile.Replacement
import QueryKernel.Compile.Scope
import QueryKernel.Context
import QueryKernel.Error
import QueryKernel.Eval
import QueryKernel.Eval.Aggregate
import QueryKernel.Eval.Coercion
import QueryKernel.Eval.HigherOrder
import QueryKernel.Eval.Invoke
import QueryKernel.Eval.Modes
import QueryKernel.Eval.Run
import QueryKernel.Eval.Stream
import QueryKernel.Expr
import QueryKernel.Expr.Static
import QueryKernel.Expr.Text
import QueryKernel.Fault
import QueryKernel.ItemType
import QueryKernel.Name
import QueryKernel.Node
import QueryKernel.Node.Builder
import QueryKernel.Node.Forest
import QueryKernel.Number.BinaryFloat
import QueryKernel.Number.Decimal
import QueryKernel.Number.FloatText
import QueryKernel.Number.Power
import QueryKernel.Number.Shortest
import QueryKernel.Number.Word
import QueryKernel.Proofs.Eval.Agree
import QueryKernel.Proofs.Eval.Built
import QueryKernel.Proofs.Eval.Drain
import QueryKernel.Proofs.Eval.Keeps
import QueryKernel.Proofs.Eval.Sound
import QueryKernel.Proofs.ItemType
import QueryKernel.Proofs.SequenceType
import QueryKernel.Proofs.Value.Matches
import QueryKernel.Proofs.Sequence.Buffer
import QueryKernel.Proofs.Sequence.Cursor
import QueryKernel.Proofs.Sequence.Edit
import QueryKernel.Proofs.Sequence.Moves
import QueryKernel.Proofs.Sequence.Rope
import QueryKernel.Proofs.Sequence.Spine
import QueryKernel.Proofs.Value.Additions
import QueryKernel.Proofs.Value.Builder
import QueryKernel.Proofs.Value.Edit
import QueryKernel.Proofs.Value.EditRun
import QueryKernel.Proofs.Value.Iteration
import QueryKernel.Proofs.Value.Reachable
import QueryKernel.Proofs.Value.Shape
import QueryKernel.Proofs.Value.Walk
import QueryKernel.Query
import QueryKernel.Sequence.Buffer
import QueryKernel.Sequence.Cursor
import QueryKernel.Sequence.Rope
import QueryKernel.Sequence.Spine
import QueryKernel.SequenceType
import QueryKernel.Text.Binary
import QueryKernel.Text.Blank
import QueryKernel.Value
import QueryKernel.Value.Atoms
import QueryKernel.Value.Edit
import QueryKernel.Value.Entries
import QueryKernel.Value.Text
import QueryKernel.Value.Walk
import QueryKernel.Variable
import QueryKernel.Proofs.Eval.Operations
import QueryKernel.Proofs.Eval.Calls
import QueryKernel.Proofs.Eval.Preserve
import QueryKernel.Proofs.Eval.Bounds
import QueryKernel.Proofs.Eval.Faithful
import QueryKernel.Proofs.Eval.Agreement
import QueryKernel.Proofs.Meaning.Operation
import QueryKernel.Proofs.Meaning.Outcome
import QueryKernel.Proofs.Value.Shaped
import QueryKernel.Proofs.Meaning.Placed
import QueryKernel.Proofs.Meaning.Renamed
import QueryKernel.Proofs.Meaning.Total
import QueryKernel.Proofs.Meaning.Allowed
import QueryKernel.Proofs.Meaning.Fits
import QueryKernel.Proofs.Meaning.Constructors
import QueryKernel.Proofs.Run.Follow
import QueryKernel.Proofs.Run.Modes
import QueryKernel.Proofs.Run.Operations
import QueryKernel.Proofs.Run.Sums
import QueryKernel.Proofs.Eval.Always
import QueryKernel.Proofs.Eval.Kind
import QueryKernel.Proofs.Eval.Everywhere
import QueryKernel.Proofs.Eval.Focus
import QueryKernel.Proofs.Eval.Described
import QueryKernel.Proofs.Eval.Meets
import QueryKernel.Proofs.Eval.Checked
import QueryKernel.Proofs.Eval.Typed
import QueryKernel.Proofs.Eval.Totals
import QueryKernel.Proofs.Eval.RangeTotals
import QueryKernel.Proofs.Eval.IntegerSums
import QueryKernel.Proofs.Eval.Results
import QueryKernel.Proofs.Expr.Parts
import QueryKernel.Proofs.Compile.Alike
import QueryKernel.Proofs.Compile.Always
import QueryKernel.Proofs.Compile.Literals
import QueryKernel.Proofs.Compile.Everywhere
import QueryKernel.Proofs.Compile.Undisturbed
import QueryKernel.Proofs.Compile.Accepted
import QueryKernel.Proofs.Compile.Tidy
import QueryKernel.Proofs.Expr.Narrow
import QueryKernel.Proofs.Expr.Empty
import QueryKernel.Proofs.Expr.Justified
import QueryKernel.Proofs.Compile.Still
import QueryKernel.Proofs.Compile.Known
import QueryKernel.Proofs.Compile.Grounded
import QueryKernel.Proofs.Eval.Vacant
import QueryKernel.Proofs.Compile.Separate
import QueryKernel.Proofs.Eval.Unless
import QueryKernel.Proofs.Eval.Fixed
import QueryKernel.Proofs.Eval.Varied
import QueryKernel.Proofs.Eval.Undeclared
import QueryKernel.Proofs.Run.Nodes
import QueryKernel.Proofs.Eval.Counts
import QueryKernel.Proofs.Eval.Sorting
import QueryKernel.Proofs.Mirror.Steps
import QueryKernel.Proofs.Mirror.Operations
import QueryKernel.Proofs.Mirror.Expressions
import QueryKernel.Proofs.Mirror.Copies
import QueryKernel.Proofs.Mirror.Enclosed
import QueryKernel.Proofs.Compile.Copying
import QueryKernel.Proofs.Compile.Narrowed
import QueryKernel.Proofs.Compile.Succeed
import QueryKernel.Proofs.Compile.Declared
import QueryKernel.Proofs.Compile.Refined
import QueryKernel.Proofs.Compile.Counted
import QueryKernel.Proofs.Compile.Fold
import QueryKernel.Proofs.Compile.HigherOrder
import QueryKernel.Proofs.Compile.Head
import QueryKernel.Proofs.Compile.Focused
import QueryKernel.Proofs.Compile.StandIn
import QueryKernel.Proofs.Compile.Becomes
import QueryKernel.Proofs.Compile.Reduced
import QueryKernel.Proofs.Compile.Preserved
import QueryKernel.Proofs.Compile.Loosened
import QueryKernel.Proofs.Compile.Positions
import QueryKernel.Proofs.Compile.Bindings
import QueryKernel.Proofs.Compile.SizeTotals
import QueryKernel.Proofs.Number.Decimal
import QueryKernel.Proofs.Number.Nearest
import QueryKernel.Proofs.Number.Word
import QueryKernel.Proofs.Atom.Arithmetic
import QueryKernel.Proofs.Atom.Keys
import QueryKernel.Proofs.Atom.Integers
import QueryKernel.Proofs.Value.Entries
import QueryKernel.Proofs.Value.Flatten
import QueryKernel.Proofs.Value.Atomized
import QueryKernel.Proofs.Value.RangeWords
import QueryKernel.Proofs.Sequence.Words
import QueryKernel.Proofs.Value.Growth
import QueryKernel.Proofs.Eval.Nested
import QueryKernel.Proofs.Eval.SingleAtom
import QueryKernel.Proofs.Compile.LoopDepth
import QueryKernel.Proofs.Durations
import QueryKernel.Proofs.Node.Trees
