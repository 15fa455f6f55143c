import QueryKernel.Number.Word

/-!
# Faults

Broken preconditions of operations: positions outside a sequence, stacks with nothing to take off, and
sizes beyond 64 bits.  They are not errors of a query, and nothing in a query can catch them.
-/

namespace QueryKernel

/-- The ways in which a precondition can be broken. -/
inductive Fault where
  | position (position size : Nat)
  | slice (start count size : Nat)
  | cursor (position size : Nat)
  | rangeTooLong (first last : Int64)
  | focusUnderflow
  | scopeUnderflow
  | sizeOverflow

/-- The message about a range that holds too many integers. -/
def rangeTooLongText (first last : Int64) : String :=
  "Range " ++ toString first.toInt ++ " to " ++ toString last.toInt ++
    " exceeds the maximum sequence size."

/-- What a fault says. -/
def Fault.message : Fault → String
  | position i size => "position " ++ toString i ++ " out of bounds (size " ++ toString size ++ ")"
  | slice start count size =>
      "range " ++ toString start ++ "+" ++ toString count ++ " out of bounds (size " ++
        toString size ++ ")"
  | cursor i size => "cursor position " ++ toString i ++ " beyond " ++ toString size ++ " items"
  | rangeTooLong first last => rangeTooLongText first last
  | focusUnderflow => "focus stack underflow"
  | scopeUnderflow => "scope stack underflow"
  | sizeOverflow => "attempt to add with overflow"

end QueryKernel
