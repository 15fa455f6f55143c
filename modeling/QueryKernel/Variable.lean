import QueryKernel.SequenceType

/-!
# Variables

A variable is known by its number; name and declared type come along.
-/

namespace QueryKernel

/-- A declared variable.  Two variables are the same binding when their numbers are. -/
structure Variable where
  id : Nat
  name : String
  declared : Option SequenceType
  deriving DecidableEq

end QueryKernel
