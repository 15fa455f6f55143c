/-!
# Fixed-width integers

Exact results that either fit a signed word or do not: `long?` and `int?` are the
checked conversions through which all integer arithmetic goes.
-/

namespace QueryKernel

/-- The 64-bit word of an integer, if it has one. -/
def long? (i : Int) : Option Int64 :=
  if Int64.minValue.toInt ≤ i ∧ i ≤ Int64.maxValue.toInt then some (Int64.ofInt i) else none

/-- The 32-bit word of an integer, if it has one. -/
def int? (i : Int) : Option Int32 :=
  if Int32.minValue.toInt ≤ i ∧ i ≤ Int32.maxValue.toInt then some (Int32.ofInt i) else none

/-- The largest number that counts items: sizes are unsigned 64-bit words. -/
def maxSize : Nat := UInt64.size - 1

end QueryKernel
