import Mathlib.Algebra.Ring.Int.Defs
import Mathlib.Algebra.Ring.Nat
import QueryKernel.Number.Power
import QueryKernel.Number.Word

/-!
# Checked words

A checked conversion gives the word of an exact result, and fails only if there is none.  So a computation in
checked words succeeds as soon as a word is shown for each of its steps.
-/

namespace QueryKernel

theorem long?_eq_some {i : Int} {n : Int64} (found : long? i = some n) : n.toInt = i := by
  unfold long? at found
  split at found
  · next inside =>
      cases found
      have least := inside.1
      have greatest := inside.2
      rw [show Int64.minValue.toInt = -9223372036854775808 from rfl] at least
      rw [show Int64.maxValue.toInt = 9223372036854775807 from rfl] at greatest
      exact Int64.toInt_ofInt_of_le (by omega) (by omega)
  · cases found

theorem long?_toInt (n : Int64) : long? n.toInt = some n := by
  have greatest : n.toInt ≤ Int64.maxValue.toInt := Int.le_of_lt_add_one n.toInt_lt
  rw [long?, if_pos ⟨n.le_toInt, greatest⟩, Int64.ofInt_toInt]

theorem long?_eq_none {i : Int} : long? i = none ↔ ¬∃ n : Int64, n.toInt = i := by
  constructor
  · rintro missing ⟨n, rfl⟩
    rw [long?_toInt] at missing
    cases missing
  · intro beyond
    exact Option.eq_none_iff_forall_ne_some.2 fun n found => beyond ⟨n, long?_eq_some found⟩

theorem natAbs_toInt_le (n : Int64) : n.toInt.natAbs ≤ twoTo 63 := by
  have least := n.le_toInt
  have greatest := n.toInt_lt
  rw [show twoTo 63 = 9223372036854775808 from rfl]
  omega

theorem int?_eq_some {i : Int} {n : Int32} (found : int? i = some n) : n.toInt = i := by
  unfold int? at found
  split at found
  · next inside =>
      cases found
      have least := inside.1
      have greatest := inside.2
      rw [show Int32.minValue.toInt = -2147483648 from rfl] at least
      rw [show Int32.maxValue.toInt = 2147483647 from rfl] at greatest
      exact Int32.toInt_ofInt_of_le (by omega) (by omega)
  · cases found

theorem int?_toInt (n : Int32) : int? n.toInt = some n := by
  have greatest : n.toInt ≤ Int32.maxValue.toInt := Int.le_of_lt_add_one n.toInt_lt
  rw [int?, if_pos ⟨n.le_toInt, greatest⟩, Int32.ofInt_toInt]

/-- The word of an exact result that is known. -/
theorem long?_of_eq {i : Int} (n : Int64) (exact : n.toInt = i) : long? i = some n := by
  rw [← exact, long?_toInt]

theorem exists_long {i : Int} (low : -2 ^ 63 ≤ i) (high : i < 2 ^ 63) : ∃ n : Int64, n.toInt = i :=
  ⟨.ofInt i, Int64.toInt_ofInt_of_le low high⟩

/-- The unsigned 64-bit word of an integer, if it has one. -/
def size? (i : Int) : Option UInt64 :=
  if 0 ≤ i ∧ i < UInt64.size then some (UInt64.ofNat i.toNat) else none

theorem size?_of_eq {i : Int} (n : UInt64) (exact : (n.toNat : Int) = i) : size? i = some n := by
  have inside : 0 ≤ i ∧ i < UInt64.size := by
    have := n.toNat_lt
    have largest : UInt64.size = 2 ^ 64 := rfl
    omega
  rw [size?, if_pos inside, ← exact, Int.toNat_natCast, UInt64.ofNat_toNat]

theorem size?_eq_some {i : Int} {n : UInt64} (found : size? i = some n) : (n.toNat : Int) = i := by
  unfold size? at found
  split at found
  · next inside =>
      have largest : UInt64.size = 2 ^ 64 := rfl
      cases found
      rw [UInt64.toNat_ofNat_of_lt' (by omega)]
      omega
  · cases found

theorem exists_size {i : Int} (low : 0 ≤ i) (high : i < 2 ^ 64) : ∃ n : UInt64, (n.toNat : Int) = i := by
  have fits : i.toNat < UInt64.size := by
    have largest : UInt64.size = 2 ^ 64 := rfl
    omega
  refine ⟨.ofNat i.toNat, ?_⟩
  rw [UInt64.toNat_ofNat_of_lt' fits]
  omega

end QueryKernel
