import QueryKernel.Proofs.Eval.Totals

/-!
# Sums of ranges in words of 128 bits

The closed form of the sum of a range, computed in signed words of 128 bits: no step leaves them, and the
result is the sum of the integers.

The largest number is the product of the length and both ends.  A length has up to 64 bits, and two integers
together have 65, so that it takes the bounds of both to see that it stays within 128.
-/

namespace QueryKernel

namespace IntegerRange

/-! ## The computation -/

/-- The length in 128 bits. -/
def wideLength (r : IntegerRange) : BitVec 128 := .ofNat 128 r.length

/-- The first integer in 128 bits. -/
def wideFirst (r : IntegerRange) : BitVec 128 := r.first.toBitVec.signExtend 128

/-- Twice the first integer. -/
def twiceFirst (r : IntegerRange) : BitVec 128 := 2#128 * r.wideFirst

/-- One more than the first and the last integer together. -/
def pastEnds (r : IntegerRange) : BitVec 128 := r.twiceFirst + r.wideLength

/-- The first and the last integer together. -/
def ends (r : IntegerRange) : BitVec 128 := r.pastEnds - 1#128

/-- Twice the sum. -/
def twiceTotal (r : IntegerRange) : BitVec 128 := r.wideLength * r.ends

/-- The sum. -/
def wideTotal (r : IntegerRange) : BitVec 128 := r.twiceTotal.sdiv 2#128

/-- No step of the computation overflows. -/
structure FitsWide (r : IntegerRange) : Prop where
  twiceFirst : (2#128).smulOverflow r.wideFirst = false
  pastEnds : r.twiceFirst.saddOverflow r.wideLength = false
  ends : r.pastEnds.ssubOverflow 1#128 = false
  twiceTotal : r.wideLength.smulOverflow r.ends = false
  wideTotal : r.twiceTotal.sdivOverflow 2#128 = false

/-! ## Bounds -/

variable {r : IntegerRange}

theorem Valid.toInt_wideLength (valid : r.Valid) : r.wideLength.toInt = r.length := by
  have most := valid.most
  have largest : maxLength = 2 ^ 63 := rfl
  rw [wideLength, BitVec.toInt_ofNat', Int.bmod_eq_of_le]
  · omega
  · omega

theorem toInt_wideFirst (r : IntegerRange) : r.wideFirst.toInt = r.first.toInt := by
  rw [wideFirst, BitVec.toInt_signExtend_of_le (by decide), Int64.toInt_toBitVec]

theorem toInt_first_bounds (r : IntegerRange) : -2 ^ 63 ≤ r.first.toInt ∧ r.first.toInt < 2 ^ 63 :=
  ⟨r.first.le_toInt, r.first.toInt_lt⟩

/-- Both ends together take 65 bits. -/
theorem Valid.ends_bounds (valid : r.Valid) : -2 ^ 64 ≤ 2 * r.first.toInt + r.length - 1 ∧
    2 * r.first.toInt + r.length - 1 < 2 ^ 64 := by
  obtain ⟨low, high⟩ := r.toInt_first_bounds
  have least := valid.least
  have inside := valid.inside
  have greatest : Int64.maxValue.toInt = 2 ^ 63 - 1 := rfl
  constructor <;> omega

/-- The length times both ends takes 128 bits. -/
theorem Valid.product_bounds (valid : r.Valid) :
    -2 ^ 127 ≤ (r.length : Int) * (2 * r.first.toInt + r.length - 1) ∧
      (r.length : Int) * (2 * r.first.toInt + r.length - 1) < 2 ^ 127 := by
  obtain ⟨low, high⟩ := valid.ends_bounds
  generalize 2 * r.first.toInt + r.length - 1 = ends at low high ⊢
  have positive : (0 : Int) ≤ r.length := by omega
  have most : (r.length : Int) ≤ 2 ^ 63 := by
    have := valid.most
    have largest : maxLength = 2 ^ 63 := rfl
    omega
  -- Each factor is bounded on its own; what is left is linear in the length.
  have below : (r.length : Int) * ends ≤ r.length * (2 ^ 64 - 1) :=
    Int.mul_le_mul_of_nonneg_left (by omega) positive
  have above : (r.length : Int) * -2 ^ 64 ≤ r.length * ends := Int.mul_le_mul_of_nonneg_left low positive
  constructor <;> omega

/-! ## The steps one by one -/

theorem twiceFirst_fits (r : IntegerRange) :
    (2#128).smulOverflow r.wideFirst = false ∧ r.twiceFirst.toInt = 2 * r.first.toInt := by
  obtain ⟨low, high⟩ := r.toInt_first_bounds
  have fits : (2#128).smulOverflow r.wideFirst = false := by
    have two : (2#128).toInt = 2 := rfl
    simp only [BitVec.smulOverflow, two, toInt_wideFirst, Bool.or_eq_false_iff, decide_eq_false_iff_not]
    omega
  refine ⟨fits, ?_⟩
  rw [twiceFirst, BitVec.toInt_mul_of_not_smulOverflow (by simp [fits]), toInt_wideFirst]
  rfl

theorem Valid.pastEnds_fits (valid : r.Valid) :
    r.twiceFirst.saddOverflow r.wideLength = false ∧ r.pastEnds.toInt = 2 * r.first.toInt + r.length := by
  obtain ⟨low, high⟩ := valid.ends_bounds
  obtain ⟨-, twice⟩ := r.twiceFirst_fits
  have fits : r.twiceFirst.saddOverflow r.wideLength = false := by
    simp only [BitVec.saddOverflow, twice, valid.toInt_wideLength, Bool.or_eq_false_iff, decide_eq_false_iff_not]
    omega
  refine ⟨fits, ?_⟩
  rw [pastEnds, BitVec.toInt_add_of_not_saddOverflow (by simp [fits]), twice, valid.toInt_wideLength]

theorem Valid.ends_fits (valid : r.Valid) :
    r.pastEnds.ssubOverflow 1#128 = false ∧ r.ends.toInt = 2 * r.first.toInt + r.length - 1 := by
  obtain ⟨low, high⟩ := valid.ends_bounds
  obtain ⟨-, past⟩ := valid.pastEnds_fits
  have one : (1#128).toInt = 1 := rfl
  have fits : r.pastEnds.ssubOverflow 1#128 = false := by
    simp only [BitVec.ssubOverflow, past, one, Bool.or_eq_false_iff, decide_eq_false_iff_not]
    omega
  refine ⟨fits, ?_⟩
  rw [ends, BitVec.toInt_sub_of_not_ssubOverflow (by simp [fits]), past, one]

theorem Valid.twiceTotal_fits (valid : r.Valid) :
    r.wideLength.smulOverflow r.ends = false ∧
      r.twiceTotal.toInt = r.length * (2 * r.first.toInt + r.length - 1) := by
  obtain ⟨low, high⟩ := valid.product_bounds
  obtain ⟨-, together⟩ := valid.ends_fits
  have fits : r.wideLength.smulOverflow r.ends = false := by
    simp only [BitVec.smulOverflow, together, valid.toInt_wideLength, Bool.or_eq_false_iff,
      decide_eq_false_iff_not]
    omega
  refine ⟨fits, ?_⟩
  rw [twiceTotal, BitVec.toInt_mul_of_not_smulOverflow (by simp [fits]), together, valid.toInt_wideLength]

/-- Half of a number that is twice another one. -/
theorem Valid.wideTotal_fits (valid : r.Valid) {sum : Int}
    (twice : 2 * sum = r.length * (2 * r.first.toInt + r.length - 1)) :
    r.twiceTotal.sdivOverflow 2#128 = false ∧ r.wideTotal.toInt = sum := by
  obtain ⟨low, high⟩ := valid.product_bounds
  obtain ⟨-, product⟩ := valid.twiceTotal_fits
  rw [← twice] at low high product
  have two : (2#128).toInt = 2 := rfl
  constructor
  · simp only [BitVec.sdivOverflow, product, two, Bool.or_eq_false_iff, decide_eq_false_iff_not]
    omega
  · rw [wideTotal, BitVec.toInt_sdiv_of_ne_or_ne _ _ (.inr (by decide)), product, two]
    exact Int.mul_tdiv_cancel_left sum (by decide)

theorem Valid.fitsWide (valid : r.Valid) : r.FitsWide := by
  obtain ⟨sum, -, twice, -⟩ := rangeTotal_exact valid
  exact ⟨r.twiceFirst_fits.1, valid.pastEnds_fits.1, valid.ends_fits.1, valid.twiceTotal_fits.1,
    (valid.wideTotal_fits twice).1⟩

end IntegerRange

/-! ## Sums of ranges -/

/-- A sum as an atom: an integer if it has 64 bits, and otherwise a decimal if it has 96. -/
theorem exactTotal_cases (sum : Int) :
    (∀ n : Int64, exactTotal sum = .ok (.integer n) ↔ n.toInt = sum) ∧
      ((¬∃ n : Int64, n.toInt = sum) → sum.natAbs < 2 ^ 96 → exactTotal sum = .ok (.decimal (.ofInt sum))) ∧
      (2 ^ 96 ≤ sum.natAbs → exactTotal sum = .error .overflow) := by
  have limit : Decimal.limit = 2 ^ 96 := rfl
  unfold exactTotal
  rw [limit]
  cases found : long? sum with
  | some m =>
      obtain rfl := long?_eq_some found
      refine ⟨fun n => ?_, fun beyond => absurd ⟨m, rfl⟩ beyond, fun large => ?_⟩
      · simp only [Except.ok.injEq, Atom.integer.injEq, Int64.toInt_inj]
        exact eq_comm
      · have low := m.le_toInt
        have high := m.toInt_lt
        omega
  | none =>
      have beyond := long?_eq_none.1 found
      dsimp only
      refine ⟨fun n => ⟨fun made => ?_, fun same => absurd ⟨n, same⟩ beyond⟩, fun _ few => if_pos few, fun large => ?_⟩
      · split at made <;> cases made
      · exact if_neg (by omega)

/-- The sum of a range is computed in 128 bits: no step overflows, the number that is halved is even, and the
result is the sum of the integers.  It is given as an integer exactly if it has 64 bits, otherwise as a decimal
if it has 96, and otherwise it is an overflow.  Where the integers can be added one by one, as those of any
value, the result is the same. -/
theorem rangeTotal_computed {r : IntegerRange} (valid : r.Valid) :
    r.FitsWide ∧ ∃ sum, integerSum? (ValueOf.range r : Value).items = some sum ∧
      r.twiceTotal.toInt = 2 * sum ∧ r.wideTotal.toInt = sum ∧
      (∀ n : Int64, rangeTotal r = .ok (.integer n) ↔ n.toInt = sum) ∧
      ((¬∃ n : Int64, n.toInt = sum) → sum.natAbs < 2 ^ 96 → rangeTotal r = .ok (.decimal (.ofInt sum))) ∧
      (2 ^ 96 ≤ sum.natAbs → ∃ cause, rangeTotal r = .error cause ∧ cause.code = ErrorCode.FOAR0002.expandedName) ∧
      ∀ (v : Value) (c c' : Context) (result : Option PartialSum), v.Shaped →
        v.items = (ValueOf.range r : Value).items → total v c = (.ok result, c') →
        ∃ a, rangeTotal r = .ok a ∧ result = some ⟨a, .number, r.length⟩ := by
  obtain ⟨sum, integers, twice, exact⟩ := rangeTotal_exact valid
  obtain ⟨integer, decimal, overflow⟩ := exactTotal_cases sum
  rw [← exact] at integer decimal overflow
  refine ⟨valid.fitsWide, sum, integers, valid.twiceTotal_fits.2.trans twice.symm, (valid.wideTotal_fits twice).2,
    integer, decimal, fun large => ⟨_, overflow large, rfl⟩, ?_⟩
  intro v c c' result shaped same ran
  obtain ⟨folded, -⟩ := total_ok shaped ran
  rw [same] at folded
  have given := foldTotal_folded integers
  rw [folded] at given
  have length : (ValueOf.range r : Value).items.length = r.length := by
    rw [ValueOf.items_range, length_integersFrom]
  cases given with
  | nothing empty =>
      -- A range holds two integers at least, so that there is a sum.
      have least := valid.least
      rw [empty, List.length_nil] at length
      omega
  | exact _ total => exact ⟨_, (integer _).2 total, by rw [length]⟩

/-- As many integers as there may be, from the least one on: the sum has more than 96 bits. -/
theorem rangeTotal_computed_longest :
    let r : IntegerRange := ⟨Int64.minValue, IntegerRange.maxLength⟩
    r.Valid ∧ r.FitsWide ∧ ∃ cause, rangeTotal r = .error cause ∧ cause.code = ErrorCode.FOAR0002.expandedName := by
  intro r
  have valid : r.Valid := ⟨by decide, by decide, by decide⟩
  obtain ⟨fits, sum, -, -, wide, -, -, overflow, -⟩ := rangeTotal_computed valid
  subst wide
  exact ⟨valid, fits, overflow (by decide +kernel)⟩

/-- A sum of 65 bits is a decimal. -/
example : rangeTotal ⟨Int64.maxValue - 1, 2⟩ = .ok (.decimal ⟨18446744073709551613, 0⟩) := rfl

end QueryKernel
