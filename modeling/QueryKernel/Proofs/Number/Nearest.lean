import Mathlib.Algebra.Ring.Int.Defs
import Mathlib.Algebra.Ring.Nat
import QueryKernel.Number.BinaryFloat

/-!
# Whole numbers as doubles

The double for a whole number is the nearest multiple of its unit, a power of two that grows with the number.  So
whole numbers keep their order, but above `2 ^ 53` not all of them keep their values.

The work is in `nearestDouble_mono`: two numbers with different units are on either side of a power of two,
which is a multiple of both.
-/

namespace QueryKernel

/-! ## Nearest multiples -/

theorem roundHalfEven_one (n : Nat) : roundHalfEven n 1 = n := by
  simp [roundHalfEven, Nat.mod_one]

theorem roundHalfEven_mul (n : Nat) {den : Nat} (positive : 0 < den) : roundHalfEven (n * den) den = n := by
  simp [roundHalfEven, Nat.mul_div_cancel n positive, Nat.mul_mod_left, positive]

theorem div_le_roundHalfEven (n den : Nat) : n / den ≤ roundHalfEven n den := by
  simp only [roundHalfEven]
  split
  · exact Nat.le_refl _
  · split <;> exact Nat.le_add_right _ _

theorem roundHalfEven_le_succ (n den : Nat) : roundHalfEven n den ≤ n / den + 1 := by
  simp only [roundHalfEven]
  split
  · exact Nat.le_succ _
  · split <;> omega

theorem roundHalfEven_mono {m n : Nat} (less : m ≤ n) (den : Nat) :
    roundHalfEven m den ≤ roundHalfEven n den := by
  have quotients : m / den ≤ n / den := Nat.div_le_div_right less
  rcases Nat.lt_or_eq_of_le quotients with fewer | same
  · calc roundHalfEven m den ≤ m / den + 1 := roundHalfEven_le_succ m den
      _ ≤ n / den := fewer
      _ ≤ roundHalfEven n den := div_le_roundHalfEven n den
  · -- With one quotient the rests decide, and they are in the same order.
    have rests : m % den ≤ n % den := by
      have split_m := Nat.div_add_mod m den
      have split_n := Nat.div_add_mod n den
      rw [same] at split_m
      omega
    simp only [roundHalfEven, same]
    split <;> split <;> (try split) <;> (try split) <;> omega

/-! ## Nearest doubles -/

/-- The power of two of which the double for a whole number is a multiple. -/
def doubleUnit (n : Nat) : Nat := twoTo (n.log2 - 52)

/-- The double for a whole number: the nearest multiple of the unit, and the even one of two. -/
def nearestDouble (n : Nat) : Nat := roundHalfEven n (doubleUnit n) * doubleUnit n

theorem twoTo_pos (n : Nat) : 0 < twoTo n := Nat.pow_pos (by decide)

theorem twoTo_add (m n : Nat) : twoTo (m + n) = twoTo m * twoTo n := Nat.pow_add 2 m n

theorem twoTo_le {m n : Nat} (less : m ≤ n) : twoTo m ≤ twoTo n := Nat.pow_le_pow_right (by decide) less

theorem nearestDouble_of_lt {n : Nat} (small : n < twoTo 53) : nearestDouble n = n := by
  have unit : doubleUnit n = 1 := by
    rw [doubleUnit, Nat.sub_eq_zero_of_le, twoTo_zero]
    by_cases zero : n = 0
    · rw [zero]
      decide
    · exact Nat.le_of_lt_succ ((Nat.log2_lt zero).2 small)
  rw [nearestDouble, unit, roundHalfEven_one, Nat.mul_one]

/-- A number is within the power of two above it, and so is its double. -/
theorem nearestDouble_le (n : Nat) : nearestDouble n ≤ twoTo (n.log2 - 52 + 53) := by
  have below : n ≤ twoTo 53 * twoTo (n.log2 - 52) := by
    rw [← twoTo_add]
    refine Nat.le_trans (Nat.le_of_lt Nat.lt_log2_self) (twoTo_le ?_)
    omega
  have rounded := roundHalfEven_mono below (doubleUnit n)
  rw [doubleUnit, roundHalfEven_mul _ (twoTo_pos _)] at rounded
  rw [Nat.add_comm, twoTo_add, nearestDouble, doubleUnit]
  exact Nat.mul_le_mul_right _ rounded

theorem le_nearestDouble {n : Nat} (large : 52 ≤ n.log2) : twoTo n.log2 ≤ nearestDouble n := by
  have whole : twoTo n.log2 = twoTo 52 * twoTo (n.log2 - 52) := by
    rw [← twoTo_add]
    congr 1
    omega
  have above : twoTo 52 * twoTo (n.log2 - 52) ≤ n := by
    rw [← whole]
    refine Nat.log2_self_le ?_
    rintro rfl
    exact absurd large (by decide)
  have rounded := roundHalfEven_mono above (doubleUnit n)
  rw [doubleUnit, roundHalfEven_mul _ (twoTo_pos _)] at rounded
  rw [whole, nearestDouble, doubleUnit]
  exact Nat.mul_le_mul_right _ rounded

theorem nearestDouble_mono {m n : Nat} (less : m ≤ n) : nearestDouble m ≤ nearestDouble n := by
  have logs : m.log2 ≤ n.log2 := by
    by_cases zero : m = 0
    · rw [zero]
      exact Nat.zero_le _
    · exact (Nat.le_log2 (by omega)).2 (Nat.le_trans (Nat.log2_self_le zero) less)
  by_cases same : m.log2 - 52 = n.log2 - 52
  · rw [nearestDouble, nearestDouble, doubleUnit, doubleUnit, same]
    exact Nat.mul_le_mul_right _ (roundHalfEven_mono less _)
  · -- The units differ, so the power of two below the larger number is not below the double of the smaller one.
    refine Nat.le_trans (nearestDouble_le m) (Nat.le_trans (twoTo_le ?_) (le_nearestDouble ?_)) <;> omega

/-! ## Whole floating-point numbers -/

namespace BinaryFloat

/-- An integer of the given sign and magnitude. -/
def signed (negative : Bool) (n : Nat) : Int := if negative then -n else n

/-- The number is a whole one, with the given sign and magnitude. -/
def IsWholeNumber (x : BinaryFloat) (negative : Bool) (n : Nat) : Prop :=
  ∃ mantissa exponent, x = .finite negative mantissa exponent ∧
    mantissa * twoTo exponent.toNat = n * twoTo (-exponent).toNat

/-- Taking twos out of the mantissa does not change the number. -/
theorem stripTwos_whole (fuel : Nat) {mantissa n : Nat} {exponent : Int}
    (whole : mantissa * twoTo exponent.toNat = n * twoTo (-exponent).toNat) :
    (stripTwos fuel mantissa exponent).1 * twoTo (stripTwos fuel mantissa exponent).2.toNat =
      n * twoTo (-(stripTwos fuel mantissa exponent).2).toNat := by
  induction fuel generalizing mantissa exponent with
  | zero => exact whole
  | succ fuel fuel_ih =>
      unfold stripTwos
      split
      · next even =>
          refine fuel_ih ?_
          obtain ⟨half, rfl⟩ := Nat.dvd_of_mod_eq_zero even
          rw [Nat.mul_div_cancel_left _ (by decide)]
          -- A negative exponent is a divisor, so the two that is taken out is one factor fewer on the other side.
          rcases Int.lt_or_le exponent 0 with below | above
          · rw [show exponent.toNat = 0 by omega, show (-exponent).toNat = (-(exponent + 1)).toNat + 1 by omega,
              twoTo_succ, twoTo_zero] at whole
            rw [show (exponent + 1).toNat = 0 by omega, twoTo_zero]
            refine Nat.eq_of_mul_eq_mul_left Nat.two_pos ?_
            rw [← Nat.mul_assoc, whole]
            ac_rfl
          · rw [show (-exponent).toNat = 0 by omega] at whole
            rw [show (exponent + 1).toNat = exponent.toNat + 1 by omega, twoTo_succ,
              show (-(exponent + 1)).toNat = 0 by omega, ← whole]
            ac_rfl
      · exact whole

theorem ofDyadic_whole (negative : Bool) {mantissa n : Nat} {exponent : Int}
    (whole : mantissa * twoTo exponent.toNat = n * twoTo (-exponent).toNat) :
    (ofDyadic negative mantissa exponent).IsWholeNumber negative n := by
  unfold ofDyadic
  split
  · next none =>
      refine ⟨0, 0, rfl, ?_⟩
      rw [none, Nat.zero_mul] at whole
      have zero : n = 0 := (Nat.mul_eq_zero.1 whole.symm).resolve_right (Nat.pos_iff_ne_zero.1 (twoTo_pos _))
      rw [zero, Nat.zero_mul, Nat.zero_mul]
  · exact ⟨_, _, rfl, stripTwos_whole _ whole⟩

theorem fraction_eq {mantissa n : Nat} {exponent : Int}
    (whole : mantissa * twoTo exponent.toNat = n * twoTo (-exponent).toNat) :
    (fraction mantissa exponent).1 = n * (fraction mantissa exponent).2 := whole

variable {x y : BinaryFloat} {negative other : Bool} {m n : Nat}

theorem IsWholeNumber.isWhole (whole : x.IsWholeNumber negative n) : x.isWhole = true := by
  obtain ⟨mantissa, exponent, rfl, same⟩ := whole
  have none_left : (fraction mantissa exponent).1 % (fraction mantissa exponent).2 = 0 := by
    rw [fraction_eq same, Nat.mul_mod_left]
  exact beq_iff_eq.2 none_left

theorem IsWholeNumber.toInt?_eq (whole : x.IsWholeNumber negative n) : x.toInt? = some (signed negative n) := by
  obtain ⟨mantissa, exponent, rfl, same⟩ := whole
  have quotient : (fraction mantissa exponent).1 / (fraction mantissa exponent).2 = n := by
    rw [fraction_eq same]
    exact Nat.mul_div_cancel n (twoTo_pos _)
  have truncated : toInt? (.finite negative mantissa exponent) =
      some (signed negative ((fraction mantissa exponent).1 / (fraction mantissa exponent).2)) := rfl
  rw [truncated, quotient]

/-- Counted in units no larger than that of its mantissa. -/
theorem units_eq {mantissa : Nat} {exponent unit : Int} (negative : Bool)
    (whole : mantissa * twoTo exponent.toNat = n * twoTo (-exponent).toNat) (fine : unit ≤ exponent) :
    units unit negative mantissa exponent * twoTo unit.toNat = signed negative n * twoTo (-unit).toNat := by
  have magnitude : mantissa * twoTo (exponent - unit).toNat * twoTo unit.toNat = n * twoTo (-unit).toNat := by
    rw [Nat.mul_assoc, ← twoTo_add]
    -- One of the two powers in the hypothesis is one, and the sign of the exponent says which.
    rcases Int.lt_or_le exponent 0 with below | above
    · rw [show exponent.toNat = 0 by omega, twoTo_zero, Nat.mul_one] at whole
      rw [whole, Nat.mul_assoc, ← twoTo_add]
      congr 2
      omega
    · rw [show (-exponent).toNat = 0 by omega, twoTo_zero, Nat.mul_one] at whole
      rw [← whole, Nat.mul_assoc, ← twoTo_add]
      congr 2
      omega
  have counted : units unit negative mantissa exponent =
      signed negative (mantissa * twoTo (exponent - unit).toNat) := rfl
  rw [counted]
  cases negative with
  | false =>
      simp only [signed, Bool.false_eq_true, if_false]
      exact congrArg Nat.cast magnitude
  | true =>
      simp only [signed, if_true, Int.neg_mul]
      exact congrArg (fun n : Nat => -(n : Int)) magnitude

theorem compare_of_multiples {a b i j : Int} {p q : Nat} (left : a * p = i * q) (right : b * p = j * q)
    (p_pos : 0 < p) (q_pos : 0 < q) : compare a b = compare i j := by
  have p_pos : (0 : Int) < p := Int.natCast_pos.2 p_pos
  have q_pos : (0 : Int) < q := Int.natCast_pos.2 q_pos
  have less : a < b ↔ i < j := by rw [← Int.mul_lt_mul_right p_pos, left, right, Int.mul_lt_mul_right q_pos]
  have same : a = b ↔ i = j := by
    rw [← Int.mul_eq_mul_right_iff (Int.ne_of_gt p_pos), left, right,
      Int.mul_eq_mul_right_iff (Int.ne_of_gt q_pos)]
  simp only [compare, compareOfLessAndEq, less, same]

theorem IsWholeNumber.compare?_eq (left : x.IsWholeNumber negative m) (right : y.IsWholeNumber other n) :
    x.compare? y = some (compare (signed negative m) (signed other n)) := by
  obtain ⟨mantissa, exponent, rfl, whole⟩ := left
  obtain ⟨mantissa', exponent', rfl, whole'⟩ := right
  exact congrArg some (compare_of_multiples (units_eq negative whole (Int.min_le_left _ _))
    (units_eq other whole' (Int.min_le_right _ _)) (twoTo_pos _) (twoTo_pos _))

end BinaryFloat

/-! ## Rounding -/

open BinaryFloat

/-- The exponent of the double for a whole number leaves its mantissa fifty-three bits. -/
theorem round_double_eq (negative : Bool) {n : Nat} (positive : n ≠ 0) {exponent : Int}
    (last : exponent = n.log2 - 52) :
    BinaryFormat.double.round negative n 1 =
      let mantissa := roundHalfEven (n * twoTo (-exponent).toNat) (1 * twoTo exponent.toNat)
      if 1024 ≤ (mantissa.log2 : Int) + exponent ∧ mantissa ≠ 0 then .infinity negative
      else ofDyadic negative mantissa exponent := by
  have trial : max (-1074) ((n.log2 : Int) - (Nat.log2 1 : Nat) - (53 : Nat)) = exponent - 1 := by
    have one : Nat.log2 1 = 0 := by decide
    omega
  have enough : 1 * twoTo (exponent - 1).toNat * twoTo 53 ≤ n * twoTo (-(exponent - 1)).toNat := by
    have least : twoTo n.log2 ≤ n := Nat.log2_self_le positive
    have powers : 1 * twoTo (exponent - 1).toNat * twoTo 53 = twoTo n.log2 * twoTo (-(exponent - 1)).toNat := by
      rw [Nat.one_mul, ← twoTo_add, ← twoTo_add]
      congr 1
      omega
    rw [powers]
    exact Nat.mul_le_mul_right _ least
  rw [BinaryFormat.round, if_neg positive]
  simp only [BinaryFormat.double, trial, if_pos enough, Int.sub_add_cancel]

/-- Whole numbers become their nearest doubles; only numbers beyond all sizes may become infinite. -/
theorem round_double (negative : Bool) (n : Nat) :
    (BinaryFormat.double.round negative n 1).IsWholeNumber negative (nearestDouble n) ∨
      BinaryFormat.double.round negative n 1 = .infinity negative ∧ twoTo 64 ≤ n := by
  by_cases zero : n = 0
  · rw [zero]
    exact .inl ⟨0, 0, rfl, by decide⟩
  rw [round_double_eq negative zero rfl]
  dsimp only
  split
  · next tooLarge =>
      -- Less than `2 ^ 64` and moved by at most 52 places, it would be far from the largest exponent.
      refine .inr ⟨rfl, Nat.le_of_not_lt fun small => ?_⟩
      have shifted : n * twoTo (-((n.log2 : Int) - 52)).toNat < twoTo 116 := by
        rw [show twoTo 116 = twoTo 64 * twoTo 52 from twoTo_add 64 52]
        exact Nat.mul_lt_mul_of_lt_of_le small (twoTo_le (by omega)) (twoTo_pos _)
      have bits : (roundHalfEven (n * twoTo (-((n.log2 : Int) - 52)).toNat)
          (1 * twoTo ((n.log2 : Int) - 52).toNat)).log2 < 117 :=
        (Nat.log2_lt tooLarge.2).2 (Nat.lt_of_le_of_lt (roundHalfEven_le_succ _ _)
          (Nat.lt_of_le_of_lt (Nat.le_trans (Nat.succ_le_succ (Nat.div_le_self _ _)) shifted)
            (Nat.pow_lt_pow_right (by decide) (by decide))))
      have places : n.log2 < 64 := (Nat.log2_lt zero).2 small
      omega
  · refine .inl (ofDyadic_whole negative ?_)
    by_cases large : 52 ≤ n.log2
    · rw [nearestDouble, doubleUnit]
      rw [show (-((n.log2 : Int) - 52)).toNat = 0 by omega, show ((n.log2 : Int) - 52).toNat = n.log2 - 52 by omega,
        twoTo_zero, Nat.mul_one, Nat.one_mul, Nat.mul_one]
    · rw [show ((n.log2 : Int) - 52).toNat = 0 by omega, twoTo_zero, Nat.mul_one, Nat.mul_one, roundHalfEven_one,
        nearestDouble_of_lt]
      exact (Nat.log2_lt zero).1 (by omega)

theorem ofInt_double {i : Int} (small : i.natAbs < twoTo 64) :
    (BinaryFloat.ofInt .double i).IsWholeNumber (decide (i < 0)) (nearestDouble i.natAbs) := by
  refine (round_double _ _).resolve_right fun infinite => ?_
  exact Nat.not_le.2 small infinite.2

end QueryKernel
