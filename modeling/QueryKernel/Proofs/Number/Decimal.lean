import QueryKernel.Number.Decimal

/-!
# Decimals as fractions and as floating-point numbers

Decimals are compared as the fractions that they are, and every decimal can be read as a floating-point number.

The operations by which a decimal is read keep to numbers without a sign, and its power of ten is neither
zero nor infinite, so that none of them is left without a result.
-/

namespace QueryKernel

/-! ## Decimals as fractions -/

namespace Decimal

/-- The number as a fraction. -/
def toRat (d : Decimal) : Rat := mkRat d.coefficient (tenTo d.scale)

@[simp] theorem toRat_ofInt (i : Int) : (ofInt i).toRat = i := by
  rw [toRat, ofInt, tenTo_zero]
  exact Rat.mkRat_one i

theorem tenTo_add (m n : Nat) : tenTo (m + n) = tenTo m * tenTo n := Nat.pow_add 10 m n

theorem tenTo_ne_zero (n : Nat) : tenTo n ≠ 0 := Nat.pos_iff_ne_zero.1 (Nat.pow_pos (by decide))

/-- At the larger scale the units are the same exactly if the fractions are. -/
theorem unitsAt_eq_iff_of_le {a b : Decimal} (fewer : a.scale ≤ b.scale) :
    a.unitsAt b.scale = b.unitsAt b.scale ↔ a.toRat = b.toRat := by
  have whole : (tenTo b.scale : Int) = tenTo (b.scale - a.scale) * tenTo a.scale := by
    rw [← Int.natCast_mul, ← tenTo_add, Nat.sub_add_cancel fewer]
  have positive : (tenTo a.scale : Int) ≠ 0 := Int.natCast_ne_zero.2 (tenTo_ne_zero _)
  rw [toRat, toRat, Rat.mkRat_eq_iff (tenTo_ne_zero _) (tenTo_ne_zero _), unitsAt, unitsAt, Nat.sub_self,
    tenTo_zero, Int.natCast_one, Int.mul_one, whole, ← Int.mul_assoc]
  exact (Int.mul_eq_mul_right_iff positive).symm

theorem compare_eq_iff (a b : Decimal) : a.compare b = .eq ↔ a.toRat = b.toRat := by
  rw [compare, Std.compare_eq_iff_eq]
  rcases Nat.le_total a.scale b.scale with fewer | fewer
  · rw [Nat.max_eq_right fewer]
    exact unitsAt_eq_iff_of_le fewer
  · rw [Nat.max_eq_left fewer, eq_comm, unitsAt_eq_iff_of_le fewer, eq_comm]

end Decimal

/-! ## Numbers with a sign -/

namespace BinaryFloat

/-- A number of the given sign, perhaps zero or infinite. -/
def HasSign (negative : Bool) : BinaryFloat → Prop
  | .nan => False
  | .infinity sign | .finite sign _ _ => sign = negative

/-- A number without a sign that is neither zero nor infinite. -/
def Positive : BinaryFloat → Prop
  | .finite negative mantissa _ => negative = false ∧ mantissa ≠ 0
  | _ => False

variable {format : BinaryFormat} {negative : Bool} {x y : BinaryFloat}

theorem HasSign.ne_nan (signed : x.HasSign negative) : x ≠ .nan := by
  rintro rfl
  exact signed

theorem ofDyadic_hasSign (mantissa : Nat) (exponent : Int) :
    (ofDyadic negative mantissa exponent).HasSign negative := by
  unfold ofDyadic
  split <;> rfl

theorem round_hasSign (num den : Nat) : (format.round negative num den).HasSign negative := by
  unfold BinaryFormat.round
  split
  · rfl
  · dsimp only
    split <;> split
    · rfl
    · exact ofDyadic_hasSign _ _
    · rfl
    · exact ofDyadic_hasSign _ _

theorem units_nonneg (unit : Int) (mantissa : Nat) (exponent : Int) : 0 ≤ units unit false mantissa exponent :=
  Int.mul_nonneg (Int.natCast_nonneg _) (Int.natCast_nonneg _)

theorem HasSign.add (left : x.HasSign false) (right : y.HasSign false) : (x.add format y).HasSign false := by
  cases x with
  | nan => exact left.elim
  | infinity a =>
      obtain rfl : a = false := left
      cases y with
      | nan => exact right.elim
      | infinity b =>
          obtain rfl : b = false := right
          rfl
      | finite b n f => rfl
  | finite a m e =>
      obtain rfl : a = false := left
      cases y with
      | nan => exact right.elim
      | infinity b => exact right
      | finite b n f =>
          obtain rfl : b = false := right
          have natural : ¬units (min e f) false m e + units (min e f) false n f < 0 :=
            Int.not_lt.2 (Int.add_nonneg (units_nonneg _ _ _) (units_nonneg _ _ _))
          simp only [BinaryFloat.add, natural, decide_false]
          split
          · rfl
          · exact round_hasSign _ _

theorem HasSign.mul (left : x.HasSign false) (right : y.Positive) : (x.mul format y).HasSign false := by
  cases y with
  | nan | infinity b => exact right.elim
  | finite b n f =>
      obtain ⟨rfl, nonzero⟩ := right
      cases x with
      | nan => exact left.elim
      | infinity a =>
          obtain rfl : a = false := left
          cases n with
          | zero => exact (nonzero rfl).elim
          | succ n => rfl
      | finite a m e =>
          obtain rfl : a = false := left
          exact round_hasSign _ _

theorem HasSign.div (left : x.HasSign false) (right : y.Positive) : (x.div format y).HasSign false := by
  cases y with
  | nan | infinity b => exact right.elim
  | finite b n f =>
      obtain ⟨rfl, nonzero⟩ := right
      cases x with
      | nan => exact left.elim
      | infinity a =>
          obtain rfl : a = false := left
          rfl
      | finite a m e =>
          obtain rfl : a = false := left
          simp only [BinaryFloat.div, if_neg nonzero]
          exact round_hasSign _ _

theorem HasSign.roundHalfAway (signed : x.HasSign negative) :
    (x.roundHalfAway format).HasSign negative := by
  cases x with
  | nan => exact signed.elim
  | infinity a => exact signed
  | finite a m e =>
      obtain rfl : a = negative := signed
      exact round_hasSign _ _

theorem HasSign.neg (signed : x.HasSign negative) : x.neg.HasSign !negative := by
  cases x with
  | nan => exact signed
  | infinity a | finite a m e => exact congrArg (! ·) signed

theorem HasSign.positive (unsigned : x.HasSign false) (finite : x.isFinite = true)
    (nonzero : x.isZero = false) : x.Positive := by
  cases x with
  | nan => exact unsigned.elim
  | infinity a => cases finite
  | finite a m e =>
      refine ⟨unsigned, ?_⟩
      rintro rfl
      cases nonzero

end BinaryFloat

/-! ## Decimals read as numbers -/

/-- The powers of ten of which decimals are fractions are read as positive numbers. -/
theorem round_tenTo_positive {scale : Nat} (fits : scale ≤ Decimal.maxScale) :
    (BinaryFormat.double.round false (tenTo scale) 1).Positive := by
  have each : ∀ scale ≤ Decimal.maxScale,
      (BinaryFormat.double.round false (tenTo scale) 1).isFinite = true ∧
        (BinaryFormat.double.round false (tenTo scale) 1).isZero = false := by
    decide +kernel
  obtain ⟨finite, nonzero⟩ := each scale fits
  exact (BinaryFloat.round_hasSign _ _).positive finite nonzero

theorem Decimal.toFloat_ne_nan {d : Decimal} (fits : d.scale ≤ maxScale) : d.toFloat ≠ .nan := by
  have rounded : ∀ n, (BinaryFormat.double.round false n 1).HasSign false :=
    fun n => BinaryFloat.round_hasSign n 1
  have power := round_tenTo_positive fits
  have signed : ∀ x : BinaryFloat, x.HasSign false → (if d.coefficient < 0 then x.neg else x) ≠ .nan := by
    intro x unsigned
    split
    · exact unsigned.neg.ne_nan
    · exact unsigned.ne_nan
  unfold toFloat
  refine signed _ ?_
  split
  · exact rounded _
  · dsimp only
    split
    · exact rounded _
    · exact ((((rounded _).add ((rounded _).div power)).mul power).roundHalfAway).div power

/-! ## Quotients -/

namespace Decimal

/-- With places to give up there is a quotient, however large it is. -/
theorem divideOut_isSome (num den : Nat) {left : Nat} (later : left < maxScale) :
    (divideOut num den left).isSome := by
  induction left using Nat.strongRecOn generalizing num with
  | ind left left_ih =>
      have lessOne : ¬maxScale ≤ left := Nat.not_le.2 later
      rw [divideOut]
      simp only [if_neg lessOne, if_pos (Nat.le_of_lt later), if_neg (Nat.not_lt.2 (Nat.le_of_lt later))]
      split
      · rfl
      · split
        · rfl
        · split
          · split <;> rfl
          · next power found =>
              have most := room_le (num / den) (min 9 left)
              exact left_ih _ (by omega) _ (by omega)

/-- Two whole numbers have a quotient, since nine places after the point leave room for any word. -/
theorem div?_ofInt_isSome {a b : Int} (small : a.natAbs ≤ twoTo 63) : ((ofInt a).div? (ofInt b)).isSome := by
  have quotient : a.natAbs / b.natAbs * tenTo 9 < limit := by
    have smaller := Nat.div_le_self a.natAbs b.natAbs
    rw [show twoTo 63 = 9223372036854775808 from rfl] at small
    rw [show tenTo 9 = 1000000000 from rfl, show limit = 79228162514264337593543950336 from rfl]
    omega
  have roomy : room (a.natAbs / b.natAbs) (min 9 maxScale) = 9 := by
    rw [show min 9 maxScale = 8 + 1 from rfl, room, if_pos quotient]
  have below : ¬limit ≤ a.natAbs / b.natAbs :=
    Nat.not_le.2 (Nat.lt_of_le_of_lt (Nat.le_mul_of_pos_right _ (by decide)) quotient)
  rw [div?, Option.isSome_map]
  show (divideOut a.natAbs b.natAbs maxScale).isSome
  rw [divideOut]
  simp only [if_neg below, Nat.le_refl, if_true]
  split
  · rfl
  · split
    · next none_left => rw [roomy] at none_left; cases none_left
    · next power found =>
      exact divideOut_isSome _ _ (by simp only [maxScale]; omega)

end Decimal

end QueryKernel
