import QueryKernel.Atom.Arithmetic
import QueryKernel.Expr
import QueryKernel.Proofs.Number.Decimal
import QueryKernel.Proofs.Number.Word

/-!
# Arithmetic without rounding

Integers and durations are added, subtracted, multiplied and divided exactly, or else there is no word for the
result, or no quotient at all.

Everything rests on `Decimal.divideOut_isSome`: once a quotient has places after the point, there is always a
way to give them up again, so that two integers have a decimal quotient whatever remains.

## Definitions

* `Operator.wholeResult?` is the whole number that an operator stands for.
* `Raises` tells with which code an operation fails.
* `ExactOrOverflow` is a result that is the word of a given number if there is one.
-/

namespace QueryKernel

/-- The quotient of the magnitudes without what is behind the point, with the sign of the fraction. -/
def truncatedQuotient (a b : Int) : Int := a.sign * b.sign * (a.natAbs / b.natAbs : Nat)

theorem truncatedQuotient_eq (a b : Int) : truncatedQuotient a b = a.tdiv b := by
  rw [← Int.sign_mul_natAbs (a.tdiv b), Int.sign_tdiv, Int.natAbs_tdiv, truncatedQuotient]
  split
  · next less =>
      rw [show a.natAbs.div b.natAbs = 0 from Nat.div_eq_of_lt less, Nat.div_eq_of_lt less]
      simp
  · rfl

namespace Operator

/-- The whole number that the operator stands for; `none` where there is no quotient, and for the quotient that
need not be whole. -/
def wholeResult? (op : Operator) (a b : Int) : Option Int :=
  match op with
  | plus => some (a + b)
  | minus => some (a - b)
  | times => some (a * b)
  | divide => none
  | integerDivide => if b = 0 then none else some (truncatedQuotient a b)
  | modulo => if b = 0 then none else some (a - b * truncatedQuotient a b)

/-- Whether the operator divides by its second operand. -/
def divides : Operator → Bool
  | divide | integerDivide | modulo => true
  | plus | minus | times => false

end Operator

/-- The operation fails with the given code. -/
def Raises (code : ErrorCode) (result : Except AtomError Atom) : Prop :=
  ∃ e, result = .error e ∧ (ErrorOf.of (.ofAtomError e) : Error).code = code.expandedName

theorem raises_overflow : Raises .FOAR0002 (.error .overflow) := ⟨_, rfl, rfl⟩

theorem raises_divisionByZero : Raises .FOAR0001 (.error .divisionByZero) := ⟨_, rfl, rfl⟩

theorem not_raises_ok {code : ErrorCode} {a : Atom} : ¬Raises code (.ok a) := by
  rintro ⟨e, failed, _⟩
  cases failed

theorem not_raises_both {result : Except AtomError Atom} (first : Raises .FOAR0001 result) :
    ¬Raises .FOAR0002 result := by
  rintro ⟨e, failed, coded⟩
  obtain ⟨e', failed', coded'⟩ := first
  cases failed.symm.trans failed'
  exact absurd (coded.symm.trans coded') (by decide)

/-- The word of an exact number, or an overflow if and only if it has none. -/
structure ExactOrOverflow {W : Type} (toInt : W → Int) (make : W → Atom) (exact : Int)
    (result : Except AtomError Atom) : Prop where
  fits : ∀ word, toInt word = exact → result = .ok (make word)
  overflow_iff : Raises .FOAR0002 result ↔ ∀ word, toInt word ≠ exact

/-- A checked conversion gives the word, or else there is an overflow. -/
theorem ExactOrOverflow.of_checked {W : Type} {toInt : W → Int} {make : W → Atom} {word? : Int → Option W}
    (known : ∀ word, word? (toInt word) = some word) (sound : ∀ {i word}, word? i = some word → toInt word = i)
    {exact : Int} {result : Except AtomError Atom}
    (computed : result = (word? exact).elim (.error .overflow) fun word => .ok (make word)) :
    ExactOrOverflow toInt make exact result := by
  have fits : ∀ word, toInt word = exact → result = .ok (make word) := by
    rintro word rfl
    rw [computed, known]
    rfl
  refine ⟨fits, fun raised word same => ?_, fun beyond => ?_⟩
  · rw [fits word same] at raised
    exact not_raises_ok raised
  · have missing : word? exact = none :=
      Option.eq_none_iff_forall_ne_some.2 fun word found => beyond word (sound found)
    rw [computed, missing]
    exact raises_overflow

namespace Operator

theorem map_orOverflow {W : Type} (make : W → Atom) (word? : Option W) :
    (orOverflow word?).map make = word?.elim (.error .overflow) fun word => .ok (make word) := by
  cases word? <;> rfl

/-- Only the least word divided by minus one has a quotient without a word. -/
theorem exists_quotient {a b : Int64} (notLeast : ¬(a = .minValue ∧ b = -1)) :
    ∃ q : Int64, q.toInt = a.toInt.tdiv b.toInt := by
  by_cases least : a = .minValue
  · exact ⟨a / b, Int64.toInt_div_of_ne_right _ _ fun minusOne => notLeast ⟨least, minusOne⟩⟩
  · exact ⟨a / b, Int64.toInt_div_of_ne_left _ _ least⟩

theorem onIntegers_exact {op : Operator} {a b : Int64} {exact : Int}
    (whole : op.wholeResult? a.toInt b.toInt = some exact)
    (quotient : op = .modulo → ¬(a = .minValue ∧ b = -1)) :
    ExactOrOverflow Int64.toInt .integer exact (op.onIntegers a.toInt b.toInt) := by
  refine .of_checked long?_toInt long?_eq_some ?_
  cases op with
  | plus | minus | times =>
      cases whole
      exact map_orOverflow _ _
  | divide => cases whole
  | integerDivide =>
      simp only [wholeResult?] at whole
      split at whole
      · cases whole
      · next divisor =>
          cases whole
          rw [truncatedQuotient_eq]
          rw [onIntegers, if_neg divisor, map_orOverflow]
  | modulo =>
      simp only [wholeResult?] at whole
      split at whole
      · cases whole
      · next divisor =>
          cases whole
          -- The remainder is only computed if the quotient has a word too.
          obtain ⟨q, q_eq⟩ := exists_quotient (quotient rfl)
          rw [truncatedQuotient_eq, ← Int.tmod_def]
          rw [onIntegers, if_neg divisor, long?_of_eq q q_eq, Option.bind_some, map_orOverflow]

theorem apply_integers (op : Operator) (a b : Int64) :
    op.apply (.integer a) (.integer b) = op.onIntegers a.toInt b.toInt := rfl

theorem not_raises_orOverflow {W : Type} (make : W → Atom) (word? : Option W) :
    ¬Raises .FOAR0001 ((orOverflow word?).map make) := by
  cases word? with
  | none => exact fun raised => not_raises_both raised raises_overflow
  | some word => exact not_raises_ok

/-- The divisor is looked at before anything can get too large. -/
theorem raises_divisionByZero_iff (op : Operator) (a b : Int64) :
    Raises .FOAR0001 (op.apply (.integer a) (.integer b)) ↔ op.divides = true ∧ b = 0 := by
  rw [apply_integers]
  cases op with
  | plus | minus | times => simp only [onIntegers, divides, not_raises_orOverflow, Bool.false_eq_true, false_and]
  | divide | integerDivide | modulo =>
      by_cases divisor : b = 0
      · rw [divisor]
        exact iff_of_true raises_divisionByZero ⟨rfl, rfl⟩
      · have nonzero : b.toInt ≠ 0 := fun same => divisor (Int64.toInt_inj.1 same)
        simp only [onIntegers, if_neg nonzero, not_raises_orOverflow, divisor, and_false]

theorem divide_apply {a b : Int64} (divisor : b ≠ 0) :
    ∃ quotient, divide.apply (.integer a) (.integer b) = .ok (.decimal quotient) := by
  have zero : b.toInt ≠ 0 := fun same => divisor (Int64.toInt_inj.1 same)
  obtain ⟨quotient, found⟩ :=
    Option.isSome_iff_exists.1 (Decimal.div?_ofInt_isSome (b := b.toInt) (natAbs_toInt_le a))
  refine ⟨quotient, ?_⟩
  rw [apply_integers, onIntegers, if_neg zero, found]
  rfl

theorem yearMonthDurations_exact {op : Operator} (sum : op = plus ∨ op = minus) (m n : Int32) {exact : Int}
    (whole : op.wholeResult? m.toInt n.toInt = some exact) :
    ExactOrOverflow Int32.toInt .yearMonthDuration exact
      (op.apply (.yearMonthDuration m) (.yearMonthDuration n)) := by
  refine .of_checked int?_toInt int?_eq_some ?_
  rcases sum with rfl | rfl <;> cases whole <;> exact map_orOverflow _ _

theorem dayTimeDurations_exact {op : Operator} (sum : op = plus ∨ op = minus) (s t : Int64) {exact : Int}
    (whole : op.wholeResult? s.toInt t.toInt = some exact) :
    ExactOrOverflow Int64.toInt .dayTimeDuration exact
      (op.apply (.dayTimeDuration s) (.dayTimeDuration t)) := by
  refine .of_checked long?_toInt long?_eq_some ?_
  rcases sum with rfl | rfl <;> cases whole <;> exact map_orOverflow _ _

/-- Integers have the exact word for a result, or else it has none and there is an overflow; only a division by zero
is refused as such.  That a remainder always has a word is not seen, though, if the quotient has none. -/
theorem arithmetic_exact_or_overflow (op : Operator) (a b : Int64) (m n : Int32) (s t : Int64) :
    (∀ exact, op.wholeResult? a.toInt b.toInt = some exact → ¬(op = modulo ∧ a = .minValue ∧ b = -1) →
      ExactOrOverflow Int64.toInt .integer exact (op.apply (.integer a) (.integer b))) ∧
    (Raises .FOAR0001 (op.apply (.integer a) (.integer b)) ↔ op.divides = true ∧ b = 0) ∧
    (op = divide → b ≠ 0 → ∃ quotient, op.apply (.integer a) (.integer b) = .ok (.decimal quotient)) ∧
    (op = plus ∨ op = minus →
      (∀ exact, op.wholeResult? m.toInt n.toInt = some exact →
        ExactOrOverflow Int32.toInt .yearMonthDuration exact
          (op.apply (.yearMonthDuration m) (.yearMonthDuration n))) ∧
      (∀ exact, op.wholeResult? s.toInt t.toInt = some exact →
        ExactOrOverflow Int64.toInt .dayTimeDuration exact
          (op.apply (.dayTimeDuration s) (.dayTimeDuration t)))) := by
  refine ⟨fun exact whole quotient => ?_, raises_divisionByZero_iff op a b, ?_, fun sum => ?_⟩
  · exact onIntegers_exact whole fun remainder words => quotient ⟨remainder, words⟩
  · rintro rfl divisor
    exact divide_apply divisor
  · exact ⟨fun exact => yearMonthDurations_exact sum m n, fun exact => dayTimeDurations_exact sum s t⟩

/-- At the edges of the words. -/
theorem arithmetic_exact_or_overflow_edges :
    integerDivide.apply (.integer .minValue) (.integer 10) = .ok (.integer (-922337203685477580)) ∧
    Raises .FOAR0002 (integerDivide.apply (.integer .minValue) (.integer (-1))) ∧
    modulo.apply (.integer .minValue) (.integer 10) = .ok (.integer (-8)) ∧
    Raises .FOAR0001 (modulo.apply (.integer .minValue) (.integer 0)) ∧
    Raises .FOAR0002 (minus.apply (.yearMonthDuration .minValue) (.yearMonthDuration 1)) ∧
    minus.apply (.dayTimeDuration .minValue) (.dayTimeDuration .minValue) = .ok (.dayTimeDuration 0) := by
  obtain ⟨quotient, -⟩ := arithmetic_exact_or_overflow integerDivide .minValue 10 0 0 0 0
  obtain ⟨beyond, -⟩ := arithmetic_exact_or_overflow integerDivide .minValue (-1) 0 0 0 0
  obtain ⟨remainder, -⟩ := arithmetic_exact_or_overflow modulo .minValue 10 0 0 0 0
  obtain ⟨-, zero, -⟩ := arithmetic_exact_or_overflow modulo .minValue 0 0 0 0 0
  obtain ⟨-, -, -, durations⟩ := arithmetic_exact_or_overflow minus 0 0 .minValue 1 .minValue .minValue
  obtain ⟨months, seconds⟩ := durations (.inr rfl)
  refine ⟨(quotient _ rfl (by decide)).fits _ (by decide), ?_, (remainder _ rfl (by decide)).fits _ (by decide),
    zero.2 ⟨rfl, rfl⟩, ?_, (seconds _ rfl).fits _ (by decide)⟩
  · refine (beyond 9223372036854775808 (by decide) (by decide)).overflow_iff.2 fun word same => ?_
    have := word.toInt_lt
    omega
  · refine (months (-2147483649) (by decide)).overflow_iff.2 fun word same => ?_
    have := word.le_toInt
    omega

/-- Nothing remains if the least word is divided by minus one, and still there is an overflow. -/
theorem remainder_of_least_overflows :
    modulo.wholeResult? Int64.minValue.toInt (-1 : Int64).toInt = some (0 : Int64).toInt ∧
      Raises .FOAR0002 (modulo.apply (.integer .minValue) (.integer (-1))) :=
  ⟨by decide, raises_overflow⟩

end Operator

end QueryKernel
