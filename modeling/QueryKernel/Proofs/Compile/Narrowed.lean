import QueryKernel.Eval.Run
import QueryKernel.Proofs.Eval.Keeps
import QueryKernel.Proofs.Expr.Narrow

/-!
# Narrowed types

What stands in place of another expression may get a narrower type, and still gives the same items.

The way in which an expression is evaluated depends on its type, but only on whether that allows at most one
item; and a type narrows to one that is strictly below, so that what is exactly one item keeps its type in place
of anything of a wider item type.
-/

namespace QueryKernel

/-! ## Types -/

/-- Nothing is learnt from the type of anything. -/
theorem narrowed?_anything (found : SequenceType) : narrowed? .anything found = none := by
  refine Option.eq_none_iff_forall_ne_some.2 fun narrower narrowed => ?_
  obtain ⟨different, subtype, _⟩ := narrowed?_ok narrowed
  obtain ⟨type, occurrence⟩ := found
  rw [SequenceType.isSubtype, if_neg (by decide), Bool.and_eq_true] at subtype
  obtain ⟨within, items⟩ := subtype
  have item : type = .item := by
    have above : type ∈ ItemType.item.ancestors := ItemType.isSubtype_iff.1 items
    rw [ItemType.ancestors_eq] at above
    simpa [ItemType.parent?] using above
  have many : occurrence = .zeroOrMore := by
    cases occurrence <;> first | rfl | cases within
  exact different (by rw [item, many]; rfl)

/-- Exactly one item has nothing to learn from a type with a wider item type. -/
theorem narrowed?_above {known found : SequenceType} (one : found.isOne = true)
    (above : found.type.isSubtype known.type = true) : narrowed? known found = none := by
  refine Option.eq_none_iff_forall_ne_some.2 fun narrower narrowed => ?_
  obtain ⟨different, subtype, _⟩ := narrowed?_ok narrowed
  obtain ⟨type, occurrence⟩ := found
  obtain rfl : occurrence = .exactlyOne := beq_iff_eq.1 one
  rw [SequenceType.isSubtype] at subtype
  split at subtype
  · cases subtype
  · next some =>
      rw [Bool.and_eq_true] at subtype
      obtain ⟨within, below⟩ := subtype
      obtain ⟨knownType, knownOccurrence⟩ := known
      have exactly : knownOccurrence = .exactlyOne := by
        cases knownOccurrence <;> first | rfl | cases within
      have same : knownType = type := ItemType.isSubtype_antisymm below above
      exact different (by rw [exactly, same])

theorem SequenceType.isAtMostOne_of_narrowed {known found narrower : SequenceType}
    (narrowed : narrowed? known found = some narrower) (few : found.isAtMostOne = true) :
    narrower.isAtMostOne = true := by
  obtain ⟨within, -⟩ := isSubtype_iff.1 (isSubtype_of_narrowed narrowed)
  have fewer := (Occurrence.isWithin_iff.1 within).2
  simp only [isAtMostOne, Occurrence.atMostOne, decide_eq_true_eq] at few ⊢
  omega

/-! ## Values -/

/-! ## Expressions -/

namespace Expr

variable {e : Expr} {known : SequenceType}

theorem isAtMostOne_assign {t : StaticType} {narrower : SequenceType}
    (few : t.sequenceType.isAtMostOne = true) (fewer : narrower.isAtMostOne = true) :
    (t.assign narrower).sequenceType.isAtMostOne = true := by
  have made := t.assign_assigned narrower
  generalize t.assign narrower = t' at made ⊢
  cases made with
  | empty => rfl
  | ignored | sized => exact few
  | adopted => exact fewer

/-- The ways to evaluate depend on the type only where it says that there is at most one item. -/
theorem modes_assignType (calls : Calls) {narrower : SequenceType} (few : e.isAtMostOne = true)
    (fewer : narrower.isAtMostOne = true) : (e.assignType narrower).modes calls = e.modes calls := by
  have same : ∀ t : StaticType, t.sequenceType.isAtMostOne = true →
      (t.assign narrower).sequenceType.isAtMostOne = t.sequenceType.isAtMostOne :=
    fun t few => (isAtMostOne_assign few fewer).trans few.symm
  cases e with
  | list operands t => simp only [assignType, modes, same t few]
  | range a b t => simp only [assignType, modes, same t few]
  | arithmetic op a b t => simp only [assignType, modes, same t few]
  | comparison op a b t => simp only [assignType, modes, same t few]
  | contextValue t => simp only [assignType, modes, same t few]
  | filter base predicates t => simp only [assignType, modes, same t few]
  | forIn var source body t => simp only [assignType, modes, same t few]
  | varRef var t => simp only [assignType, modes, same t few]
  | call f arguments t => simp only [assignType, modes, same t few]
  | dynamicCall callee arguments t => simp only [assignType, modes, same t few]
  | _ => rfl

/-- At most one item comes in the same ways, whatever is learnt about it. -/
theorem narrow_modes (calls : Calls) (few : e.isAtMostOne = true) (other : e.isLiteral = false) :
    (e.narrow known).modes calls = e.modes calls := by
  obtain same | ⟨narrower, narrowed, assigned⟩ := narrow_cases known other
  · rw [same]
  · rw [assigned]
    exact modes_assignType calls few (SequenceType.isAtMostOne_of_narrowed narrowed few)

end Expr

end QueryKernel
