import QueryKernel.Proofs.Expr.Narrow
import QueryKernel.Proofs.Expr.Sizes

/-!
# Types of nothing

Which static types allow the empty sequence only, and where such types come from: for every way in which
types are put together, from which operands the emptiness was taken.

Narrowing adds nothing: a narrower type that allows nothing but the empty sequence is only ever found if it was
known before, because a type narrows to a subtype of it.
-/

namespace QueryKernel

namespace StaticType

/-- No items are allowed, or it is known that there are none. -/
def IsNil (t : StaticType) : Prop := t.sequenceType.occurrence = .zero ∨ t.size? = some 0

theorem isNil_ofSequenceType {s : SequenceType} :
    (ofSequenceType s).IsNil ↔ s.occurrence = .zero := by
  obtain ⟨type, occurrence⟩ := s
  cases occurrence <;> simp [IsNil, ofSequenceType]

theorem isNil_sized {type : ItemType} {n : Nat} : (sized type n).IsNil ↔ n = 0 := by
  match n with
  | 0 => simp [IsNil, sized]
  | 1 => simp [IsNil, sized, Occurrence.ofSize]
  | n + 2 => simp [IsNil, sized, Occurrence.ofSize]

theorem isNil_of_assign {t : StaticType} {narrower : SequenceType} (nil : (t.assign narrower).IsNil) :
    t.IsNil ∨ narrower.occurrence = .zero := by
  have made := t.assign_assigned narrower
  generalize t.assign narrower = t' at made nil
  cases made with
  | empty none => exact none.imp .inr fun ⟨_, empty⟩ => beq_iff_eq.1 empty
  | ignored => exact .inl nil
  | sized size occupied =>
      rcases nil with zero | none
      · exact .inl (.inl zero)
      · exact absurd (Option.some.inj none) occupied
  | adopted => exact .inr (isNil_ofSequenceType.1 nil)

end StaticType

namespace Occurrence

theorem zero_of_add {a b : Occurrence} (zero : a.add b = .zero) : a = .zero ∧ b = .zero := by
  cases a <;> cases b <;> first | exact ⟨rfl, rfl⟩ | cases zero

theorem zero_of_union {a b : Occurrence} (zero : a.union b = .zero) : a = .zero ∧ b = .zero := by
  cases a <;> cases b <;> first | exact ⟨rfl, rfl⟩ | cases zero

theorem zero_of_mul {a b : Occurrence} (zero : a.mul b = .zero) : a = .zero ∨ b = .zero := by
  cases a <;> cases b <;> first | exact .inl rfl | exact .inr rfl | cases zero

theorem size_of_zero {n : Nat} (zero : ofSize n = .zero) : n = 0 := by
  match n with
  | 0 => rfl
  | 1 => cases zero
  | n + 2 => cases zero

end Occurrence

namespace Expr

variable {e : Expr}

theorem isNil_assignType {narrower : SequenceType} (nil : (e.assignType narrower).staticType.IsNil) :
    e.staticType.IsNil ∨ narrower.occurrence = .zero := by
  cases e <;> first | exact .inl nil | exact StaticType.isNil_of_assign nil

theorem isNil_narrow {known : SequenceType} (nil : (e.narrow known).staticType.IsNil) :
    e.staticType.IsNil ∨ known.occurrence = .zero := by
  cases literal : e.isLiteral with
  | false =>
      obtain same | ⟨narrower, narrowed, assigned⟩ := narrow_cases known literal
      · exact .inl (same ▸ nil)
      · rw [assigned] at nil
        exact (isNil_assignType nil).imp_right fun zero => (occurrence_of_narrowed narrowed).symm.trans zero
  | true =>
      cases e with
      | literal v =>
          have none : (v.narrow known).size = 0 := StaticType.isNil_sized.1 nil
          rw [ValueOf.size_narrow] at none
          exact .inl (StaticType.isNil_sized.2 none)
      | _ => cases literal

/-! ## Types of sequence constructors -/

theorem isNil_of_sizes {operands : List Expr} {start : Option Nat}
    (size : operands.foldl (fun n e => do knownSize ((← n) + (← e.size?))) start = some 0) :
    start = some 0 ∧ ∀ e ∈ operands, e.size? = some 0 := by
  induction operands generalizing start with
  | nil => exact ⟨size, fun _ member => by cases member⟩
  | cons e rest rest_ih =>
      obtain ⟨here, later⟩ := rest_ih size
      obtain ⟨m, first, sum⟩ := Option.bind_eq_some_iff.1 here
      obtain ⟨n, second, known⟩ := Option.bind_eq_some_iff.1 sum
      have total : m + n = 0 := by
        unfold knownSize at known
        split at known
        · exact Option.some.inj known
        · cases known
      obtain ⟨rfl, rfl⟩ : m = 0 ∧ n = 0 := by omega
      exact ⟨first, List.forall_mem_cons.2 ⟨second, later⟩⟩

theorem isNil_of_occurrences {operands : List Expr} {start : SequenceType}
    (zero : (operands.foldl (fun s e => (s.union e.sequenceType).withOccurrence
      (s.occurrence.add e.sequenceType.occurrence)) start).occurrence = .zero) :
    start.occurrence = .zero ∧ ∀ e ∈ operands, e.sequenceType.occurrence = .zero := by
  induction operands generalizing start with
  | nil => exact ⟨zero, fun _ member => by cases member⟩
  | cons e rest rest_ih =>
      obtain ⟨here, later⟩ := rest_ih zero
      obtain ⟨first, second⟩ := Occurrence.zero_of_add here
      exact ⟨first, List.forall_mem_cons.2 ⟨second, later⟩⟩

theorem isNil_concatType {operands : List Expr} (nil : (concatType operands).IsNil) :
    ∀ e ∈ operands, e.staticType.IsNil := by
  intro e member
  unfold concatType at nil
  dsimp only at nil
  split at nil
  · next n size =>
      rw [StaticType.isNil_sized.1 nil] at size
      exact .inr ((isNil_of_sizes size).2 e member)
  · exact .inl ((isNil_of_occurrences (StaticType.isNil_ofSequenceType.1 nil)).2 e member)

/-! ## Types of the other nodes -/

theorem isNil_branchType {yes no : Expr} (nil : (branchType yes no).IsNil) :
    yes.staticType.IsNil ∧ no.staticType.IsNil := by
  have both : (StaticType.ofSequenceType (yes.sequenceType.union no.sequenceType)).IsNil →
      yes.staticType.IsNil ∧ no.staticType.IsNil := by
    intro union
    obtain ⟨left, right⟩ := Occurrence.zero_of_union (StaticType.isNil_ofSequenceType.1 union)
    exact ⟨.inl left, .inl right⟩
  unfold branchType at nil
  dsimp only at nil
  split at nil
  · next m n first second =>
      split at nil
      · next same =>
          have none := StaticType.isNil_sized.1 nil
          subst same
          rw [none] at first second
          exact ⟨.inr first, .inr second⟩
      · exact both nil
  · exact both nil

theorem isNil_filterType {base : Expr} {predicates : List Expr}
    (nil : (filterType base predicates).IsNil) : base.staticType.IsNil := by
  have zero := StaticType.isNil_ofSequenceType.1 nil
  dsimp only [SequenceType.withOccurrence] at zero
  split at zero
  · next empty => exact .inl (beq_iff_eq.1 empty)
  · split at zero <;> cases zero

theorem isNil_loopType {source body : Expr} (nil : (loopType source body).IsNil) :
    source.staticType.IsNil ∨ body.staticType.IsNil := by
  unfold loopType at nil
  dsimp only at nil
  split at nil
  · next zero =>
      exact (Occurrence.zero_of_mul zero).imp .inl .inl
  · next nonzero =>
      split at nil
      · next n size =>
          rw [StaticType.isNil_sized.1 nil] at size
          obtain ⟨a, first, product⟩ := Option.bind_eq_some_iff.1 size
          obtain ⟨b, second, known⟩ := Option.bind_eq_some_iff.1 product
          have none : a * b = 0 := by
            unfold knownSize at known
            split at known
            · exact Option.some.inj known
            · cases known
          rcases Nat.mul_eq_zero.1 none with rfl | rfl
          · exact .inl (.inr first)
          · exact .inr (.inr second)
      · exact absurd (StaticType.isNil_ofSequenceType.1 nil) nonzero

theorem arithmeticType_not_nil {op : Operator} {a b : Expr} : ¬(arithmeticType op a b).IsNil := by
  intro nil
  have zero := StaticType.isNil_ofSequenceType.1 nil
  split at zero <;> cases zero

theorem comparisonType_not_nil {a b : Expr} : ¬(comparisonType a b).IsNil := by
  intro nil
  have zero := StaticType.isNil_ofSequenceType.1 nil
  split at zero <;> cases zero

/-- The functions that select items take the emptiness over from their first argument. -/
theorem isNil_resultType {f : BuiltIn} {arguments : List Expr} (nil : (f.resultType arguments).IsNil) :
    (f = .head ∨ f = .reverse ∨ f = .sortWith) ∧
      ∃ argument others, arguments = argument :: others ∧ argument.staticType.IsNil := by
  have taken : (((arguments.head?).map Expr.staticType).getD (.ofSequenceType .anything)).IsNil →
      ∃ argument others, arguments = argument :: others ∧ argument.staticType.IsNil := by
    intro same
    cases arguments with
    | nil => cases StaticType.isNil_ofSequenceType.1 same
    | cons argument others => exact ⟨argument, others, rfl, same⟩
  cases f with
  | head =>
      have zero := StaticType.isNil_ofSequenceType.1 nil
      cases arguments with
      | nil => cases zero
      | cons argument others =>
          by_cases empty : argument.sequenceType.isEmpty = true
          · exact ⟨.inl rfl, argument, others, rfl, .inl (beq_iff_eq.1 empty)⟩
          · have shown : (if argument.sequenceType.isEmpty = true then SequenceType.empty
                else if 0 < argument.sequenceType.occurrence.least then
                  SequenceType.one argument.sequenceType.type
                else SequenceType.optional argument.sequenceType.type).occurrence = .zero := zero
            rw [if_neg empty] at shown
            split at shown <;> cases shown
  | reverse => exact ⟨.inr (.inl rfl), taken nil⟩
  | sortWith => exact ⟨.inr (.inr rfl), taken nil⟩
  | count | avg | error | foldLeft1 => cases StaticType.isNil_ofSequenceType.1 nil
  | sum =>
      have zero := StaticType.isNil_ofSequenceType.1 nil
      split at zero <;> cases zero

end Expr

end QueryKernel
