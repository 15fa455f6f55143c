import QueryKernel.Expr.Static

/-!
# Static sizes

What the static type of an expression made from others says about the number of items, in terms of the
numbers that the types of its parts allow.

The non-trivial ingredient is `Occurrence.most`: an upper bound of two stands for any number, so sums and
products of upper bounds are cut off there.
-/

namespace QueryKernel

namespace Occurrence

/-- The upper bound of the allowed sizes, where two stands for any number. -/
def most (o : Occurrence) : Nat := o.bounds.2

@[simp] theorem most_zero : zero.most = 0 := rfl
@[simp] theorem most_zeroOrOne : zeroOrOne.most = 1 := rfl
@[simp] theorem most_exactlyOne : exactlyOne.most = 1 := rfl
@[simp] theorem most_zeroOrMore : zeroOrMore.most = 2 := rfl
@[simp] theorem most_oneOrMore : oneOrMore.most = 2 := rfl

theorem most_ofSize (n : Nat) : (ofSize n).most = min n 2 := by
  match n with
  | 0 => rfl
  | 1 => rfl
  | n + 2 => exact (Nat.min_eq_right (Nat.le_add_left 2 n)).symm

theorem most_union (a b : Occurrence) : (a.union b).most = max a.most b.most := by
  cases a <;> cases b <;> rfl

theorem most_add (a b : Occurrence) : (a.add b).most = min (a.most + b.most) 2 := by
  cases a <;> cases b <;> rfl

theorem most_mul (a b : Occurrence) : (a.mul b).most = min (a.most * b.most) 2 := by
  cases a <;> cases b <;> rfl

theorem atMostOne_iff (o : Occurrence) : o.atMostOne = true ↔ o.most ≤ 1 := by
  cases o <;> decide

theorem eq_zero_iff (o : Occurrence) : o = zero ↔ o.most = 0 := by
  cases o <;> decide

/-- An allowed size is within the upper bound. -/
theorem le_most_of_allows {o : Occurrence} {size : Nat} (allowed : o.allows size = true)
    (bounded : o.most < 2) : size ≤ o.most := by
  cases o with
  | zero => simpa [allows, greatest?, bounds, least] using allowed
  | zeroOrOne => simpa [allows, greatest?, bounds, least] using allowed
  | exactlyOne =>
      simp only [allows, greatest?, bounds, Bool.and_eq_true] at allowed
      simpa using allowed.2
  | zeroOrMore => exact absurd bounded (by decide)
  | oneOrMore => exact absurd bounded (by decide)

end Occurrence

namespace SequenceType

/-- The upper bound of the allowed sizes, where two stands for any number. -/
def most (s : SequenceType) : Nat := s.occurrence.most

theorem isAtMostOne_iff (s : SequenceType) : s.isAtMostOne = true ↔ s.most ≤ 1 :=
  s.occurrence.atMostOne_iff

theorem isEmpty_iff (s : SequenceType) : s.isEmpty = true ↔ s.most = 0 := by
  rw [most, ← Occurrence.eq_zero_iff, isEmpty, beq_iff_eq]

end SequenceType

namespace StaticType

/-- A number of items is within an upper bound and agrees with an exact size. -/
structure Admits (t : StaticType) (AtMost : Nat → Prop) : Prop where
  exact : ∀ n, t.size? = some n → AtMost n
  most : t.sequenceType.most < 2 → AtMost t.sequenceType.most

variable {AtMost : Nat → Prop} {s : SequenceType}

/-- The size of a sequence type is known where its occurrence allows only one. -/
theorem Admits.ofSequenceType (most : s.most < 2 → AtMost s.most) :
    (StaticType.ofSequenceType s).Admits AtMost := by
  refine ⟨fun n known => ?_, most⟩
  obtain ⟨type, occurrence⟩ := s
  cases occurrence with
  | zero =>
      cases known
      exact most Nat.zero_lt_two
  | exactlyOne =>
      cases known
      exact most Nat.one_lt_two
  | zeroOrOne => cases known
  | zeroOrMore => cases known
  | oneOrMore => cases known

/-- Any number of items. -/
theorem Admits.many (many : s.most = 2) : (StaticType.ofSequenceType s).Admits AtMost :=
  .ofSequenceType fun few => by omega

theorem Admits.sized {type : ItemType} {n : Nat} (given : AtMost n) :
    (StaticType.sized type n).Admits AtMost := by
  have most : (StaticType.sized type n).sequenceType.most = min n 2 := Occurrence.most_ofSize n
  refine ⟨fun m known => ?_, fun few => ?_⟩
  · cases known
    exact given
  · rw [most] at few ⊢
    rw [show min n 2 = n by omega]
    exact given

theorem Admits.mono {t : StaticType} {wider : Nat → Prop} (admits : t.Admits AtMost)
    (implies : ∀ n, AtMost n → wider n) : t.Admits wider :=
  ⟨fun n known => implies n (admits.exact n known), fun few => implies _ (admits.most few)⟩

end StaticType

/-- The sum of numbers that belong to the elements of a list. -/
def sumOver {A : Type} (number : A → Nat) : List A → Nat
  | [] => 0
  | a :: rest => number a + sumOver number rest

theorem le_sumOver {A : Type} (number : A → Nat) {list : List A} {a : A} (member : a ∈ list) :
    number a ≤ sumOver number list := by
  induction member with
  | head rest => exact Nat.le_add_right _ _
  | tail b _ inside => exact Nat.le_trans inside (Nat.le_add_left _ _)

namespace Expr

/-! ## Sequences -/

theorem knownSize_eq_some {n m : Nat} : knownSize n = some m ↔ n = m ∧ n ≤ maxSize := by
  unfold knownSize
  split
  · next fits => simp [fits]
  · next long => simp [long]

/-- The upper bound of a sequence type made by adding up those of operands. -/
theorem most_foldl_add (operands : List Expr) (s : SequenceType) :
    (operands.foldl (fun s e => (s.union e.sequenceType).withOccurrence
      (s.occurrence.add e.sequenceType.occurrence)) s).most =
      min (s.most + sumOver (·.sequenceType.most) operands) 2 := by
  induction operands generalizing s with
  | nil =>
      obtain ⟨type, occurrence⟩ := s
      cases occurrence <;> rfl
  | cons e rest rest_ih =>
      rw [List.foldl_cons, rest_ih, sumOver]
      have added : ((s.union e.sequenceType).withOccurrence
          (s.occurrence.add e.sequenceType.occurrence)).most = min (s.most + e.sequenceType.most) 2 :=
        Occurrence.most_add _ _
      rw [added]
      omega

theorem foldl_sizes_none (operands : List Expr) :
    operands.foldl (fun n e => do knownSize ((← n) + (← e.size?))) none = none := by
  induction operands with
  | nil => rfl
  | cons e rest rest_ih => exact rest_ih

/-- Adding up stops at the first size that is not known, or when the sum does not fit. -/
theorem foldl_sizes_eq_some_iff {operands : List Expr} {known n : Nat} (fits : known ≤ maxSize) :
    operands.foldl (fun n e => do knownSize ((← n) + (← e.size?))) (some known) = some n ↔
      (∀ e ∈ operands, e.size?.isSome = true) ∧ known + sumOver (·.size?.getD 0) operands = n ∧
        n ≤ maxSize := by
  induction operands generalizing known with
  | nil =>
      rw [List.foldl_nil, sumOver, Nat.add_zero, Option.some.injEq]
      exact ⟨fun same => ⟨List.forall_mem_nil _, same, same ▸ fits⟩, fun given => given.2.1⟩
  | cons e rest rest_ih =>
      rw [List.foldl_cons, List.forall_mem_cons, sumOver]
      cases size : e.size? with
      | none =>
          have added : (do knownSize ((← some known) + (← (none : Option Nat)))) = none := rfl
          rw [added, foldl_sizes_none]
          exact iff_of_false (fun found => by cases found) fun given => by cases given.1.1
      | some m =>
          have added : (do knownSize ((← some known) + (← some m))) = knownSize (known + m) := rfl
          rw [added, knownSize, Option.getD_some, Option.isSome_some, and_iff_right rfl, ← Nat.add_assoc]
          split
          · next fits => rw [rest_ih fits]
          · next beyond =>
              rw [foldl_sizes_none]
              refine iff_of_false (fun found => by cases found) fun given => beyond ?_
              exact Nat.le_trans (Nat.le_add_right _ _) (given.2.1 ▸ given.2.2)

theorem size?_eq_some {e : Expr} (known : e.size?.isSome = true) : e.size? = some (e.size?.getD 0) := by
  obtain ⟨n, size⟩ := Option.isSome_iff_exists.1 known
  rw [size, Option.getD_some]

theorem concatType_admits {operands : List Expr} {AtMost : Nat → Prop}
    (exact : (∀ e ∈ operands, e.size? = some (e.size?.getD 0)) →
      AtMost (sumOver (·.size?.getD 0) operands))
    (most : sumOver (·.sequenceType.most) operands < 2 →
      AtMost (sumOver (·.sequenceType.most) operands)) : (concatType operands).Admits AtMost := by
  unfold concatType
  dsimp only
  split
  · next n sizes =>
      obtain ⟨all, rfl, -⟩ := (foldl_sizes_eq_some_iff (Nat.zero_le _)).1 sizes
      rw [Nat.zero_add]
      exact .sized (exact fun e member => size?_eq_some (all e member))
  · refine .ofSequenceType fun few => ?_
    rw [most_foldl_add, show SequenceType.empty.most = 0 from rfl, Nat.zero_add] at few ⊢
    rw [Nat.min_eq_left (by omega)]
    exact most (by omega)

/-! ## Branches and loops -/

theorem branchType_admits {yes no : Expr} {Yes No AtMost : Nat → Prop}
    (positive : yes.staticType.Admits Yes) (negative : no.staticType.Admits No)
    (either : ∀ m n, Yes m → No n → AtMost (max m n)) : (branchType yes no).Admits AtMost := by
  have occurrence : ((yes.sequenceType.union no.sequenceType).most < 2 →
      AtMost (yes.sequenceType.union no.sequenceType).most) := by
    have most : (yes.sequenceType.union no.sequenceType).most =
        max yes.sequenceType.most no.sequenceType.most := Occurrence.most_union _ _
    rw [most]
    intro few
    exact either _ _ (positive.most (show yes.sequenceType.most < 2 by omega))
      (negative.most (show no.sequenceType.most < 2 by omega))
  unfold branchType
  dsimp only
  split
  · next m n knownYes knownNo =>
      split
      · next same =>
          subst same
          have joined := either m m (positive.exact m knownYes) (negative.exact m knownNo)
          rw [Nat.max_self] at joined
          exact .sized joined
      · exact .ofSequenceType occurrence
  · exact .ofSequenceType occurrence

/-- A product of upper bounds that is not cut off has factors that are not, unless one of them is
zero. -/
theorem product_admitted {Source Body AtMost : Nat → Prop} {a b : Nat} (input : a < 2 → Source a)
    (result : b < 2 → Body b) (product : ∀ m n, Source m → Body n → AtMost (m * n))
    (noInput : Source 0 → AtMost 0) (noResult : Body 0 → AtMost 0) (few : min (a * b) 2 < 2) :
    AtMost (min (a * b) 2) := by
  rcases Nat.eq_zero_or_pos a with rfl | someInput
  · rw [Nat.zero_mul]
    exact noInput (input (by omega))
  rcases Nat.eq_zero_or_pos b with rfl | someResult
  · rw [Nat.mul_zero]
    exact noResult (result (by omega))
  have lower : a ≤ a * b := Nat.le_mul_of_pos_right a someResult
  have lower' : b ≤ a * b := Nat.le_mul_of_pos_left b someInput
  rw [Nat.min_eq_left (by omega)]
  exact product a b (input (by omega)) (result (by omega))

theorem loopType_admits {source body : Expr} {Source Body AtMost : Nat → Prop}
    (input : source.staticType.Admits Source) (result : body.staticType.Admits Body)
    (product : ∀ m n, Source m → Body n → AtMost (m * n)) (noInput : Source 0 → AtMost 0)
    (noResult : Body 0 → AtMost 0) : (loopType source body).Admits AtMost := by
  have occurrence : (source.sequenceType.occurrence.mul body.sequenceType.occurrence).most < 2 →
      AtMost (source.sequenceType.occurrence.mul body.sequenceType.occurrence).most := by
    rw [Occurrence.most_mul]
    exact product_admitted input.most result.most product noInput noResult
  unfold loopType
  dsimp only
  split
  · next zero =>
      refine .ofSequenceType fun _ => ?_
      rw [zero] at occurrence
      exact occurrence (by decide)
  · split
    · next n sizes =>
        simp only [bind, Option.bind_eq_some_iff, knownSize_eq_some] at sizes
        obtain ⟨m, knownSource, k, knownBody, rfl, _⟩ := sizes
        exact .sized (product m k (input.exact m knownSource) (result.exact k knownBody))
    · exact .ofSequenceType occurrence

/-! ## Operators -/

theorem arithmeticType_admits (op : Operator) (a b : Expr) {AtMost : Nat → Prop} (one : AtMost 1) :
    (arithmeticType op a b).Admits AtMost := by
  unfold arithmeticType
  refine .ofSequenceType fun _ => ?_
  split
  · exact one
  · exact one

theorem comparisonType_admits (a b : Expr) {AtMost : Nat → Prop} (one : AtMost 1) :
    (comparisonType a b).Admits AtMost := by
  unfold comparisonType
  refine .ofSequenceType fun _ => ?_
  split
  · exact one
  · exact one

/-! ## Filters and calls -/

theorem filterType_admits {base : Expr} {predicates : List Expr} {Base AtMost : Nat → Prop}
    (input : base.staticType.Admits Base) (none : Base 0 → AtMost 0) (one : Base 1 → AtMost 1)
    (selected : predicates.any (·.position?.isSome) = true → AtMost 1) :
    (filterType base predicates).Admits AtMost := by
  unfold filterType
  dsimp only
  refine .ofSequenceType ?_
  split
  · next empty =>
      intro _
      have given := input.most
      rw [show base.staticType.sequenceType.most = 0 from (SequenceType.isEmpty_iff _).1 empty] at given
      exact none (given Nat.zero_lt_two)
  · next some =>
      split
      · next few =>
          intro _
          rcases Bool.or_eq_true _ _ ▸ few with atMostOne | positional
          · have upper := (SequenceType.isAtMostOne_iff _).1 atMostOne
            have lower : base.sequenceType.most ≠ 0 := fun zero => some ((SequenceType.isEmpty_iff _).2 zero)
            have given := input.most
            rw [show base.staticType.sequenceType.most = 1 from
              show base.sequenceType.most = 1 by omega] at given
            exact one (given Nat.one_lt_two)
          · exact selected positional
      · exact fun few => absurd few (by simp [SequenceType.most, SequenceType.withOccurrence])

end Expr

namespace BuiltIn

/-- The first item of a sequence: there is none if the sequence is known to be empty. -/
theorem head_resultType_admits {first : Expr} {rest : List Expr} {First AtMost : Nat → Prop}
    (input : first.staticType.Admits First) (none : First 0 → AtMost 0) (one : AtMost 1) :
    (head.resultType (first :: rest)).Admits AtMost := by
  by_cases empty : first.sequenceType.isEmpty = true
  · have given := input.most
    rw [show first.staticType.sequenceType.most = 0 from (SequenceType.isEmpty_iff _).1 empty] at given
    have type : head.resultType (first :: rest) = .ofSequenceType .empty := by
      simp [resultType, empty]
    rw [type]
    exact .ofSequenceType fun _ => none (given Nat.zero_lt_two)
  · by_cases some : 0 < first.sequenceType.occurrence.least
    · have type : head.resultType (first :: rest) = .ofSequenceType (.one first.sequenceType.type) := by
        simp [resultType, empty, some]
      rw [type]
      exact .ofSequenceType fun _ => one
    · have type : head.resultType (first :: rest) =
          .ofSequenceType (.optional first.sequenceType.type) := by
        simp [resultType, empty, some]
      rw [type]
      exact .ofSequenceType fun _ => one

/-- The functions that compute one thing from a sequence. -/
theorem single_resultType_admits {f : BuiltIn} (single : f = count ∨ f = sum ∨ f = avg)
    (arguments : List Expr) {AtMost : Nat → Prop} (one : AtMost 1) :
    (f.resultType arguments).Admits AtMost := by
  rcases single with rfl | rfl | rfl
  · exact .ofSequenceType fun _ => one
  · refine .ofSequenceType ?_
    split
    · exact fun _ => one
    · exact fun _ => one
  · exact .ofSequenceType fun _ => one

end BuiltIn

end QueryKernel
