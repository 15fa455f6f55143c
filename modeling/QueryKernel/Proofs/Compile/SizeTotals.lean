import QueryKernel.Proofs.Compile.Refined
import QueryKernel.Proofs.Compile.Succeed
import QueryKernel.Proofs.Expr.Sizes

/-!
# Sizes known in advance

The numbers of items that are added up and multiplied before anything is evaluated.  Those of sequences and loops are
exact or not known, and a known one fits 64 bits.  The number of items in literal arguments of a function is added up
in any case, so it may be too large.

The non-trivial ingredient is `Occurrence.Settles`: a static type also knows a size where its occurrence allows
only one, and a sum or product that does not fit must not come back that way.
-/

namespace QueryKernel

variable {calls : Calls}

open QueryKernel.Expr

/-! ## Occurrences that allow one size -/

namespace Occurrence

variable {a b : Occurrence} {m? n? : Option Nat}

theorem add_eq_zero_iff : a.add b = .zero ↔ a = .zero ∧ b = .zero := by
  cases a <;> cases b <;> decide

theorem add_eq_exactlyOne_iff :
    a.add b = .exactlyOne ↔ a = .exactlyOne ∧ b = .zero ∨ a = .zero ∧ b = .exactlyOne := by
  cases a <;> cases b <;> decide

theorem mul_eq_zero_iff : a.mul b = .zero ↔ a = .zero ∨ b = .zero := by
  cases a <;> cases b <;> decide

theorem mul_eq_exactlyOne_iff : a.mul b = .exactlyOne ↔ a = .exactlyOne ∧ b = .exactlyOne := by
  cases a <;> cases b <;> decide

/-- Where the occurrence allows only one size, that is the known one. -/
structure Settles (o : Occurrence) (size? : Option Nat) : Prop where
  nothing : o = .zero → size? = some 0
  single : o = .exactlyOne → size? = some 1

theorem settles_ofSize (n : Nat) : (ofSize n).Settles (some n) := by
  match n with
  | 0 => exact ⟨fun _ => rfl, fun one => by cases one⟩
  | 1 => exact ⟨fun zero => (by cases zero), fun _ => rfl⟩
  | _ + 2 => exact ⟨fun zero => (by cases zero), fun one => by cases one⟩

theorem Settles.add (first : a.Settles m?) (second : b.Settles n?) :
    (a.add b).Settles (do knownSize ((← m?) + (← n?))) := by
  constructor
  · intro zero
    obtain ⟨left, right⟩ := add_eq_zero_iff.1 zero
    rw [first.nothing left, second.nothing right]
    rfl
  · intro exactlyOne
    rcases add_eq_exactlyOne_iff.1 exactlyOne with ⟨left, right⟩ | ⟨left, right⟩
    · rw [first.single left, second.nothing right]
      rfl
    · rw [first.nothing left, second.single right]
      rfl

theorem settles_ofSequenceType (s : SequenceType) : s.occurrence.Settles (StaticType.ofSequenceType s).size? := by
  obtain ⟨type, occurrence⟩ := s
  cases occurrence with
  | zero => exact settles_ofSize 0
  | exactlyOne => exact settles_ofSize 1
  | zeroOrOne | zeroOrMore | oneOrMore => exact ⟨fun zero => (by cases zero), fun one => by cases one⟩

/-- If no size is known, none comes back with the occurrence. -/
theorem Settles.unknown {s : SequenceType} (settles : s.occurrence.Settles none) :
    (StaticType.ofSequenceType s).size? = none := by
  obtain ⟨type, occurrence⟩ := s
  cases occurrence with
  | zero => cases settles.nothing rfl
  | exactlyOne => cases settles.single rfl
  | zeroOrOne | zeroOrMore | oneOrMore => rfl

end Occurrence

theorem StaticType.Formed.settles {t : StaticType} (formed : t.Formed) :
    t.sequenceType.occurrence.Settles t.size? := by
  induction formed with
  | ofSequenceType s => exact Occurrence.settles_ofSequenceType s
  | sized type n => exact Occurrence.settles_ofSize n
  | @assigned t formed narrower formed_ih =>
      have made := t.assign_assigned narrower
      generalize t.assign narrower = t' at made ⊢
      cases made with
      | empty => exact Occurrence.settles_ofSize 0
      | ignored => exact formed_ih
      | sized known =>
          rw [known] at formed_ih
          exact formed_ih
      | adopted => exact Occurrence.settles_ofSequenceType narrower

/-! ## Sequences and loops -/

namespace Expr

variable {operands : List Expr} {source body : Expr} {n : Nat}

/-- The size of a sequence is the checked sum, whatever its occurrence allows. -/
theorem concatType_size? (formed : ∀ e ∈ operands, e.staticType.Formed) : (concatType operands).size? =
    operands.foldl (fun n e => do knownSize ((← n) + (← e.size?))) (some 0) := by
  have settles : ∀ (s : SequenceType) (known? : Option Nat), s.occurrence.Settles known? →
      (operands.foldl (fun s e => (s.union e.sequenceType).withOccurrence
        (s.occurrence.add e.sequenceType.occurrence)) s).occurrence.Settles
        (operands.foldl (fun n e => do knownSize ((← n) + (← e.size?))) known?) := by
    induction operands with
    | nil => exact fun _ _ => id
    | cons e rest rest_ih =>
        intro s known? settles
        rw [List.foldl_cons, List.foldl_cons]
        refine rest_ih (fun e member => formed e (List.mem_cons_of_mem _ member)) _ _ ?_
        exact settles.add (formed e List.mem_cons_self).settles
  have total := settles .empty (some 0) (Occurrence.settles_ofSize 0)
  unfold concatType
  dsimp only
  split
  · next n sizes => exact sizes.symm
  · next unknown =>
      rw [unknown] at total
      exact total.unknown.trans unknown.symm

/-- The size of a loop is the checked product, or nothing. -/
theorem loopType_size? (input : source.staticType.Formed) (result : body.staticType.Formed) :
    (loopType source body).size? = some n ↔
      (∃ a b, source.size? = some a ∧ body.size? = some b ∧ a * b = n ∧ n ≤ maxSize) ∨
        (source.size? = some 0 ∨ body.size? = some 0) ∧ n = 0 := by
  have nothing : source.sequenceType.occurrence.mul body.sequenceType.occurrence = .zero ↔
      source.size? = some 0 ∨ body.size? = some 0 := by
    rw [Occurrence.mul_eq_zero_iff]
    exact or_congr ⟨input.settles.nothing, input.occurrence_eq⟩ ⟨result.settles.nothing, result.occurrence_eq⟩
  unfold loopType
  dsimp only
  -- A factor of zero decides alone; otherwise both sizes have to be known.
  split
  · next zero =>
      have empty := nothing.1 zero
      have known : (StaticType.ofSequenceType .empty).size? = some 0 := rfl
      rw [known, Option.some.injEq]
      constructor
      · rintro rfl
        exact .inr ⟨empty, rfl⟩
      · rintro (⟨a, b, left, right, rfl, -⟩ | ⟨-, rfl⟩)
        · rw [left, right, Option.some.injEq, Option.some.injEq] at empty
          exact (Nat.mul_eq_zero.2 empty).symm
        · rfl
  · next occupied =>
      rw [or_iff_left fun given => occupied (nothing.2 given.1)]
      have product : (do knownSize ((← source.size?) * (← body.size?))) = some n ↔
          ∃ a b, source.size? = some a ∧ body.size? = some b ∧ a * b = n ∧ n ≤ maxSize := by
        simp only [bind, Option.bind_eq_some_iff, knownSize_eq_some]
        constructor
        · rintro ⟨a, left, b, right, rfl, fits⟩
          exact ⟨a, b, left, right, rfl, fits⟩
        · rintro ⟨a, b, left, right, rfl, fits⟩
          exact ⟨a, left, b, right, rfl, fits⟩
      rw [← product]
      split
      · next m sizes =>
          rw [sizes]
          rfl
      · next unknown =>
          rw [unknown]
          -- An occurrence of one would make both sizes known, so that nothing is known of the product.
          have settles : Occurrence.Settles (source.sequenceType.occurrence.mul body.sequenceType.occurrence)
              none := by
            refine ⟨fun zero => absurd zero occupied, fun one => ?_⟩
            obtain ⟨left, right⟩ := Occurrence.mul_eq_exactlyOne_iff.1 one
            have size : source.size? = some 1 := input.settles.single left
            have size' : body.size? = some 1 := result.settles.single right
            rw [size, size'] at unknown
            cases unknown
          rw [settles.unknown]

/-! ## Trees as they are built -/

/-- A literal fits 64 bits, and so does the size that is known of an error left for evaluation. -/
def Admitted : Expr → Prop
  | literal v => v.size ≤ maxSize
  | deferred _ type _ => type.Formed ∧ ∀ n, type.size? = some n → n ≤ maxSize
  | _ => True

theorem ofSequenceType_fits (s : SequenceType) (n : Nat) (known : (StaticType.ofSequenceType s).size? = some n) :
    n ≤ maxSize := by
  obtain ⟨type, occurrence⟩ := s
  cases occurrence with
  | zero | exactlyOne =>
      cases known
      decide
  | zeroOrOne | zeroOrMore | oneOrMore => cases known

theorem resultType_fits (f : BuiltIn) {arguments : List Expr}
    (fit : ∀ e ∈ arguments, ∀ n, e.size? = some n → n ≤ maxSize) (n : Nat)
    (known : (f.resultType arguments).size? = some n) : n ≤ maxSize := by
  cases f with
  | reverse | sortWith =>
      cases arguments with
      | nil => exact ofSequenceType_fits _ n known
      | cons first rest => exact fit first List.mem_cons_self n known
  | _ => exact ofSequenceType_fits _ n known

theorem Admitted.formed {declared : Declarations} {good : Item → Prop} {e : Expr} (built : e.Built declared good)
    (admitted : e.Every Admitted) : e.staticType.Formed := by
  refine built.formed (admitted.mono fun s _ given error type location same => ?_)
  subst same
  exact given.1

/-- The known size of a tree as it is built from what is admitted fits. -/
theorem Built.size_fits {declared : Declarations} {good : Item → Prop} {e : Expr} (built : e.Built declared good)
    (admitted : e.Every Admitted) (n : Nat) (known : e.size? = some n) : n ≤ maxSize := by
  induction built generalizing n with
  | literal =>
      cases known
      exact admitted.here
  | list built =>
      have formed := fun e member => Admitted.formed (built e member) (admitted.part member)
      exact ((foldl_sizes_eq_some_iff (Nat.zero_le _)).1 ((concatType_size? formed).symm.trans known)).2.2
  | @conditional test yes no location _ _ _ _ positive_ih _ =>
      have unfolded : (branchType yes no).size? = some n := known
      unfold branchType at unfolded
      dsimp only at unfolded
      split at unfolded
      · next size _ =>
          split at unfolded
          · cases unfolded
            exact positive_ih (admitted.part (by simp [conditionalOf, parts])) _ size
          · exact ofSequenceType_fits _ n unfolded
      · exact ofSequenceType_fits _ n unfolded
  | forIn _ input result =>
      have formed := Admitted.formed input (admitted.part (by simp [forOf, parts]))
      have formed' := Admitted.formed result (admitted.part (by simp [forOf, parts]))
      rcases (loopType_size? formed formed').1 known with ⟨_, _, _, _, _, fits⟩ | ⟨_, rfl⟩
      · exact fits
      · exact Nat.zero_le _
  | letIn _ _ _ _ result_ih => exact result_ih (admitted.part (by simp [parts])) n known
  | call _ _ parts_ih =>
      exact resultType_fits _ (fun e member => parts_ih e member (admitted.part member)) n known
  | deferred => exact admitted.here.2 n known
  | _ => exact ofSequenceType_fits _ n known

end Expr

/-! ## Calls -/

namespace Compile

/-- What is done with a call that is not computed in advance. -/
def reduceByName (again : Expr → Compile Expr) (e : Expr) : BuiltIn → List Expr → Compile Expr
  | .head, [argument] => reduceHead e argument
  | .count, [argument] => reduceCount e argument
  | .foldLeft1, [items, callee] => reduceFold again e items callee
  | _, _ => pure e

theorem literalItems?_literals (values : List Value) :
    literalItems? (values.map .literal) = some (sumOver (·.size) values) := by
  have all : (values.map Expr.literal).mapM Expr.literal? = some values := by
    induction values with
    | nil => rfl
    | cons v rest rest_ih =>
        rw [List.map_cons, List.mapM_cons, rest_ih]
        rfl
  have total : values.foldr (·.size + ·) 0 = sumOver (·.size) values := by
    clear all
    induction values with
    | nil => rfl
    | cons v rest rest_ih => rw [List.foldr_cons, rest_ih, sumOver]
  rw [literalItems?, all, Option.map_some, total]

theorem literalItems?_eq_none {arguments : List Expr} {e : Expr} (member : e ∈ arguments)
    (other : e.isLiteral = false) : literalItems? arguments = none := by
  rw [literalItems?, Option.map_eq_none_iff]
  cases all : arguments.mapM Expr.literal? with
  | none => rfl
  | some values =>
      rw [literal_of_mapM all e member] at other
      cases other

variable {again : Expr → Compile Expr} {f : BuiltIn} {arguments es : List Expr} {type : StaticType}
  {location : Option Location} {values : List Value} {c c₁ : CompileContext}

theorem reduceCall_eq (quiet : ∀ e ∈ arguments, e.hasUpdates = false) :
    reduceCall calls again f arguments location c =
      (if (if f = .error then none else literalItems? arguments).any (maxSize < ·) then broken .sizeOverflow
        else if (if f = .error then none else literalItems? arguments).any (· ≤ c.context.options.largestPrecomputed)
        then precompute calls (.call f arguments (f.resultType arguments) location)
        else reduceByName again (.call f arguments (f.resultType arguments) location) f arguments) c := by
  unfold reduceCall
  dsimp only
  rw [bind_apply, requireNoneUpdates_of_quiet quiet]
  rfl

/-- A call of literals is computed in advance if there are few enough items in them, which are counted first. -/
theorem reduceCall_literals (raised : f ≠ .error) : reduceCall calls again f (values.map .literal) location c =
    (if maxSize < sumOver (·.size) values then broken .sizeOverflow
      else if sumOver (·.size) values ≤ c.context.options.largestPrecomputed
      then precompute calls (.call f (values.map .literal) (f.resultType (values.map .literal)) location)
      else reduceByName again (.call f (values.map .literal) (f.resultType (values.map .literal)) location) f
        (values.map .literal)) c := by
  have quiet : ∀ e ∈ values.map Expr.literal, e.hasUpdates = false := by
    intro e member
    obtain ⟨v, -, rfl⟩ := List.mem_map.1 member
    rfl
  rw [reduceCall_eq quiet, if_neg raised, literalItems?_literals]
  simp only [Option.any_some, decide_eq_true_eq]

/-- A call with an argument that is no literal is not computed in advance, and no items are counted. -/
theorem reduceCall_other (quiet : ∀ e ∈ arguments, e.hasUpdates = false)
    (other : f = .error ∨ ∃ e ∈ arguments, e.isLiteral = false) : reduceCall calls again f arguments location c =
      reduceByName again (.call f arguments (f.resultType arguments) location) f arguments c := by
  have uncounted : (if f = .error then none else literalItems? arguments) = none := by
    split
    · rfl
    · next raised =>
        obtain ⟨e, member, other⟩ := other.resolve_left raised
        exact literalItems?_eq_none member other
  rw [reduceCall_eq quiet, uncounted]
  rfl

theorem optimizeWith_call (done : optimizeAllWith calls again arguments c = (.ok es, c₁)) :
    optimizeWith calls again (.call f arguments type location) c = reduceCall calls again f es location c₁ := by
  rw [optimizeWith, bind_apply, done]

end Compile

open Compile in
/-- Sizes known in advance.  The size of a sequence is known if those of all operands are and their sum fits, and
then it is this sum; the size of a loop is known if both are and the product fits, and then it is the product, or if
one is nothing, and then it is nothing.  So all known sizes in a tree as it is built fit.  But where all arguments of
a function are literals, their sizes are added up whether the sum fits or not, and compilation breaks off if it does
not.  If it does, the call is computed in advance exactly if the sum is within the limit. -/
theorem sizes_known_in_advance (operands : List Expr) (source body e : Expr) (again : Expr → Compile Expr)
    (f : BuiltIn) (arguments es : List Expr) (type : StaticType) (location : Option Location)
    (c c₁ : CompileContext) :
    ((∀ s ∈ operands, s.staticType.Formed) → ∀ n, (concatType operands).size? = some n ↔
      (∀ s ∈ operands, s.size?.isSome = true) ∧ sumOver (·.size?.getD 0) operands = n ∧ n ≤ maxSize) ∧
    (source.staticType.Formed → body.staticType.Formed → ∀ n, (loopType source body).size? = some n ↔
      (∃ a b, source.size? = some a ∧ body.size? = some b ∧ a * b = n ∧ n ≤ maxSize) ∨
        (source.size? = some 0 ∨ body.size? = some 0) ∧ n = 0) ∧
    (∀ (declared : Declarations) (good : Item → Prop), e.Built declared good → e.Every Admitted →
      ∀ s, e.Inside s → ∀ n, s.size? = some n → n ≤ maxSize) ∧
    (optimizeAllWith calls again arguments c = (.ok es, c₁) →
      (∀ values : List Value, es = values.map .literal → f ≠ .error →
        (maxSize < sumOver (·.size) values →
          optimizeWith calls again (.call f arguments type location) c = (.error (.fault .sizeOverflow), c₁)) ∧
        (sumOver (·.size) values ≤ maxSize →
          optimizeWith calls again (.call f arguments type location) c =
            (if sumOver (·.size) values ≤ c₁.context.options.largestPrecomputed
              then precompute calls (.call f es (f.resultType es) location)
              else reduceByName again (.call f es (f.resultType es) location) f es) c₁)) ∧
      ((f = .error ∨ ∃ s ∈ es, s.isLiteral = false) → (∀ s ∈ es, s.hasUpdates = false) →
        optimizeWith calls again (.call f arguments type location) c =
          reduceByName again (.call f es (f.resultType es) location) f es c₁)) := by
  refine ⟨fun formed n => ?_, fun input result n => loopType_size? input result,
    fun declared good built admitted s inside n known => ?_, fun done => ?_⟩
  · rw [concatType_size? formed, foldl_sizes_eq_some_iff (Nat.zero_le _), Nat.zero_add]
  · exact (built.every.inside inside).here.size_fits (admitted.inside inside) n known
  · rw [optimizeWith_call done]
    refine ⟨?_, fun other quiet => reduceCall_other quiet other⟩
    rintro values rfl raised
    rw [reduceCall_literals raised]
    refine ⟨fun beyond => ?_, fun fits => ?_⟩
    · rw [if_pos beyond]
      rfl
    · rw [if_neg (Nat.not_lt.2 fits)]

/-- All negative integers of 64 bits. -/
def negativeIntegers : Value := .range ⟨.minValue, 9223372036854775808⟩

/-- The size of all negative integers twice is not known, nor that of a loop over them in itself.  The one of all of
them once fits, but no function of them is computed in advance. -/
theorem sizes_known_in_advance_of_negatives :
    let e := Expr.literal negativeIntegers
    let c := CompileContext.start (Context.initial {})
    (concatType [e, e]).size? = none ∧ (loopType e e).size? = none ∧
    (∀ s, e.Inside s → ∀ n, s.size? = some n → n ≤ maxSize) ∧
    optimizeWith (callsWithin callDepth) pure (.call .sum [e] (.ofSequenceType .anything) none) c =
      (.ok (.call .sum [e] (.ofSequenceType (.one .integer)) none), c) := by
  intro e c
  have formed : e.staticType.Formed := .sized _ _
  obtain ⟨sum, product, tree, call⟩ := sizes_known_in_advance [e, e] e e e pure .sum [e] [e]
    (.ofSequenceType .anything) none c c
  refine ⟨?_, ?_, ?_, ?_⟩
  · refine Option.eq_none_iff_forall_ne_some.2 fun n known => ?_
    obtain ⟨-, total, fits⟩ := (sum (forall_pair formed formed) n).1 known
    rw [← total] at fits
    revert fits
    decide
  · refine Option.eq_none_iff_forall_ne_some.2 fun n known => ?_
    rcases (product formed formed n).1 known with ⟨a, b, left, right, total, fits⟩ | ⟨empty | empty, -⟩
    · cases left
      cases right
      rw [← total] at fits
      revert fits
      decide
    · revert empty
      decide
    · revert empty
      decide
  · have valid : negativeIntegers.Valid := ⟨by decide, by decide, by decide⟩
    have fits : negativeIntegers.size ≤ maxSize := by decide
    exact tree (fun _ => none) (fun _ => True) (.literal ⟨valid, fun _ _ => trivial⟩)
      (.node fits fun _ member => by cases member)
  · have kept := ((call rfl).1 [negativeIntegers] rfl (by decide)).2 (by decide)
    rw [if_neg (by decide)] at kept
    exact kept.trans rfl

/-- The sum of all negative integers, and of all of them again. -/
def sumOfNegativesTwice : Expr :=
  .call .sum [.literal negativeIntegers, .literal negativeIntegers] (.ofSequenceType (.optional .integer)) none

/-- The number of items in all negative integers twice is too large. -/
theorem sumOfNegativesTwice_overflows :
    let c := CompileContext.start (Context.initial {})
    sumOfNegativesTwice.optimize c = (.error (.fault .sizeOverflow), c) := by
  intro c
  have begun : sumOfNegativesTwice.optimize c = optimizeWith (callsWithin callDepth) pure sumOfNegativesTwice c := rfl
  have simplified : optimizeWith (callsWithin callDepth) pure sumOfNegativesTwice c =
      Compile.reduceCall (callsWithin callDepth) pure .sum ([negativeIntegers, negativeIntegers].map .literal) none c :=
    Compile.optimizeWith_call rfl
  rw [begun, simplified, Compile.reduceCall_literals (by decide), if_pos (by decide)]
  rfl

end QueryKernel
