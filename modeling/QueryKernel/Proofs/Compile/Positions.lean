import QueryKernel.Proofs.Compile.Refined
import QueryKernel.Proofs.Compile.Succeed
import QueryKernel.Proofs.Number.Nearest
import QueryKernel.Proofs.Number.Word
import QueryKernel.Proofs.Run.Operations
import QueryKernel.Proofs.Value.EditRun
import QueryKernel.Query

/-!
# Literal positions

A filter by a literal integer selects the item at that position, before and after compilation, as long as the
position and the size can be told apart in doubles.

The work is in `isPositionIn_ofInt`: position and size are compared as their nearest doubles, which keep the
order of the numbers but not the numbers.
-/

namespace QueryKernel

/-- The item at a position that is counted from one, or nothing. -/
def ValueOf.atPosition {F : Type} (v : ValueOf F) (k : Int) : ValueOf F :=
  if 1 ≤ k then (v.items[(k - 1).toNat]?.map .one).getD .empty else .empty

/-- A position within the size is a double, and one beyond it is beyond it as a double too. -/
structure RoundingKeeps (position size : Nat) : Prop where
  within : position ≤ size → nearestDouble position = position
  beyond : size < position → nearestDouble size < nearestDouble position

/-- Up to `2 ^ 53` every whole number is a double. -/
theorem nearestDouble_of_le {n : Nat} (small : n ≤ twoTo 53) : nearestDouble n = n := by
  rcases Nat.lt_or_eq_of_le small with less | rfl
  · exact nearestDouble_of_lt less
  · decide +kernel

theorem roundingKeeps_of_small {position size : Nat} (small : position ≤ twoTo 53 ∨ size < twoTo 53) :
    RoundingKeeps position size := by
  refine ⟨fun inside => nearestDouble_of_le (by omega), fun outside => ?_⟩
  -- What is between the two and at most `2 ^ 53` stays between them.
  have between : nearestDouble (min position (twoTo 53)) ≤ nearestDouble position :=
    nearestDouble_mono (Nat.min_le_left _ _)
  rw [nearestDouble_of_le (Nat.min_le_right _ _)] at between
  rw [nearestDouble_of_le (by omega)]
  omega

/-! ## Comparing as doubles -/

theorem isPositionIn_iff (position : BinaryFloat) (size : Nat) :
    isPositionIn position size = true ↔ position.isWhole = true ∧
      (position.compare? (.ofInt .double 1) = some .gt ∨ position.compare? (.ofInt .double 1) = some .eq) ∧
      (position.compare? (.ofInt .double size) = some .lt ∨ position.compare? (.ofInt .double size) = some .eq) := by
  simp only [isPositionIn, Bool.and_eq_true, and_assoc]
  refine and_congr Iff.rfl (and_congr ?_ ?_) <;> split <;> simp_all

theorem compare_ge {x y : BinaryFloat} {i j : Int} (compared : x.compare? y = some (compare i j)) :
    (x.compare? y = some .gt ∨ x.compare? y = some .eq) ↔ j ≤ i := by
  rw [compared, Option.some_inj, Option.some_inj, Int.compare_eq_gt, Int.compare_eq_eq]
  omega

theorem compare_le {x y : BinaryFloat} {i j : Int} (compared : x.compare? y = some (compare i j)) :
    (x.compare? y = some .lt ∨ x.compare? y = some .eq) ↔ i ≤ j := by
  rw [compared, Option.some_inj, Option.some_inj, Int.compare_eq_lt, Int.compare_eq_eq]
  omega

/-- The double for a size is not less than that of a smaller number, even if it is infinite. -/
theorem compare?_size {x : BinaryFloat} {n : Nat} (whole : x.IsWholeNumber false (nearestDouble n)) (size : Nat)
    (small : n < twoTo 64) :
    (x.compare? (.ofInt .double size) = some .lt ∨ x.compare? (.ofInt .double size) = some .eq) ↔
      nearestDouble n ≤ nearestDouble size := by
  have rounded : BinaryFloat.ofInt .double size = BinaryFormat.double.round false size 1 := by
    rw [BinaryFloat.ofInt, decide_eq_false (Int.not_lt.2 (Int.natCast_nonneg size)), Int.natAbs_natCast]
  rw [rounded]
  rcases round_double false size with finite | ⟨infinite, large⟩
  · exact (compare_le (whole.compare?_eq finite)).trans Int.ofNat_le
  · rw [infinite]
    obtain ⟨mantissa, exponent, rfl, -⟩ := whole
    exact iff_of_true (.inl rfl) (nearestDouble_mono (by omega))

theorem one_le_nearest_iff (i : Int) :
    1 ≤ BinaryFloat.signed (decide (i < 0)) (nearestDouble i.natAbs) ↔ 1 ≤ i := by
  by_cases below : i < 0
  · rw [decide_eq_true below, BinaryFloat.signed, if_pos rfl]
    omega
  · rw [decide_eq_false below, BinaryFloat.signed, if_neg Bool.false_ne_true]
    by_cases zero : i = 0
    · rw [zero]
      decide
    · have least : nearestDouble 1 ≤ nearestDouble i.natAbs := nearestDouble_mono (by omega)
      rw [show nearestDouble 1 = 1 by decide] at least
      omega

/-- An integer is a position in a sequence if it is positive and its double is not beyond that of the size. -/
theorem isPositionIn_ofInt {i : Int} (small : i.natAbs < twoTo 64) (size : Nat) :
    isPositionIn (.ofInt .double i) size = true ↔ 1 ≤ i ∧ nearestDouble i.natAbs ≤ nearestDouble size := by
  have whole := ofInt_double small
  have one : (BinaryFloat.ofInt .double 1).IsWholeNumber false 1 := by
    have rounded := ofInt_double (i := 1) (by decide)
    rwa [show nearestDouble (Int.natAbs 1) = 1 by decide] at rounded
  rw [isPositionIn_iff, compare_ge (whole.compare?_eq one)]
  refine ⟨fun ⟨_, least, most⟩ => ?_, fun ⟨least, most⟩ => ⟨whole.isWhole, (one_le_nearest_iff i).2 least, ?_⟩⟩
  · have positive := (one_le_nearest_iff i).1 least
    rw [decide_eq_false (by omega)] at whole
    exact ⟨positive, (compare?_size whole size small).1 most⟩
  · rw [decide_eq_false (by omega)] at whole
    exact (compare?_size whole size small).2 most

/-! ## Selecting an item -/

theorem ValueOf.atPosition_eq {F : Type} {v : ValueOf F} (shaped : v.Shaped) {k : Int} :
    v.atPosition k = if 1 ≤ k ∧ k ≤ v.size then ((v.get? (k - 1).toNat).map .one).getD .empty else .empty := by
  rw [atPosition, shaped.get?_eq, shaped.size_eq]
  by_cases positive : 1 ≤ k
  · by_cases inside : k ≤ v.items.length
    · rw [if_pos positive, if_pos ⟨positive, inside⟩]
    · rw [if_pos positive, if_neg fun both => inside both.2, List.getElem?_eq_none (by omega)]
      rfl
  · rw [if_neg positive, if_neg fun both => positive both.1]

theorem natAbs_toInt_lt (k : Int64) : k.toInt.natAbs < twoTo 64 :=
  Nat.lt_of_le_of_lt (natAbs_toInt_le k) (by decide)

theorem positionIndex_ofInt (k : Int64) (positive : 1 ≤ k.toInt) :
    positionIndex (.ofInt .double k.toInt) = nearestDouble k.toInt.natAbs - 1 := by
  have whole := ofInt_double (natAbs_toInt_lt k)
  rw [decide_eq_false (by omega)] at whole
  have most : nearestDouble k.toInt.natAbs ≤ nearestDouble (twoTo 63) := nearestDouble_mono (natAbs_toInt_le k)
  rw [show nearestDouble (twoTo 63) = 9223372036854775808 by decide +kernel] at most
  rw [positionIndex, whole.toInt?_eq]
  simp only [BinaryFloat.signed, Bool.false_eq_true, if_false, Option.getD_some, Int.toNat_natCast]
  rw [Nat.min_eq_left]
  rw [show maxSize = 18446744073709551615 from rfl]
  omega

/-- What an integer selects: the item at its nearest double, if that is not beyond the one of the size. -/
theorem selectPosition_integer (v : Value) (k : Int64) :
    selectPosition v (.ofInt .double k.toInt) =
      if 1 ≤ k.toInt ∧ nearestDouble k.toInt.natAbs ≤ nearestDouble v.size then
        (v.itemAt (nearestDouble k.toInt.natAbs - 1)).map .one
      else .ok .empty := by
  have small := natAbs_toInt_lt k
  rw [selectPosition_eq]
  by_cases inside : 1 ≤ k.toInt ∧ nearestDouble k.toInt.natAbs ≤ nearestDouble v.size
  · rw [if_pos inside, if_pos ((isPositionIn_ofInt small v.size).2 inside), positionIndex_ofInt k inside.1]
  · rw [if_neg inside, if_neg (mt (isPositionIn_ofInt small v.size).1 inside)]

theorem selectPosition_item {v w : Value} {k : Int64} (positive : 1 ≤ k.toInt)
    (ordered : nearestDouble k.toInt.toNat ≤ nearestDouble v.size)
    (selected : selectPosition v (.ofInt .double k.toInt) = .ok w) :
    ∃ item, v.get? (nearestDouble k.toInt.toNat - 1) = some item ∧ w = .one item := by
  have magnitude : k.toInt.natAbs = k.toInt.toNat := by omega
  rw [selectPosition_integer, magnitude, if_pos ⟨positive, ordered⟩] at selected
  cases found : v.itemAt (nearestDouble k.toInt.toNat - 1) with
  | ok item =>
      rw [found] at selected
      cases selected
      exact ⟨item, itemAt_eq_ok found, rfl⟩
  | error fault =>
      rw [found] at selected
      cases selected

theorem selectPosition_kept {v : Value} (shaped : v.Shaped) (k : Int64)
    (kept : RoundingKeeps k.toInt.toNat v.size) :
    selectPosition v (.ofInt .double k.toInt) = .ok (v.atPosition k.toInt) := by
  rw [selectPosition_integer, ValueOf.atPosition_eq shaped]
  by_cases positive : 1 ≤ k.toInt
  · have magnitude : k.toInt.natAbs = k.toInt.toNat := by omega
    rw [magnitude]
    rcases Nat.lt_or_ge v.size k.toInt.toNat with beyond | within
    · rw [if_neg fun both => Nat.not_le.2 (kept.beyond beyond) both.2, if_neg (by omega)]
    · have ordered : nearestDouble k.toInt.toNat ≤ nearestDouble v.size := nearestDouble_mono within
      rw [if_pos ⟨positive, ordered⟩, if_pos ⟨positive, by omega⟩, kept.within within, ValueOf.itemAt,
        show k.toInt.toNat - 1 = (k.toInt - 1).toNat by omega]
      have there : (k.toInt - 1).toNat < v.items.length := by
        rw [shaped.size_eq] at within
        omega
      rw [shaped.get?_eq, List.getElem?_eq_getElem there]
      rfl
  · rw [if_neg fun both => positive both.1, if_neg fun both => positive both.1]

/-! ## Filters -/

theorem filterValue_position {base predicate : Modes} {v : Value} {position : BinaryFloat} {c c' : Context}
    (valued : base.value c = (.ok v, c')) :
    filterValue base [(some position, predicate)] c = ((selectPosition v position).mapError .fault, c') := by
  simp only [filterValue, Eval.bind_apply, valued, Eval.foldList]
  cases selectPosition v position <;> rfl

namespace Compile

/-- The computation does not fail, wherever it starts. -/
def Succeeds {A : Type} (x : Compile A) : Prop := ∀ c, ∃ a c', x c = (.ok a, c')

theorem Succeeds.pure {A : Type} {a : A} : Succeeds (pure a) := fun c => ⟨a, c, rfl⟩

theorem placeholder?_succeeds (type : ItemType) (known : Option Value) (source : Option DataSource) :
    (placeholder? type known source).Succeeds := by
  unfold placeholder?
  split
  · exact .pure
  · exact .pure
  · split
    · exact .pure
    · exact fun _ => ⟨_, _, rfl⟩
    · exact fun _ => ⟨_, _, rfl⟩
    · exact fun _ => ⟨_, _, rfl⟩
    · exact fun _ => ⟨_, _, rfl⟩
    · exact fun _ => ⟨_, _, rfl⟩
    · exact .pure

theorem contextItem?_succeeds (v : Value) : (contextItem? (some (.literal v))).Succeeds := by
  cases v with
  | empty | one item => exact fun c => ⟨_, c, rfl⟩
  | flat items tag => exact placeholder?_succeeds tag.type _ none
  | range r => exact placeholder?_succeeds .integer _ none
  | tree rope tag => exact placeholder?_succeeds tag.type _ none

end Compile

namespace Expr

open Compile Edit

variable {v : Value} {k : Int64}

/-- The filter of a value by a position. -/
def atLiteral (v : Value) (k : Int64) (location : Option Location) : Expr :=
  filterOf (.literal v) [.literal (.integer k)] location

theorem atLiteral_run_eq (v : Value) (k : Int64) (location : Option Location) (c : Context) :
    (atLiteral v k location).run.value c = ((selectPosition v (.ofInt .double k.toInt)).mapError .fault, c) := by
  have filtered : (atLiteral v k location).run.value = filterValue (.ofLiteral v)
      [(some (.ofInt .double k.toInt), .ofLiteral (.integer k))] := rfl
  rw [filtered]
  exact filterValue_position rfl

theorem evaluate_atLiteral (v : Value) (k : Int64) (location : Option Location) (c : Context) :
    ((atLiteral v k location).evaluate c).1 = (selectPosition v (.ofInt .double k.toInt)).mapError .fault :=
  congrArg Prod.fst (atLiteral_run_eq v k location c.startClock)

theorem atLiteral_run (shaped : v.Shaped) (kept : RoundingKeeps k.toInt.toNat v.size)
    (location : Option Location) (c : Context) :
    (atLiteral v k location).run.value c = (.ok (v.atPosition k.toInt), c) := by
  rw [atLiteral_run_eq, selectPosition_kept shaped k kept]
  rfl

/-- A filter by a position has the type of at most one item, so that there is nothing to narrow. -/
theorem narrow_atPosition {known : SequenceType} (optional : known.occurrence = .zeroOrOne) (i : Int) :
    (v.atPosition i).narrow known = v.atPosition i := by
  have nothing : ∀ found : SequenceType, found.occurrence = .exactlyOne → narrowed? known found = none := by
    intro found exactly
    refine Option.eq_none_iff_forall_ne_some.2 fun narrower narrowed => ?_
    obtain ⟨-, subtype, -⟩ := narrowed?_ok narrowed
    obtain ⟨within, -⟩ := SequenceType.isSubtype_iff.1 subtype
    rw [optional, exactly] at within
    cases within
  have single : ∀ item : Item, (ValueOf.one item).narrow known = .one item := by
    intro item
    rw [ValueOf.narrow, nothing _ rfl]
    split <;> rfl
  unfold ValueOf.atPosition
  split
  · cases v.items[(i - 1).toNat]? with
    | none => rfl
    | some item => exact single item
  · rfl

theorem atLiteral_optional (shaped : v.Shaped) (filled : v.isEmpty = false) (location : Option Location) :
    (atLiteral v k location).sequenceType.occurrence = .zeroOrOne := by
  have size : v.size ≠ 0 := by
    intro none
    rw [shaped.empty_of_size none] at filled
    cases filled
  have nonempty : (Expr.literal v).sequenceType.isEmpty = false := by
    have typed : (Expr.literal v).sequenceType = ⟨v.type, .ofSize v.size⟩ := by
      cases v with
      | empty => cases filled
      | one _ | flat _ _ | range _ | tree _ _ => rfl
    rw [typed]
    refine Bool.eq_false_iff.2 fun empty => size ?_
    have none := (SequenceType.isEmpty_iff _).1 empty
    rw [SequenceType.most, Occurrence.most_ofSize] at none
    omega
  have positional : [Expr.literal (.integer k)].any (·.position?.isSome) = true := rfl
  show (filterType (.literal v) [.literal (.integer k)]).sequenceType.occurrence = _
  rw [filterType, nonempty, positional, Bool.or_true]
  rfl

/-- Compilation computes the selected item, or leaves the filter as it is. -/
theorem atLiteral_reduced (shaped : v.Shaped) (kept : RoundingKeeps k.toInt.toNat v.size) (before : ExprSummary)
    (location : Option Location) (c : CompileContext) :
    ∃ e c', reduceFilter (callsWithin callDepth) before (.literal v) [.literal (.integer k)] location c = (.ok e, c') ∧
      (e = .literal (v.atPosition k.toInt) ∨ e = atLiteral v k location) := by
  have quiet : requireNoneUpdates "filter" [literal (.integer k)] c = (.ok (), c) := rfl
  have undecided : [literal (.integer k)].any (verdict · = .fails) = false := rfl
  have stays : [literal (.integer k)].filter (verdict · = .open) = [literal (.integer k)] := rfl
  rw [reduceFilter, Compile.bind_apply, quiet]
  simp only [undecided, stays, Bool.false_or]
  -- From nothing nothing is selected; otherwise the selection is computed or left for later.
  split
  · next nothing =>
      obtain rfl : v = .empty := by
        cases v <;> first | rfl | cases nothing
      obtain ⟨c', replaced⟩ := replace_ok before .emptySequence c
      refine ⟨_, c', replaced, .inl ?_⟩
      rw [ValueOf.atPosition]
      split <;> rfl
  · next filled =>
      have optional := atLiteral_optional (k := k) shaped (Bool.eq_false_iff.2 filled) location
      have nonempty : [literal (.integer k)].isEmpty = false := rfl
      simp only [nonempty, Bool.false_eq_true, if_false, Compile.bind_apply, options]
      split
      · obtain ⟨c', computed⟩ := precompute_ok (atLiteral_run shaped kept location c.context)
        rw [narrow_atPosition optional] at computed
        exact ⟨_, c', computed, .inl rfl⟩
      · exact ⟨_, c, rfl, .inr rfl⟩

theorem atLiteral_compiled (shaped : v.Shaped) (kept : RoundingKeeps k.toInt.toNat v.size)
    (location : Option Location) (c : Context) :
    ∃ e, ((atLiteral v k location).compile c).1 = .ok e ∧
      (e = .literal (v.atPosition k.toInt) ∨ e = atLiteral v k location) := by
  have shallow : (atLiteral v k location).loopDepth = 0 := rfl
  obtain ⟨found, c₁, focused⟩ := contextItem?_succeeds v (.start c)
  obtain ⟨c₂, left⟩ : ∃ c₂,
      withFocus (found.map .one) (optimizeAllWith (callsWithin callDepth) pure [literal (.integer k)]) c₁ =
    (.ok [literal (.integer k)], c₂) := ⟨_, rfl⟩
  obtain ⟨e, c₃, reduced, outcome⟩ := atLiteral_reduced shaped kept (atLiteral v k location).summary location c₂
  refine ⟨e, ?_, outcome⟩
  have optimized : (atLiteral v k location).optimize (.start c) = (.ok e, c₃) := by
    rw [optimize, optimizeBy, shallow]
    show (contextItem? (some (literal v)) >>= fun focus =>
      withFocus (focus.map .one) (optimizeAllWith (callsWithin callDepth) pure [literal (.integer k)]) >>=
        fun predicates =>
      reduceFilter (callsWithin callDepth) _ (literal v) predicates location) (.start c) = _
    simp only [Compile.bind_apply, focused, left]
    exact reduced
  rw [compile, compileBy, show optimizeBy (callsWithin callDepth) _ _ = _ from optimized]

/-- In a range no other position has the same item. -/
theorem roundingKeeps_of_selected {r : IntegerRange} (valid : r.Valid)
    (selected : selectPosition (.range r) (.ofInt .double k.toInt) = .ok ((ValueOf.range r).atPosition k.toInt)) :
    RoundingKeeps k.toInt.toNat r.length := by
  have shaped : (ValueOf.range r : Value).Shaped := valid
  have size : (ValueOf.range r : Value).size = r.length := rfl
  by_cases positive : 1 ≤ k.toInt
  · refine ⟨fun inside => ?_, fun outside => Nat.not_le.1 fun less => ?_⟩
    · -- The item at the nearest double is the one at the position itself, so both positions are the same.
      obtain ⟨item, found, same⟩ := selectPosition_item (v := .range r) positive (nearestDouble_mono inside) selected
      have there : (ValueOf.range r : Value).get? (k.toInt - 1).toNat =
          some (.integer (r.get (k.toInt - 1).toNat)) := if_pos (by omega)
      rw [ValueOf.atPosition_eq shaped, if_pos ⟨positive, by omega⟩, there] at same
      cases same
      obtain ⟨before, equal⟩ := Option.ite_none_right_eq_some.1 found
      have equal := Atom.integer.inj (ItemOf.atom.inj (Option.some.inj equal))
      have least : nearestDouble 1 ≤ nearestDouble k.toInt.toNat := nearestDouble_mono (by omega)
      rw [show nearestDouble 1 = 1 by decide] at least
      have words := congrArg Int64.toInt equal
      rw [valid.toInt_get before, valid.toInt_get (by omega)] at words
      omega
    · -- An item would be selected, or there would be a fault, and neither is the empty sequence.
      obtain ⟨item, -, same⟩ := selectPosition_item (v := .range r) positive less selected
      rw [ValueOf.atPosition_eq shaped, if_neg (by omega)] at same
      cases same
  · refine ⟨fun _ => ?_, fun outside => by omega⟩
    rw [show k.toInt.toNat = 0 by omega]
    decide

/-- A filter of a literal by an integer gives the item at that position, or nothing where there is no such position,
evaluated as it is or compiled before.  It does so as long as position and size can be told apart in doubles,
as they can up to `2 ^ 53`, and for ranges only then. -/
theorem literal_position_selects (shaped : v.Shaped) (k : Int64) (location : Option Location) (c : Context) :
    (k.toInt ≤ 2 ^ 53 ∨ v.size < 2 ^ 53 → RoundingKeeps k.toInt.toNat v.size) ∧
    (RoundingKeeps k.toInt.toNat v.size →
      ((atLiteral v k location).evaluate c).1 = .ok (v.atPosition k.toInt) ∧
      ∃ e, ((atLiteral v k location).compile c).1 = .ok e ∧
        ∀ d, (e.evaluate d).1 = .ok (v.atPosition k.toInt)) ∧
    (∀ r, v = .range r → ((atLiteral v k location).evaluate c).1 = .ok (v.atPosition k.toInt) →
      RoundingKeeps k.toInt.toNat v.size) := by
  refine ⟨fun small => ?_, fun kept => ?_, fun r ranged selected => ?_⟩
  · refine roundingKeeps_of_small ?_
    rw [show twoTo 53 = 2 ^ 53 from rfl]
    omega
  · have evaluated : ∀ d, ((atLiteral v k location).evaluate d).1 = .ok (v.atPosition k.toInt) := fun d =>
      congrArg Prod.fst (atLiteral_run shaped kept location d.startClock)
    obtain ⟨e, compiled, rfl | rfl⟩ := atLiteral_compiled shaped kept location c
    · exact ⟨evaluated c, _, compiled, fun _ => rfl⟩
    · exact ⟨evaluated c, _, compiled, evaluated⟩
  · subst ranged
    refine roundingKeeps_of_selected shaped ?_
    exact mapError_eq_ok ((evaluate_atLiteral _ k location c).symm.trans selected)

/-- The integers from one to the given word. -/
def fromOneTo (last : Int64) : Value := .range ⟨1, last.toInt.toNat⟩

/-- A position beyond `2 ^ 53` that is a double, and one that is beyond the size. -/
theorem literal_position_selects_large :
    let c : Context := .initial {}
    let even := atLiteral (fromOneTo 9007199254741000) 9007199254740994 none
    let beyond := atLiteral (fromOneTo 100) .maxValue none
    (even.evaluate c).1 = .ok (.integer 9007199254740994) ∧
      (beyond.evaluate c).1 = .ok .empty ∧
      ∃ e, (beyond.compile c).1 = .ok e ∧ (e.evaluate c).1 = .ok .empty := by
  intro c even beyond
  have long : (fromOneTo 9007199254741000).Shaped := ⟨by decide, by decide, by decide⟩
  have short : (fromOneTo 100).Shaped := ⟨by decide, by decide, by decide⟩
  have kept : RoundingKeeps 9007199254740994 9007199254741000 := ⟨fun _ => by decide +kernel, fun less => by omega⟩
  obtain ⟨-, selects, -⟩ := literal_position_selects long 9007199254740994 none c
  obtain ⟨small, selectsNothing, -⟩ := literal_position_selects short .maxValue none c
  obtain ⟨evaluated, e, compiled, after⟩ := selectsNothing (small (.inr (by decide)))
  refine ⟨(selects kept).1.trans ?_, evaluated.trans ?_, e, compiled, (after c).trans ?_⟩
  · rw [ValueOf.atPosition_eq long]
    rfl
  · rw [ValueOf.atPosition_eq short]
    rfl
  · rw [ValueOf.atPosition_eq short]
    rfl

/-- The last of `2 ^ 53 + 1` integers is not a double: the one before it is selected.  The last of `2 ^ 63 - 1`
integers is not either, and the double is beyond all of them, which is a fault. -/
theorem last_of_long_range_missed :
    let c : Context := .initial {}
    let v := fromOneTo 9007199254740993
    let longest := fromOneTo .maxValue
    v.get? 9007199254740992 = some (.integer 9007199254740993) ∧
      ((atLiteral v 9007199254740993 none).evaluate c).1 = .ok (.integer 9007199254740992) ∧
      ((atLiteral longest .maxValue none).evaluate c).1 =
        .error (.fault (.position 9223372036854775807 9223372036854775807)) := by
  intro c v longest
  have rounded : nearestDouble 9007199254740993 = 9007199254740992 := by decide +kernel
  have upward : nearestDouble 9223372036854775807 = 9223372036854775808 := by decide +kernel
  have selected : selectPosition v (.ofInt .double (Int64.toInt 9007199254740993)) =
      .ok (.integer 9007199254740992) := by
    rw [selectPosition_integer, show v.size = 9007199254740993 from rfl,
      show (Int64.toInt 9007199254740993).natAbs = 9007199254740993 from rfl, rounded]
    rfl
  have missed : selectPosition longest (.ofInt .double Int64.maxValue.toInt) =
      .error (.position 9223372036854775807 9223372036854775807) := by
    rw [selectPosition_integer, show longest.size = 9223372036854775807 from rfl,
      show Int64.maxValue.toInt.natAbs = 9223372036854775807 from rfl, upward]
    rfl
  refine ⟨rfl, (evaluate_atLiteral v _ none c).trans ?_, (evaluate_atLiteral longest _ none c).trans ?_⟩
  · rw [selected]
    rfl
  · rw [missed]
    rfl

end Expr

end QueryKernel
