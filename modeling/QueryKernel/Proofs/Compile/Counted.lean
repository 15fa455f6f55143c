import QueryKernel.Proofs.Compile.Succeed
import QueryKernel.Proofs.Compile.Undisturbed
import QueryKernel.Proofs.Eval.Preserve

/-!
# Counting erroneous sequences

A call of `count` on a sequence with an error among its operands is not computed in advance, so that the
error can be raised.  Whether it is raised depends on the static size of the sequence: evaluation asks
for that size first, and goes through the items only if there is none.  An error that stands for an
operation on two atoms has a size, since it took over the type of the operation.
-/

namespace QueryKernel

namespace Expr

/-- A call of `error`, or an error met in advance. -/
def isErroneous : Expr → Bool
  | call f .. => f == .error
  | deferred .. => true
  | _ => false

/-- An erroneous expression, or a sequence constructor with such an operand. -/
def HoldsError (e : Expr) : Prop := ∃ s ∈ e.operands?.getD [e], s.isErroneous = true

theorem isErroneous_isVacuous {e : Expr} (erroneous : e.isErroneous = true) : e.isVacuous = true := by
  cases e with
  | call | deferred => exact erroneous
  | _ => cases erroneous

theorem HoldsError.isLiteral {e : Expr} (holds : e.HoldsError) : e.literal? = none := by
  obtain ⟨s, member, erroneous⟩ := holds
  cases e with
  | literal v =>
      rw [List.mem_singleton.1 member] at erroneous
      cases erroneous
  | _ => rfl

/-! ## Evaluation -/

variable {calls : Calls}

/-- The stream of an erroneous expression cannot even be started. -/
theorem erroneous_stream {e : Expr} (erroneous : e.isErroneous = true) (c : Context) (s : Stream)
    (c' : Context) : (e.modes calls).stream c ≠ (.ok s, c') := by
  intro started
  cases e with
  | call f arguments type location =>
      obtain rfl : f = .error := by simpa [isErroneous] using erroneous
      obtain ⟨v, _, valued, _⟩ := Eval.bind_ok_iff.1 started
      obtain ⟨found, _, asked, _⟩ := Eval.bind_ok_iff.1 valued
      obtain ⟨error, _, _, failed⟩ := Eval.bind_ok_iff.1 asked
      exact Eval.fail_ok_iff.1 failed
  | deferred error type location =>
      obtain ⟨v, _, failed, _⟩ := Eval.bind_ok_iff.1 started
      exact Eval.fail_ok_iff.1 failed
  | _ => cases erroneous

end Expr

/-- Nobody gets through streams of which one cannot be started. -/
theorem Stream.pullAll_stuck {B : Type} {f : B → Item → Eval B} {starts : List (Eval Stream)}
    {stuck : Eval Stream} (member : stuck ∈ starts) (never : ∀ c s c', stuck c ≠ (.ok s, c'))
    {c c' : Context} {b b' : B} : (Stream.pullAll starts c).fold f b ≠ (.ok b', c') := by
  intro folded
  induction starts generalizing c b with
  | nil => cases member
  | cons start rest rest_ih =>
      rw [Stream.pullAll] at folded
      split at folded
      · cases folded
      · next s c₁ started =>
          rcases List.mem_cons.1 member with rfl | later
          · exact never _ _ _ started
          · rw [Step.fold_andThen] at folded
            split at folded
            · exact rest_ih later folded
            · cases folded

namespace Expr

/-- Without a known size, counting meets the error. -/
theorem count_stuck {calls : Calls} {e : Expr} (holds : e.HoldsError) (c : Context) (item : Item)
    (c' : Context) : countOf none (e.modes calls).stream c ≠ (.ok item, c') := by
  intro counted
  obtain ⟨s, member, erroneous⟩ := holds
  obtain ⟨stream, c₁, started, asked⟩ := Eval.bind_ok_iff.1 counted
  cases listed : e.operands? with
  | none =>
      rw [listed] at member
      rw [List.mem_singleton.1 member] at erroneous
      exact erroneous_stream erroneous _ _ _ started
  | some operands =>
      rw [listed] at member
      cases e with
      | list others type location =>
          obtain rfl : others = operands := Option.some.inj listed
          obtain ⟨rfl, rfl⟩ := Eval.pure_ok_iff.1 started
          obtain ⟨n, c₂, folded, _⟩ := Eval.bind_ok_iff.1 asked
          have part : (s.modes calls).stream ∈ (modesAll calls others).map (·.stream) := by
            rw [Expr.modesAll_eq_map, List.map_map]
            exact List.mem_map_of_mem member
          exact Stream.pullAll_stuck part (erroneous_stream erroneous) folded
      | _ => cases listed

/-- The value of a call is the number that its evaluation finds. -/
theorem evaluate_count {e : Expr} {type : StaticType} {location : Option Location} {d d' : Context}
    {v : Value} : (call .count [e] type location).evaluateBy calls d = (.ok v, d') ↔
      ∃ item, countOf e.size? (e.modes calls).stream d.startClock = (.ok item, d') ∧
        v = .one item := by
  have run : (call .count [e] type location).evaluateBy calls d = (do
      let found ← some <$> countOf e.size? (e.modes calls).stream
      pure (valueOfOption found)) d.startClock := rfl
  rw [run, Eval.bind_ok_iff]
  constructor
  · rintro ⟨found, d₁, asked, made⟩
    obtain ⟨item, counted, rfl⟩ := Eval.map_ok_iff.1 asked
    obtain ⟨rfl, rfl⟩ := Eval.pure_ok_iff.1 made
    exact ⟨item, counted, rfl⟩
  · rintro ⟨item, counted, rfl⟩
    exact ⟨some item, d', Eval.map_ok_iff.2 ⟨item, counted, rfl⟩, rfl⟩

/-! ## Compilation -/

open Compile

/-- An error keeps the call from being computed in advance. -/
theorem reduceCount_keeps {compiled : Expr} (holds : compiled.HoldsError) (e : Expr) :
    reduceCount e compiled = pure e := by
  obtain ⟨s, member, erroneous⟩ := holds
  have vacuous := isErroneous_isVacuous erroneous
  unfold reduceCount
  dsimp only
  split
  · next n known =>
      split
      · next item counted safe =>
          -- Nothing that counts as safe has a vacuous operand.
          exfalso
          revert safe
          cases listed : compiled.operands? with
          | none =>
              rw [listed] at member
              rw [← List.mem_singleton.1 member, vacuous]
              exact Bool.noConfusion
          | some operands =>
              rw [listed] at member
              intro safe
              have quiet := List.all_eq_true.1 safe s member
              rw [vacuous] at quiet
              cases quiet
      · rfl
  · rfl

theorem reduceCall_count {again : Expr → Compile Expr} {compiled e : Expr} {location : Option Location}
    {c c' : CompileContext} (holds : compiled.HoldsError)
    (reduced : reduceCall calls again .count [compiled] location c = (.ok e, c')) :
    e = call .count [compiled] (BuiltIn.count.resultType [compiled]) location := by
  have unknown : literalItems? [compiled] = none := by simp [literalItems?, holds.isLiteral]
  obtain ⟨_, c₁, checked, reduced⟩ := bind_ok_iff.1 reduced
  obtain ⟨_, c₂, asked, reduced⟩ := bind_ok_iff.1 reduced
  simp only [unknown, reduceCount_keeps holds] at reduced
  exact (pure_ok_iff.1 reduced).1.symm

/-- A call of `count` on a sequence with an erroneous operand gives a number only if the static size of the
compiled sequence is known, and then it gives this size; otherwise its evaluation fails. -/
theorem counted_iff_size_known {argument compiled e : Expr} {type : StaticType} {location : Option Location}
    {c c₁ c₂ : Context} (alone : argument.compileBy calls c = (.ok compiled, c₁)) (erroneous : compiled.HoldsError)
    (counted : (call .count [argument] type location).compileBy calls c = (.ok e, c₂)) (d : Context) (v : Value) :
    (e.evaluateBy calls d).1 = .ok v ↔
      ∃ n item, compiled.size? = some n ∧ countItem n = .ok item ∧ v = .one item := by
  obtain ⟨compiled', k₁, k₂, alone', again, reduced⟩ := compile_call_ok (by decide) counted
  obtain rfl : compiled = compiled' := by
    cases alone.symm.trans alone'
    rfl
  obtain rfl := reduceCall_count erroneous reduced
  -- What is left is a count that reads its argument only if no size is known, and fails then.
  constructor
  · intro given
    obtain ⟨item, asked, rfl⟩ := evaluate_count.1 (Prod.ext given rfl)
    cases known : compiled.size? with
    | none =>
        rw [known] at asked
        exact (count_stuck erroneous _ _ _ asked).elim
    | some n =>
        rw [known] at asked
        exact ⟨n, item, rfl, (Eval.ofExcept_ok_iff.1 asked).1, rfl⟩
  · rintro ⟨n, item, known, numbered, rfl⟩
    have asked : countOf compiled.size? (compiled.modes calls).stream d.startClock =
        (.ok item, d.startClock) := by
      rw [known]
      exact Eval.ofExcept_ok_iff.2 ⟨numbered, rfl⟩
    exact congrArg Prod.fst (evaluate_count.2 ⟨item, asked, rfl⟩)

end Expr

/-- A call of `count`. -/
def Expr.counting (e : Expr) : Expr := .call .count [e] (.ofSequenceType (.one .integer)) none

/-- `(1, error())` -/
def oneAndError : Expr :=
  .listOf [.literal (.integer 1), .call .error [] (.ofSequenceType .anything) none] none

/-- Nobody knows how many items a call of `error` would have had, so that counting raises its error. -/
theorem oneAndError_not_counted :
    oneAndError.compile (.initial {}) = (.ok oneAndError, .initial {}) ∧ oneAndError.HoldsError ∧
      oneAndError.counting.compile (.initial {}) = (.ok oneAndError.counting, .initial {}) ∧
      ∀ v, (oneAndError.counting.evaluate (.initial {})).1 ≠ .ok v := by
  have alone : oneAndError.compile (.initial {}) = (.ok oneAndError, .initial {}) := by
    with_unfolding_all rfl
  have counted : oneAndError.counting.compile (.initial {}) =
      (.ok oneAndError.counting, .initial {}) := by with_unfolding_all rfl
  have erroneous : oneAndError.HoldsError := ⟨_, List.mem_cons_of_mem _ List.mem_cons_self, rfl⟩
  refine ⟨alone, erroneous, counted, fun v given => ?_⟩
  obtain ⟨n, item, known, _⟩ :=
    (Expr.counted_iff_size_known alone erroneous counted (.initial {}) v).1 given
  cases known

/-- `(1, 1 div 0)` -/
def oneAndFailure : Expr := .listOf [.literal (.integer 1), oneByZero] none

/-- The division has failed in advance, and what stands in its place is counted. -/
theorem oneAndFailure_counted :
    ∃ compiled e, (oneAndFailure.compile (.initial {})).1 = .ok compiled ∧ compiled.HoldsError ∧
      (oneAndFailure.counting.compile (.initial {})).1 = .ok e ∧
      (e.evaluate (oneAndFailure.counting.compile (.initial {})).2).1 = .ok (.integer 2) := by
  refine ⟨_, _, by with_unfolding_all rfl, ?_, by with_unfolding_all rfl, by with_unfolding_all rfl⟩
  exact ⟨_, List.mem_cons_of_mem _ List.mem_cons_self, rfl⟩

end QueryKernel
