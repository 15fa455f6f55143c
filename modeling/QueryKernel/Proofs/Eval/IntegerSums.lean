import QueryKernel.Proofs.Eval.RangeTotals
import QueryKernel.Proofs.Run.Ends

/-!
# Sums of integers

What a call for the sum of integers comes to: the exact sum if no total on the way leaves 64 bits.  Otherwise it
depends on how the integers are kept.  A range still has an exact sum, as a decimal if need be, and all other
values have none.

A sum of 64 bits is not enough.  A total on the way may leave them although the sum does not, so that the
condition is one on all first parts of the sequence.
-/

namespace QueryKernel

/-! ## Totals -/

/-- Where nothing stops it, adding up is adding one by one. -/
theorem total_runs {v : Value} (shaped : v.Shaped) {c : Context} (runs : c.Runs) :
    total v c = Eval.ofExcept none (foldTotal v.items) c := by
  have goesOn : Eval.checkStop c = (.ok (), c) := by
    rw [Eval.checkStop, show c.stopCause? = none from runs]
  unfold total
  rw [Eval.foldValue, Eval.foldWalk_eq _ _ shaped.walk_reads, shaped.size_eq, List.take_length]
  unfold foldTotal
  -- The induction is on what is still to be added, from whatever sum there is so far.
  generalize (none : Option PartialSum) = start
  generalize v.items = items
  induction items generalizing start with
  | nil => rfl
  | cons item rest rest_ih =>
      rw [Eval.foldList_cons, List.foldlM_cons, Eval.bind_apply, Eval.bind_apply, goesOn]
      -- What is left is the step of the fold itself, and the context is the same after it.
      cases added : (do (← item.atoms).foldlM addToSum start : Except (Cause Expr) _) with
      | error cause => rfl
      | ok grown => exact rest_ih grown

/-- The sum of all integers is that of one of the first parts. -/
theorem TotalsFit.whole {items : List Item} {sum : Int} (fit : TotalsFit 0 items)
    (integers : integerSum? items = some sum) : ∃ n : Int64, n.toInt = sum := by
  obtain ⟨n, same⟩ := fit items List.prefix_rfl sum integers
  exact ⟨n, by omega⟩

/-! ## Calls -/

/-- A call for the sum of a value of integers, which is evaluated first and leaves no reason to stop.  What may
stand for the sum of nothing is not asked for. -/
structure Expr.SumsIntegers (calls : Calls) (call : Expr) (location : Option Location) (c c' : Context) (v : Value)
    (sum : Int) : Prop where
  made : ∃ e rest, Expr.callOf .sum (e :: rest) location = .ok call ∧ (e.modes calls).value c = (.ok v, c') ∧
    (rest = [] ∨ v.items ≠ [])
  shaped : v.Shaped
  integers : integerSum? v.items = some sum
  runs : c'.Runs

/-- What the sum of integers comes to. -/
inductive SumOutcome (location : Option Location) (v : Value) (sum : Int) : Except Failure (Option Item) → Prop where
  | exact {n : Int64} (total : n.toInt = sum) (fit : v.isRange = true ∨ TotalsFit 0 v.items) :
      SumOutcome location v sum (.ok (some (.integer n)))
  | decimal (range : v.isRange = true) (beyond : ¬∃ n : Int64, n.toInt = sum) (few : sum.natAbs < 2 ^ 96) :
      SumOutcome location v sum (.ok (some (.atom (.decimal (.ofInt sum)))))
  | tooLarge (range : v.isRange = true) (many : 2 ^ 96 ≤ sum.natAbs) :
      SumOutcome location v sum (.error (.error ⟨.overflow, none⟩))
  | overflow (other : v.isRange = false) (leaves : ¬TotalsFit 0 v.items) :
      SumOutcome location v sum (.error (.error ⟨.overflow, location⟩))

variable {location : Option Location} {v w : Value} {sum : Int} {calls : Calls} {call : Expr} {c c' : Context}

theorem not_beyond_large {n : Int64} (total : n.toInt = sum) : sum.natAbs < 2 ^ 96 := by
  have low := n.le_toInt
  have high := n.toInt_lt
  omega

/-- There is one outcome for all ranges of some integers, and one for all other values of them. -/
theorem SumOutcome.unique {x y : Except Failure (Option Item)} (first : SumOutcome location v sum x)
    (second : SumOutcome location w sum y) (items : w.items = v.items) (kind : w.isRange = v.isRange) : y = x := by
  -- No two outcomes go together: they differ in the size of the total or in the shape of the value.
  cases first with
  | exact total fit =>
      cases second with
      | exact total' => rw [Int64.toInt_inj.1 (total'.trans total.symm)]
      | decimal range beyond few => exact absurd ⟨_, total⟩ beyond
      | tooLarge range many => exact absurd (not_beyond_large total) (by omega)
      | overflow other leaves =>
          rw [items] at leaves
          rcases fit with range | fit
          · rw [kind, range] at other
            cases other
          · exact absurd fit leaves
  | decimal range beyond few =>
      cases second with
      | exact total => exact absurd ⟨_, total⟩ beyond
      | decimal => rfl
      | tooLarge range many => omega
      | overflow other => rw [kind, range] at other; cases other
  | tooLarge range many =>
      cases second with
      | exact total => exact absurd (not_beyond_large total) (by omega)
      | decimal range beyond few => omega
      | tooLarge => rfl
      | overflow other => rw [kind, range] at other; cases other
  | overflow other leaves =>
      cases second with
      | exact total fit =>
          rw [items, kind, other] at fit
          rcases fit with range | fit
          · cases range
          · exact absurd fit leaves
      | decimal range | tooLarge range => rw [kind, other] at range; cases range
      | overflow => rfl

/-- Without a total beyond 64 bits the kind of value does not matter. -/
theorem SumOutcome.eq_exact {x : Except Failure (Option Item)} (outcome : SumOutcome location v sum x)
    (integers : integerSum? v.items = some sum) (fit : TotalsFit 0 v.items) :
    ∃ n : Int64, n.toInt = sum ∧ x = .ok (some (.integer n)) := by
  obtain ⟨n, total⟩ := fit.whole integers
  cases outcome with
  | exact total => exact ⟨_, total, rfl⟩
  | decimal range beyond => exact absurd ⟨n, total⟩ beyond
  | tooLarge range many => exact absurd (not_beyond_large total) (by omega)
  | overflow other leaves => exact absurd fit leaves

theorem sumAndCount_outcome {alternative : Option (Eval (Option Item))} (shaped : v.Shaped)
    (integers : integerSum? v.items = some sum) (runs : c.Runs) (alone : alternative = none ∨ v.items ≠ []) :
    ((sumAndCount location v >>= sumOrNothing alternative) c).2 = c ∧
      SumOutcome location v sum ((sumAndCount location v >>= sumOrNothing alternative) c).1 := by
  have byFold : v.isRange = false → sumAndCount location v = (do
      let sum ← (total v).locate location
      pure (sum.map fun s => (s.sum, s.count)) : Eval _) →
      ((sumAndCount location v >>= sumOrNothing alternative) c).2 = c ∧
        SumOutcome location v sum ((sumAndCount location v >>= sumOrNothing alternative) c).1 := by
    intro other unfolded
    have folded := foldTotal_folded integers
    have ran := total_runs shaped runs
    rw [unfolded, Eval.bind_apply, Eval.bind_apply, Eval.locate, ran]
    generalize foldTotal v.items = result at folded ⊢
    cases folded with
    | nothing empty =>
        -- Nothing to add up: the sum is zero, because no other value stands in for it.
        obtain rfl := alone.resolve_right (not_not_intro empty)
        rw [empty] at integers
        cases integers
        exact ⟨rfl, .exact (n := 0) rfl (.inr (empty ▸ totalsFit_nil.2 ⟨0, rfl⟩))⟩
    | exact fit total => exact ⟨rfl, .exact total (.inr fit)⟩
    | overflow leaves => exact ⟨rfl, .overflow other leaves⟩
  cases v with
  | range r =>
      obtain ⟨total, same, -, closed⟩ := rangeTotal_exact (r := r) shaped
      obtain rfl : total = sum := Option.some.inj (same.symm.trans integers)
      -- The closed form is cut at 64 and at 96 bits, and so are the cases here.
      obtain ⟨integer, decimal, overflow⟩ := exactTotal_cases total
      simp only [sumAndCount, Eval.bind_apply, closed]
      by_cases fits : ∃ n : Int64, n.toInt = total
      · obtain ⟨n, found⟩ := fits
        rw [(integer n).2 found]
        exact ⟨rfl, .exact found (.inl rfl)⟩
      · by_cases few : total.natAbs < 2 ^ 96
        · rw [decimal fits few]
          exact ⟨rfl, .decimal rfl fits few⟩
        · rw [overflow (by omega)]
          exact ⟨rfl, .tooLarge rfl (by omega)⟩
  | empty | one item | flat items tag | tree rope tag => exact byFold rfl rfl

/-- The sum of integers is exact if no total on the way leaves 64 bits.  Otherwise it is an overflow, unless the
integers are those of a range: then it is an integer if it has 64 bits, a decimal if it has 96, and an overflow
only if it has more.  So values of the same integers have the same sum if all totals fit, and also if both of
them are ranges or neither. -/
theorem sum_of_integers (sums : call.SumsIntegers calls location c c' v sum) :
    ((call.modes calls).item c).2 = c' ∧ SumOutcome location v sum ((call.modes calls).item c).1 ∧
      (TotalsFit 0 v.items →
        ∃ n : Int64, n.toInt = sum ∧ ((call.modes calls).item c).1 = .ok (some (.integer n))) ∧
      ∀ (call' : Expr) (d d' : Context) (w : Value), call'.SumsIntegers calls location d d' w sum →
        w.items = v.items → w.isRange = v.isRange ∨ TotalsFit 0 v.items →
        ((call'.modes calls).item d).1 = ((call.modes calls).item c).1 := by
  -- Each call has its outcome on its own; two calls are compared by their outcomes.
  have each : ∀ {call : Expr} {c c' : Context} {v : Value}, call.SumsIntegers calls location c c' v sum →
      ((call.modes calls).item c).2 = c' ∧ SumOutcome location v sum ((call.modes calls).item c).1 := by
    intro call c c' v sums
    obtain ⟨e, rest, made, valued, alone⟩ := sums.made
    obtain ⟨-, rfl⟩ := Expr.callOf_eq_ok made
    rw [Expr.modes_eq_modesOver]
    change (sumOf location (e.modes calls).value (((rest.map (Expr.modes calls))[0]?).map (·.item)) c).2 = c' ∧
      SumOutcome location v sum
        (sumOf location (e.modes calls).value (((rest.map (Expr.modes calls))[0]?).map (·.item)) c).1
    rw [sumOf_eq, Eval.bind_apply, valued]
    exact sumAndCount_outcome sums.shaped sums.integers sums.runs (alone.imp_left fun none => by rw [none]; rfl)
  obtain ⟨still, outcome⟩ := each sums
  have exact := outcome.eq_exact sums.integers
  refine ⟨still, outcome, exact, ?_⟩
  rintro call' d d' w sums' items (kind | fit)
  · exact outcome.unique (each sums').2 items kind
  · obtain ⟨n, total, same⟩ := exact fit
    obtain ⟨m, total', same'⟩ := (each sums').2.eq_exact sums'.integers (items ▸ fit)
    rw [same, same', Int64.toInt_inj.1 (total'.trans total.symm)]

/-- Three integers have the same sum as a range and as a list of them. -/
theorem sum_of_oneToThree :
    let list : Value := .ofItems [.integer 1, .integer 2, .integer 3]
    let range : Value := .range ⟨1, 3⟩
    let summed := fun v : Value => Expr.call .sum [.literal v] (BuiltIn.sum.resultType [.literal v]) none
    let c : Context := .initial {}
    (summed list).SumsIntegers (callsWithin callDepth) none c c list 6 ∧
      (summed range).SumsIntegers (callsWithin callDepth) none c c range 6 ∧
      TotalsFit 0 list.items ∧ ((summed list).run.item c).1 = .ok (some (.integer 6)) ∧
      ((summed range).run.item c).1 = ((summed list).run.item c).1 := by
  intro list range summed c
  have listed : (summed list).SumsIntegers (callsWithin callDepth) none c c list 6 :=
    ⟨⟨.literal list, [], rfl, rfl, .inl rfl⟩, (ValueOf.ofItems_holds _).1.shaped, rfl, rfl⟩
  have closed : (summed range).SumsIntegers (callsWithin callDepth) none c c range 6 :=
    ⟨⟨.literal range, [], rfl, rfl, .inl rfl⟩, ⟨by decide, by decide, by decide⟩, rfl, rfl⟩
  have fit : TotalsFit 0 list.items := by
    simp only [show list.items = [.integer 1, .integer 2, .integer 3] from rfl, totalsFit_cons, totalsFit_nil]
    exact ⟨⟨0, rfl⟩, ⟨1, rfl⟩, ⟨3, rfl⟩, ⟨6, rfl⟩⟩
  obtain ⟨-, -, exact, same⟩ := sum_of_integers listed
  obtain ⟨n, total, ran⟩ := exact fit
  obtain rfl : n = 6 := Int64.toInt_inj.1 total
  exact ⟨listed, closed, fit, ran, same _ _ _ _ closed rfl (.inr fit)⟩

/-- The largest integer is not the sum of itself, one and minus one, and two integers have another sum as a
range. -/
theorem sum_depends_on_order_and_kind :
    let largest := Int64.maxValue
    let three : Value := .ofItems [.integer largest, .integer 1, .integer (-1)]
    let list : Value := .ofItems [.integer (largest - 1), .integer largest]
    let range : Value := .range ⟨largest - 1, 2⟩
    let summed := fun v : Value => Expr.call .sum [.literal v] (BuiltIn.sum.resultType [.literal v]) none
    let c : Context := .initial {}
    integerSum? three.items = some largest.toInt ∧ ((summed three).run.item c).1 = .error (.error ⟨.overflow, none⟩) ∧
      list.items = range.items ∧ ((summed list).run.item c).1 = .error (.error ⟨.overflow, none⟩) ∧
      ((summed range).run.item c).1 = .ok (some (.atom (.decimal ⟨18446744073709551613, 0⟩))) :=
  ⟨rfl, by with_unfolding_all rfl, rfl, by with_unfolding_all rfl, by with_unfolding_all rfl⟩

end QueryKernel
