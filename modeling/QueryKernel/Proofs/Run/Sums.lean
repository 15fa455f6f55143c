import Mathlib.Tactic.Ring
import QueryKernel.Proofs.Number.Word
import QueryKernel.Proofs.Run.Operations

/-!
# Sums that follow an outcome

The functions that add up a sequence give what the meaning says.

There are three ways to add up integers: one by one, where a sum beyond 64 bits is an error, exactly, and in
closed form for a range.  Where the first succeeds it agrees with the second, and the third always does.
-/

namespace QueryKernel

variable {mine : List Nat} {c : Context} {s : Sequence}

/-! ## Integers added one by one -/

theorem addToSum_integer (i j : Int64) (count : Nat) :
    addToSum (some ⟨.integer i, .number, count⟩) (.integer j) =
      (long? (i.toInt + j.toInt)).elim (.error .overflow) fun n => .ok (some ⟨.integer n, .number, count + 1⟩) := by
  have applied : Operator.plus.apply (.integer i) (.integer j) =
      Operator.plus.onIntegers i.toInt j.toInt := rfl
  simp only [addToSum, Atom.untypedToDouble, Except.mapError, bind, Except.bind, SumClass.of?, if_true, applied,
    Operator.onIntegers]
  cases long? (i.toInt + j.toInt) <;> rfl

/-- Adding an item with one atom. -/
theorem addAtoms_eq {item : Item} {a : Atom} (atoms : item.atoms = .ok [a]) (sum : Option PartialSum) :
    (do (← item.atoms).foldlM addToSum sum) = addToSum sum a := by
  rw [atoms]
  change (addToSum sum a >>= pure) = _
  exact bind_pure _

theorem integerSum?_cons {item : Item} {rest : List Item} {sum : Int}
    (integers : integerSum? (item :: rest) = some sum) :
    ∃ (i : Int64) (others : Int), item = .integer i ∧ integerSum? rest = some others ∧ sum = i.toInt + others := by
  unfold integerSum? at integers
  split at integers
  · next none => cases none
  · next i _ same =>
      cases same
      obtain ⟨others, later, rfl⟩ := Option.map_eq_some_iff.1 integers
      exact ⟨i, others, rfl, later, rfl⟩
  · cases integers

/-- Integers are added to a number one by one, and no total on the way leaves 64 bits. -/
def TotalsFit (start : Int) (items : List Item) : Prop :=
  ∀ front, front <+: items → ∀ sum, integerSum? front = some sum → ∃ n : Int64, n.toInt = start + sum

theorem totalsFit_nil {start : Int} : TotalsFit start [] ↔ ∃ n : Int64, n.toInt = start := by
  constructor
  · intro fit
    simpa using fit [] List.prefix_rfl 0 rfl
  · rintro ⟨n, same⟩ front before sum total
    obtain rfl := List.prefix_nil.1 before
    cases total
    exact ⟨n, by omega⟩

theorem totalsFit_cons {start : Int} {i : Int64} {rest : List Item} :
    TotalsFit start (.integer i :: rest) ↔
      (∃ n : Int64, n.toInt = start) ∧ TotalsFit (start + i.toInt) rest := by
  constructor
  · intro fit
    refine ⟨totalsFit_nil.1 fun front before => fit front (before.trans List.nil_prefix), ?_⟩
    intro front before sum total
    obtain ⟨n, same⟩ := fit (.integer i :: front) (List.cons_prefix_cons.2 ⟨rfl, before⟩) (i.toInt + sum)
      (congrArg (Option.map (i.toInt + ·)) total)
    exact ⟨n, by omega⟩
  · rintro ⟨⟨n, same⟩, fit⟩ front before sum total
    cases front with
    | nil =>
        cases total
        exact ⟨n, by omega⟩
    | cons item front =>
        obtain ⟨rfl, others⟩ := List.cons_prefix_cons.1 before
        obtain ⟨j, sum, same, later, rfl⟩ := integerSum?_cons total
        cases same
        obtain ⟨m, same⟩ := fit front others sum later
        exact ⟨m, by omega⟩

/-- Integers added to an integer: their sum, or an error if a total on the way leaves 64 bits. -/
theorem foldTotal_from {items : List Item} {sum : Int} (integers : integerSum? items = some sum)
    (i : Int64) (count : Nat) :
    let result := items.foldlM (fun sum item => do (← item.atoms).foldlM addToSum sum)
      (some ⟨.integer i, .number, count⟩)
    (result = .error .overflow ∧ ¬TotalsFit i.toInt items) ∨
      ∃ n : Int64, result = .ok (some ⟨.integer n, .number, count + items.length⟩) ∧
        n.toInt = i.toInt + sum ∧ TotalsFit i.toInt items := by
  -- The integer added last decides: beyond 64 bits everything ends, otherwise it is where the rest starts.
  induction items generalizing i count sum with
  | nil =>
      cases integers
      exact .inr ⟨i, rfl, (Int.add_zero _).symm, totalsFit_nil.2 ⟨i, rfl⟩⟩
  | cons item rest rest_ih =>
      obtain ⟨j, others, rfl, later, rfl⟩ := integerSum?_cons integers
      obtain ⟨a, read, atoms⟩ := @atoms_of_plain (.integer j) trivial
      cases read
      rw [List.foldlM_cons, addAtoms_eq atoms, addToSum_integer, totalsFit_cons]
      cases found : long? (i.toInt + j.toInt) with
      | none =>
          refine .inl ⟨rfl, fun fit => long?_eq_none.1 found ?_⟩
          simpa using fit.2 [] List.nil_prefix 0 rfl
      | some n =>
          have grown := long?_eq_some found
          rw [← grown]
          rcases rest_ih later n (count + 1) with ⟨failed, leaves⟩ | ⟨m, added, total, fit⟩
          · exact .inl ⟨failed, fun fit => leaves fit.2⟩
          · refine .inr ⟨m, added.trans ?_, by omega, ⟨i, rfl⟩, fit⟩
            rw [List.length_cons, Nat.add_right_comm, Nat.add_assoc]

/-- What becomes of integers that are added up one by one. -/
inductive IntegersFolded (items : List Item) (sum : Int) : Except (Cause Expr) (Option PartialSum) → Prop where
  | nothing (empty : items = []) : IntegersFolded items sum (.ok none)
  | exact {n : Int64} (fit : TotalsFit 0 items) (total : n.toInt = sum) :
      IntegersFolded items sum (.ok (some ⟨.integer n, .number, items.length⟩))
  | overflow (leaves : ¬TotalsFit 0 items) : IntegersFolded items sum (.error .overflow)

theorem foldTotal_folded {items : List Item} {sum : Int} (integers : integerSum? items = some sum) :
    IntegersFolded items sum (foldTotal items) := by
  cases items with
  | nil => exact .nothing rfl
  | cons item rest =>
      obtain ⟨i, others, rfl, later, rfl⟩ := integerSum?_cons integers
      obtain ⟨a, read, atoms⟩ := @atoms_of_plain (.integer i) trivial
      cases read
      have whole : TotalsFit 0 (.integer i :: rest) ↔ TotalsFit i.toInt rest := by
        rw [totalsFit_cons, Int.zero_add]
        exact and_iff_right ⟨0, rfl⟩
      have begun : foldTotal (.integer i :: rest) = rest.foldlM
          (fun sum item => do (← item.atoms).foldlM addToSum sum) (some ⟨.integer i, .number, 1⟩) := by
        unfold foldTotal
        rw [List.foldlM_cons, addAtoms_eq atoms]
        rfl
      rw [begun]
      rcases foldTotal_from later i 1 with ⟨failed, leaves⟩ | ⟨n, added, total, fit⟩
      · rw [failed]
        exact .overflow (mt whole.1 leaves)
      · have counted := IntegersFolded.exact (whole.2 fit) total
        rw [List.length_cons, Nat.add_comm] at counted
        rw [added]
        exact counted

/-- A sum that can be reached one by one is the one that the meaning asks for. -/
theorem total_of_fold {sum : Option PartialSum} (folded : foldTotal s.items = .ok sum) :
    s.total = .ok (sum.map fun sum => (sum.sum, sum.count)) := by
  unfold Sequence.total
  rw [folded]
  split
  · next first rest integerSum compact items integers =>
      rw [items] at folded integers ⊢
      have given := foldTotal_folded integers
      rw [folded] at given
      cases given with
      | nothing empty => cases empty
      | exact fit total =>
          rw [exactTotal, ← total, long?_toInt]
          rfl
  · rfl

theorem total_gives {v : Value} (shaped : v.Shaped) :
    (total v).Gives mine c [] fun sum => foldTotal v.items = .ok sum := by
  unfold total
  rw [Eval.foldValue, Eval.foldWalk_eq _ _ shaped.walk_reads, shaped.size_eq, List.take_length]
  unfold foldTotal
  generalize (none : Option PartialSum) = sum
  generalize v.items = items
  induction items generalizing sum c with
  | nil => exact .pure rfl
  | cons item rest rest_ih =>
      rw [Eval.foldList_cons, List.foldlM_cons]
      refine .andThen (P := fun next => (do (← item.atoms).foldlM addToSum sum) = .ok next) ?_
        fun next c₁ _ added _ => ?_
      · exact Eval.Gives.checkStop.andThen fun _ _ _ _ _ => .ofExcept fun _ => id
      · rw [added]
        exact rest_ih next

/-! ## Ranges -/

theorem integerSum?_concat {items : List Item} {sum : Int} (integers : integerSum? items = some sum)
    (i : Int64) : integerSum? (items ++ [.integer i]) = some (sum + i.toInt) := by
  induction items generalizing sum with
  | nil =>
      cases integers
      rw [List.nil_append, Int.zero_add]
      exact congrArg some (Int.add_zero _)
  | cons item rest rest_ih =>
      obtain ⟨j, others, rfl, later, rfl⟩ := integerSum?_cons integers
      rw [List.cons_append, Int.add_assoc]
      exact congrArg (Option.map (j.toInt + ·)) (rest_ih later)

/-- Twice the sum of consecutive integers. -/
theorem integerSum?_integersFrom (first : Int64) (count : Nat)
    (inside : first.toInt + count - 1 ≤ Int64.maxValue.toInt) :
    ∃ sum, integerSum? (integersFrom first count) = some sum ∧
      2 * sum = count * (2 * first.toInt + count - 1) := by
  induction count with
  | zero => exact ⟨0, rfl, by simp⟩
  | succ count count_ih =>
      obtain ⟨sum, before, twice⟩ := count_ih (by omega)
      have last : (Int64.ofInt (first.toInt + count)).toInt = first.toInt + count :=
        IntegerRange.toInt_ofInt_between first Int64.maxValue (by omega) (by omega)
      refine ⟨sum + (first.toInt + count), ?_, ?_⟩
      · have more := integerSum?_concat before (Int64.ofInt (first.toInt + count))
        rw [last] at more
        rw [← more, integersFrom, List.range_succ, List.map_append]
        rfl
      · rw [Int.mul_add, twice]
        push_cast
        ring

/-- The closed form is the exact sum. -/
theorem rangeTotal_exact {r : IntegerRange} (valid : r.Valid) :
    ∃ sum, integerSum? (ValueOf.range r : Value).items = some sum ∧
      2 * sum = r.length * (2 * r.first.toInt + r.length - 1) ∧ rangeTotal r = exactTotal sum := by
  obtain ⟨sum, integers, twice⟩ := integerSum?_integersFrom r.first r.length valid.inside
  have closed : (r.length : Int) * (2 * r.first.toInt + r.length - 1) / 2 = sum := by omega
  refine ⟨sum, integers, twice, ?_⟩
  rw [rangeTotal, closed]
  rfl

theorem total_range {r : IntegerRange} (valid : r.Valid) (same : s.From (ValueOf.range r : Value).items true) :
    s.total = (rangeTotal r).map fun a => some (a, r.length) := by
  obtain ⟨sum, integers, -, exact⟩ := rangeTotal_exact valid
  have length : s.items.length = r.length := by
    rw [same.items_eq, ValueOf.items_range, length_integersFrom]
  -- A range has two items at least, and so a sum.
  have some : ∃ first rest, s.items = first :: rest := by
    cases all : s.items with
    | nil =>
        have least := valid.least
        rw [all, List.length_nil] at length
        omega
    | cons first rest => exact ⟨first, rest, rfl⟩
  obtain ⟨first, rest, all⟩ := some
  rw [← same.items_eq] at integers
  unfold Sequence.total
  rw [same.compact_of rfl, integers, length, all, exact]

/-! ## Functions -/

section Functions

variable {t : Sequence} {value : Eval Value} {location : Option Location}

/-- The sum of a value and the number of its atoms, as it is found for a range and for other values. -/
def sumAndCount (location : Option Location) (v : Value) : Eval (Option (Atom × Nat)) :=
  match v with
  | .range r => do
      let sum ← Eval.ofExcept none (rangeTotal r)
      pure (some (sum, r.length))
  | _ => do
      let sum ← (total v).locate location
      pure (sum.map fun s => (s.sum, s.count))

theorem sumAndCount_gives {v : Value} (same : v.Is t) :
    (sumAndCount location v).Gives mine c [] fun sum => t.total = .ok sum := by
  have byFold : Eval.Gives mine c [] (fun sum => t.total = .ok sum) (do
      let sum ← (total v).locate location
      pure (sum.map fun s => (s.sum, s.count))) := by
    refine (total_gives same.shaped).locate.finish fun sum folded => total_of_fold ?_
    rwa [same.items_eq]
  cases v with
  | range r =>
      have made : ∀ a, rangeTotal r = .ok a → t.total = .ok (some (a, r.length)) := by
        intro a made
        rw [total_range same.shaped same.holds, made]
        rfl
      exact (Eval.Gives.ofExcept made).finish fun _ => id
  | empty | one item | flat items tag | tree rope tag => exact byFold

/-- What is made of the sum, or of there being none. -/
def sumOrNothing (alternative : Option (Eval (Option Item))) (sum : Option (Atom × Nat)) :
    Eval (Option Item) :=
  match sum, alternative with
  | some (a, _), _ => pure (some (.atom a))
  | none, some other => other
  | none, none => pure (some (.integer 0))

theorem sumOf_eq (alternative : Option (Eval (Option Item))) :
    sumOf location value alternative = value >>= fun v =>
      sumAndCount location v >>= sumOrNothing alternative := by
  refine congrArg (value >>= ·) (funext fun v => funext fun c => ?_)
  cases v with
  | range r =>
      simp only [sumAndCount]
      cases rangeTotal r <;> rfl
  | empty | one item | flat items tag | tree rope tag =>
      simp only [sumAndCount, Eval.bind_apply]
      generalize Eval.locate location _ c = ran
      obtain ⟨result, c₁⟩ := ran
      cases result with
      | error e => rfl
      | ok sum => cases sum <;> cases alternative <;> rfl

/-- What stands for a sum where there are no atoms gives what the meaning has in its place. -/
theorem sumOf_gives {alternative : Option (Eval (Option Item))} {nothing : List Item} (failed : List Item)
    (valued : value.Gives mine c [] (·.Is t))
    (others : ∀ c', c.Leads mine c' [] → (sumOrNothing alternative none).Gives mine c' []
      fun found => nothing = found.toList) :
    (sumOf location value alternative).Gives mine c [] fun found =>
      sumItems t nothing failed = found.toList := by
  rw [sumOf_eq]
  refine valued.andThen fun v c₁ _ same led => (sumAndCount_gives same).andThen fun sum c₂ _ added led₁ => ?_
  unfold sumItems
  rw [added]
  cases sum with
  | none => exact others c₂ (led.quiet led₁)
  | some pair =>
      obtain ⟨a, count⟩ := pair
      cases alternative <;> exact .pure rfl

/-- The mean of a sum, if there is one. -/
def meanOrNothing (location : Option Location) (sum : Option (Atom × Nat)) : Eval (Option Item) :=
  match sum with
  | none => pure none
  | some (sum, count) =>
      match long? count with
      | none => Eval.raise .overflow none
      | some n => do
          let mean ← Eval.ofExcept location
            ((Operator.divide.apply sum (.integer n)).mapError .ofAtomError)
          pure (some (.atom mean))

theorem averageOf_eq : averageOf location value = value >>= fun v =>
    sumAndCount location v >>= meanOrNothing location := by
  refine congrArg (value >>= ·) (funext fun v => funext fun c => ?_)
  cases v with
  | range r =>
      simp only [sumAndCount]
      cases rangeTotal r <;> rfl
  | empty | one item | flat items tag | tree rope tag =>
      simp only [sumAndCount, Eval.bind_apply]
      generalize Eval.locate location _ c = ran
      obtain ⟨result, c₁⟩ := ran
      cases result <;> rfl

theorem averageOf_gives (valued : value.Gives mine c [] (·.Is t)) :
    (averageOf location value).Gives mine c [] fun found => averageItems t = found.toList := by
  rw [averageOf_eq]
  refine valued.andThen fun v c₁ _ same _ => (sumAndCount_gives same).andThen fun sum c₂ _ added _ => ?_
  unfold averageItems
  rw [added]
  cases sum with
  | none => exact .pure rfl
  | some pair =>
      obtain ⟨sum, count⟩ := pair
      simp only [meanOrNothing]
      cases long? count with
      | none => exact .raise
      | some n =>
          dsimp only
          cases Operator.divide.apply sum (.integer n) with
          | error e => exact .raise
          | ok mean => exact .pure rfl

end Functions

end QueryKernel
