import QueryKernel.Proofs.Run.Sums

/-!
# Errors of operations on constants

Which results and which errors an operation on literals may end with while there is no reason to stop.

An error tells something about the operands: where one of them is to blame the meaning has a result of its own
in place of the error, and it has to be the one that the error stands for.

## Definitions

* `Context.Runs` says that there is no reason to stop.
* `Eval.Ends` is the rule for computations with a condition on results and one on the causes of errors.
* `Cause.Uncounted` has the causes that tell no number of items.
-/

namespace QueryKernel

/-- There is no reason to stop. -/
def Context.Runs (c : Context) : Prop := c.stopCause? = none

/-- The cause tells no number of items. -/
def Cause.Uncounted (cause : Cause Expr) : Prop := ∀ n, cause ≠ .tooLongToCount n

theorem uncounted_ofAtomError (e : AtomError) : (Cause.ofAtomError e : Cause Expr).Uncounted := by
  intro n
  cases e <;> exact nofun

theorem uncounted_mapError {A : Type} {x : Except AtomError A} {cause : Cause Expr}
    (failed : x.mapError Cause.ofAtomError = .error cause) : cause.Uncounted := by
  cases x with
  | ok a => cases failed
  | error e =>
      cases failed
      exact uncounted_ofAtomError e

namespace Eval

variable {A B : Type} {P : A → Prop} {Q : B → Prop} {E : Cause Expr → Prop}

/-- From a context without a reason to stop the computation leads to another one, with results and causes of
errors that satisfy the conditions. -/
def Ends (P : A → Prop) (E : Cause Expr → Prop) (x : Eval A) : Prop :=
  ∀ c, c.Runs → (x c).2.Runs ∧ (∀ a, (x c).1 = .ok a → P a) ∧ ∀ e, (x c).1 = .error (.error e) → E e.cause

theorem Ends.mono {P' : A → Prop} {E' : Cause Expr → Prop} {x : Eval A} (ends : x.Ends P E)
    (results : ∀ a, P a → P' a) (errors : ∀ cause, E cause → E' cause) : x.Ends P' E' := by
  intro c runs
  obtain ⟨kept, holds, failed⟩ := ends c runs
  exact ⟨kept, fun a given => results a (holds a given), fun e given => errors _ (failed e given)⟩

/-- More may be known of the results in another way. -/
theorem Ends.also {R : A → Prop} {x : Eval A} (ends : x.Ends P E) (more : ∀ c a c', x c = (.ok a, c') → R a) :
    x.Ends (fun a => P a ∧ R a) E := by
  intro c runs
  obtain ⟨kept, holds, failed⟩ := ends c runs
  exact ⟨kept, fun a given => ⟨holds a given, more c a (x c).2 (Prod.ext given rfl)⟩, failed⟩

theorem Ends.pure {a : A} (holds : P a) : Ends P E (pure a) := by
  refine fun c runs => ⟨runs, fun b same => ?_, fun e none => by cases none⟩
  cases same
  exact holds

theorem Ends.raise {cause : Cause Expr} {location : Option Location} (failed : E cause) :
    Ends P E (raise cause location) := by
  refine fun c runs => ⟨runs, fun b none => (by cases none), fun e same => ?_⟩
  cases same
  exact failed

theorem Ends.ofExcept {location : Option Location} {x : Except (Cause Expr) A} (holds : ∀ a, x = .ok a → P a)
    (failed : ∀ cause, x = .error cause → E cause) : Ends P E (ofExcept location x) := by
  cases x with
  | ok a => exact .pure (holds a rfl)
  | error cause => exact .raise (failed cause rfl)

theorem Ends.ofFaulty {x : Except Fault A} (holds : ∀ a, x = .ok a → P a) : Ends P E (ofFaulty x) := by
  cases x with
  | ok a => exact .pure (holds a rfl)
  | error fault => exact fun c runs => ⟨runs, fun _ none => (by cases none), fun _ none => by cases none⟩

theorem Ends.bind {x : Eval A} {f : A → Eval B} (first : x.Ends P E) (second : ∀ a, P a → (f a).Ends Q E) :
    (x >>= f).Ends Q E := by
  intro c runs
  obtain ⟨kept, holds, failed⟩ := first c runs
  rw [bind_apply]
  cases ran : x c with
  | mk result c₁ =>
      rw [ran] at kept holds failed
      cases result with
      | ok a => exact second a (holds a rfl) c₁ kept
      | error e =>
          refine ⟨kept, fun _ none => (by cases none), fun e' same => failed e' ?_⟩
          cases same
          rfl

theorem Ends.finish {x : Eval A} {f : A → B} (first : x.Ends P E) (holds : ∀ a, P a → Q (f a)) :
    (do return f (← x) : Eval B).Ends Q E := first.bind fun a given => .pure (holds a given)

theorem Ends.checkStop : Ends (fun _ => True) E checkStop := by
  intro c runs
  rw [Eval.checkStop, show c.stopCause? = none from runs]
  exact ⟨runs, fun _ _ => trivial, fun _ none => by cases none⟩

theorem Ends.change {f : Context → Context} (keeps : ∀ c, c.Runs → (f c).Runs) :
    Ends (fun _ => True) E (change f) :=
  fun c runs => ⟨keeps c runs, fun _ _ => trivial, fun _ none => by cases none⟩

theorem Ends.locate {location : Option Location} {x : Eval A} (ends : x.Ends P E) :
    (x.locate location).Ends P E := by
  intro c runs
  obtain ⟨kept, holds, failed⟩ := ends c runs
  unfold Eval.locate
  split
  · next e c₁ ran =>
      rw [ran] at kept failed
      refine ⟨kept, fun _ none => (by cases none), fun e' same => ?_⟩
      cases same
      rw [ErrorOf.cause_locate]
      exact failed e rfl
  · exact ⟨kept, holds, failed⟩

/-- A fold that knows what its result is of the part of the list that it has gone through. -/
theorem Ends.foldList {f : B → A → Eval B} {K : List A → B → Prop} {list : List A} {b : B}
    (start : K list b) (step : ∀ a rest b, K (a :: rest) b → (f b a).Ends (K rest) E) :
    (foldList f b list).Ends (K []) E := by
  induction list generalizing b with
  | nil => exact .pure start
  | cons a rest rest_ih =>
      rw [foldList_cons]
      exact (step a rest b start).bind fun next given => rest_ih given

end Eval

/-! ## Literals -/

namespace Modes

variable {v w : Value}

/-- An error about more than one item. -/
def Crowded (items : List Item) (cause : Cause Expr) : Prop := cause.Uncounted ∧ 2 ≤ items.length

theorem singleOfValue_ends (shaped : v.Shaped) (location : Option Location) :
    (singleOfValue location v).Ends (fun found => v.items = found.toList) (Crowded v.items) := by
  unfold singleOfValue
  rw [shaped.get?_eq, shaped.get?_eq]
  generalize v.items = items
  match items with
  | [] => exact .pure rfl
  | [item] => exact .pure rfl
  | first :: second :: rest => exact .raise ⟨nofun, Nat.le_add_left 2 rest.length⟩

theorem atomItem_ends (simple : v.Simple) : (ofLiteral v).atomItem.Ends (AtomOf v.items) (Crowded v.items) := by
  refine (singleOfValue_ends simple.shaped none).bind fun found given => ?_
  have plain := simple.plain
  rw [given] at plain ⊢
  cases found with
  | none => exact .pure .none
  | some item =>
      obtain ⟨a, read, atoms⟩ := atoms_of_plain (plain item List.mem_cons_self)
      dsimp only
      rw [atoms]
      exact .bind (P := fun given => given = [a]) (.pure rfl) fun _ same => by
        subst same
        exact .pure (.some read)

theorem longOf_ends (m : Modes) (a : Atom) :
    (m.longOf a).Ends (fun n => a.toLong? = some n) fun cause => cause.Uncounted ∧ a.toLong? = none := by
  cases a with
  | integer i => exact .pure rfl
  | untyped text =>
      unfold Modes.longOf
      dsimp only
      split
      · next i read => exact .pure read
      · next read => exact .raise ⟨nofun, read⟩
  | _ => exact .raise ⟨nofun, rfl⟩

/-- An error that leaves no integer. -/
def NoLong (items : List Item) (cause : Cause Expr) : Prop :=
  cause.Uncounted ∧ ∀ n, ¬LongOf items (some n)

theorem toLong?_ends (simple : v.Simple) : (ofLiteral v).toLong?.Ends (LongOf v.items) (NoLong v.items) := by
  have crowded : ∀ {items : List Item} cause, Crowded items cause → NoLong items cause := by
    rintro items cause ⟨other, many⟩
    refine ⟨other, fun n given => ?_⟩
    cases given
    exact absurd many (Nat.not_succ_le_self 1)
  refine ((atomItem_ends simple).mono (fun _ => id) crowded).bind fun found given => ?_
  generalize v.items = items at given
  cases given with
  | none => exact .pure .none
  | @some item a read =>
      refine ((longOf_ends _ a).mono (fun _ => id) ?_).finish fun n long => .some read long
      rintro cause ⟨other, unread⟩
      refine ⟨other, fun n given => ?_⟩
      cases given with
      | some again long =>
          rw [read] at again
          cases again
          rw [unread] at long
          cases long

end Modes

/-! ## Operations -/

section Operations

variable {v w : Value} (left : v.Simple) (right : w.Simple) {location : Option Location}

/-- The items of a range are there only if both bounds are. -/
theorem rangeItems_nil {items others : List Item} (missing : ∀ m n, LongOf items (some m) → ¬LongOf others (some n)) :
    rangeItems items others = [] := by
  unfold rangeItems
  split
  · next a b =>
      split
      · next m n first second =>
          obtain ⟨x, readFirst, longFirst⟩ := Option.bind_eq_some_iff.1 first
          obtain ⟨y, readSecond, longSecond⟩ := Option.bind_eq_some_iff.1 second
          exact absurd (.some readSecond longSecond) (missing m n (.some readFirst longFirst))
      · rfl
  · rfl

theorem rangeItems_bounded {items others : List Item} {m n : Int64} (first : LongOf items (some m))
    (second : LongOf others (some n)) : rangeItems items others = boundedRange m n := by
  cases first with
  | some readFirst longFirst =>
      cases second with
      | some readSecond longSecond => simp [rangeItems, readFirst, longFirst, readSecond, longSecond]

theorem range?_isRange {m n : Int64} {r : Value} (made : ValueOf.range? m n = some r)
    (many : 2 ≤ r.items.length) : r.isRange = true := by
  unfold ValueOf.range? at made
  dsimp only at made
  split at made
  · cases made
    exact absurd many (by decide)
  split at made
  · cases made
  split at made
  · cases made
    exact absurd many (Nat.not_succ_le_self 1)
  · cases made
    rfl

include left right

theorem rangeValue_ends : (rangeValue (.ofLiteral v) (.ofLiteral w) location).Ends
    (fun r => 2 ≤ (rangeItems v.items w.items).length → r.isRange = true)
    fun cause => cause.Uncounted ∧ rangeItems v.items w.items = [] := by
  have none : ∀ {items others : List Item}, (∀ m n, LongOf items (some m) → ¬LongOf others (some n)) →
      2 ≤ (rangeItems items others).length → False := by
    intro items others missing many
    rw [rangeItems_nil missing] at many
    exact absurd many (by decide)
  -- An operand that is no integer makes the range empty, so that there is nothing to be compact.
  refine ((Modes.toLong?_ends left).mono (fun _ => id) fun cause failed =>
    ⟨failed.1, rangeItems_nil fun m n first => absurd first (failed.2 m)⟩).bind fun first givenFirst => ?_
  cases first with
  | none =>
      refine .pure fun many => (none (fun m n given => ?_) many).elim
      generalize v.items = items at given givenFirst
      cases givenFirst
      cases given
  | some m =>
      refine ((Modes.toLong?_ends right).mono (fun _ => id) fun cause failed =>
        ⟨failed.1, rangeItems_nil fun m n _ second => failed.2 n second⟩).bind fun last givenLast => ?_
      cases last with
      | none =>
          refine .pure fun many => (none (fun m n _ given => ?_) many).elim
          generalize w.items = items at given givenLast
          cases givenLast
          cases given
      | some n =>
          rw [rangeItems_bounded givenFirst givenLast, boundedRange]
          dsimp only
          cases made : (ValueOf.range? m n : Option Value) with
          | some r =>
              refine .pure fun many => range?_isRange made ?_
              rw [(ValueOf.range?_holds made).2]
              split at many
              · exact many
              · exact absurd many (by decide)
          | none =>
              refine .raise ⟨fun _ same => (by cases same), if_neg (Nat.not_le.2 ?_)⟩
              exact (ValueOf.range?_eq_none_iff m n).1 made

theorem onAtoms_ends (operation : Atom → Atom → Except AtomError Item) :
    (onAtoms (.ofLiteral v) (.ofLiteral w) location operation).Ends (fun _ => True) fun cause =>
      cause.Uncounted ∧ operate operation v.items w.items =
        if v.items.length = 1 ∧ w.items.length = 1 then [standIn] else [] := by
  have crowded : ∀ {items others : List Item}, 2 ≤ items.length ∨ 2 ≤ others.length →
      operate operation items others =
        if items.length = 1 ∧ others.length = 1 then [standIn] else [] := by
    intro items others many
    rw [if_neg (by omega)]
    unfold operate
    split
    · simp at many
    · rfl
  -- An operand of many items is an error, and in the meaning it leaves nothing.
  refine ((Modes.atomItem_ends left).mono (fun _ => id) fun cause failed =>
    ⟨failed.1, crowded (.inl failed.2)⟩).bind fun first givenFirst => ?_
  cases first with
  | none => exact .pure trivial
  | some a =>
      refine ((Modes.atomItem_ends right).mono (fun _ => id) fun cause failed =>
        ⟨failed.1, crowded (.inr failed.2)⟩).bind fun second givenSecond => ?_
      cases second with
      | none => exact .pure trivial
      | some b =>
          generalize v.items = items at givenFirst
          generalize w.items = others at givenSecond
          cases givenFirst with
          | some readFirst =>
              cases givenSecond with
              | some readSecond =>
                  refine (Eval.Ends.ofExcept (P := fun _ => True) (fun _ _ => trivial) fun cause failed => ?_).finish
                    fun _ _ => trivial
                  cases made : operation a b with
                  | ok item =>
                      rw [made] at failed
                      cases failed
                  | error e =>
                      rw [made] at failed
                      cases failed
                      refine ⟨uncounted_ofAtomError e, ?_⟩
                      simp [operate, operateAtoms, readFirst, readSecond, made, Except.toOption]

end Operations

/-! ## Sums -/

theorem addToSum_uncounted {sum : Option PartialSum} {a : Atom} {cause : Cause Expr}
    (failed : addToSum sum a = .error cause) : cause.Uncounted := by
  unfold addToSum at failed
  cases read : a.untypedToDouble.mapError (Cause.ofAtomError (F := Expr)) with
  | error e =>
      rw [read] at failed
      cases failed
      exact uncounted_mapError read
  | ok b =>
      rw [read] at failed
      simp only [bind, Except.bind] at failed
      split at failed
      · split at failed
        · cases failed
        · cases failed
          exact nofun
      · next partialSum =>
          split at failed
          · cases added : (Operator.plus.apply partialSum.sum b).mapError (Cause.ofAtomError (F := Expr)) with
            | error e =>
                rw [added] at failed
                cases failed
                exact uncounted_mapError added
            | ok total =>
                rw [added] at failed
                cases failed
          · cases failed
            exact nofun

section Sums

variable {v w : Value} {location : Option Location}

theorem total_ends (simple : v.Simple) : (total v).Ends (fun sum => foldTotal v.items = .ok sum)
    fun cause => cause.Uncounted ∧ foldTotal v.items = .error cause := by
  unfold total
  rw [Eval.foldValue, Eval.foldWalk_eq _ _ simple.shaped.walk_reads, simple.shaped.size_eq, List.take_length]
  have plain := simple.plain
  -- What is still to be added makes the whole sum out of the sum so far.
  refine (Eval.Ends.foldList (K := fun rest sum => AllPlain rest ∧ foldTotal v.items =
    rest.foldlM (fun sum item => do (← item.atoms).foldlM addToSum sum) sum) ⟨plain, rfl⟩ ?_).mono
      (fun sum given => given.2) fun _ => id
  rintro item rest sum ⟨plain, whole⟩
  obtain ⟨a, _, atoms⟩ := atoms_of_plain (plain item List.mem_cons_self)
  rw [List.foldlM_cons, addAtoms_eq atoms] at whole
  refine Eval.Ends.checkStop.bind fun _ _ => ?_
  rw [addAtoms_eq atoms]
  refine .ofExcept (fun next added => ⟨fun other member => plain other (List.mem_cons_of_mem _ member), ?_⟩)
    fun cause failed => ⟨addToSum_uncounted failed, ?_⟩
  · rw [whole, added]
    rfl
  · rw [whole, failed]
    rfl

/-- The sequence of a value. -/
def ValueOf.sequence (v : Value) : Sequence := ⟨v.items, v.isRange⟩

theorem sumAndCount_ends (simple : v.Simple) :
    (sumAndCount location v).Ends (fun sum => v.sequence.total = .ok sum)
      fun cause => cause.Uncounted ∧ v.sequence.total = .error cause := by
  have byFold : v.isRange = false → Eval.Ends (fun sum => v.sequence.total = .ok sum)
      (fun cause => cause.Uncounted ∧ v.sequence.total = .error cause) (do
        let sum ← (total v).locate location
        pure (sum.map fun s => (s.sum, s.count))) := by
    intro loose
    have folded : v.sequence.total =
        (foldTotal v.items).map fun sum => sum.map fun sum => (sum.sum, sum.count) := by
      unfold ValueOf.sequence Sequence.total
      rw [loose]
    rw [folded]
    have failing : ∀ cause : Cause Expr, cause.Uncounted ∧ foldTotal v.items = .error cause → cause.Uncounted ∧
        (foldTotal v.items).map (fun sum => sum.map fun sum => (sum.sum, sum.count)) = .error cause := by
      rintro cause ⟨other, failed⟩
      exact ⟨other, by rw [failed]; rfl⟩
    refine ((total_ends simple).locate.mono (fun _ => id) failing).finish fun sum added => ?_
    rw [added]
    rfl
  cases v with
  | range r =>
      -- The closed form is the sum of the items, and fails where that does not fit.
      have closed : (ValueOf.range r : Value).sequence.total = (rangeTotal r).map fun a => some (a, r.length) :=
        total_range simple.shaped ⟨rfl, id⟩
      rw [closed]
      have failing : ∀ cause, rangeTotal r = .error cause → cause.Uncounted ∧
          (rangeTotal r).map (fun a => some (a, r.length)) = .error cause := by
        intro cause failed
        refine ⟨?_, by rw [failed]; rfl⟩
        unfold rangeTotal at failed
        dsimp only at failed
        split at failed
        · cases failed
        split at failed
        · cases failed
        · cases failed
          exact nofun
      refine (Eval.Ends.ofExcept (P := fun a => rangeTotal r = .ok a) (fun _ => id) failing).finish
        fun a made => ?_
      rw [made]
      rfl
  | empty | one item | flat items tag | tree rope tag => exact byFold rfl

theorem sumOf_ends (simple : v.Simple) {alternative : Option (Eval (Option Item))} {nothing : List Item}
    (failed : List Item) (other : v.sequence.total = .ok none →
      (sumOrNothing alternative none).Ends (fun _ => True) fun cause => cause.Uncounted ∧ nothing = failed) :
    (sumOf location (pure v) alternative).Ends (fun _ => True)
      fun cause => cause.Uncounted ∧ sumItems v.sequence nothing failed = failed := by
  rw [sumOf_eq]
  refine .bind (P := (· = v)) (.pure rfl) fun w same => ?_
  subst same
  have failing : ∀ cause : Cause Expr, cause.Uncounted ∧ w.sequence.total = .error cause →
      cause.Uncounted ∧ sumItems w.sequence nothing failed = failed :=
    fun cause found => ⟨found.1, by rw [sumItems, found.2]⟩
  refine ((sumAndCount_ends simple).mono (fun _ => id) failing).bind fun sum added => ?_
  cases sum with
  | some pair =>
      obtain ⟨a, count⟩ := pair
      cases alternative <;> exact .pure trivial
  | none =>
      rw [sumItems, added]
      exact other added

theorem averageOf_ends (simple : v.Simple) : (averageOf location (pure v)).Ends (fun _ => True)
    fun cause => cause.Uncounted ∧ averageItems v.sequence = [] := by
  rw [averageOf_eq]
  refine .bind (P := (· = v)) (.pure rfl) fun w same => ?_
  subst same
  have failing : ∀ cause : Cause Expr, cause.Uncounted ∧ w.sequence.total = .error cause →
      cause.Uncounted ∧ averageItems w.sequence = [] := fun cause found => ⟨found.1, by rw [averageItems, found.2]⟩
  refine ((sumAndCount_ends simple).mono (fun _ => id) failing).bind fun sum added => ?_
  cases sum with
  | none => exact .pure trivial
  | some pair =>
      obtain ⟨sum, count⟩ := pair
      rw [averageItems, added]
      simp only [meanOrNothing]
      cases long? count with
      | none => exact .raise ⟨fun _ same => (by cases same), rfl⟩
      | some n =>
          dsimp only
          refine (Eval.Ends.ofExcept (P := fun _ => True) (fun _ _ => trivial) fun cause divided => ?_).finish
            fun _ _ => trivial
          cases made : Operator.divide.apply sum (.integer n) with
          | ok mean =>
              rw [made] at divided
              cases divided
          | error e =>
              rw [made] at divided
              cases divided
              exact ⟨uncounted_ofAtomError e, rfl⟩

end Sums

end QueryKernel
