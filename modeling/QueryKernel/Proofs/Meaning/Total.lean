import QueryKernel.Proofs.Expr.Parts
import QueryKernel.Proofs.Meaning.Renamed

/-!
# Outcomes exist

Expressions that do not update record nothing, and every compiled expression has an outcome.

An outcome asks for operands without updates: only because no operand of a compiled expression may update is
there an outcome for each of them.
-/

namespace QueryKernel

/-- Every number in a predicate can be decided. -/
def Numbers.Total (numbers : Numbers) : Prop := ∀ a position, ∃ held, numbers a position held

theorem Numbers.strict_total : Numbers.strict.Total := fun _ _ => ⟨_, rfl⟩

theorem Numbers.free_total : Numbers.free.Total := fun _ _ => ⟨true, trivial⟩

theorem MayHold.total {numbers : Numbers} (total : numbers.Total) (items : List Item) (position : Nat) :
    ∃ held, MayHold numbers items position held := by
  unfold MayHold
  split
  · split
    · exact total _ _
    · exact ⟨_, rfl⟩
  · exact ⟨_, rfl⟩
  · exact ⟨_, rfl⟩

theorem Selects.total {holds : Item → Nat → Bool → Prop} (items : List Item) (position : Nat)
    (each : ∀ item ∈ items, ∀ position, ∃ held, holds item position held) :
    ∃ chosen, Selects holds items position chosen := by
  induction items generalizing position with
  | nil => exact ⟨[], rfl⟩
  | cons item rest rest_ih =>
      obtain ⟨held, first⟩ := each item List.mem_cons_self position
      obtain ⟨others, later⟩ := rest_ih (position + 1) fun other member =>
        each other (List.mem_cons_of_mem _ member)
      exact ⟨_, held, others, first, later, rfl⟩

theorem Passes.total {holds : Item → Nat → Bool → Prop} (position : Option BinaryFloat)
    (items : List Item) (each : ∀ item ∈ items, ∀ position, ∃ held, holds item position held) :
    ∃ chosen, Passes position holds items chosen := by
  cases position with
  | some p => exact ⟨_, rfl⟩
  | none => exact Selects.total items 1 each

theorem Outcomes.forEach_total {outcome : Item → List Item → List PendingUpdate → Prop} (source : List Item)
    (each : ∀ item ∈ source, ∃ items updates, outcome item items updates) :
    ∃ items updates, Outcomes.forEach outcome source items updates := by
  induction source with
  | nil => exact ⟨[], [], rfl, rfl⟩
  | cons item rest rest_ih =>
      obtain ⟨first, firstUpdates, now⟩ := each item List.mem_cons_self
      obtain ⟨others, otherUpdates, later⟩ := rest_ih fun other member =>
        each other (List.mem_cons_of_mem _ member)
      exact ⟨_, _, first, firstUpdates, others, otherUpdates, now, later, rfl, rfl⟩

theorem Outcomes.forEach_quiet {outcome : Item → List Item → List PendingUpdate → Prop}
    {source items : List Item} {updates : List PendingUpdate}
    (each : Outcomes.forEach outcome source items updates)
    (quiet : ∀ item ∈ source, ∀ items updates, outcome item items updates → updates = []) :
    updates = [] := by
  induction source generalizing items updates with
  | nil => exact each.2
  | cons item rest rest_ih =>
      obtain ⟨first, firstUpdates, others, otherUpdates, now, later, _, rfl⟩ := each
      rw [quiet item List.mem_cons_self first firstUpdates now, rest_ih later fun other member =>
        quiet other (List.mem_cons_of_mem _ member)]
      rfl

namespace Expr

variable {numbers : Numbers} {es : List Expr} {env : Env} {compiled : Bool} {visible : Visible} {e : Expr}

/-! ## Expressions without updates -/

theorem outcomesAll_quiet {items : List Item} {updates : List PendingUpdate}
    (given : outcomesAll numbers es env items updates)
    (quiet : ∀ e ∈ es, ∀ s updates, e.outcomes numbers env s updates → updates = []) : updates = [] := by
  induction es generalizing items updates with
  | nil => exact given.2
  | cons e rest rest_ih =>
      obtain ⟨s, firstUpdates, others, otherUpdates, first, later, _, rfl⟩ := given
      rw [quiet e List.mem_cons_self s firstUpdates first, rest_ih later fun other member =>
        quiet other (List.mem_cons_of_mem _ member)]
      rfl

theorem Placed.quiet (placed : e.Placed compiled visible) (still : e.hasUpdates = false) {s : Sequence}
    {updates : List PendingUpdate} (given : e.outcomes numbers env s updates) : updates = [] := by
  induction placed generalizing env s updates with
  | literal => exact given.2
  | list _ parts_ih =>
      obtain ⟨items, all, _⟩ := given
      exact outcomesAll_quiet all fun e member s updates =>
        parts_ih e member (anyUpdates_eq_false_iff.1 still e member)
  | range => obtain ⟨_, _, _, _, _, none⟩ := given; exact none
  | arithmetic => obtain ⟨_, _, _, _, _, none⟩ := given; exact none
  | comparison => obtain ⟨_, _, _, _, _, none⟩ := given; exact none
  | conditional _ _ _ _ _ positive_ih negative_ih =>
      simp only [hasUpdates, Bool.or_eq_false_iff] at still
      obtain ⟨t, _, ⟨_, given⟩ | ⟨_, given⟩⟩ := given
      · exact positive_ih still.1 given
      · exact negative_ih still.2 given
  | contextValue => exact given.2
  | root => exact given.2
  | documents => exact given.2
  | filter => obtain ⟨_, _, _, _, _, none⟩ := given; exact none
  | letIn _ _ _ _ _ result_ih =>
      simp only [hasUpdates, Bool.or_eq_false_iff] at still
      obtain ⟨v, _, given⟩ := given
      exact result_ih still.2 given
  | forIn _ _ _ _ _ result_ih =>
      simp only [hasUpdates, Bool.or_eq_false_iff] at still
      obtain ⟨v, items, _, each, _⟩ := given
      refine Outcomes.forEach_quiet each ?_
      rintro item _ items updates ⟨s, given, _⟩
      exact result_ih still.2 given
  | varRef => exact given.2
  | call => obtain ⟨_, _, _, none⟩ := given; exact none
  | deferred => exact given.2
  | delete => cases still

/-! ## Compiled expressions -/

theorem outcomesAll_total (each : ∀ e ∈ es, ∃ s updates, e.outcomes numbers env s updates) :
    ∃ items updates, outcomesAll numbers es env items updates := by
  induction es with
  | nil => exact ⟨[], [], rfl, rfl⟩
  | cons e rest rest_ih =>
      obtain ⟨s, firstUpdates, first⟩ := each e List.mem_cons_self
      obtain ⟨others, otherUpdates, later⟩ := rest_ih fun other member =>
        each other (List.mem_cons_of_mem _ member)
      exact ⟨_, _, s, firstUpdates, others, otherUpdates, first, later, rfl, rfl⟩

theorem outcomesEach_total (each : ∀ e ∈ es, ∃ s, e.outcomes numbers env s []) :
    ∃ given, outcomesEach numbers es env given := by
  induction es with
  | nil => exact ⟨[], rfl⟩
  | cons e rest rest_ih =>
      obtain ⟨s, first⟩ := each e List.mem_cons_self
      obtain ⟨others, later⟩ := rest_ih fun other member => each other (List.mem_cons_of_mem _ member)
      exact ⟨s :: others, s, others, first, later, rfl⟩

theorem passes_total (total : numbers.Total)
    (each : ∀ e ∈ es, ∀ item, ∃ s, e.outcomes numbers (env.focusOn item) s [])
    (items : List Item) : ∃ chosen, passes numbers es env items chosen := by
  induction es generalizing items with
  | nil => exact ⟨items, rfl⟩
  | cons e rest rest_ih =>
      have decided : ∀ item ∈ items, ∀ position, ∃ held, ∃ s,
          e.outcomes numbers (env.focusOn item) s [] ∧ MayHold numbers s.items position held := by
        intro item _ position
        obtain ⟨s, given⟩ := each e List.mem_cons_self item
        obtain ⟨held, may⟩ := MayHold.total total s.items position
        exact ⟨held, s, given, may⟩
      obtain ⟨passing, now⟩ := Passes.total e.position? items decided
      obtain ⟨chosen, later⟩ := rest_ih (fun other member => each other (List.mem_cons_of_mem _ member))
        passing
      exact ⟨chosen, passing, now, later⟩

/-- An outcome of an operand records nothing. -/
theorem Placed.operand_of (placed : e.Placed compiled visible) (still : e.hasUpdates = false)
    (given : ∃ s updates, e.outcomes numbers env s updates) : ∃ s, e.outcomes numbers env s [] := by
  obtain ⟨s, updates, given⟩ := given
  rw [placed.quiet still given] at given
  exact ⟨s, given⟩

theorem Placed.total (placed : e.Placed true visible) (total : numbers.Total) (env : Env) :
    ∃ s updates, e.outcomes numbers env s updates := by
  induction placed generalizing env with
  | literal => exact ⟨_, [], Sequence.from_self _ _, rfl⟩
  | list _ parts_ih =>
      obtain ⟨items, updates, given⟩ := outcomesAll_total fun e member => parts_ih e member env
      exact ⟨_, updates, items, given, Sequence.from_self _ _⟩
  | range low high quiet low_ih high_ih =>
      obtain ⟨a, first⟩ := low.operand_of (quiet rfl).1 (low_ih env)
      obtain ⟨b, last⟩ := high.operand_of (quiet rfl).2 (high_ih env)
      exact ⟨_, [], a, b, first, last, Sequence.from_self _ _, rfl⟩
  | arithmetic left right quiet left_ih right_ih =>
      obtain ⟨x, first⟩ := left.operand_of (quiet rfl).1 (left_ih env)
      obtain ⟨y, second⟩ := right.operand_of (quiet rfl).2 (right_ih env)
      exact ⟨_, [], x, y, first, second, Sequence.from_self _ _, rfl⟩
  | comparison left right quiet left_ih right_ih =>
      obtain ⟨x, first⟩ := left.operand_of (quiet rfl).1 (left_ih env)
      obtain ⟨y, second⟩ := right.operand_of (quiet rfl).2 (right_ih env)
      exact ⟨_, [], x, y, first, second, Sequence.from_self _ _, rfl⟩
  | conditional condition _ _ quiet condition_ih positive_ih negative_ih =>
      obtain ⟨t, tested⟩ := condition.operand_of (quiet rfl) (condition_ih env)
      cases decided : truth t.items with
      | true =>
          obtain ⟨s, updates, given⟩ := positive_ih env
          exact ⟨s, updates, t, tested, .inl ⟨decided, given⟩⟩
      | false =>
          obtain ⟨s, updates, given⟩ := negative_ih env
          exact ⟨s, updates, t, tested, .inr ⟨decided, given⟩⟩
  | contextValue => exact ⟨_, [], Sequence.from_self _ _, rfl⟩
  | root => exact ⟨_, [], Sequence.from_self _ _, rfl⟩
  | documents => exact ⟨_, [], Sequence.from_self _ _, rfl⟩
  | @filter visible _ predicates _ _ input conditions quiet input_ih conditions_ih =>
      obtain ⟨b, given⟩ := input.operand_of (quiet rfl).1 (input_ih env)
      -- Every predicate has an outcome for every item, and every item is decided one way or the other.
      have each : ∀ e ∈ predicates, ∀ item, ∃ s, e.outcomes numbers (env.focusOn item) s [] := fun e member item =>
        (conditions e member).operand_of ((quiet rfl).2 e member) (conditions_ih e member _)
      obtain ⟨chosen, passed⟩ := passes_total total each b.items
      exact ⟨_, [], b, chosen, given, passed, Sequence.from_self _ _, rfl⟩
  | letIn _ value _ quiet value_ih result_ih =>
      obtain ⟨v, bound⟩ := value.operand_of (quiet rfl) (value_ih env)
      obtain ⟨s, updates, given⟩ := result_ih (env.set _ v)
      exact ⟨s, updates, v, bound, given⟩
  | @forIn visible var _ body _ _ _ input _ quiet input_ih result_ih =>
      obtain ⟨v, given⟩ := input.operand_of (quiet rfl) (input_ih env)
      have passes : ∀ item ∈ v.items, ∃ items updates,
          ∃ s, body.outcomes numbers (env.set var.id (.one item)) s updates ∧ s.items = items := by
        intro item _
        obtain ⟨s, updates, given⟩ := result_ih (env.set _ (.one item))
        exact ⟨s.items, updates, s, given, rfl⟩
      obtain ⟨items, updates, each⟩ := Outcomes.forEach_total v.items passes
      exact ⟨_, updates, v, items, given, each, Sequence.from_self _ _⟩
  | varRef => exact ⟨_, [], Sequence.from_self _ _, rfl⟩
  | call _ _ parts quiet parts_ih =>
      obtain ⟨given, results⟩ := outcomesEach_total fun e member =>
        (parts e member).operand_of (quiet rfl e member) (parts_ih e member env)
      exact ⟨_, [], given, results, Sequence.from_self _ _, rfl⟩
  | deferred => exact ⟨_, [], Sequence.from_self _ _, rfl⟩
  | delete input quiet input_ih =>
      obtain ⟨t, given⟩ := input.operand_of (quiet rfl) (input_ih env)
      exact ⟨_, _, t, given, Sequence.from_self _ _, rfl⟩

/-- An operand has an outcome that records nothing. -/
theorem Placed.operand (placed : e.Placed true visible) (still : e.hasUpdates = false)
    (total : numbers.Total) (env : Env) : ∃ s, e.outcomes numbers env s [] :=
  placed.operand_of still (placed.total total env)

end Expr

end QueryKernel
