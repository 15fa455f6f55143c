import QueryKernel.Proofs.Compile.Everywhere
import QueryKernel.Proofs.Meaning.Total
import QueryKernel.Proofs.Run.Ends
import QueryKernel.Proofs.Run.Expressions

/-!
# Operations on constants foresee their outcomes

What an operation on literals gives when it is computed before evaluation, and what an error in its place
stands for, are outcomes of the operation.

A filter takes more: of the predicates before the one that fails it has to be known what they have left, and the
failing one leaves nothing, since a constant fails for every item alike.
-/

namespace QueryKernel

namespace ValueOf

theorem Simple.is {v : Value} (simple : v.Simple) : v.Is v.sequence := ⟨simple.shaped, rfl, id⟩

end ValueOf

/-! ## Constant predicates -/

section Predicates

variable {v w p : Value} {E : Cause Expr → Prop}

/-- An error of a constant predicate: it holds nowhere. -/
def Nowhere (p : Value) (cause : Cause Expr) : Prop :=
  cause.Uncounted ∧ ∀ position, MayHold .strict p.items position false

theorem test_ends (simple : p.Simple) : (Modes.ofLiteral p).test.Ends (fun _ => True) (Nowhere p) := by
  have plain := simple.plain
  -- What decides is the only item, if it is no number.
  have single : ∀ {item : Item}, (∀ a, item = .atom a → a.isNumeric = false) → p.items = [item] → item.IsPlain →
      Eval.Ends (fun _ => True) (Nowhere p) (do
        let holds ← Eval.ofExcept none item.booleanValue
        pure (if holds then some item else none : Option Item)) := by
    intro item other whole plain
    refine (Eval.Ends.ofExcept (P := fun _ => True) (fun _ _ => trivial) fun cause failed => ?_).finish
      fun _ _ => trivial
    cases item with
    | node n => cases failed
    | function f | map identity entries type | array identity members type => exact plain.elim
    | atom a =>
        refine ⟨uncounted_mapError failed, fun position => ?_⟩
        rw [whole]
        simp only [MayHold, deciding, other a rfl, Bool.false_eq_true, if_false, ItemOf.truth, failed]
        rfl
  unfold Modes.test Modes.ofLiteral
  simp only [simple.shaped.get?_eq]
  generalize whole : p.items = items at *
  rcases items with _ | ⟨item, _ | ⟨second, rest⟩⟩
  · refine .bind (P := (· = .boolean false)) (.pure rfl) fun _ same => ?_
    subst same
    exact .pure trivial
  · have itemPlain := plain item List.mem_cons_self
    refine .bind (P := (item = ·)) (.pure rfl) fun _ same => ?_
    subst same
    cases item with
    | node n => exact single (fun _ impossible => by cases impossible) rfl itemPlain
    | function f | map identity entries type | array identity members type => exact itemPlain.elim
    | atom a =>
        by_cases number : a.isNumeric = true
        · simp only [number, if_true]
          intro c runs
          exact ⟨runs, fun _ _ => trivial, fun _ none => by cases none⟩
        · simp only [number]
          refine single (fun other same => ?_) rfl itemPlain
          cases same
          exact Bool.eq_false_iff.2 number
  · simp only [List.getElem?_cons_zero, List.getElem?_cons_succ]
    by_cases node : item.isNode = true
    · simp only [node, if_true]
      refine .bind (P := (item = ·)) (.pure rfl) fun _ same => ?_
      subst same
      cases item with
      | node n => exact .bind (P := fun _ => True) (.pure trivial) fun _ _ => .pure trivial
      | atom a | function f | map identity entries type | array identity members type => cases node
    · simp only [node]
      refine .bind (P := fun _ => False) (.raise ⟨fun _ same => (by cases same), fun position => ?_⟩)
        fun _ none => none.elim
      rw [whole]
      simp [MayHold, deciding, node]

theorem selectWhere_ends (shaped : v.Shaped) (simple : p.Simple) :
    (selectWhere v (.ofLiteral p)).Ends (fun _ => True) (Nowhere p) := by
  unfold selectWhere
  rw [Eval.foldValue, Eval.foldWalk_eq _ _ shaped.walk_reads, shaped.size_eq, List.take_length]
  refine Eval.Ends.finish (P := fun _ => True) ?_ fun _ _ => trivial
  refine .foldList (K := fun _ _ => True) trivial fun item rest state _ => ?_
  refine Eval.Ends.checkStop.bind fun _ _ => ?_
  refine Eval.Ends.bind (P := fun _ => True) (.change fun c runs => runs) fun _ _ => ?_
  exact (test_ends simple).finish fun _ _ => trivial

/-- What a constant predicate selects. -/
theorem selectWhere_selects (shaped : v.Shaped) (simple : p.Simple) {c c' : Context}
    (ran : selectWhere v (.ofLiteral p) c = (.ok w, c')) :
    w.Shaped ∧ Selects (fun _ position held => MayHold .strict p.items position held) v.items 1 w.items := by
  have total : ∃ chosen, Selects (fun _ position held => MayHold .strict p.items position held) v.items 1 chosen :=
    Selects.total v.items 1 fun _ _ position => MayHold.total Numbers.strict_total p.items position
  obtain ⟨chosen, selects⟩ := total
  have follows : ∀ d, (Modes.ofLiteral p).Follows (fun _ => True) [] d p.sequence [] := fun d => .ofLiteral simple.is
  obtain ⟨is, _⟩ := selectWhere_gives
    (fun k item held found holds d inside => ((follows _).test fun a c' ran numeric held => id).weaken
      fun found same => same held holds) shaped rfl rfl selects (Context.inside_refl _ _) ran
  rw [← is.items_eq]
  exact ⟨is.shaped, selects⟩

end Predicates

/-! ## Constant operations -/

namespace Expr

/-- All expressions are literals in shape of atoms and nodes. -/
def Constants (es : List Expr) : Prop := ∀ e ∈ es, ∃ v : Value, e = .literal v ∧ v.Simple

theorem outcomes_literal {numbers : Numbers} {env : Env} (v : Value) :
    (literal v).outcomes numbers env v.sequence [] := ⟨Sequence.from_self _ _, rfl⟩

section

variable {numbers : Numbers} {calls : Calls} {env : Env} {es : List Expr} {v w : Value}

theorem passes_nil : passes numbers es env [] [] := by
  induction es with
  | nil => rfl
  | cons e rest rest_ih =>
      refine ⟨[], ?_, rest_ih⟩
      cases e.position? with
      | some p => exact (List.sublist_nil.1 (selectAt_sublist [] p)).symm
      | none => rfl

/-- Something that holds nowhere selects nothing. -/
theorem selects_nothing {holds : Item → Nat → Bool → Prop} (never : ∀ item position, holds item position false)
    (items : List Item) (position : Nat) : Selects holds items position [] := by
  induction items generalizing position with
  | nil => rfl
  | cons item rest rest_ih => exact ⟨false, [], never item position, rest_ih (position + 1), rfl⟩

/-- Where a constant predicate fails nothing passes. -/
theorem passAll_ends (constants : Constants es) (shaped : v.Shaped) :
    (passAll ((es.map (·.position?)).zip (modesAll calls es)) v).Ends (fun _ => True)
      fun cause => cause.Uncounted ∧ ∀ env, passes .strict es env v.items [] := by
  induction es generalizing v with
  | nil => exact .pure trivial
  | cons e rest rest_ih =>
      obtain ⟨p, rfl, simple⟩ := constants e List.mem_cons_self
      have others := fun {w : Value} => rest_ih (v := w) fun other member =>
        constants other (List.mem_cons_of_mem _ member)
      -- The predicates before have selected something, whatever that is; the one that fails selects nothing.
      rw [modesAll, List.map_cons, List.zip_cons_cons, passAll, Eval.foldList_cons]
      cases position : (literal p).position? with
      | some q =>
          refine (Eval.Ends.ofFaulty (P := fun w => w.Is ⟨selectAt v.items q, false⟩)
            fun w selected => selectPosition_is shaped selected).bind fun w is => ?_
          refine (others is.shaped).mono (fun _ => id) fun cause failed => ⟨failed.1, fun env => ?_⟩
          refine ⟨w.items, ?_, failed.2 env⟩
          rw [position]
          exact is.items_eq.symm
      | none =>
          have holds : ∀ {env : Env} {item : Item} {position : Nat} {held : Bool},
              MayHold .strict p.items position held → ∃ s, (literal p).outcomes .strict (env.focusOn item) s [] ∧
                MayHold .strict s.items position held := fun may => ⟨p.sequence, outcomes_literal p, may⟩
          have failing : ∀ cause, Nowhere p cause →
              cause.Uncounted ∧ ∀ env, passes .strict (literal p :: rest) env v.items [] := by
            rintro cause ⟨other, never⟩
            refine ⟨other, fun env => ⟨[], ?_, passes_nil⟩⟩
            rw [position]
            exact selects_nothing (fun _ position => holds (never position)) _ _
          refine ((selectWhere_ends shaped simple).also fun c w c' ran => selectWhere_selects shaped simple ran).mono
            (fun _ => And.right) failing |>.bind fun w selected => ?_
          refine (others selected.1).mono (fun _ => id) fun cause failed => ⟨failed.1, fun env => ?_⟩
          refine ⟨w.items, ?_, failed.2 env⟩
          rw [position]
          exact selected.2.mono fun _ _ _ _ may => holds may

theorem listValue_ends (constants : Constants es) :
    (listValue (modesAll calls es)).Ends (fun _ => True) fun _ => False := by
  refine Eval.Ends.finish (P := fun _ => True) ?_ fun _ _ => trivial
  have each : ∀ m ∈ modesAll calls es, ∃ v : Value, m = .ofLiteral v := by
    intro m member
    rw [modesAll_eq_map] at member
    obtain ⟨e, inside, rfl⟩ := List.mem_map.1 member
    obtain ⟨v, rfl, _⟩ := constants e inside
    exact ⟨v, rfl⟩
  refine (Eval.Ends.foldList (K := fun rest _ => ∀ m ∈ rest, ∃ v : Value, m = .ofLiteral v) each
    fun m rest builder given => ?_).mono (fun _ _ => trivial) fun _ => id
  obtain ⟨v, rfl⟩ := given m List.mem_cons_self
  refine Eval.Ends.checkStop.bind fun _ _ => ?_
  refine Eval.Ends.bind (P := fun _ => True) (.pure trivial) fun _ _ => ?_
  exact .ofFaulty fun _ _ m' member => given m' (List.mem_cons_of_mem _ member)

end

end Expr

/-! ## What constant operations give -/

namespace Expr

variable {e : Expr} {env : Env} {cause : Cause Expr} {v : Value} {c c' : Context}

/-- What the expression gives when it is computed, and what an error in its place stands for, are outcomes of
the expression. -/
def Foreseen (e : Expr) : Prop :=
  e.run.value.Ends (fun v => v.Simple ∧ ∀ env, e.Fits env → Within .free (.literal v) env .free e env)
    fun cause => ∀ env, e.Fits env → ∀ location,
      Within .free (.deferred ⟨cause, location⟩ (.ofSequenceType e.sequenceType) e.location) env .free e env

/-- The outcomes are told by their items. -/
def Loose (e : Expr) : Prop :=
  ∀ env (s t : Sequence), e.outcomes .free env s [] → t.items = s.items → e.outcomes .free env t []

/-- The items that an error stands for are those of an outcome. -/
def Blames (e : Expr) (cause : Cause Expr) : Prop :=
  ∀ env, e.Fits env → ∃ s, e.outcomes .free env s [] ∧
    ∀ location, s.items = (⟨cause, location⟩ : Error).result (.ofSequenceType e.sequenceType)

theorem Blames.within (blames : e.Blames cause) (loose : e.Loose) (fits : e.Fits env)
    (location : Option Location) :
    Within .free (.deferred ⟨cause, location⟩ (.ofSequenceType e.sequenceType) e.location) env .free e env := by
  rintro t updates ⟨same, rfl⟩
  obtain ⟨s, given, items⟩ := blames env fits
  exact loose env s t given (same.items_eq.trans (items location).symm)

/-- The items in place of an error that tells no number of items. -/
theorem result_uncounted (other : cause.Uncounted) (location : Option Location) (type : SequenceType) :
    (⟨cause, location⟩ : Error).result (.ofSequenceType type) =
      if type.occurrence.allows 0 then [] else [standIn] := by
  unfold ErrorOf.result
  split
  · next n same => exact absurd same (other n)
  · rfl

/-- An error where there may be nothing stands for that. -/
theorem blames_nothing (other : cause.Uncounted)
    (nothing : ∀ env, e.Fits env → e.outcomes .free env Sequence.empty []) : e.Blames cause := by
  intro env fits
  refine ⟨Sequence.empty, nothing env fits, fun location => ?_⟩
  have allowed := (fits.typed _ _ (nothing env fits)).1.occurrence
  rw [result_uncounted other, if_pos (show e.sequenceType.occurrence.allows 0 = true from allowed)]
  rfl

/-- An error where one item is certain stands for one item. -/
theorem blames_standIn (other : cause.Uncounted) (one : e.sequenceType.isOne = true)
    (failed : ∀ env, e.Fits env → e.outcomes .free env (.one standIn) []) : e.Blames cause := by
  intro env fits
  refine ⟨.one standIn, failed env fits, fun location => ?_⟩
  have exactly : e.sequenceType.occurrence = .exactlyOne := by simpa [SequenceType.isOne] using one
  rw [result_uncounted other, exactly]
  rfl

section

variable (operation : e.IsOperation) (constants : Constants e.parts)

include operation constants

theorem operation_binders : e.binders = [] := by
  have none : ∀ {es : List Expr}, Constants es → bindersAll es = [] := by
    intro es constants
    rw [bindersAll_eq, List.flatten_eq_nil_iff]
    intro ids member
    obtain ⟨s, inside, rfl⟩ := List.mem_map.1 member
    obtain ⟨v, rfl, _⟩ := constants s inside
    rfl
  have whole : e.binders = bindersAll e.parts := by
    cases e with
    | range | arithmetic | comparison =>
        simp [binders, parts, bindersAll]
    | list | call | filter => rfl
    | _ => exact operation.elim
  rw [whole, none constants]

theorem operation_hasUpdates : e.hasUpdates = false := by
  cases e with
  | list operands type location =>
      refine anyUpdates_eq_false_iff.2 fun s member => ?_
      obtain ⟨v, rfl, _⟩ := constants s member
      rfl
  | range | arithmetic | comparison | call | filter => rfl
  | _ => exact operation.elim

/-- What a constant operation gives is plain. -/
theorem operation_simple (placed : e.Placed true .nothing) (ran : e.run.value c = (.ok v, c')) : v.Simple := by
  have rules : Rules (fun _ => True) (fun _ => True) (Kind.shaped ItemOf.IsPlain) :=
    ⟨Kind.shaped_lawful _, fun _ => trivial, fun _ => trivial, fun _ _ _ => trivial, fun _ _ _ _ => trivial⟩
  have observes : e.Every (Observes (fun _ => True) (fun _ => True) (Kind.shaped ItemOf.IsPlain)
      (callsWithin callDepth)) := by
    refine .node ?_ fun s member => ?_
    · cases placed with
      | call firstOrder =>
          rintro (rfl | rfl)
          · cases firstOrder
          · cases firstOrder
      | list | range | arithmetic | comparison | filter => trivial
      | _ => exact operation.elim
    · obtain ⟨w, rfl, simple⟩ := constants s member
      exact .node ⟨simple.shaped, simple.plain⟩ fun _ none => by cases none
  have always : e.run.value.Always (At (fun _ => True) c.focus) (Kind.shaped ItemOf.IsPlain).value :=
    (modes_always rules observes trivial).value
  obtain ⟨shaped, plain⟩ := (always.ok ⟨rfl, trivial⟩ ran).2
  exact ⟨shaped, plain⟩

/-- What a constant operation gives is an outcome, wherever it is. -/
theorem operation_outcome (placed : e.Placed true .nothing) (fits : e.Fits env)
    (ran : e.run.value c = (.ok v, c')) : ∃ s, e.outcomes .free env s [] ∧ v.Is s := by
  obtain ⟨s, given⟩ := placed.operand (operation_hasUpdates operation constants) Numbers.strict_total env
  have distinct : e.Distinct .nothing := by
    exact ⟨fun _ _ => id, by rw [operation_binders operation constants]; exact List.nodup_nil⟩
  have agrees : e.Agrees .strict (callsWithin callDepth) .nothing := placed.agrees distinct
  have follows := agrees env c s [] ⟨fun none => none.elim, fun none => none.elim, fun _ none => none.elim⟩ fits
    (strict_decided e _ _) given
  exact ⟨s, placed.free given, (follows.value v c' ran).1⟩

theorem foreseen_of_loose (placed : e.Placed true .nothing) (loose : e.Loose)
    (ends : e.run.value.Ends (fun _ => True) e.Blames) : e.Foreseen := by
  refine (ends.also fun c v c' ran => ?_).mono (fun _ => And.right)
    fun cause blames env fits location => blames.within loose fits location
  -- A value that has been computed follows some outcome, and outcomes are told by their items.
  refine ⟨operation_simple operation constants placed ran, fun env fits => ?_⟩
  rintro t updates ⟨same, rfl⟩
  obtain ⟨s, given, is⟩ := operation_outcome operation constants placed fits ran
  exact loose env s t given (same.items_eq.trans is.items_eq.symm)

end

/-! ## Each constant operation -/

section

variable {w : Value} {es : List Expr} {location : Option Location} {type : StaticType}

theorem Constants.placed (constants : Constants es) {compiled : Bool} {visible : Visible} :
    ∀ e ∈ es, e.Placed compiled visible := by
  intro e member
  obtain ⟨v, rfl, simple⟩ := constants e member
  exact .literal simple

theorem Constants.quiet (constants : Constants es) : ∀ e ∈ es, e.hasUpdates = false := by
  intro e member
  obtain ⟨v, rfl, _⟩ := constants e member
  rfl

theorem foreseen_list (constants : Constants es) : (list es type location).Foreseen := by
  refine foreseen_of_loose (e := list es type location) trivial constants (.list constants.placed) ?_ ?_
  · rintro env s t ⟨items, given, same⟩ equal
    exact ⟨items, given, Sequence.from_items (equal.trans same.items_eq)⟩
  · exact (listValue_ends constants).mono (fun _ => id) fun _ none => none.elim

theorem foreseen_range (left : v.Simple) (right : w.Simple) :
    (range (.literal v) (.literal w) type location).Foreseen := by
  have constants : Constants [literal v, literal w] := forall_pair ⟨v, rfl, left⟩ ⟨w, rfl, right⟩
  have placed : (range (.literal v) (.literal w) type location).Placed true .nothing :=
    .range (.literal left) (.literal right) fun _ => ⟨rfl, rfl⟩
  have outcome : ∀ {env : Env} {s : Sequence}, s.From (rangeItems v.items w.items)
      (decide (2 ≤ (rangeItems v.items w.items).length)) →
      (range (.literal v) (.literal w) type location).outcomes .free env s [] := fun same =>
    ⟨v.sequence, w.sequence, outcomes_literal v, outcomes_literal w, same, rfl⟩
  refine (Eval.Ends.also (R := fun r => r.Simple ∧ ∀ env, (range (.literal v) (.literal w) type location).Fits env →
    r.items = rangeItems v.items w.items) (rangeValue_ends left right) fun c r c' ran => ?_).mono ?_ ?_
  · refine ⟨operation_simple (e := range (.literal v) (.literal w) type location) trivial constants placed ran,
      fun env fits => ?_⟩
    obtain ⟨s, ⟨a, b, ⟨first, _⟩, ⟨second, _⟩, same, _⟩, is⟩ :=
      operation_outcome (e := range (.literal v) (.literal w) type location) trivial constants placed fits ran
    rw [← is.items_eq, same.items_eq, first.items_eq, second.items_eq]
  · rintro r ⟨compact, simple, items⟩
    refine ⟨simple, fun env fits => ?_⟩
    rintro t updates ⟨same, rfl⟩
    refine outcome ⟨same.items_eq.trans (items env fits), fun many => same.compact_of ?_⟩
    exact compact (of_decide_eq_true many)
  -- A range fails where it has no items; its type allows that, so that the error stands for nothing.
  · rintro cause ⟨other, nothing⟩ env fits location'
    rintro t updates ⟨same, rfl⟩
    have empty : (range (.literal v) (.literal w) type location).outcomes .free env Sequence.empty [] :=
      outcome ⟨nothing.symm, by rw [nothing]; exact nofun⟩
    have allowed := (fits.typed _ _ empty).1.occurrence
    have counted : (range (.literal v) (.literal w) type location).sequenceType.occurrence.allows 0 = true := allowed
    rw [result_uncounted other, if_pos counted] at same
    exact outcome ⟨same.items_eq.trans nothing.symm, by rw [nothing]; exact nofun⟩

/-- Operations on two atoms end with a result, or with an error that counts as one item if that is certain. -/
theorem foreseen_operation (operation : Atom → Atom → Except AtomError Item) (location : Option Location)
    (left : v.Simple) (right : w.Simple) (isOperation : e.IsOperation)
    (given : e.parts = [.literal v, .literal w]) (placed : e.Placed true .nothing)
    (outcomes : ∀ env (s : Sequence) updates, e.outcomes .free env s updates ↔
      ∃ x y : Sequence, (literal v).outcomes .free env x [] ∧ (literal w).outcomes .free env y [] ∧
        s.From (operate operation x.items y.items) false ∧ updates = [])
    (one : v.items.length = 1 ∧ w.items.length = 1 → e.sequenceType.isOne = true)
    (value : e.run.value = (do
      return valueOfOption (← onAtoms (.ofLiteral v) (.ofLiteral w) location operation))) : e.Foreseen := by
  have constants : Constants e.parts := by
    rw [given]
    exact forall_pair ⟨v, rfl, left⟩ ⟨w, rfl, right⟩
  have outcome : ∀ {env : Env} {s : Sequence}, s.items = operate operation v.items w.items →
      e.outcomes .free env s [] := fun same => (outcomes _ _ _).2
    ⟨v.sequence, w.sequence, outcomes_literal v, outcomes_literal w, Sequence.from_items same, rfl⟩
  refine foreseen_of_loose isOperation constants placed (fun env s t given equal => ?_) ?_
  · obtain ⟨x, y, first, second, same, _⟩ := (outcomes _ _ _).1 given
    exact (outcomes _ _ _).2 ⟨x, y, first, second, Sequence.from_items (equal.trans same.items_eq), rfl⟩
  · rw [value]
    refine Eval.Ends.finish (P := fun _ => True) ((onAtoms_ends left right operation).mono (fun _ => id) ?_)
      fun _ _ => trivial
    rintro cause ⟨other, failed⟩
    split at failed
    · next both => exact blames_standIn other (one both) fun env _ => outcome failed.symm
    · exact blames_nothing other fun env _ => outcome failed.symm

/-- A literal of one item has the type of one item. -/
theorem isOne_literal (simple : v.Simple) (one : v.items.length = 1) : (literal v).sequenceType.isOne = true := by
  change (Occurrence.ofSize v.size == .exactlyOne) = true
  rw [simple.shaped.size_eq, one]
  rfl

theorem foreseen_arithmetic {op : Operator} (left : v.Simple) (right : w.Simple) :
    (arithmeticOf op (.literal v) (.literal w) location).Foreseen := by
  refine foreseen_operation (fun x y => (op.apply x y).map .atom) location left right trivial rfl
    (.arithmetic (.literal left) (.literal right) fun _ => ⟨rfl, rfl⟩) (fun _ _ _ => Iff.rfl) (fun both => ?_) ?_
  · change (arithmeticType op (.literal v) (.literal w)).sequenceType.isOne = true
    simp only [arithmeticType, isOne_literal left both.1, isOne_literal right both.2, Bool.and_self, if_true]
    rfl
  · have few : (arithmeticType op (.literal v) (.literal w)).sequenceType.isAtMostOne = true := by
      unfold arithmeticType
      dsimp only
      split <;> rfl
    exact if_pos few

theorem foreseen_comparison {op : Comparison} (left : v.Simple) (right : w.Simple) :
    (comparisonOf op (.literal v) (.literal w) location).Foreseen := by
  refine foreseen_operation (fun x y => (x.compare? y).map fun order => .boolean (op.holds order)) location left right
    trivial rfl (.comparison (.literal left) (.literal right) fun _ => ⟨rfl, rfl⟩) (fun _ _ _ => Iff.rfl)
    (fun both => ?_) ?_
  · change (comparisonType (.literal v) (.literal w)).sequenceType.isOne = true
    simp only [comparisonType, isOne_literal left both.1, isOne_literal right both.2, Bool.and_self, if_true]
    rfl
  · have few : (comparisonType (.literal v) (.literal w)).sequenceType.isAtMostOne = true := by
      unfold comparisonType
      split <;> rfl
    exact if_pos few

theorem foreseen_filter (simple : v.Simple) (constants : Constants es) (some : es ≠ []) :
    (filterOf (.literal v) es location).Foreseen := by
  have all : Constants (literal v :: es) := List.forall_mem_cons.2 ⟨⟨v, rfl, simple⟩, constants⟩
  have open_ : es.isEmpty = false := by simpa using some
  refine foreseen_of_loose (e := filterOf (.literal v) es location) trivial all
    (.filter (.literal simple) constants.placed fun _ => ⟨rfl, constants.quiet⟩) ?_ ?_
  · rintro env s t ⟨b, items, given, passed, same, _⟩ equal
    exact ⟨b, items, given, passed, ⟨equal.trans same.items_eq, by rw [open_]; exact nofun⟩, rfl⟩
  · intro c runs
    have filters : (passAll ((es.map (·.position?)).zip (modesAll (callsWithin callDepth) es)) v).Ends _ _ :=
      passAll_ends constants simple.shaped
    obtain ⟨kept, _, failed⟩ := filters c runs
    refine ⟨kept, fun _ _ => trivial, fun e same => ?_⟩
    obtain ⟨other, nothing⟩ := failed e same
    have placed : (filterOf (.literal v) es location).Placed true .nothing :=
      .filter (.literal simple) constants.placed fun _ => ⟨rfl, constants.quiet⟩
    refine blames_nothing other fun env _ => ?_
    have given : (filterOf (.literal v) es location).outcomes .strict env Sequence.empty [] :=
      ⟨v.sequence, [], outcomes_literal v, nothing env, ⟨rfl, by rw [open_]; exact nofun⟩, rfl⟩
    exact placed.free given

/-- The first item of a value is read without an error. -/
theorem next_ends {E : Cause Expr → Prop} (v : Value) : (Stream.ofValue v).next.Ends (fun _ => True) E := by
  intro c runs
  have pulled : ∀ n (w : Walk Expr), Stream.ofWalk n w c = .done c ∨
      ∃ item left rest, Stream.ofWalk n w c = .yield c item left rest := by
    intro n w
    cases n with
    | zero => exact .inl rfl
    | succ n =>
        unfold Stream.ofWalk
        split
        · exact .inl rfl
        · exact .inr ⟨_, _, _, rfl⟩
  unfold Stream.next
  rcases pulled v.size v.walk with ended | ⟨item, left, rest, given⟩
  · rw [show (Stream.ofValue v).pull c = .done c from ended]
    exact ⟨runs, fun _ _ => trivial, fun _ none => by cases none⟩
  · rw [show (Stream.ofValue v).pull c = .yield c item left rest from given]
    exact ⟨runs, fun _ _ => trivial, fun _ none => by cases none⟩

/-- Too many items to be counted are counted in the meaning all the same. -/
theorem count_ends (simple : v.Simple) :
    (call .count [.literal v] type location).run.value.Ends (fun _ => True)
      (call .count [.literal v] (BuiltIn.count.resultType [.literal v]) location).Blames := by
  have counted : (countOf (some v.size) (pure (Stream.ofValue v))).Ends (fun _ => True)
      (· = .tooLongToCount v.size) := by
    refine Eval.Ends.ofExcept (fun _ _ => trivial) fun cause failed => ?_
    unfold countItem at failed
    split at failed
    · cases failed
    · cases failed
      rfl
  refine Eval.Ends.finish (P := fun _ => True) (Eval.Ends.finish (counted.mono (fun _ => id) ?_)
    fun _ _ => trivial) fun _ _ => trivial
  rintro cause rfl env _
  refine ⟨.one (countItems v.items.length),
    ⟨[v.sequence], outcomesEach_one.2 ⟨_, outcomes_literal v, rfl⟩, Sequence.from_items rfl, rfl⟩, fun location => ?_⟩
  rw [simple.shaped.size_eq]
  rfl

/-- What cannot be averaged has no average. -/
theorem average_ends (simple : v.Simple) :
    (call .avg [.literal v] type location).run.value.Ends (fun _ => True)
      (call .avg [.literal v] (BuiltIn.avg.resultType [.literal v]) location).Blames := by
  refine Eval.Ends.finish (P := fun _ => True) ((averageOf_ends simple).mono (fun _ => id) ?_) fun _ _ => trivial
  rintro cause ⟨other, nothing⟩
  exact blames_nothing other fun env _ =>
    ⟨[v.sequence], outcomesEach_one.2 ⟨_, outcomes_literal v, rfl⟩, Sequence.from_items nothing.symm, rfl⟩

/-- A sum is one item, whichever that is if nothing can be added up. -/
theorem sum_ends (simple : v.Simple) :
    (call .sum [.literal v] type location).run.value.Ends (fun _ => True)
      (call .sum [.literal v] (BuiltIn.sum.resultType [.literal v]) location).Blames := by
  have summed : (sumOf location (pure v) none).Ends (fun _ => True) fun cause =>
      cause.Uncounted ∧ sumItems v.sequence [.integer 0] [standIn] = [standIn] :=
    sumOf_ends simple [standIn] fun _ => .pure trivial
  refine Eval.Ends.finish (P := fun _ => True) (summed.mono (fun _ => id) ?_) fun _ _ => trivial
  rintro cause ⟨other, failed⟩
  exact blames_standIn other rfl fun env _ =>
    ⟨[v.sequence], outcomesEach_one.2 ⟨_, outcomes_literal v, rfl⟩, Sequence.from_items failed.symm, rfl⟩

/-- With an alternative a sum may be nothing, so that this is what an error stands for. -/
theorem sumOrElse_ends (simple : v.Simple) (otherSimple : w.Simple) :
    (call .sum [.literal v, .literal w] type location).run.value.Ends (fun _ => True)
      (call .sum [.literal v, .literal w] (BuiltIn.sum.resultType [.literal v, .literal w]) location).Blames := by
  have crowded : ∀ cause, Modes.Crowded w.items cause → cause.Uncounted ∧ atMostOne w.items = [] := by
    rintro cause ⟨other, many⟩
    exact ⟨other, if_neg (Nat.not_le.2 many)⟩
  have summed : (sumOf location (pure v) (some (Modes.ofLiteral w).item)).Ends (fun _ => True) fun cause =>
      cause.Uncounted ∧ sumItems v.sequence (atMostOne w.items) [] = [] :=
    sumOf_ends simple [] fun _ =>
      (Modes.singleOfValue_ends otherSimple.shaped none).mono (fun _ _ => trivial) crowded
  refine Eval.Ends.finish (P := fun _ => True) (summed.mono (fun _ => id) ?_) fun _ _ => trivial
  rintro cause ⟨other, failed⟩
  exact blames_nothing other fun env _ => ⟨[v.sequence, w.sequence],
    outcomesEach_two.2 ⟨_, _, outcomes_literal v, outcomes_literal w, rfl⟩, Sequence.from_items failed.symm, rfl⟩

theorem foreseen_call {f : BuiltIn} (notError : f ≠ .error) (firstOrder : f.isHigherOrder = false)
    (takes : f.takes es.length = true) (constants : Constants es) :
    (call f es (f.resultType es) location).Foreseen := by
  refine foreseen_of_loose (e := call f es (f.resultType es) location) trivial constants
    (.call firstOrder takes constants.placed fun _ => constants.quiet) ?_ ?_
  · rintro env s t ⟨given, results, same, _⟩ equal
    exact ⟨given, results, Sequence.from_items (equal.trans same.items_eq), rfl⟩
  cases f with
  | error => exact absurd rfl notError
  | foldLeft1 => cases firstOrder
  | sortWith => cases firstOrder
  | head =>
      obtain ⟨a, rfl⟩ := oneArgument takes rfl rfl
      obtain ⟨v, rfl, simple⟩ := constants a List.mem_cons_self
      refine Eval.Ends.finish (P := fun _ => True) ?_ fun _ _ => trivial
      refine Eval.Ends.bind (P := (Stream.ofValue v = ·)) (.pure rfl) fun stream same => ?_
      subst same
      exact (next_ends v).finish fun _ _ => trivial
  | count =>
      obtain ⟨a, rfl⟩ := oneArgument takes rfl rfl
      obtain ⟨v, rfl, simple⟩ := constants a List.mem_cons_self
      exact count_ends simple
  | reverse =>
      obtain ⟨a, rfl⟩ := oneArgument takes rfl rfl
      obtain ⟨v, rfl, simple⟩ := constants a List.mem_cons_self
      exact Eval.Ends.bind (P := fun _ => True) (.pure trivial) fun _ _ => .pure trivial
  | avg =>
      obtain ⟨a, rfl⟩ := oneArgument takes rfl rfl
      obtain ⟨v, rfl, simple⟩ := constants a List.mem_cons_self
      exact average_ends simple
  | sum =>
      have bounds := takes_iff.1 takes
      match es with
      | [] => simp [BuiltIn.leastArguments] at bounds
      | [a] =>
          obtain ⟨v, rfl, simple⟩ := constants a List.mem_cons_self
          exact sum_ends simple
      | [a, b] =>
          obtain ⟨v, rfl, simple⟩ := constants a List.mem_cons_self
          obtain ⟨w, rfl, otherSimple⟩ := constants b (List.mem_cons_of_mem _ List.mem_cons_self)
          exact sumOrElse_ends simple otherSimple
      | _ :: _ :: _ :: rest => simp [BuiltIn.mostArguments] at bounds

end

end Expr

end QueryKernel
