import QueryKernel.Proofs.Compile.Becomes
import QueryKernel.Proofs.Compile.Succeed

/-!
# Simplified nodes

What compilation puts in place of a node whose parts have been simplified: the node with these parts, one of
them, a constant or an error for later.  Each of these may stand in place of the original node.

Parts may be dropped.  The node has an outcome only if all its operands have one, so that it has to be known of
a dropped operand that it has an outcome; no matter which, as evaluation may fail there all the same.
-/

namespace QueryKernel

namespace Expr

variable {visible : Visible} {c : CompileContext} {env : Env} {e e₁ e₂ : Expr} {es es₁ : List Expr} {n : Nat}
  {numbers : Numbers}

/-! ## Dropped parts -/

theorem eq_of_isEmptyLiteral (empty : e.isEmptyLiteral = true) : e = emptySequence := by
  cases e with
  | literal v =>
      cases v with
      | empty => rfl
      | _ => cases empty
  | _ => cases empty

theorem outcomes_empty {s : Sequence} {updates : List PendingUpdate} :
    emptySequence.outcomes numbers env s updates ↔ s.items = [] ∧ updates = [] := by
  constructor
  · rintro ⟨same, none⟩
    exact ⟨same.items_eq, none⟩
  · rintro ⟨same, none⟩
    exact ⟨⟨same, fun range => by cases range⟩, none⟩

theorem fits_empty : emptySequence.Fits env := fits_literal ⟨trivial, fun _ none => by cases none⟩

theorem placed_empty {compiled : Bool} : emptySequence.Placed compiled visible :=
  .literal ⟨trivial, fun _ none => by cases none⟩

/-- The empty sequence stands in place of an expression that may yield nothing. -/
theorem serves_empty (nothing : ∀ s : Sequence, s.items = [] → e.outcomes .free env s []) :
    e.Serves env emptySequence := by
  refine ⟨fits_empty, fun s updates given => ?_⟩
  obtain ⟨none, rfl⟩ := outcomes_empty.1 given
  exact nothing s none

theorem bindersAll_filter (p : Expr → Bool) (es : List Expr) : (bindersAll (es.filter p)).Sublist (bindersAll es) := by
  induction es with
  | nil => exact List.Sublist.refl _
  | cons e rest rest_ih =>
      rw [List.filter_cons]
      split
      · exact (List.Sublist.refl _).append rest_ih
      · exact rest_ih.trans (List.sublist_append_right _ _)

/-- Operands that are empty sequences add nothing. -/
theorem outcomesAll_filter {items : List Item} {updates : List PendingUpdate}
    (given : outcomesAll numbers (es.filter (!·.isEmptyLiteral)) env items updates) :
    outcomesAll numbers es env items updates := by
  induction es generalizing items updates with
  | nil => exact given
  | cons e rest rest_ih =>
      rw [List.filter_cons] at given
      split at given
      · obtain ⟨s, firstUpdates, others, otherUpdates, first, later, same⟩ := given
        exact ⟨s, firstUpdates, others, otherUpdates, first, rest_ih later, same⟩
      · next dropped =>
          obtain rfl := eq_of_isEmptyLiteral (e := e) (by simpa using dropped)
          exact ⟨.empty, [], items, updates, outcomes_empty.2 ⟨rfl, rfl⟩, rest_ih given, rfl, rfl⟩

end Expr

/-! ## Replacements -/

namespace Compile

open QueryKernel.Expr (Becomes AllBecome Serves Within)

variable {visible : Visible} {c c₁ : CompileContext} {e e₁ e₂ a b t : Expr} {es : List Expr} {P : Nat → Expr → Prop}
  {location : Option Location} {type : StaticType}

theorem noteReplacement_brings {A : Type} {Q : Nat → A → Prop} {verb : String} {before : ExprSummary} {a : A}
    (holds : Q c.context.nextVariable a) :
    (do noteReplacement verb before e; pure a : Compile A).Brings Q c :=
  Brings.after (noteReplacement_still _ _ _) (Gives.any _) fun _ _ _ same _ => .pure (same ▸ holds)

theorem replace_brings {before : ExprSummary}
    (holds : P c.context.nextVariable (e.narrow before.sequenceType)) : (replace before e).Brings P c :=
  noteReplacement_brings holds

/-- What a node has become is replaced by something else, with the type of the node. -/
theorem becomes_replaced (becomes : Becomes visible c e c₁.context.nextVariable e₁) (noPosition : e.position? = none)
    (placed : e₂.Placed true visible) (serves : ∀ env, env.Recorded visible c → e₁.Fits env → e₁.Serves env e₂)
    (fewer : e₂.binders.Sublist e₁.binders) : (replace e.summary e₂).Brings (Becomes visible c e) c₁ :=
  replace_brings ((becomes.replaced noPosition placed serves fewer).narrow noPosition)

/-- The same, with the type of what the node has become. -/
theorem becomes_replacedWith (becomes : Becomes visible c e c₁.context.nextVariable e₁)
    (noPosition : e.position? = none) (placed : e₂.Placed true visible)
    (serves : ∀ env, env.Recorded visible c → e₁.Fits env → e₁.Serves env e₂)
    (fewer : e₂.binders.Sublist e₁.binders) : (replaceWith e₁ e₂).Brings (Becomes visible c e) c₁ := by
  refine replace_brings (becomes.replaced noPosition (placed.narrow _) (fun env recorded fits => ?_) ?_)
  · exact (serves env recorded fits).narrow fits placed
  · rw [Expr.binders_narrow]
    exact fewer

/-! ## Constants -/

theorem attempt_brings {A : Type} {Q : A → Prop} {E : Cause Expr → Prop} {x : Eval A} (ends : x.Ends Q E)
    (keeps : ∀ d : Context, d.Unmoved (x d).2) (runs : c.context.Runs) :
    (attempt x).Brings (fun n result => n = c.context.nextVariable ∧ (∀ a, result = .ok a → Q a) ∧
      ∀ error, result = .error error → E error.cause) c := by
  intro result c' ran
  have unmoved := attempt_still keeps c
  obtain ⟨_, holds, failed⟩ := ends c.context runs
  rw [ran] at unmoved
  refine ⟨unmoved.later, unmoved.context.nextVariable, ?_⟩
  unfold attempt at ran
  split at ran
  · next a d found =>
      cases ran
      rw [found] at holds
      exact ⟨fun _ same => holds _ (by cases same; rfl), fun _ none => by cases none⟩
  · next error d found =>
      cases ran
      rw [found] at failed
      exact ⟨fun _ none => (by cases none), fun _ same => failed _ (by cases same; rfl)⟩
  · cases ran

/-- A node that has been computed in advance is replaced by its value or by an error for later. -/
theorem becomes_precomputed (becomes : Becomes visible c e c₁.context.nextVariable e₁)
    (noPosition : e.position? = none) (foreseen : e₁.Foreseen) (runs : c₁.context.Runs) :
    (precompute (callsWithin callDepth) e₁).Brings (Becomes visible c e) c₁ := by
  refine (attempt_brings foreseen (modes_unmoved (callsWithin_unmoving callDepth) e₁) runs).bind
    fun result c₂ _ found => ?_
  obtain ⟨next, value, error⟩ := found
  rw [← next] at becomes
  cases result with
  | ok v =>
      obtain ⟨simple, within⟩ := value v rfl
      have placed : (Expr.literal v).Placed true visible := .literal simple
      refine noteReplacement_brings (becomes.replaced noPosition (placed.narrow _) (fun env _ fits => ?_) ?_)
      · exact Serves.narrow ⟨Expr.fits_literal simple, within env fits⟩ fits placed
      · exact List.nil_sublist _
  | error err =>
      refine noteReplacement_brings (becomes.replaced noPosition (.deferred rfl) (fun env _ fits => ?_)
        (List.nil_sublist _))
      -- Where the error happened makes no difference to what it stands for.
      have located : ∃ place, err.locate e₁.location = ⟨err.cause, place⟩ := by
        unfold ErrorOf.locate
        split
        · exact ⟨_, rfl⟩
        · exact ⟨_, rfl⟩
      obtain ⟨place, same⟩ := located
      rw [same]
      have within := error err rfl env fits place
      have stands := within _ [] ⟨Sequence.from_self _ _, rfl⟩
      exact ⟨Expr.fits_deferred (.ofSequenceType (fits.typed _ _ stands).1.occurrence), within⟩

/-! ## Operations with simplified operands -/

variable {a₁ b₁ t₁ : Expr} {es₁ : List Expr}

theorem literal_of_isLiteral (constant : e.isLiteral = true) : ∃ v, e = .literal v := by
  cases e with
  | literal v => exact ⟨v, rfl⟩
  | _ => cases constant

theorem literals_of_isLiteral (constant : (a.isLiteral && b.isLiteral) = true) :
    ∃ v w, a = .literal v ∧ b = .literal w := by
  obtain ⟨first, second⟩ := (Bool.and_eq_true _ _).mp constant
  obtain ⟨v, rfl⟩ := literal_of_isLiteral first
  obtain ⟨w, rfl⟩ := literal_of_isLiteral second
  exact ⟨v, w, rfl, rfl⟩

theorem constants_of_placed (literals : es.all (·.isLiteral) = true) (placed : ∀ e ∈ es, e.Placed true visible) :
    Expr.Constants es := by
  intro e member
  obtain ⟨v, rfl⟩ := literal_of_isLiteral (List.all_eq_true.1 literals e member)
  exact ⟨v, rfl, (placed _ member).simple⟩

theorem reduceList_brings (become : AllBecome visible c es c₁.context.nextVariable es₁) (runs : c₁.context.Runs) :
    (reduceList (callsWithin callDepth) (Expr.list es type location).summary es₁ location).Brings
      (Becomes visible c (.list es type location)) c₁ := by
  -- Literals of nothing add no items to a list.
  have kept : Becomes visible c (.list es type location) c₁.context.nextVariable
      (.listOf (es₁.filter (!·.isEmptyLiteral)) location) := by
    refine (Expr.becomes_listOf become).replaced rfl (.list fun e member => ?_) (fun env _ fits => ⟨?_, ?_⟩)
      (Expr.bindersAll_filter _ _)
    · exact become.placed e (List.mem_filter.1 member).1
    · exact Expr.fits_listOf fun e member => Expr.fitsAll_iff.1 fits.2 e (List.mem_filter.1 member).1
    · rintro s updates ⟨items, given, same⟩
      exact ⟨items, Expr.outcomesAll_filter given, same⟩
  have placed : ∀ e ∈ es₁.filter (!·.isEmptyLiteral), e.Placed true visible :=
    fun e member => become.placed e (List.mem_filter.1 member).1
  unfold reduceList
  generalize es₁.filter (!·.isEmptyLiteral) = operands at kept placed
  refine Brings.after (requireUniformUpdates_still _ _) (Gives.any _) fun _ c₂ later same _ => ?_
  rw [← same] at kept
  split
  · refine becomes_replaced kept rfl Expr.placed_empty (fun env _ _ => Expr.serves_empty fun s none => ?_)
      (List.nil_sublist _)
    exact ⟨[], ⟨rfl, rfl⟩, Sequence.from_items none⟩
  · next operand =>
      refine becomes_replaced kept rfl (placed operand List.mem_cons_self) (fun env _ fits => ⟨fits.2.1, ?_⟩)
        (List.sublist_append_left _ _)
      intro s updates given
      exact ⟨s.items, ⟨s, updates, [], [], given, ⟨rfl, rfl⟩, (List.append_nil _).symm, (List.append_nil _).symm⟩,
        Sequence.from_items rfl⟩
  · refine Brings.after options_still (Gives.any _) fun most c₃ latest equal _ => ?_
    rw [← equal] at kept
    dsimp only
    split
    · next constant =>
        rw [Bool.and_eq_true] at constant
        exact becomes_precomputed kept rfl (Expr.foreseen_list (constants_of_placed constant.1 placed))
          (latest.runs (later.runs runs))
    · exact .pure kept

theorem reduceRange_brings (become : AllBecome visible c [a, b] c₁.context.nextVariable [a₁, b₁])
    (runs : c₁.context.Runs) :
    (reduceRange (callsWithin callDepth) a₁ b₁ type location).Brings
      (Becomes visible c (.range a b type location)) c₁ := by
  obtain ⟨left, right⟩ := become.pair
  refine Brings.after (requireNoUpdates_still _ _) (requireNoUpdates_gives _ _) fun _ c₂ later same quiet => ?_
  refine Brings.after (requireNoUpdates_still _ _) (requireNoUpdates_gives _ _) fun _ c₃ latest equal quiet' => ?_
  have whole : Becomes visible c (.range a b type location) c₁.context.nextVariable (.range a₁ b₁ type location) :=
    Expr.becomes_range become ⟨quiet, quiet'⟩
  rw [← same, ← equal] at whole
  dsimp only
  split
  · next constant =>
      obtain ⟨v, w, rfl, rfl⟩ := literals_of_isLiteral constant
      exact becomes_precomputed whole rfl (Expr.foreseen_range left.placed.simple right.placed.simple)
        (latest.runs (later.runs runs))
  · exact .pure whole

/-- An operation on two atoms has no result where one operand is empty, whatever the other one is. -/
theorem reduceOperation_brings {operation : Atom → Atom → Except AtomError Item}
    (whole : a₁.hasUpdates = false → b₁.hasUpdates = false → Becomes visible c e c₁.context.nextVariable e₁)
    (noPosition : e.position? = none) (left : a₁.Placed true visible) (right : b₁.Placed true visible)
    (outcome : ∀ env (s x y : Sequence), a₁.outcomes .free env x [] → b₁.outcomes .free env y [] →
      s.items = operate operation x.items y.items → e₁.outcomes .free env s [])
    (foreseen : ∀ v w : Value, a₁ = .literal v → b₁ = .literal w → v.Simple → w.Simple → e₁.Foreseen)
    (runs : c₁.context.Runs) : (reduceOperation (callsWithin callDepth) e₁ a₁ b₁).Brings (Becomes visible c e) c₁ := by
  refine Brings.after (requireNoUpdates_still _ _) (requireNoUpdates_gives _ _) fun _ c₂ later same quiet => ?_
  refine Brings.after (requireNoUpdates_still _ _) (requireNoUpdates_gives _ _) fun _ c₃ latest equal quiet' => ?_
  have becomes := whole quiet quiet'
  rw [← same, ← equal] at becomes
  split
  · next empty =>
      refine becomes_replacedWith becomes noPosition Expr.placed_empty
        (fun env _ _ => Expr.serves_empty fun s none => ?_) (List.nil_sublist _)
      -- The operand that is dropped has an outcome, no matter which.
      obtain ⟨x, first⟩ := left.operand quiet Numbers.free_total env
      obtain ⟨y, second⟩ := right.operand quiet' Numbers.free_total env
      refine outcome env s x y first second ?_
      rw [none]
      rcases (Bool.or_eq_true _ _).mp empty with empty | empty
      · obtain rfl := Expr.eq_of_isEmptyLiteral empty
        rw [(Expr.outcomes_empty.1 first).1]
        rfl
      · obtain rfl := Expr.eq_of_isEmptyLiteral empty
        rw [(Expr.outcomes_empty.1 second).1, operate]
        exact fun _ _ _ impossible => by cases impossible
  · split
    · next constant =>
        obtain ⟨v, w, rfl, rfl⟩ := literals_of_isLiteral constant
        exact becomes_precomputed becomes noPosition (foreseen v w rfl rfl left.simple right.simple)
          (latest.runs (later.runs runs))
    · exact .pure becomes

theorem reduceArithmetic_brings {op : Operator} (become : AllBecome visible c [a, b] c₁.context.nextVariable [a₁, b₁])
    (runs : c₁.context.Runs) :
    (reduceOperation (callsWithin callDepth) (.arithmeticOf op a₁ b₁ location) a₁ b₁).Brings
      (Becomes visible c (.arithmetic op a b type location)) c₁ := by
  obtain ⟨left, right⟩ := become.pair
  refine reduceOperation_brings (fun quiet quiet' => Expr.becomes_arithmeticOf become ⟨quiet, quiet'⟩) rfl left.placed
    right.placed (fun env s x y first second same => ⟨x, y, first, second, Sequence.from_items same, rfl⟩) ?_ runs
  rintro v w rfl rfl simple simple'
  exact Expr.foreseen_arithmetic simple simple'

theorem reduceComparison_brings {op : Comparison} (become : AllBecome visible c [a, b] c₁.context.nextVariable [a₁, b₁])
    (runs : c₁.context.Runs) :
    (reduceOperation (callsWithin callDepth) (.comparisonOf op a₁ b₁ location) a₁ b₁).Brings
      (Becomes visible c (.comparison op a b type location)) c₁ := by
  obtain ⟨left, right⟩ := become.pair
  refine reduceOperation_brings (fun quiet quiet' => Expr.becomes_comparisonOf become ⟨quiet, quiet'⟩) rfl left.placed
    right.placed (fun env s x y first second same => ⟨x, y, first, second, Sequence.from_items same, rfl⟩) ?_ runs
  rintro v w rfl rfl simple simple'
  exact Expr.foreseen_comparison simple simple'

/-! ## Choices and references -/

theorem literal_of_literal? {v : Value} (found : e.literal? = some v) : e = .literal v := by
  cases e with
  | literal w =>
      cases found
      rfl
  | _ => cases found

/-- The boolean value of a literal is that of its items, and no context is touched. -/
theorem attemptBoolean_brings {v : Value} (simple : v.Simple) (runs : c.context.Runs) :
    (attempt (Modes.ofLiteral v).boolean).Brings (fun n result => n = c.context.nextVariable ∧
      ∀ held, result = .ok held → truth v.items = held) c := by
  have untouched : ∀ d, ((Modes.ofLiteral v).boolean d).2 = d := by
    intro d
    have always : (Modes.ofLiteral v).Always (· = d) Kind.any := .ofLiteral Kind.any_lawful trivial
    exact (always.boolean d rfl).1
  have ends : (Modes.ofLiteral v).boolean.Ends (fun held => truth v.items = held) fun _ => True := by
    intro d running
    refine ⟨(untouched d).symm ▸ running, fun held found => ?_, fun _ _ => trivial⟩
    have follows : (Modes.ofLiteral v).Follows (fun _ => True) [] d v.sequence [] := .ofLiteral simple.is
    exact (follows.boolean held d (Prod.ext found (untouched d))).1
  refine (attempt_brings ends (fun d => (untouched d).symm ▸ d.unmoved_refl) runs).mono fun n result _ found => ?_
  exact ⟨found.1, found.2.1⟩

theorem reduceConditional_brings (become : AllBecome visible c [t, a, b] c₁.context.nextVariable [t₁, a₁, b₁])
    (quiet : t₁.hasUpdates = false) (runs : c₁.context.Runs) :
    (reduceConditional t₁ a₁ b₁ location).Brings (Becomes visible c (.conditional t a b type location)) c₁ := by
  have whole : Becomes visible c (.conditional t a b type location) c₁.context.nextVariable
      (.conditionalOf t₁ a₁ b₁ location) := Expr.becomes_conditionalOf become quiet
  have placed := become.placed
  refine Brings.after (requireUniformUpdates_still _ _) (Gives.any _) fun _ c₂ later same _ => ?_
  rw [← same] at whole
  dsimp only
  split
  · exact .pure whole
  · next v constant =>
      obtain rfl := literal_of_literal? constant
      have simple : v.Simple := (placed _ List.mem_cons_self).simple
      refine (attemptBoolean_brings simple (later.runs runs)).bind fun result c₃ _ found => ?_
      obtain ⟨next, decided⟩ := found
      rw [← next] at whole
      cases result with
      | error error => exact .pure whole
      | ok held =>
          -- The branch that is not taken may be anything.
          have truth := decided held rfl
          cases held with
          | true =>
              refine becomes_replacedWith whole rfl (placed a₁ (by simp)) (fun env _ fits => ⟨fits.2.2.1, ?_⟩) ?_
              · exact fun s updates given => ⟨_, Expr.outcomes_literal v, .inl ⟨truth, given⟩⟩
              · exact (List.sublist_append_left _ _).trans (List.sublist_append_right _ _)
          | false =>
              refine becomes_replacedWith whole rfl (placed b₁ (by simp)) (fun env _ fits => ⟨fits.2.2.2, ?_⟩) ?_
              · exact fun s updates given => ⟨_, Expr.outcomes_literal v, .inr ⟨truth, given⟩⟩
              · exact (List.sublist_append_right _ _).trans (List.sublist_append_right _ _)

theorem Brings.state {A : Type} {Q : Nat → A → Prop} {f : CompileContext → Compile A} (next : (f c).Brings Q c) :
    (state >>= f).Brings Q c := fun a c' ran => next a c' ran

theorem reduceReference_brings {var : Variable} (compilable : (Expr.varRef var type location).Compilable visible c)
    (seen : visible (.variable var.id)) :
    (reduceReference var type location).Brings (Becomes visible c (.varRef var type location)) c := by
  have self : Becomes visible c (.varRef var type location) c.context.nextVariable (.varRef var type location) :=
    Expr.becomes_self compilable (.varRef seen)
  refine Brings.state ?_
  split
  · next v found =>
      have simple := (compilable.stage.recorded _ v found).2
      refine becomes_replacedWith self rfl (.literal simple) (fun env recorded _ =>
        ⟨Expr.fits_literal simple, fun s updates given => ?_⟩) (List.nil_sublist _)
      -- What is recorded is what the variable holds.
      change s.From (env.values var.id).items (env.values var.id).compact ∧ updates = []
      rw [recorded.values _ seen v found]
      exact given
  · split
    · next known found =>
        refine .pure ⟨⟨.varRef seen, fun env recorded fits => ⟨?_, fun _ _ => id⟩, .inl rfl⟩, self.binders⟩
        refine Expr.fits_varRef (.ofSequenceType (recorded.types _ seen known found)) ?_
        exact (fits.typed _ _ ⟨Sequence.from_self _ _, rfl⟩).2
    · exact .pure self

theorem reduceContextValue_brings (compilable : (Expr.contextValue type location).Compilable visible c)
    (seen : visible .focus) :
    (reduceContextValue type location).Brings (Becomes visible c (.contextValue type location)) c := by
  have self : Becomes visible c (.contextValue type location) c.context.nextVariable (.contextValue type location) :=
    Expr.becomes_self compilable (.contextValue seen)
  refine Brings.state ?_
  split
  · next v position size found =>
      refine .pure ⟨⟨.contextValue seen, fun env recorded fits => ⟨?_, fun _ _ => id⟩, .inl rfl⟩, self.binders⟩
      -- In a predicate one item at a time is in focus.
      obtain ⟨single, one⟩ := recorded.focus _ v found rfl
      refine Expr.fits_contextValue ?_ (fits.typed _ _ ⟨Sequence.from_self _ _, rfl⟩).2
      rw [one]
      split
      · exact .one _
      · rw [single]
        exact .sized _ 1
  · exact .pure self

/-! ## Filters -/

section Filters

open QueryKernel.Expr (passes passes_nil outcomes)

variable {env : Env} {items chosen : List Item}

/-- Something that holds everywhere selects everything. -/
theorem selects_everything {holds : Item → Nat → Bool → Prop} (always : ∀ item position, holds item position true)
    (items : List Item) (position : Nat) : Selects holds items position items := by
  induction items generalizing position with
  | nil => rfl
  | cons item rest rest_ih => exact ⟨true, rest, always item position, rest_ih (position + 1), rfl⟩

/-- What is known of a predicate is so for every item. -/
theorem mayHold_of_verdict (held : Bool) (env : Env) (known : verdict e = if held then .holds else .fails) :
    e.position? = none ∧ ∀ item position, ∃ s, e.outcomes .free (env.focusOn item) s [] ∧
      MayHold .free s.items position held := by
  have literal : ∀ v : Value, (∀ position, MayHold .free v.items position held) → ∀ item position, ∃ s,
      (Expr.literal v).outcomes .free (env.focusOn item) s [] ∧ MayHold .free s.items position held :=
    fun v may _ position => ⟨_, Expr.outcomes_literal v, may position⟩
  -- A verdict is known of the empty sequence, of a node, and of an atom that is no number.
  cases e with
  | literal v =>
      cases v with
      | empty =>
          cases held with
          | true => cases known
          | false => exact ⟨rfl, literal _ fun _ => rfl⟩
      | one item =>
          cases item with
          | node n =>
              cases held with
              | true => exact ⟨rfl, literal _ fun _ => rfl⟩
              | false => cases known
          | atom a =>
              simp only [verdict] at known
              split at known
              · cases held <;> cases known
              · next other =>
                  have value : a.boolean? = .ok held := by
                    split at known <;> cases held <;> first | assumption | cases known
                  refine ⟨if_neg other, literal _ fun position => ?_⟩
                  simp only [ValueOf.items, MayHold, deciding, other, Bool.false_eq_true, if_false]
                  simp only [ItemOf.truth, ItemOf.booleanValue, value]
                  rfl
          | _ => cases held <;> cases known
      | _ => cases held <;> cases known
  | _ => cases held <;> cases known

/-- Predicates that are known to hold may be dropped. -/
theorem passes_open (noneFails : ∀ e ∈ es, verdict e ≠ .fails)
    (given : passes .free (es.filter (verdict · = .open)) env items chosen) : passes .free es env items chosen := by
  induction es generalizing items with
  | nil => exact given
  | cons e rest rest_ih =>
      have others : ∀ {items}, passes .free (rest.filter (verdict · = .open)) env items chosen →
          passes .free rest env items chosen :=
        rest_ih fun other member => noneFails other (List.mem_cons_of_mem _ member)
      cases known : verdict e with
      | «open» =>
          rw [List.filter_cons_of_pos (by simp [known])] at given
          obtain ⟨passing, now, later⟩ := given
          exact ⟨passing, now, others later⟩
      | holds =>
          rw [List.filter_cons_of_neg (by simp [known])] at given
          obtain ⟨noPosition, holds⟩ := mayHold_of_verdict true env known
          refine ⟨items, ?_, others given⟩
          rw [noPosition]
          exact selects_everything holds items 1
      | fails => exact absurd known (noneFails e List.mem_cons_self)

/-- Where a predicate is known to fail nothing passes, if the other ones can be decided. -/
theorem passes_fails (fails : es.any (verdict · = .fails) = true)
    (each : ∀ e ∈ es, ∀ item, ∃ s, e.outcomes .free (env.focusOn item) s []) (items : List Item) :
    passes .free es env items [] := by
  induction es generalizing items with
  | nil => cases fails
  | cons e rest rest_ih =>
      by_cases known : verdict e = .fails
      · obtain ⟨noPosition, never⟩ := mayHold_of_verdict false env known
        refine ⟨[], ?_, passes_nil⟩
        rw [noPosition]
        exact Expr.selects_nothing never items 1
      · have later : rest.any (verdict · = .fails) = true := by simpa [known] using fails
        obtain ⟨_, passing, now, _⟩ : ∃ chosen, passes .free [e] env items chosen :=
          Expr.passes_total Numbers.free_total (List.forall_mem_singleton.2 (each e List.mem_cons_self)) items
        exact ⟨passing, now, rest_ih later (fun other member => each other (List.mem_cons_of_mem _ member)) passing⟩

/-- Nothing may come out of a filter if a predicate is known to fail or nothing goes in.  All other parts have
outcomes as well. -/
theorem outcomes_filter_nothing (nothing : (es.any (verdict · = .fails) || a.isEmptyLiteral) = true)
    (input : a.Placed true visible) (quiet : a.hasUpdates = false)
    (conditions : ∀ p ∈ es, p.Placed true visible.focused) (still : ∀ p ∈ es, p.hasUpdates = false) {s : Sequence}
    (none : s.items = []) : (Expr.filter a es type location).outcomes .free env s [] := by
  rcases (Bool.or_eq_true _ _).mp nothing with fails | empty
  · obtain ⟨b, given⟩ := input.operand quiet Numbers.free_total env
    have each : ∀ p ∈ es, ∀ item, ∃ s, p.outcomes .free (env.focusOn item) s [] := fun p member item =>
      (conditions p member).operand (still p member) Numbers.free_total _
    refine ⟨b, [], given, passes_fails fails each b.items, ⟨none, fun both => ?_⟩, rfl⟩
    cases es with
    | nil => cases fails
    | cons p rest => cases both
  · obtain rfl := Expr.eq_of_isEmptyLiteral empty
    refine ⟨s, [], Expr.outcomes_empty.2 ⟨none, rfl⟩, ?_, ⟨none, fun both => ?_⟩, rfl⟩
    · rw [none]
      exact passes_nil
    · exact ((Bool.and_eq_true _ _).mp both).2

/-- Predicates that are known to hold may be dropped from a filter. -/
theorem becomes_filter_open {n : Nat} (noPosition : e.position? = none) (noneFails : ∀ p ∈ es, verdict p ≠ .fails)
    (whole : Becomes visible c e n (.filterOf a es location)) :
    Becomes visible c e n (.filterOf a (es.filter (verdict · = .open)) location) := by
  have fewer : ∀ p ∈ es.filter (verdict · = .open), p ∈ es := fun p member => (List.mem_filter.1 member).1
  have placed : (Expr.filterOf a (es.filter (verdict · = .open)) location).Placed true visible := by
    cases whole.placed with
    | filter input conditions quiet =>
        exact .filter input (fun p member => conditions p (fewer p member)) fun compiled =>
          ⟨(quiet compiled).1, fun p member => (quiet compiled).2 p (fewer p member)⟩
  refine whole.replaced noPosition placed (fun env _ fits => ?_)
    ((List.Sublist.refl _).append (Expr.bindersAll_filter _ _))
  obtain ⟨_, base, predicates⟩ := fits
  refine ⟨Expr.fits_filterOf base fun s given item member p among =>
    Expr.fitsAll_iff.1 (predicates s given item member) p (fewer p among), ?_⟩
  rintro s updates ⟨b, items, given, passed, same, none⟩
  refine ⟨b, items, given, passes_open noneFails passed, same.weaken fun asked => ?_, none⟩
  obtain ⟨nothing, compact⟩ := (Bool.and_eq_true _ _).mp asked
  rw [List.isEmpty_iff.1 nothing, compact]
  rfl

theorem reduceFilter_brings (noPosition : e.position? = none)
    (become : (∀ p ∈ es₁, p.hasUpdates = false) →
      Becomes visible c e c₁.context.nextVariable (.filterOf a₁ es₁ location))
    (runs : c₁.context.Runs) :
    (reduceFilter (callsWithin callDepth) e.summary a₁ es₁ location).Brings (Becomes visible c e) c₁ := by
  refine Brings.after (requireNoneUpdates_still _ _) (requireNoneUpdates_gives _ _) fun _ c₂ later same still => ?_
  have whole := become still
  obtain ⟨input, conditions, quiet⟩ : a₁.Placed true visible ∧ (∀ p ∈ es₁, p.Placed true visible.focused) ∧
      a₁.hasUpdates = false := by
    cases whole.placed with
    | filter input conditions quiet => exact ⟨input, conditions, (quiet rfl).1⟩
  rw [← same] at whole
  split
  · next nothing =>
      refine becomes_replaced whole noPosition Expr.placed_empty (fun env _ _ => Expr.serves_empty fun s none => ?_)
        (List.nil_sublist _)
      exact outcomes_filter_nothing nothing input quiet conditions still none
  · next possible =>
      have noneFails : ∀ p ∈ es₁, verdict p ≠ .fails := fun p member fails =>
        possible (by rw [List.any_eq_true.2 ⟨p, member, decide_eq_true fails⟩]; rfl)
      have kept := becomes_filter_open noPosition noneFails whole
      dsimp only
      split
      · next all =>
          -- All predicates hold, so that the base passes as it is.
          rw [List.isEmpty_iff.1 all] at kept
          refine becomes_replaced kept noPosition input (fun env _ fits => ⟨fits.2.1, fun s updates given => ?_⟩)
            (List.sublist_append_left _ _)
          obtain rfl := input.quiet quiet given
          exact ⟨s, s.items, given, rfl, ⟨rfl, fun compact => compact⟩, rfl⟩
      · next some =>
          refine Brings.after options_still (Gives.any _) fun most c₃ latest equal _ => ?_
          rw [← equal] at kept
          split
          · next constant =>
              rw [Bool.and_eq_true] at constant
              obtain ⟨v, found, _⟩ := (Option.any_eq_true _ _).1 constant.1
              obtain rfl := literal_of_literal? found
              have predicates := constants_of_placed constant.2 fun p member =>
                conditions p (List.mem_filter.1 member).1
              refine becomes_precomputed kept noPosition (Expr.foreseen_filter input.simple predicates ?_)
                (latest.runs (later.runs runs))
              exact fun none => some (List.isEmpty_iff.2 none)
          · exact .pure kept

end Filters

/-! ## Bindings -/

theorem reduceLet_brings {var : Variable} (noPosition : e.position? = none)
    (whole : Becomes visible c e c₁.context.nextVariable (.letIn var a₁ b₁ location)) :
    (reduceLet e.summary var a₁ b₁ location).Brings (Becomes visible c e) c₁ := by
  unfold reduceLet
  split
  · next constant =>
      obtain ⟨v, w, rfl, rfl⟩ := literals_of_isLiteral constant
      have simple : w.Simple := by
        cases whole.placed with
        | letIn _ _ result => exact result.simple
      refine becomes_replaced whole noPosition (.literal simple) (fun env _ _ =>
        ⟨Expr.fits_literal simple, fun s updates given => ?_⟩) (List.nil_sublist _)
      exact ⟨_, Expr.outcomes_literal v, given⟩
  · exact .pure whole

/-! ## Calls -/

section Calls

variable {argument : Expr} {env : Env} {s : Sequence} {updates : List PendingUpdate}

theorem reduceCount_brings (whole : Becomes visible c e c₁.context.nextVariable (.call .count [argument] type location))
    (noPosition : e.position? = none) :
    (reduceCount (.call .count [argument] type location) argument).Brings (Becomes visible c e) c₁ := by
  obtain ⟨placed, still⟩ : argument.Placed true visible ∧ argument.hasUpdates = false := by
    cases whole.placed with
    | call _ _ parts quiet => exact ⟨parts _ List.mem_cons_self, quiet rfl _ List.mem_cons_self⟩
  unfold reduceCount
  dsimp only
  split
  · next n known =>
      split
      · next item made _ =>
          obtain rfl := countItem_eq made
          have simple : (ValueOf.one (countItems n) : Value).Simple :=
            ⟨trivial, List.forall_mem_singleton.2 trivial⟩
          refine becomes_replacedWith whole noPosition (.literal simple) (fun env _ fits =>
            ⟨Expr.fits_literal simple, fun s updates given => ?_⟩) (List.nil_sublist _)
          obtain ⟨same, rfl⟩ := given
          -- The number of items is the same for every outcome, and there is one.
          obtain ⟨t, outcome⟩ := placed.operand still Numbers.free_total env
          have exact := (fits.2.1.typed t [] outcome).1.exact n known
          refine ⟨[t], Expr.outcomesEach_one.2 ⟨t, outcome, rfl⟩, Sequence.from_items ?_, rfl⟩
          rw [same.items_eq, BuiltIn.result, exact]
          rfl
      · exact .pure whole
  · exact .pure whole

/-- The first operand of a list is all that counts for the first item, if it is one item.  The other operands
have outcomes, so that the list has one. -/
theorem outcomes_head_of_first {first : Expr} {rest : List Expr} {type' : StaticType} {place : Option Location}
    (parts : ∀ p ∈ first :: rest, p.Placed true visible ∧ p.hasUpdates = false) (fits : first.Fits env)
    (one : first.sequenceType.isOne = true) (given : first.outcomes .free env s updates) :
    (Expr.call .head [.list (first :: rest) type' place] type location).outcomes .free env s updates := by
  obtain ⟨placed, quiet⟩ := parts first List.mem_cons_self
  obtain rfl := placed.quiet quiet given
  have later : ∀ p ∈ rest, p.Placed true visible ∧ p.hasUpdates = false := fun p member =>
    parts p (List.mem_cons_of_mem _ member)
  obtain ⟨others, updates, remaining⟩ : ∃ items updates, Expr.outcomesAll .free rest env items updates :=
    Expr.outcomesAll_total fun p member => (later p member).1.total Numbers.free_total env
  obtain rfl := Expr.outcomesAll_quiet remaining fun p member t updates =>
    (later p member).1.quiet (later p member).2
  have all : (Expr.list (first :: rest) type' place).outcomes .free env ⟨s.items ++ others, false⟩ [] :=
    ⟨s.items ++ others, ⟨s, [], others, [], given, remaining, rfl, rfl⟩, Sequence.from_items rfl⟩
  have single : s.items.length = 1 := (fits.typed s [] given).1.eq_one one
  refine ⟨_, Expr.outcomesEach_one.2 ⟨_, all, rfl⟩, Sequence.from_items ?_, rfl⟩
  rw [BuiltIn.result, ← single, List.take_left]

theorem reduceHead_brings (compilable : e.Compilable visible c) (later : c.Later c₁)
    (whole : Becomes visible c e c₁.context.nextVariable (.call .head [argument] type location))
    (noPosition : e.position? = none) :
    (reduceHead (.call .head [argument] type location) argument).Brings (Becomes visible c e) c₁ := by
  obtain ⟨placed, still⟩ : argument.Placed true visible ∧ argument.hasUpdates = false := by
    cases whole.placed with
    | call _ _ parts quiet => exact ⟨parts _ List.mem_cons_self, quiet rfl _ List.mem_cons_self⟩
  unfold reduceHead
  split
  · next few =>
      refine becomes_replacedWith whole noPosition placed (fun env _ fits => ⟨fits.2.1, fun s updates given => ?_⟩)
        (List.sublist_append_left _ _)
      obtain rfl := placed.quiet still given
      refine ⟨[s], Expr.outcomesEach_one.2 ⟨s, given, rfl⟩, Sequence.from_items ?_, rfl⟩
      exact (List.take_of_length_le ((fits.2.1.typed s [] given).1.le_one few)).symm
  · split
    · next first rest found =>
        obtain ⟨type', place, rfl⟩ : ∃ type' place, argument = .list (first :: rest) type' place := by
          cases argument with
          | list operands type' place =>
              cases found
              exact ⟨type', place, rfl⟩
          | _ => cases found
        split
        · next one =>
            have parts : ∀ p ∈ first :: rest, p.Placed true visible ∧ p.hasUpdates = false := by
              cases placed with
              | list parts => exact fun p member => ⟨parts p member, Expr.anyUpdates_eq_false_iff.1 still p member⟩
            have stage := compilable.stage.later later
            have listed : (Expr.list (first :: rest) type' place).Distinct visible :=
              (whole.distinct compilable).part List.mem_cons_self
            obtain ⟨copied, _⟩ := Expr.copy_duplicates ⟨c₁.context.nextVariable, [], []⟩ id
              (parts first List.mem_cons_self).1 (listed.part List.mem_cons_self) (fun _ _ => rfl) stage.bounded
            refine (copy_brings stage first []).bind fun result c₂ _ made => ?_
            obtain ⟨number, same⟩ := made
            dsimp only
            rw [same]
            -- The copy may use the variables of the original, which is in scope where the copy is.
            have copy := copied.placed visible ⟨id, id, fun _ => id⟩
            refine replace_brings ⟨⟨copy.narrow _, fun env recorded fits => ?_, .inl noPosition⟩, ?_⟩
            · have before := whole.serves env recorded fits
              have carries := env.carries_self visible
              have operands := Expr.fitsAll_iff.1 before.fits.2.1.2 first List.mem_cons_self
              refine before.trans (Serves.narrow ⟨copied.fits env env carries operands, fun s updates given => ?_⟩
                before.fits copy)
              exact outcomes_head_of_first parts operands one (copied.within env env carries s updates given)
            · rw [Expr.binders_narrow, copied.binders]
              exact .range _ _ later.next (Nat.le_of_eq number.symm)
        · exact .pure whole
    · exact .pure whole

theorem reduceCall_brings {again : Expr → Compile Expr} {f : BuiltIn}
    (compilable : (Expr.call f es type location).Compilable visible c) (later : c.Later c₁)
    (become : AllBecome visible c es c₁.context.nextVariable es₁)
    (firstOrder : f.isHigherOrder = false) (takes : f.takes es.length = true) :
    (reduceCall (callsWithin callDepth) again f es₁ location).Brings
      (Becomes visible c (.call f es type location)) c₁ := by
  have constant : ∀ n, (if f = .error then none else literalItems? es₁) = some n →
      f ≠ .error ∧ Expr.Constants es₁ := by
    intro n found
    split at found
    · cases found
    · next notError =>
        obtain ⟨values, all, _⟩ := Option.map_eq_some_iff.1 found
        exact ⟨notError, constants_of_placed (List.all_eq_true.2 (literal_of_mapM all)) become.placed⟩
  refine Brings.after (requireNoneUpdates_still _ _) (requireNoneUpdates_gives _ _) fun _ c₂ latest same quiet => ?_
  refine Brings.after options_still (Gives.any _) fun most c₃ last equal _ => ?_
  have whole : Becomes visible c (.call f es type location) c₁.context.nextVariable
      (.call f es₁ (f.resultType es₁) location) := Expr.becomes_call become firstOrder takes quiet
  have reached := (later.trans latest).trans last
  rw [← same, ← equal] at whole
  have accepted : f.takes es₁.length = true := become.each.length_eq ▸ takes
  dsimp only
  generalize (if f = .error then none else literalItems? es₁) = count at constant
  split
  · exact fun _ _ none => by cases none
  · split
    · next few =>
        obtain ⟨n, found, _⟩ := (Option.any_eq_true _ _).1 few
        obtain ⟨notError, constants⟩ := constant n found
        exact becomes_precomputed whole rfl (Expr.foreseen_call notError firstOrder accepted constants)
          (reached.runs compilable.stage.runs)
    · split
      · exact reduceHead_brings compilable reached whole rfl
      · exact reduceCount_brings whole rfl
      -- A fold is no function of first order.
      · cases firstOrder
      · exact .pure whole

end Calls

end Compile

end QueryKernel
