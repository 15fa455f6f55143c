import QueryKernel.Proofs.Eval.Operations
import QueryKernel.Proofs.Expr.Parts
import QueryKernel.Proofs.Run.Follow

/-!
# Numbers in predicates

Where evaluation of an expression gets to a predicate of a filter, and what is asked of a number there.

A predicate is reached with what has really been evaluated before: the items of the base that are still left,
and variables with the values that they have just been bound to.

## Definitions

* `Numbers.Rules` says that all decisions about a number are those of evaluation.
* `Expr.Decides` asks this of the number that an expression gives in a context.
* `Expr.Decided` asks this of all predicates that are no positions, wherever evaluation gets to them, and
  `Expr.DecidedAnywhere` in all contexts.
-/

namespace QueryKernel

/-- Whatever is decided about a number is what evaluation decides. -/
def Numbers.Rules (numbers : Numbers) (a : Atom) : Prop :=
  ∀ position held, numbers a position held → held = numberHolds a position

theorem Numbers.strict_rules (a : Atom) : Numbers.strict.Rules a := fun _ _ => id

/-- Where nothing is decided no number may decide. -/
theorem Numbers.free_rules (a : Atom) : ¬Numbers.free.Rules a := by
  intro rules
  have both : true = false := (rules 0 true trivial).trans (rules 0 false trivial).symm
  cases both

/-- The context with an item in focus. -/
def Context.focusOn (c : Context) (item : Item) (position size : Nat) : Context :=
  { c with focus := ⟨some (.one item), position, size⟩ }

/-- Up to the focus the contexts agree on what is visible. -/
def Context.Near (visible : Visible) (c d : Context) : Prop := c.Alike visible { d with focus := c.focus }

namespace Expr

/-- A number that the expression gives in a context is decided as evaluation does. -/
def Decides (numbers : Numbers) (calls : Calls) (e : Expr) (c : Context) : Prop :=
  ∀ a c', (e.modes calls).booleanItem c = (.ok (.atom a), c') → a.isNumeric = true → numbers.Rules a

mutual

/-- Every predicate that is no position decides numbers as evaluation does, wherever evaluation gets to it
from a context that agrees with the given one on what is visible. -/
def Decided (numbers : Numbers) (calls : Calls) : Expr → Visible → Context → Prop
  | literal _, _, _ | contextValue .., _, _ | root _, _, _ | documents .., _, _ | varRef .., _, _
  | deferred .., _, _ | dynamicCall .., _, _ => True
  | list operands _ _, visible, c => DecidedAll numbers calls operands visible c
  | range a b _ _, visible, c | arithmetic _ a b _ _, visible, c | comparison _ a b _ _, visible, c =>
      Decided numbers calls a visible c ∧ Decided numbers calls b visible c
  | conditional test yes no _ _, visible, c =>
      Decided numbers calls test visible c ∧ ∀ c₁ held c₂, c.Alike visible c₁ →
        (test.modes calls).boolean c₁ = (.ok held, c₂) →
          if held then Decided numbers calls yes visible c else Decided numbers calls no visible c
  | filter base predicates _ _, visible, c =>
      Decided numbers calls base visible c ∧ ∀ c₁ v c₂, c.Alike visible c₁ →
        (base.modes calls).value c₁ = (.ok v, c₂) → DecidedOn numbers calls predicates visible v c
  | letIn var bound body _, visible, c =>
      Decided numbers calls bound visible c ∧ ∀ c₁ v c₂, c.Alike visible c₁ →
        (bound.modes calls).value c₁ = (.ok v, c₂) →
          Decided numbers calls body (visible.add var.id) (c₂.bind var v)
  | forIn var source body _ _, visible, c =>
      Decided numbers calls source visible c ∧ ∀ c₁ s c₂ c₃ item c₄, c.Alike visible c₁ →
        (source.modes calls).stream c₁ = (.ok s, c₂) → c₂.Alike (visible.including source.binders) c₃ →
          (s.pull c₃).Yields (visible.including source.binders) item → c.Alike visible c₄ →
            Decided numbers calls body (visible.add var.id) (c₄.bind var (.one item))
  | call _ arguments _ _, visible, c => DecidedAll numbers calls arguments visible c
  | delete target _, visible, c => Decided numbers calls target visible c

/-- The same for some expressions. -/
def DecidedAll (numbers : Numbers) (calls : Calls) : List Expr → Visible → Context → Prop
  | [], _, _ => True
  | e :: rest, visible, c => Decided numbers calls e visible c ∧ DecidedAll numbers calls rest visible c

/-- The same for the predicates of a filter, each tested on what the ones before have left. -/
def DecidedOn (numbers : Numbers) (calls : Calls) : List Expr → Visible → Value → Context → Prop
  | [], _, _, _ => True
  | e :: rest, visible, v, c =>
      (∀ d item position size, c.Near visible d → item ∈ v.items →
        Decided numbers calls e visible.focused (d.focusOn item position size) ∧
          (e.position? = none → e.Decides numbers calls (d.focusOn item position size))) ∧
      ∀ d left d₁, c.Near visible d → passAll [(e.position?, e.modes calls)] v d = (.ok left, d₁) →
        DecidedOn numbers calls rest visible left c

end

variable {numbers : Numbers} {calls : Calls} {visible : Visible} {e : Expr} {es : List Expr} {c c' : Context}

/-- Where nothing is decided of numbers, no number is given. -/
theorem decides_free_iff : e.Decides .free calls c ↔
    ∀ a c', (e.modes calls).booleanItem c = (.ok (.atom a), c') → a.isNumeric = false := by
  refine ⟨fun decides a c' given => Bool.eq_false_iff.2 fun number => ?_, fun none a c' given number => ?_⟩
  · exact Numbers.free_rules a (decides a c' given number)
  · rw [none a c' given] at number
    cases number

theorem decidedAll_iff : DecidedAll numbers calls es visible c ↔ ∀ e ∈ es, e.Decided numbers calls visible c := by
  induction es with
  | nil => simp [DecidedAll]
  | cons e rest rest_ih => simp [DecidedAll, rest_ih]

theorem DecidedOn.alike {v : Value} (decided : DecidedOn numbers calls es visible v c)
    (alike : c.Alike visible c') : DecidedOn numbers calls es visible v c' := by
  have near : ∀ {d}, c'.Near visible d → c.Near visible d := fun there =>
    ⟨fun _ => rfl, fun seen => (there.forest seen).trans (alike.forest seen),
      fun id seen => (there.bindings id seen).trans (alike.bindings id seen)⟩
  induction es generalizing v with
  | nil => trivial
  | cons e rest rest_ih =>
      obtain ⟨here, later⟩ := decided
      exact ⟨fun d item position size there => here d item position size (near there),
        fun d left d₁ there passed => rest_ih (later d left d₁ (near there) passed)⟩

theorem Decided.alike (decided : e.Decided numbers calls visible c) (alike : c.Alike visible c') :
    e.Decided numbers calls visible c' := by
  induction e using byParts with
  | step e parts_ih =>
    have all : DecidedAll numbers calls e.parts visible c → DecidedAll numbers calls e.parts visible c' :=
      fun decided => decidedAll_iff.2 fun s member => parts_ih s member (decidedAll_iff.1 decided s member)
    cases e with
    | list operands type location => exact all decided
    | call f arguments type location => exact all decided
    | range a b type location =>
        exact ⟨parts_ih a (by simp [parts]) decided.1, parts_ih b (by simp [parts]) decided.2⟩
    | arithmetic op a b type location =>
        exact ⟨parts_ih a (by simp [parts]) decided.1, parts_ih b (by simp [parts]) decided.2⟩
    | comparison op a b type location =>
        exact ⟨parts_ih a (by simp [parts]) decided.1, parts_ih b (by simp [parts]) decided.2⟩
    | conditional test yes no type location =>
        refine ⟨parts_ih test (by simp [parts]) decided.1, fun c₁ held c₂ near ran => ?_⟩
        have branch := decided.2 c₁ held c₂ (alike.trans near) ran
        cases held with
        | true => exact parts_ih yes (by simp [parts]) branch
        | false => exact parts_ih no (by simp [parts]) branch
    | filter base predicates type location =>
        refine ⟨parts_ih base (by simp [parts]) decided.1, fun c₁ v c₂ near ran => ?_⟩
        exact (decided.2 c₁ v c₂ (alike.trans near) ran).alike alike
    | letIn var bound body location =>
        refine ⟨parts_ih bound (by simp [parts]) decided.1, fun c₁ v c₂ near => ?_⟩
        exact decided.2 c₁ v c₂ (alike.trans near)
    | forIn var source body type location =>
        refine ⟨parts_ih source (by simp [parts]) decided.1, fun c₁ s c₂ c₃ item c₄ near started read yields last => ?_⟩
        exact decided.2 c₁ s c₂ c₃ item c₄ (alike.trans near) started read yields (alike.trans last)
    | delete target location => exact parts_ih target (by simp [parts]) decided
    | _ => trivial

/-- The predicates of a filter. -/
def predicates : Expr → List Expr
  | filter _ predicates _ _ => predicates
  | _ => []

/-- Every predicate that is no position decides numbers as evaluation does in every context. -/
def DecidedAnywhere (numbers : Numbers) (calls : Calls) (e : Expr) : Prop :=
  e.Every fun s => ∀ p ∈ s.predicates, p.position? = none → ∀ c, p.Decides numbers calls c

theorem decidedOn_anywhere {v : Value} (decides : ∀ e ∈ es, e.position? = none → ∀ c, e.Decides numbers calls c)
    (parts : ∀ e ∈ es, ∀ visible c, e.Decided numbers calls visible c) :
    DecidedOn numbers calls es visible v c := by
  induction es generalizing v with
  | nil => trivial
  | cons e rest rest_ih =>
      refine ⟨fun d item position size _ _ => ⟨parts e List.mem_cons_self _ _, fun none => ?_⟩,
        fun d left d₁ _ _ => rest_ih (fun other member => decides other (List.mem_cons_of_mem _ member))
          fun other member => parts other (List.mem_cons_of_mem _ member)⟩
      exact decides e List.mem_cons_self none _

theorem DecidedAnywhere.decided (anywhere : e.DecidedAnywhere numbers calls) (visible : Visible) (c : Context) :
    e.Decided numbers calls visible c := by
  induction e using byParts generalizing visible c with
  | step e parts_ih =>
    -- Every part is decided with all contexts, whichever ones evaluation leads to.
    have part : ∀ s ∈ e.parts, ∀ visible c, s.Decided numbers calls visible c := fun s member =>
      parts_ih s member (anywhere.part member)
    have all : ∀ visible c, DecidedAll numbers calls e.parts visible c := fun visible c =>
      decidedAll_iff.2 fun s member => part s member visible c
    cases e with
    | list operands type location => exact all visible c
    | call f arguments type location => exact all visible c
    | range a b type location => exact ⟨part a (by simp [parts]) _ _, part b (by simp [parts]) _ _⟩
    | arithmetic op a b type location => exact ⟨part a (by simp [parts]) _ _, part b (by simp [parts]) _ _⟩
    | comparison op a b type location => exact ⟨part a (by simp [parts]) _ _, part b (by simp [parts]) _ _⟩
    | conditional test yes no type location =>
        refine ⟨part test (by simp [parts]) _ _, fun _ held _ _ _ => ?_⟩
        cases held with
        | true => exact part yes (by simp [parts]) _ _
        | false => exact part no (by simp [parts]) _ _
    | filter base predicates type location =>
        refine ⟨part base (by simp [parts]) _ _, fun _ _ _ _ _ => decidedOn_anywhere anywhere.here fun e member => ?_⟩
        exact part e (List.mem_cons_of_mem _ member)
    | letIn var bound body location =>
        exact ⟨part bound (by simp [parts]) _ _, fun _ _ _ _ _ => part body (by simp [parts]) _ _⟩
    | forIn var source body type location =>
        exact ⟨part source (by simp [parts]) _ _,
          fun _ _ _ _ _ _ _ _ _ _ _ => part body (by simp [parts]) _ _⟩
    | delete target location => exact part target (by simp [parts]) _ _
    | _ => trivial

/-- Where numbers are decided as evaluation does nothing is asked. -/
theorem strict_decided (e : Expr) (visible : Visible) (c : Context) : e.Decided .strict calls visible c := by
  have anywhere : e.DecidedAnywhere .strict calls :=
    every_of_forall (fun _ _ _ _ _ a _ _ _ => Numbers.strict_rules a) e
  exact anywhere.decided visible c

end Expr

end QueryKernel
