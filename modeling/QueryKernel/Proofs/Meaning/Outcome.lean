import QueryKernel.Proofs.Meaning.Operation

/-!
# Possible outcomes

A meaning of expressions without errors and laziness: which sequences an expression may yield and which
updates it records on the way.  Evaluation that succeeds agrees with every possible outcome, and
compilation adds none.

A parameter decides numbers in predicates.  A predicate that always fails may be replaced by a number, so that
an outcome of the replacement has to be one of the predicate too; only where numbers are decided freely is that
so.

## Definitions

* `Env` is what an expression is evaluated against.
* `Expr.outcomes` are the possible outcomes of an expression.
* `Numbers.strict` decides numbers as evaluation does, `Numbers.free` decides nothing.
-/

namespace QueryKernel

/-- What an expression is evaluated against. -/
structure Env where
  focus : Sequence
  root : Node → Node
  values : Nat → Sequence

namespace Env

/-- A variable set to a sequence. -/
def set (env : Env) (id : Nat) (s : Sequence) : Env :=
  { env with values := fun other => if other = id then s else env.values other }

/-- One item of a filter in focus. -/
def focusOn (env : Env) (item : Item) : Env := { env with focus := .one item }

theorem set_same (env : Env) (id : Nat) (s : Sequence) : (env.set id s).values id = s := if_pos rfl

theorem set_other (env : Env) {id other : Nat} (s : Sequence) (different : other ≠ id) :
    (env.set id s).values other = env.values other := if_neg different

end Env

/-- Which decisions about a number in a predicate at a position are possible. -/
abbrev Numbers := Atom → Nat → Bool → Prop

/-- A number holds at its position. -/
def Numbers.strict : Numbers := fun a position held => held = numberHolds a position

/-- Numbers may hold or not. -/
def Numbers.free : Numbers := fun _ _ _ => True

/-- Whether a predicate with some result may hold for an item at a position. -/
def MayHold (numbers : Numbers) (items : List Item) (position : Nat) (held : Bool) : Prop :=
  match deciding items with
  | some (.atom a) => if a.isNumeric then numbers a position held else held = (ItemOf.atom a : Item).truth
  | some item => held = item.truth
  | none => held = false

/-- Sequences with the updates recorded for them. -/
abbrev Outcomes := Sequence → List PendingUpdate → Prop

/-- The outcomes for some items one after another, put together. -/
def Outcomes.forEach (outcome : Item → List Item → List PendingUpdate → Prop) :
    List Item → List Item → List PendingUpdate → Prop
  | [], items, updates => items = [] ∧ updates = []
  | item :: rest, items, updates =>
      ∃ first firstUpdates others otherUpdates, outcome item first firstUpdates ∧
        forEach outcome rest others otherUpdates ∧ items = first ++ others ∧
        updates = firstUpdates ++ otherUpdates

namespace Expr

mutual

/-- The possible outcomes of an expression.  Operands must not record updates. -/
def outcomes (numbers : Numbers) : Expr → Env → Sequence → List PendingUpdate → Prop
  | literal v, _, s, updates => s.From v.items v.isRange ∧ updates = []
  | list operands _ _, env, s, updates =>
      ∃ items, outcomesAll numbers operands env items updates ∧ s.From items false
  | range first last _ _, env, s, updates =>
      ∃ a b, outcomes numbers first env a [] ∧ outcomes numbers last env b [] ∧
        s.From (rangeItems a.items b.items) (decide (2 ≤ (rangeItems a.items b.items).length)) ∧ updates = []
  | arithmetic op a b _ _, env, s, updates =>
      ∃ x y, outcomes numbers a env x [] ∧ outcomes numbers b env y [] ∧
        s.From (operate (fun x y => (op.apply x y).map .atom) x.items y.items) false ∧ updates = []
  | comparison op a b _ _, env, s, updates =>
      ∃ x y, outcomes numbers a env x [] ∧ outcomes numbers b env y [] ∧
        s.From (operate (fun x y => (x.compare? y).map fun order => .boolean (op.holds order))
          x.items y.items) false ∧ updates = []
  | conditional test yes no _ _, env, s, updates =>
      ∃ t, outcomes numbers test env t [] ∧
        ((truth t.items = true ∧ outcomes numbers yes env s updates) ∨
          (truth t.items = false ∧ outcomes numbers no env s updates))
  | contextValue _ _, env, s, updates => s.From env.focus.items env.focus.compact ∧ updates = []
  | root _, env, s, updates =>
      s.From (((rootsOf env.root [] env.focus.items).getD []).map .node) false ∧ updates = []
  | documents source _, _, s, updates => s.From (source.documents.map .node) false ∧ updates = []
  | filter base predicates _ _, env, s, updates =>
      ∃ b items, outcomes numbers base env b [] ∧ passes numbers predicates env b.items items ∧
        s.From items (predicates.isEmpty && b.compact) ∧ updates = []
  | letIn var bound body _, env, s, updates =>
      ∃ v, outcomes numbers bound env v [] ∧ outcomes numbers body (env.set var.id v) s updates
  | forIn var source body _ _, env, s, updates =>
      ∃ v items, outcomes numbers source env v [] ∧
        Outcomes.forEach (fun item items updates =>
          ∃ s, outcomes numbers body (env.set var.id (.one item)) s updates ∧ s.items = items)
          v.items items updates ∧ s.From items false
  | varRef var _ _, env, s, updates =>
      s.From (env.values var.id).items (env.values var.id).compact ∧ updates = []
  | call f arguments _ _, env, s, updates =>
      ∃ given, outcomesEach numbers arguments env given ∧ s.From (f.result given) false ∧ updates = []
  | deferred error type _, _, s, updates => s.From (error.result type) false ∧ updates = []
  | dynamicCall .., _, _, _ => False
  | delete target _, env, s, updates =>
      ∃ t, outcomes numbers target env t [] ∧ s.From [] false ∧ updates = deletions t.items

/-- The possible outcomes of some expressions one after another, put together. -/
def outcomesAll (numbers : Numbers) : List Expr → Env → List Item → List PendingUpdate → Prop
  | [], _, items, updates => items = [] ∧ updates = []
  | e :: rest, env, items, updates =>
      ∃ s firstUpdates others otherUpdates, outcomes numbers e env s firstUpdates ∧
        outcomesAll numbers rest env others otherUpdates ∧ items = s.items ++ others ∧
        updates = firstUpdates ++ otherUpdates

/-- Possible results of arguments. -/
def outcomesEach (numbers : Numbers) : List Expr → Env → List Sequence → Prop
  | [], _, given => given = []
  | e :: rest, env, given =>
      ∃ s others, outcomes numbers e env s [] ∧ outcomesEach numbers rest env others ∧
        given = s :: others

/-- The items that may pass some predicates, one after another. -/
def passes (numbers : Numbers) : List Expr → Env → List Item → List Item → Prop
  | [], _, items, chosen => chosen = items
  | e :: rest, env, items, chosen =>
      ∃ passing, Passes e.position? (fun item position held => ∃ s,
          outcomes numbers e (env.focusOn item) s [] ∧ MayHold numbers s.items position held)
        items passing ∧ passes numbers rest env passing chosen

end

theorem passes_sublist {numbers : Numbers} {es : List Expr} {env : Env} {items chosen : List Item}
    (passed : passes numbers es env items chosen) : chosen.Sublist items := by
  induction es generalizing items with
  | nil =>
      obtain rfl : chosen = items := passed
      exact List.Sublist.refl _
  | cons e rest rest_ih =>
      obtain ⟨passing, now, later⟩ := passed
      exact (rest_ih later).trans now.sublist

end Expr

end QueryKernel
