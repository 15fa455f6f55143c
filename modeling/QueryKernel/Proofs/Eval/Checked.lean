import QueryKernel.Proofs.Eval.Bounds
import QueryKernel.Proofs.Eval.Meets
import QueryKernel.Proofs.Expr.Parts

/-!
# Checked operands

Ways to evaluate that check each result against a condition, and the meaning of an expression from ways to
evaluate its operands.  An evaluation in which all results of operands meet their conditions is one in
which checking them changes nothing.

A stream is checked while it is read, so that a reader who stops early has only seen items with which a result
that meets the condition can begin.
-/

namespace QueryKernel

variable {A : Type} {D : List Item → Prop}

/-- The failure of a check. -/
def checkFailure : Failure := .error (.of (.stopped "A result does not conform."))

/-! ## Streams -/

open Classical in
/-- The stream that fails instead of giving an item or an end that does not conform. -/
noncomputable def Step.check : Step → (List Item → Prop) → Step
  | done c, D => if D [] then done c else failed c checkFailure
  | failed c e, _ => failed c e
  | yield c item left rest, D =>
      if ∃ others, D (item :: others) then
        yield c item left fun c' => (rest c').check fun items => D (item :: items)
      else failed c checkFailure

/-- The stream with each step checked. -/
noncomputable def Stream.check (D : List Item → Prop) (s : Stream) : Stream :=
  ⟨s.left, fun c => (s.pull c).check D⟩

namespace Step

theorem check_conforms (s : Step) (D : List Item → Prop) : (s.check D).Conforms D := by
  induction s generalizing D with
  | done c =>
      unfold Step.check
      split
      · next meets => exact meets
      · trivial
  | failed c e => trivial
  | yield c item left rest rest_ih =>
      unfold Step.check
      split
      · next possible => exact ⟨possible, fun c' => rest_ih c' _⟩
      · trivial

theorem Conforms.check_eq {s : Step} (conforms : s.Conforms D) : s.check D = s := by
  induction s generalizing D with
  | done c => exact if_pos conforms
  | failed c e => rfl
  | yield c item left rest rest_ih =>
      obtain ⟨possible, next⟩ := conforms
      unfold Step.check
      rw [if_pos possible]
      exact congrArg _ (funext fun c' => rest_ih c' (next c'))

end Step

namespace Stream

theorem check_conforms (s : Stream) (D : List Item → Prop) : (s.check D).Conforms D :=
  fun c => (s.pull c).check_conforms D

theorem Conforms.check_eq {s : Stream} (conforms : s.Conforms D) : s.check D = s :=
  congrArg (Stream.mk s.left) (funext fun c => (conforms c).check_eq)

end Stream

/-! ## Computations and ways to evaluate -/

open Classical in
/-- The computation that fails instead of giving a result that does not satisfy the condition. -/
noncomputable def Eval.demand (P : A → Prop) (x : Eval A) : Eval A := do
  let a ← x
  if P a then pure a else fail checkFailure

theorem Eval.demand_returns (P : A → Prop) (x : Eval A) : (x.demand P).Returns P := by
  refine .bind x.returns_any fun a _ => ?_
  split
  · next holds => exact .pure holds
  · exact .fail

/-- What is done with results that does nothing to them does nothing. -/
theorem Eval.Returns.bind_eq {P : A → Prop} {x : Eval A} (returns : x.Returns P) {f : A → Eval A}
    (same : ∀ a, P a → f a = pure a) : x >>= f = x := by
  funext c
  rw [Eval.bind_apply]
  cases ran : x c with
  | mk result c' =>
      cases result with
      | ok a =>
          dsimp only
          rw [same a (returns.of ran)]
          rfl
      | error e => rfl

theorem Eval.Returns.demand_eq {P : A → Prop} {x : Eval A} (returns : x.Returns P) : x.demand P = x :=
  returns.bind_eq fun _ holds => if_pos holds

namespace Modes

/-- Streams, items and values conform in whatever context evaluation starts. -/
structure Conforms (D : List Item → Prop) (m : Modes) : Prop where
  stream : m.stream.Returns (Stream.Conforms D)
  item : m.item.Returns fun found => D found.toList
  value : m.value.Returns fun v => v.Shaped ∧ D v.items

/-- The ways to evaluate in which each result is checked.  The item that has the boolean value of a result
need not be one of its items, and is left as it is. -/
noncomputable def checked (D : List Item → Prop) (m : Modes) : Modes :=
  { m with
    stream := do return (← m.stream).check D
    item := m.item.demand fun found => D found.toList
    value := m.value.demand fun v => v.Shaped ∧ D v.items }

variable {m : Modes}

theorem Conforms.meets (conforms : m.Conforms D) : m.Meets D :=
  ⟨Eval.Keeps.mono conforms.stream fun _ steps c => (steps c).meets, conforms.item, conforms.value⟩

theorem checked_conforms (m : Modes) (D : List Item → Prop) : (m.checked D).Conforms D where
  stream := .bind m.stream.returns_any fun s _ => .pure (s.check_conforms D)
  item := m.item.demand_returns _
  value := m.value.demand_returns _

/-- Where all results conform, checking them does nothing. -/
theorem Conforms.checked_eq (conforms : m.Conforms D) : m.checked D = m := by
  have stream : (do return (← m.stream).check D : Eval Stream) = m.stream :=
    conforms.stream.bind_eq fun s steps => congrArg pure steps.check_eq
  unfold checked
  rw [stream, conforms.item.demand_eq, conforms.value.demand_eq]

theorem ofLiteral_conforms {v : Value} (shaped : v.Shaped) (given : D v.items) :
    (Modes.ofLiteral v).Conforms D where
  stream := .pure (Stream.ofValue_conforms shaped given)
  item := singleOfValue_returns (.pure ⟨shaped, given⟩)
  value := .pure ⟨shaped, given⟩

end Modes

/-! ## Expressions from their operands -/

namespace Expr

/-- The ways to evaluate an expression, given ways to evaluate its operands. -/
def modesOver (calls : Calls) (part : Expr → Modes) : Expr → Modes
  | literal v => .ofLiteral v
  | list operands type location =>
      { Modes.ofStream location type.sequenceType.isAtMostOne
          (pure ⟨none, Stream.pullAll ((operands.map part).map (·.stream))⟩) with
        value := listValue (operands.map part) }
  | range first last type location =>
      .ofValue location type.sequenceType.isAtMostOne (rangeValue (part first) (part last) location)
  | arithmetic op a b type location =>
      .ofItem location type.sequenceType.isAtMostOne
        (onAtoms (part a) (part b) location fun x y => (op.apply x y).map .atom)
  | comparison op a b type location =>
      .ofItem location type.sequenceType.isAtMostOne
        (onAtoms (part a) (part b) location
          fun x y => (x.compare? y).map fun order => .boolean (op.holds order))
  | conditional test yes no _ location =>
      { location := location
        stream := choose (part test) (part yes).stream (part no).stream
        item := choose (part test) (part yes).item (part no).item
        value := choose (part test) (part yes).value (part no).value
        booleanItem := choose (part test) (part yes).booleanItem (part no).booleanItem }
  | contextValue type location =>
      .ofValue location type.sequenceType.isAtMostOne
        (QueryKernel.contextValue "context value" location)
  | root location => .ofValue location false (rootValue location)
  | documents source location =>
      .ofValue location false do
        Eval.checkStop
        pure (.collect (source.documents.map .node))
  | filter base predicates type location =>
      .ofValue location type.sequenceType.isAtMostOne
        (filterValue (part base) ((predicates.map (·.position?)).zip (predicates.map part)))
  | letIn var bound body location =>
      { Modes.ofStreamAndItem location body.isAtMostOne
          (do bindTo var location (part bound); (part body).stream)
          (do bindTo var location (part bound); (part body).item) with
        value := do bindTo var location (part bound); (part body).value }
  | forIn var source body type location =>
      .ofStream location type.sequenceType.isAtMostOne
        (loopStream (part source).stream (enterLoop var location (part body)))
  | varRef var type location =>
      .ofValue location type.sequenceType.isAtMostOne (variableValue var location)
  | call f arguments type location =>
      f.modes calls location type.sequenceType.isAtMostOne ((arguments.head?).bind (·.size?))
        (arguments.map part)
  | deferred error _ location =>
      .ofValueAndItem location true (Eval.fail (.error error)) (Eval.fail (.error error))
  | dynamicCall callee arguments type location =>
      let value := dynamicValue calls (part callee) (arguments.map part) location
      .ofValueAndItem location type.sequenceType.isAtMostOne value
        (do singleOfValue location (← value))
  | delete target location => .ofValue location true (deleteAll (part target) location)

theorem modes_eq_modesOver (calls : Calls) (e : Expr) : e.modes calls = e.modesOver calls (modes calls) := by
  cases e <;> simp only [modes, modesOver, modesAll_eq_map] <;> rfl

/-- Ways to evaluate an expression that depend on its operands only. -/
theorem modesOver_congr {calls : Calls} {part other : Expr → Modes} {e : Expr}
    (same : ∀ s ∈ e.parts, part s = other s) : e.modesOver calls part = e.modesOver calls other := by
  cases e with
  | literal | contextValue | root | documents | varRef | deferred => rfl
  | list operands | call _ operands =>
      have each : operands.map part = operands.map other := List.map_congr_left same
      simp only [modesOver, each]
  | range a b | comparison _ a b =>
      simp only [modesOver, same a (by simp [parts]), same b (by simp [parts])]
  | arithmetic _ a b => simp only [modesOver, same a (by simp [parts]), same b (by simp [parts])]
  | letIn _ a b => simp only [modesOver, same a (by simp [parts]), same b (by simp [parts])]
  | forIn _ a b => simp only [modesOver, same a (by simp [parts]), same b (by simp [parts])]
  | conditional test yes no =>
      simp only [modesOver, same test (by simp [parts]), same yes (by simp [parts]),
        same no (by simp [parts])]
  | filter base predicates =>
      obtain ⟨input, conditions⟩ := List.forall_mem_cons.1 same
      simp only [modesOver, input, List.map_congr_left conditions]
  | dynamicCall callee arguments =>
      obtain ⟨function, others⟩ := List.forall_mem_cons.1 same
      simp only [modesOver, function, List.map_congr_left others]
  | delete target => simp only [modesOver, same target (by simp [parts])]

end Expr

end QueryKernel
