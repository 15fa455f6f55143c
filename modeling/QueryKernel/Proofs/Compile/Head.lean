import QueryKernel.Proofs.Compile.Copying
import QueryKernel.Proofs.Compile.Counted
import QueryKernel.Proofs.Compile.Narrowed
import QueryKernel.Proofs.Compile.Preserved
import QueryKernel.Proofs.Eval.SingleAtom

/-!
# Compiled calls of head

What becomes of a call for the first item, and when it still gives that item.

The call is lazy and what stands in its place is not.  A sequence of at most one item is evaluated to its end, and so
is the first operand of a sequence constructor if it is one item.  So the answer may be lost to an error that the
call would not have met, but it is never replaced by another one.
-/

namespace QueryKernel

/-! ## Evaluation -/

/-- The first item of a stream. -/
def firstOf (m : Modes) : Eval (Option Item) := do
  let s ← m.stream
  return (← s.next).map Prod.fst

/-- The first item of all items is the first item. -/
theorem firstOf_of_drain {m : Modes} {c c' : Context} {items : List Item}
    (drained : drainStream m.stream c = (.ok items, c')) :
    ∃ c'', firstOf m c = (.ok items.head?, c'') := by
  obtain ⟨s, c₁, started, pulled⟩ := drainStream_ok_iff.1 drained
  cases items with
  | nil =>
      exact ⟨c', Eval.bind_ok_iff.2 ⟨s, c₁, started, Eval.bind_ok_iff.2
        ⟨none, c', Stream.next_of_drain_nil pulled, rfl⟩⟩⟩
  | cons item others =>
      obtain ⟨s', c₂, asked, _⟩ := Stream.next_of_drain_cons pulled
      exact ⟨c₂, Eval.bind_ok_iff.2 ⟨s, c₁, started, Eval.bind_ok_iff.2 ⟨some (item, s'), c₂, asked, rfl⟩⟩⟩

namespace Expr

variable {calls : Calls} {e x first : Expr} {rest : List Expr} {type : StaticType} {location : Option Location}
  {visible : Visible} {compiled : Bool} {c c' : Context}

theorem head_value_of_drain (type : StaticType) (location : Option Location) {items : List Item}
    (drained : drainStream (x.modes calls).stream c = (.ok items, c')) :
    ∃ c'', ((call .head [x] type location).modes calls).value c = (.ok (valueOfOption items.head?), c'') := by
  obtain ⟨c'', asked⟩ := firstOf_of_drain drained
  exact ⟨c'', Eval.bind_ok_iff.2 ⟨_, c'', asked, rfl⟩⟩

/-- A sequence constructor has a value only if its first operand has one. -/
theorem first_value_of_list {v : Value}
    (valued : ((list (first :: rest) type location).modes calls).value c = (.ok v, c')) :
    ∃ w c₁, (first.modes calls).value c = (.ok w, c₁) := by
  obtain ⟨_, _, collected, -⟩ := Eval.bind_ok_iff.1 valued
  rw [modesAll, Eval.foldList_cons] at collected
  obtain ⟨_, _, added, -⟩ := Eval.bind_ok_iff.1 collected
  obtain ⟨_, _, runs, given⟩ := Eval.bind_ok_iff.1 added
  obtain rfl := (Eval.checkStop_ok_iff.1 runs).2
  obtain ⟨w, c₁, ran, -⟩ := Eval.bind_ok_iff.1 given
  exact ⟨w, c₁, ran⟩

/-- What has a value has one with any other type. -/
theorem narrow_succeeds {known : SequenceType} {v : Value} (few : x.isAtMostOne = true)
    (valued : (x.modes calls).value c = (.ok v, c')) :
    ∃ w c'', ((x.narrow known).modes calls).value c = (.ok w, c'') := by
  cases literal : x.isLiteral with
  | false =>
      rw [narrow_modes calls few literal]
      exact ⟨v, c', valued⟩
  | true =>
      cases x with
      | literal u => exact ⟨_, c, rfl⟩
      | _ => cases literal

/-! ## Compilation -/

open Compile

/-- The forms that a call for the first item takes. -/
inductive ReducedHead (n : Nat) (location : Option Location) (x : Expr) : Expr → Prop where
  | computed {v : Value} (literal : x = .literal v) :
      ReducedHead n location x (narrow (BuiltIn.head.resultType [x]).sequenceType
        (.literal (valueOfOption v.items.head?)))
  | whole (few : x.isAtMostOne = true) :
      ReducedHead n location x (x.narrow (BuiltIn.head.resultType [x]).sequenceType)
  | operand {first : Expr} {rest : List Expr} (operands : x.operands? = some (first :: rest))
      (one : first.sequenceType.isOne = true) :
      ReducedHead n location x
        ((first.copy ⟨n, [], []⟩).1.narrow (BuiltIn.head.resultType [x]).sequenceType)
  | kept : ReducedHead n location x (call .head [x] (BuiltIn.head.resultType [x]) location)

theorem reduceHead_ok {k k' : CompileContext}
    (reduced : reduceHead (call .head [x] (BuiltIn.head.resultType [x]) location) x k = (.ok e, k')) :
    ReducedHead k.context.nextVariable location x e := by
  have replaced : ∀ {after : Expr} {k₁ k₂ : CompileContext},
      replaceWith (call .head [x] (BuiltIn.head.resultType [x]) location) after k₁ = (.ok e, k₂) →
      e = after.narrow (BuiltIn.head.resultType [x]).sequenceType := by
    intro after k₁ k₂ ran
    obtain ⟨_, _, _, made⟩ := bind_ok_iff.1 ran
    exact (pure_ok_iff.1 made).1.symm
  unfold reduceHead at reduced
  split at reduced
  · next few =>
      rw [replaced reduced]
      exact .whole few
  · have stays : (pure (call .head [x] (BuiltIn.head.resultType [x]) location) : Compile Expr) k = (.ok e, k') →
        ReducedHead k.context.nextVariable location x e := by
      intro ran
      rw [← (pure_ok_iff.1 ran).1]
      exact .kept
    -- All is left as it is, unless the first of several operands is known to give one item.
    cases operands : x.operands? with
    | none =>
        rw [operands] at reduced
        exact stays reduced
    | some parts =>
        rw [operands] at reduced
        cases parts with
        | nil => exact stays reduced
        | cons first rest =>
            dsimp only at reduced
            split at reduced
            · next one =>
                obtain ⟨_, _, copied, replacing⟩ := bind_ok_iff.1 reduced
                cases copied
                rw [replaced replacing]
                exact .operand operands one
            · exact stays reduced

theorem reduceCall_head {again : Expr → Compile Expr} {k k' : CompileContext}
    (shaped : ∀ v, x = .literal v → v.Shaped)
    (reduced : reduceCall (callsWithin callDepth) again .head [x] location k = (.ok e, k')) :
    ReducedHead k.context.nextVariable location x e := by
  obtain ⟨_, k₁, checked, counting⟩ := bind_ok_iff.1 reduced
  obtain ⟨-, rfl⟩ := requireNoneUpdates_ok checked
  obtain ⟨options, k₂, asked, deciding⟩ := bind_ok_iff.1 counting
  obtain ⟨-, rfl⟩ := options_ok_iff.1 asked
  have deciding : (if (literalItems? [x]).any (maxSize < ·) then broken .sizeOverflow
      else if (literalItems? [x]).any (· ≤ options.largestPrecomputed) then
        precompute (callsWithin callDepth) (call .head [x] (BuiltIn.head.resultType [x]) location)
      else reduceHead (call .head [x] (BuiltIn.head.resultType [x]) location) x : Compile Expr) k₂ =
      (.ok e, k') := deciding
  split at deciding
  · cases deciding
  · split at deciding
    · next few =>
        obtain ⟨v, rfl⟩ : ∃ v, x = .literal v := by
          cases x with
          | literal v => exact ⟨v, rfl⟩
          | _ => cases few
        -- The value computed in advance is that of the stream, of which the head is the first item.
        have agree : ((Expr.literal v).modes (callsWithin callDepth)).AgreeAt k₂.context :=
          Modes.AgreeAt.ofLiteral (shaped v rfl)
        obtain ⟨context, ran⟩ := head_value_of_drain (BuiltIn.head.resultType [.literal v]) location
          (agree.drain_of_value v k₂.context rfl)
        obtain ⟨k₃, computed⟩ := precompute_ok ran
        rw [computed] at deciding
        cases deciding
        exact .computed rfl
    · exact reduceHead_ok deciding

/-! ## What compiled calls give -/

/-- There are no function items in a tree that is placed. -/
theorem Placed.bears (placed : e.Placed compiled visible) : e.Every (Bears (Kind.shaped ItemOf.IsPlain) True) := by
  induction placed with
  | literal simple => exact .node ⟨simple.shaped, simple.plain⟩ fun _ none => by cases none
  | contextValue | root | documents | varRef | deferred => exact .node trivial fun _ none => by cases none
  | list _ parts_ih => exact .node trivial parts_ih
  | call _ _ _ _ parts_ih => exact .node trivial parts_ih
  | range _ _ _ low_ih high_ih => exact .node trivial (forall_pair low_ih high_ih)
  | arithmetic _ _ _ left_ih right_ih => exact .node trivial (forall_pair left_ih right_ih)
  | comparison _ _ _ left_ih right_ih => exact .node trivial (forall_pair left_ih right_ih)
  | conditional _ _ _ _ condition_ih positive_ih negative_ih =>
      exact .node trivial (List.forall_mem_cons.2 ⟨condition_ih, forall_pair positive_ih negative_ih⟩)
  | filter _ _ _ input_ih conditions_ih =>
      exact .node trivial (List.forall_mem_cons.2 ⟨input_ih, conditions_ih⟩)
  | letIn _ _ _ _ value_ih result_ih => exact .node trivial (forall_pair value_ih result_ih)
  | forIn _ _ _ _ input_ih result_ih => exact .node trivial (forall_pair input_ih result_ih)
  | delete _ _ input_ih => exact .node trivial (List.forall_mem_singleton.2 input_ih)

/-- A part of a tree that is placed may be copied. -/
theorem Placed.leftAlone {n : Nat} (placed : e.Placed compiled visible) (distinct : e.Distinct visible)
    (bounded : ∀ id, visible (.variable id) → id < n) :
    e.LeftAlone (fun _ => False) (fun _ => False) ⟨n, [], []⟩ where
  distinct := distinct.nodup
  apart := fun id member => ⟨fun free => distinct.apart id member (placed.sees id free), or_self_iff.1⟩
  taken := fun id free => bounded id (placed.sees id free)
  ownTaken := fun _ none => (or_self_iff.1 none).elim
  unmoved := fun _ none => none.elim

/-- No plain item is called. -/
theorem limited_plain (calls : Calls) : calls.Limited ItemOf.IsPlain (fun _ => False) fun _ => False where
  nested :=
    { lawful := Kind.shaped_lawful _
      atom := fun _ => trivial
      node := fun _ => trivial
      entry := fun _ _ _ plain => plain.elim
      member := fun _ _ _ plain => plain.elim }
  stay := fun _ _ _ plain => plain.elim
  kept := fun _ _ _ plain => plain.elim
  alike := fun _ _ _ _ plain => plain.elim

/-- Where the argument has a value, what stands in place of the call has one. -/
theorem ReducedHead.succeeds {n : Nat} {v : Value} (reduced : ReducedHead n location x e)
    (placed : x.Placed compiled visible)
    (distinct : x.Distinct visible) (bounded : ∀ id, visible (.variable id) → id < n)
    (holds : c.Holds ItemOf.IsPlain) (valued : x.run.value c = (.ok v, c')) :
    ∃ w c'', e.run.value c = (.ok w, c'') := by
  have limited := limited_plain (callsWithin callDepth)
  cases reduced with
  | computed => exact ⟨_, c, rfl⟩
  | whole few => exact narrow_succeeds few valued
  | @operand first rest operands one =>
      obtain ⟨type, place, rfl⟩ : ∃ type place, x = list (first :: rest) type place := by
        cases x with
        | list => exact ⟨_, _, by cases operands; rfl⟩
        | _ => cases operands
      have firstPlaced : first.Placed compiled visible := by
        cases placed with
        | list parts => exact parts first List.mem_cons_self
      obtain ⟨w, c₁, ran⟩ := first_value_of_list valued
      have alone := firstPlaced.leftAlone (distinct.part (by simp [parts])) bounded
      have same := copy_sameAnswer limited firstPlaced.bears alone holds holds
        ⟨rfl, rfl, rfl, fun _ _ => rfl, fun _ => False.elim⟩
      rw [ran] at same
      have few : (first.copy ⟨n, [], []⟩).1.isAtMostOne = true := by
        rw [isAtMostOne, sequenceType, copy_staticType, ← sequenceType, SequenceType.isAtMostOne, beq_iff_eq.1 one]
        rfl
      cases copied : ((first.copy ⟨n, [], []⟩).1.modes (callsWithin callDepth)).value c with
      | mk result c₂ =>
          rw [copied] at same
          cases same
          exact narrow_succeeds few copied
  | kept =>
      have inShape : ∀ v, (Kind.shaped ItemOf.IsPlain).value v → v.Shaped := fun v given => given.1
      have follows : x.run.FollowsValue c := modes_followValue inShape limited.nested
        ((Kind.shaped ItemOf.IsPlain).carried_bound _) limited.stay placed.bears holds.focus ⟨rfl, holds.bound⟩
      obtain ⟨c'', asked⟩ := head_value_of_drain (BuiltIn.head.resultType [x]) location
        (follows.drain_of_value v c' valued)
      exact ⟨_, c'', asked⟩

/-- A compiled call for the first item never gives another answer than the call itself, and it gives that answer
wherever the compiled argument can be evaluated to its end. -/
theorem compiled_head_gives_first {declared : Declarations} {e' : Expr} {start d c₂ : Context} {r : Value}
    (built : x.Built declared ItemOf.IsPlain)
    (own : (call .head [x] (BuiltIn.head.resultType [x]) location).OwnsVariables c) (runs : c.Runs)
    (sound : start.Sound declared ItemOf.IsPlain) (allots : x.Allots (Env.ofContext declared start))
    (counts : (call .head [x] (BuiltIn.head.resultType [x]) location).CountsNowhereElse
      (c.outside (call .head [x] (BuiltIn.head.resultType [x]) location)) start)
    (made : (call .head [x] (BuiltIn.head.resultType [x]) location).compile c = (.ok e', c₂))
    (source : (call .head [x] (BuiltIn.head.resultType [x]) location).run.value start = (.ok r, d)) :
    (∀ w d', e'.evaluate start = (.ok w, d') → w.items = r.items ∧ d'.updates = d.updates) ∧
      ∀ x' c₁ v d₁, x.compile c = (.ok x', c₁) → x'.evaluate start = (.ok v, d₁) →
        ∃ w d', e'.evaluate start = (.ok w, d') ∧ w.items = r.items := by
  have whole : (call .head [x] (BuiltIn.head.resultType [x]) location).Built declared ItemOf.IsPlain :=
    .call rfl (List.forall_mem_singleton.2 built)
  have same : ∀ w d', e'.evaluate start = (.ok w, d') → w.items = r.items ∧ d'.updates = d.updates :=
    fun w d' target => compiled_agrees whole own runs sound ⟨allots, trivial⟩ counts made source target
  refine ⟨same, fun x' c₁ v d₁ alone valued => ?_⟩
  obtain ⟨compiled, k₁, k₂, alone', again, reduced⟩ := compile_call_ok (by decide) made
  obtain ⟨rfl, rfl⟩ : x' = compiled ∧ c₁ = k₁.context := by
    cases alone.symm.trans alone'
    exact ⟨rfl, rfl⟩
  have argument : x.Placed false (c.outside (call .head [x] (BuiltIn.head.resultType [x]) location)) := by
    cases own.placed with
    | call _ _ parts => exact parts x List.mem_cons_self
  have compilable := (own.compilable runs).part (s := x) (by simp [parts])
  have argumentMade : (x.compile c).1 = .ok x' := congrArg Prod.fst alone
  have left : (x.compile c).2 = k₁.context := congrArg Prod.snd alone
  have optimized : x.optimize (.start c) = (.ok x', (x.optimize (.start c)).2) := Prod.ext argumentMade rfl
  obtain ⟨later, becomes⟩ := optimizeWithin_brings x.loopDepth argument compilable x' _ optimized
  have shaped : ∀ v, x' = .literal v → v.Shaped := by
    rintro v rfl
    exact becomes.placed.simple.shaped
  have bounded : ∀ id, c.outside (call .head [x] (BuiltIn.head.resultType [x]) location) (.variable id) →
      id < k₁.context.nextVariable := fun id seen => left ▸ Nat.lt_of_lt_of_le seen.1 later.next
  have holds : start.startClock.Holds ItemOf.IsPlain :=
    ⟨fun v found => ⟨(sound.focus v found).1.shaped, (sound.focus v found).2⟩,
      fun id v found => ⟨(sound.value id v found).1.shaped, (sound.value id v found).2⟩⟩
  obtain ⟨_, begun, clock, ran⟩ := Eval.bind_ok_iff.1 valued
  cases clock
  obtain ⟨w, d', target⟩ := (reduceCall_head shaped reduced).succeeds becomes.placed (becomes.distinct compilable)
    bounded holds ran
  have evaluated : e'.evaluate start = (.ok w, d') := Eval.bind_ok_iff.2 ⟨(), start.startClock, rfl, target⟩
  exact ⟨w, d', evaluated, (same w d' evaluated).1⟩

end Expr

/-- The first item of what an expression gives. -/
def Expr.heading (e : Expr) : Expr := .call .head [e] (BuiltIn.head.resultType [e]) none

/-- The first of `(1, error())` is found without an error, before and after compilation. -/
theorem head_of_oneAndError :
    ∃ e c d w, oneAndError.heading.compile (.initial {}) = (.ok e, c) ∧
      oneAndError.heading.run.value (.initial {}) = (.ok (.integer 1), d) ∧
      (e.evaluate (.initial {})).1 = .ok w ∧ w.items = [.integer 1] := by
  let declared : Declarations := fun _ => none
  have leaf : ∀ {P : Expr → Prop} {s : Expr}, P s → s.parts = [] → s.Every P := fun here parts =>
    .node here fun p member => absurd (parts ▸ member) List.not_mem_nil
  have built : oneAndError.Built declared ItemOf.IsPlain := .list (List.forall_mem_cons.2
    ⟨.literal (ValueOf.good_one trivial), List.forall_mem_singleton.2 (.call rfl fun _ none => by cases none)⟩)
  have never : ∀ {P : Prop}, false = true → P := fun impossible => absurd impossible Bool.false_ne_true
  have own : oneAndError.heading.OwnsVariables (.initial {}) := by
    refine ⟨.nil, fun _ none => (by cases none), .call rfl rfl (List.forall_mem_singleton.2 (.list ?_)) never⟩
    exact List.forall_mem_cons.2 ⟨.literal ⟨trivial, List.forall_mem_singleton.2 trivial⟩,
      List.forall_mem_singleton.2 (.call rfl rfl (fun _ none => by cases none) never)⟩
  -- There is no predicate at all.
  have counts : oneAndError.heading.CountsNowhereElse (Context.outside (.initial {}) oneAndError.heading)
      (.initial {}) := by
    refine Expr.countsNowhereElse_of_never (.node (fun _ none => by cases none)
      (List.forall_mem_singleton.2 (.node (fun _ none => by cases none) ?_))) _ _
    exact List.forall_mem_cons.2 ⟨leaf (fun _ none => by cases none) rfl,
      List.forall_mem_singleton.2 (leaf (fun _ none => by cases none) rfl)⟩
  obtain ⟨c, made⟩ : ∃ c, oneAndError.heading.compile (.initial {}) = (.ok (.literal (.integer 1)), c) :=
    ⟨_, by with_unfolding_all rfl⟩
  obtain ⟨d, source⟩ : ∃ d, oneAndError.heading.run.value (.initial {}) = (.ok (.integer 1), d) :=
    ⟨_, by with_unfolding_all rfl⟩
  have gives := (Expr.compiled_head_gives_first built own rfl (sound_of_unbound rfl rfl rfl)
    (built.allots (fun _ _ => rfl) _) counts made source).1 _ _ rfl
  exact ⟨_, c, d, _, made, source, rfl, gives.1⟩

/-- `(1, let $x := error() return ())` -/
def oneAndFailingLet : Expr :=
  .listOf [.literal (.integer 1),
    .letIn ⟨0, "x", none⟩ (.call .error [] (BuiltIn.error.resultType []) none) .emptySequence none] none

/-- What has at most one item by its type is evaluated to its end after compilation. -/
theorem head_of_oneAndFailingLet_lost :
    (oneAndFailingLet.heading.run.value (.initial {})).1 = .ok (.integer 1) ∧
      ∃ e, (oneAndFailingLet.heading.compile (.initial {})).1 = .ok e ∧
        ∃ error, (e.evaluate (oneAndFailingLet.heading.compile (.initial {})).2).1 = .error (.error error) ∧
          error.code = ErrorCode.FOER0000.expandedName := by
  exact ⟨by with_unfolding_all rfl, _, by with_unfolding_all rfl, _, by with_unfolding_all rfl,
    by with_unfolding_all rfl⟩

end QueryKernel
