import QueryKernel.Proofs.Eval.Everywhere

/-!
# Evaluation gives the focus back

Whatever way the result of a tree is asked for, and whether it succeeds or fails, the focus afterwards
is the focus before.

The reader of a stream may set the focus between two items, so that there is no one focus that the stream keeps:
each step has to end with the focus with which it was started.  All other ways start and end within one
computation, where a fixed focus is enough.
-/

namespace QueryKernel

/-- Whether it succeeds or fails, the focus afterwards is the focus before. -/
def Eval.KeepsFocus {A : Type} (x : Eval A) : Prop := ∀ c, (x c).2.focus = c.focus

/-- A step that was started under a focus ends under it, and so does each later one under the focus
that it was started under. -/
def Step.KeepsFocus (focus : Focus) : Step → Prop
  | done c => c.focus = focus
  | failed c _ => c.focus = focus
  | yield c _ _ rest => c.focus = focus ∧ ∀ c', (rest c').KeepsFocus c'.focus

/-- After each step the focus is the one before that step. -/
def Stream.KeepsFocus (s : Stream) : Prop := ∀ c, (s.pull c).KeepsFocus c.focus

/-- Calls of function items leave the focus as they found it. -/
def Calls.KeepFocus (calls : Calls) : Prop := ∀ f arguments, (calls f arguments).KeepsFocus

/-- Every way to ask for a result leaves the focus as it found it. -/
structure Modes.KeepsFocus (m : Modes) : Prop where
  stream : m.stream.KeepsFocus
  steps : ∀ c s, (m.stream c).1 = .ok s → s.KeepsFocus
  item : m.item.KeepsFocus
  value : m.value.KeepsFocus
  booleanItem : m.booleanItem.KeepsFocus
  boolean : m.boolean.KeepsFocus
  test : m.test.KeepsFocus
  atomItem : m.atomItem.KeepsFocus
  atomValue : m.atomValue.KeepsFocus

/-! ## One focus after another -/

/-- The focus is kept, whichever it is, and a result satisfies a condition. -/
def Eval.KeepsFocusGiving {A : Type} (P : A → Prop) (x : Eval A) : Prop :=
  ∀ focus, x.Always (At (fun _ => True) focus) P

variable {A B : Type} {P : A → Prop} {Q : B → Prop}

namespace Eval

theorem KeepsFocusGiving.keepsFocus {x : Eval A} (keeps : x.KeepsFocusGiving P) : x.KeepsFocus :=
  fun c => (keeps c.focus c ⟨rfl, trivial⟩).1.focus_eq

theorem KeepsFocusGiving.given {x : Eval A} (keeps : x.KeepsFocusGiving P) {c : Context} {a : A}
    (ran : (x c).1 = .ok a) : P a := (keeps c.focus c ⟨rfl, trivial⟩).2 a ran

theorem KeepsFocus.giving {x : Eval A} (keeps : x.KeepsFocus) : x.KeepsFocusGiving fun _ => True :=
  fun _ c inv => ⟨⟨(keeps c).trans inv.focus_eq, trivial⟩, fun _ _ => trivial⟩

theorem KeepsFocusGiving.pure {a : A} (holds : P a) : KeepsFocusGiving P (pure a) :=
  fun _ => .pure holds

theorem KeepsFocusGiving.bind {x : Eval A} {f : A → Eval B} (first : x.KeepsFocusGiving P)
    (second : ∀ a, P a → (f a).KeepsFocusGiving Q) : (x >>= f).KeepsFocusGiving Q :=
  fun focus => (first focus).bind fun a holds => second a holds focus

end Eval

/-! ## Streams -/

namespace Stream

theorem ofWalk_keepsFocus (n : Nat) (w : Walk Expr) (c : Context) : (ofWalk n w c).KeepsFocus c.focus := by
  induction n generalizing w c with
  | zero => rfl
  | succ n n_ih =>
      simp only [ofWalk]
      split
      · rfl
      · next item w' moved => exact ⟨rfl, fun c' => n_ih w' c'⟩

theorem ofValue_keepsFocus (v : Value) : (Stream.ofValue v).KeepsFocus :=
  fun c => ofWalk_keepsFocus v.size v.walk c

/-- The streams that are read from a value. -/
theorem streamOf_keepsFocus {x : Eval A} (keeps : x.KeepsFocusGiving fun _ => True) (f : A → Value) :
    Eval.KeepsFocusGiving Stream.KeepsFocus (do return .ofValue (f (← x))) :=
  keeps.bind fun a _ => .pure (ofValue_keepsFocus (f a))

end Stream

namespace Step

theorem KeepsFocus.andThen {focus : Focus} {s : Step} {more : Context → Step}
    (first : s.KeepsFocus focus) (second : ∀ c, (more c).KeepsFocus c.focus) :
    (s.andThen more).KeepsFocus focus := by
  induction s generalizing focus with
  | done c =>
      obtain rfl : c.focus = focus := first
      exact second c
  | failed c e => exact first
  | yield c item left rest rest_ih => exact ⟨first.1, fun c' => rest_ih c' (first.2 c')⟩

theorem KeepsFocus.forEach {focus : Focus} {s : Step} {body : Item → Eval Stream}
    (kept : s.KeepsFocus focus)
    (each : ∀ item, (body item).KeepsFocusGiving Stream.KeepsFocus) :
    (s.forEach body).KeepsFocus focus := by
  induction s generalizing focus with
  | done c => exact kept
  | failed c e => exact kept
  | yield c item left rest rest_ih =>
      obtain ⟨here, next⟩ := kept
      -- Whatever the consumer leaves behind, the source goes on from there with the same focus.
      have others : ∀ c', ((rest c').forEach body).KeepsFocus c'.focus :=
        fun c' => rest_ih c' (next c')
      have entered := each item focus
      simp only [Step.forEach]
      split
      · next e c₁ ran => exact (entered.failed ⟨here, trivial⟩ ran).focus_eq
      · next inner c₁ ran =>
          obtain ⟨inside, steps⟩ := entered.ok ⟨here, trivial⟩ ran
          have pulled := steps c₁
          rw [inside.focus_eq] at pulled
          split
          · next c₂ ended =>
              rw [ended] at pulled
              obtain rfl : c₂.focus = focus := pulled
              exact others c₂
          · next c₂ e ended =>
              rw [ended] at pulled
              exact pulled
          · next c₂ item₂ left₂ more given =>
              rw [given] at pulled
              exact ⟨pulled.1, fun c' => (pulled.2 c').andThen others⟩

end Step

theorem Stream.pullAll_keepsFocus {starts : List (Eval Stream)}
    (each : ∀ start ∈ starts, start.KeepsFocusGiving Stream.KeepsFocus) (c : Context) :
    (pullAll starts c).KeepsFocus c.focus := by
  induction starts generalizing c with
  | nil => rfl
  | cons start rest rest_ih =>
      have first := each start List.mem_cons_self c.focus
      have others := rest_ih fun other member => each other (List.mem_cons_of_mem _ member)
      simp only [pullAll]
      split
      · next e c₁ ran => exact (first.failed ⟨rfl, trivial⟩ ran).focus_eq
      · next s c₁ ran =>
          obtain ⟨kept, steps⟩ := first.ok ⟨rfl, trivial⟩ ran
          have pulled := steps c₁
          rw [kept.focus_eq] at pulled
          exact pulled.andThen others

/-! ## Trees -/

variable {calls : Calls}

/-- A condition that holds of all contexts. -/
theorem stable_true : Stable fun _ => True := ⟨fun _ _ _ => trivial, fun _ _ _ _ => trivial, fun _ _ _ => trivial⟩

theorem Calls.KeepFocus.keep (keep : calls.KeepFocus) : calls.Keep fun _ => True :=
  fun f arguments => (keep f arguments).giving

/-- What `Expr.modes_keep` says of the ways that end within one computation. -/
theorem Expr.modes_keepFocus (keep : calls.KeepFocus) (e : Expr) (focus : Focus) :
    (e.modes calls).Always (At (fun _ => True) focus) .any := e.modes_keep stable_true keep.keep focus

theorem Expr.stream_keepsFocus (keep : calls.KeepFocus) (e : Expr) :
    (e.modes calls).stream.KeepsFocusGiving Stream.KeepsFocus := by
  have always := fun e : Expr => e.modes_keepFocus keep
  induction e using byParts with
  | step e parts_ih =>
    -- Streams that are derived from a value or an item keep the focus as these do.
    have values : (e.modes calls).value.KeepsFocusGiving fun _ => True :=
      fun focus => (always e focus).value
    have items : (e.modes calls).item.KeepsFocusGiving fun _ => True :=
      fun focus => (always e focus).item.mono fun _ _ => trivial
    cases e with
    | literal v => exact .pure (Stream.ofValue_keepsFocus v)
    | list operands type location =>
        refine .pure fun c => Stream.pullAll_keepsFocus (fun start member => ?_) c
        rw [modesAll_eq_map, List.map_map] at member
        obtain ⟨s, inside, rfl⟩ := List.mem_map.1 member
        exact parts_ih s inside
    | conditional test yes no type location =>
        intro focus
        exact choose_always (always test focus) (parts_ih yes (by simp [parts]) focus)
          (parts_ih no (by simp [parts]) focus)
    | letIn var bound body location =>
        intro focus
        have binds : (bindTo var location (bound.modes calls)).Always (At (fun _ => True) focus) fun _ => True :=
          (always bound focus).value.bind fun v _ => bindVariable_always fun _ inv => ⟨inv.focus_eq, trivial⟩
        exact binds.bind fun _ _ => parts_ih body (by simp [parts]) focus
    | forIn var source body type location =>
        have enters : ∀ item, (enterLoop var location (body.modes calls) item).KeepsFocusGiving
            Stream.KeepsFocus := fun item focus =>
          Eval.Always.checkStop.bind fun _ _ =>
            (bindVariable_always fun _ inv => ⟨inv.focus_eq, trivial⟩).bind
              fun _ _ => parts_ih body (by simp [parts]) focus
        exact (parts_ih source (by simp [parts])).bind fun s steps =>
          .pure fun c => (steps c).forEach enters
    | arithmetic op a b type location => exact Stream.streamOf_keepsFocus items valueOfOption
    | comparison op a b type location => exact Stream.streamOf_keepsFocus items valueOfOption
    | call f arguments type location =>
        cases f <;> exact Stream.streamOf_keepsFocus values id
    | range | contextValue | root | documents | filter | varRef | deferred | dynamicCall | delete =>
        exact Stream.streamOf_keepsFocus values id

/-- The bodies of function items leave the focus as they found it, however deeply calls are nested. -/
theorem callsWithin_keepFocus (depth : Nat) : (callsWithin depth).KeepFocus :=
  fun f arguments => Eval.KeepsFocusGiving.keepsFocus (callsWithin_keep stable_true depth f arguments)

/-- Every way to evaluate a tree gives the focus back: after success, after a failure at any depth, and
after each step of its stream. -/
theorem Expr.evaluation_keeps_focus (e : Expr) {calls : Calls} (keep : calls.KeepFocus) :
    (e.modes calls).KeepsFocus := by
  have always := e.modes_keepFocus keep
  have stream := e.stream_keepsFocus keep
  have within : ∀ {A : Type} {P : A → Prop} {x : Eval A},
      (∀ focus, x.Always (At (fun _ => True) focus) P) → x.KeepsFocus :=
    fun keeps => Eval.KeepsFocusGiving.keepsFocus keeps
  exact {
    stream := stream.keepsFocus
    steps := fun c s ran => stream.given ran
    item := within fun focus => (always focus).item
    value := within fun focus => (always focus).value
    booleanItem := within fun focus => (always focus).booleanItem
    boolean := within fun focus => (always focus).boolean
    test := within fun focus => (always focus).test
    atomItem := within fun focus => (always focus).atomItem
    atomValue := within fun focus =>
      (always focus).value.bind (Q := fun _ => True) fun _ _ => .ofExcept fun _ _ => trivial }

/-- `(1, 2)[("a", "b")[error()]]` -/
def failInside : Expr :=
  let numbers : Expr := .literal (.ofItems [.integer 1, .integer 2])
  let texts : Expr := .literal (.ofItems [.atom (.string "a"), .atom (.string "b")])
  .filterOf numbers [.filterOf texts [.call .error [] (BuiltIn.error.resultType []) none] none] none

/-- The inner predicate fails under its own focus, and the outer one is put back all the same. -/
theorem failInside_keeps_focus :
    (callsWithin callDepth).KeepFocus ∧ failInside.run.KeepsFocus ∧
      (failInside.run.value (.initial {})).1.toOption.isNone :=
  ⟨callsWithin_keepFocus callDepth,
    Expr.evaluation_keeps_focus failInside (callsWithin_keepFocus callDepth),
    by with_unfolding_all rfl⟩

end QueryKernel
