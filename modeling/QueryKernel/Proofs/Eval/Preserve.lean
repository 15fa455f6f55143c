import QueryKernel.Proofs.Eval.Calls

/-!
# Evaluation keeps contexts sound

Every way to evaluate a tree built with the constructors keeps contexts sound and gives items of the
class of its literals, at every depth of nested calls.
-/

namespace QueryKernel

variable {declared : Declarations} {good : Item → Prop} {calls : Calls}

open Modes (KeepsSound)

theorem Expr.modesAll_eq_map (operands : List Expr) :
    modesAll calls operands = operands.map (modes calls) := by
  induction operands with
  | nil => rfl
  | cons e rest rest_ih => rw [modesAll, rest_ih, List.map_cons]

theorem Expr.modesAll_sound {operands : List Expr}
    (sound : ∀ e ∈ operands, (e.modes calls).Sound declared good) :
    ∀ m ∈ Expr.modesAll calls operands, m.Sound declared good := by
  rw [modesAll_eq_map]
  intro m member
  obtain ⟨e, inside, rfl⟩ := List.mem_map.1 member
  exact sound e inside

/-! ## Operands one after another -/

theorem Stream.pullAll_sound {starts : List (Eval Stream)}
    (keeps : ∀ start ∈ starts, KeepsSound declared good
      (Stream.Sound (Context.Sound declared good) good) start)
    {c : Context} (inv : c.Sound declared good) :
    (pullAll starts c).Sound (Context.Sound declared good) good := by
  induction starts generalizing c with
  | nil => exact inv
  | cons start rest rest_ih =>
      simp only [pullAll]
      cases started : start c with
      | mk result c₁ =>
          cases result with
          | error e => trivial
          | ok stream =>
              obtain ⟨inv₁, pulls⟩ := keeps start List.mem_cons_self c stream c₁ inv started
              exact (pulls c₁ inv₁).andThen fun c' inv' =>
                rest_ih (fun other member => keeps other (List.mem_cons_of_mem _ member)) inv'

theorem Modes.pullAll_keeps {operands : List Modes} (sound : ∀ m ∈ operands, m.Sound declared good) :
    KeepsSound declared good (Stream.Sound (Context.Sound declared good) good)
      (pure ⟨none, Stream.pullAll (operands.map (·.stream))⟩) := by
  refine .pure fun c inv => Stream.pullAll_sound (fun start member => ?_) inv
  obtain ⟨m, inside, rfl⟩ := List.mem_map.1 member
  exact (sound m inside).stream

/-! ## Parts of meanings -/

/-- What a loop does for an item. -/
def enterLoop (var : Variable) (location : Option Location) (body : Modes) (item : Item) : Eval Stream := do
  Eval.checkStop
  bindVariable var location (.one item)
  body.stream

/-- What is done before the body of a `let` clause. -/
def bindTo (var : Variable) (location : Option Location) (bound : Modes) : Eval Unit := do
  bindVariable var location (← bound.value)

/-- The value of a call of a function item. -/
def dynamicValue (calls : Calls) (callee : Modes) (arguments : List Modes) (location : Option Location) :
    Eval Value := do
  let item ← callee.toCallee
  let values ← Eval.foldList (fun (values : List Value) (m : Modes) => do
    return (← m.value) :: values) [] arguments
  (invoke calls item values.reverse).locate location

/-- One of two computations. -/
def choose {A : Type} (test : Modes) (yes no : Eval A) : Eval A := do
  if ← test.boolean then yes else no

theorem enterLoop_sound {var : Variable} (agrees : var.Agrees declared) (location : Option Location)
    {body : Modes} (sound : body.Sound declared good) :
    Step.BodySound (Context.Sound declared good) good (enterLoop var location body) := by
  intro item holds
  refine Eval.Keeps.checkStop.bind fun _ _ => ?_
  exact (bindVariable_keeps agrees (ValueOf.good_one holds)).bind fun _ _ => sound.stream

theorem bindTo_keeps {var : Variable} (agrees : var.Agrees declared) (location : Option Location)
    {bound : Modes} (sound : bound.Sound declared good) :
    KeepsSound declared good (fun _ => True) (bindTo var location bound) :=
  sound.value.bind fun _ holds => bindVariable_keeps agrees holds

theorem choose_keeps {A : Type} {P : A → Prop} {test : Modes} {yes no : Eval A}
    (sound : test.Sound declared good) (positive : KeepsSound declared good P yes)
    (negative : KeepsSound declared good P no) : KeepsSound declared good P (choose test yes no) := by
  refine sound.boolean.bind fun held _ => ?_
  cases held with
  | true => exact positive
  | false => exact negative

theorem dynamicValue_keeps (closed : ItemClass good) (callsSound : calls.Sound declared good)
    {callee : Modes} (function : callee.Sound declared good) {arguments : List Modes}
    (parts : ∀ m ∈ arguments, m.Sound declared good) (location : Option Location) :
    KeepsSound declared good (ValueOf.Good good) (dynamicValue calls callee arguments location) := by
  refine function.toCallee.bind fun item given => ?_
  refine .bind (P := fun values => ∀ v ∈ values, ValueOf.Good good v)
    (.foldList (fun v member => by cases member) ?_) fun values all => ?_
  · intro values all m member
    refine (parts m member).value.bind fun v holds => .pure fun w among => ?_
    rcases List.mem_cons.1 among with rfl | old
    · exact holds
    · exact all w old
  · exact (invoke_keeps closed callsSound given fun v member => all v (List.mem_reverse.1 member)).locate

/-! ## Built-in functions -/

/-- An argument, or the empty sequence in its place. -/
theorem argument_sound (closed : ItemClass good) {arguments : List Modes}
    (sound : ∀ m ∈ arguments, m.Sound declared good) (i : Nat) :
    (arguments.getD i (.ofLiteral .empty)).Sound declared good := by
  rw [List.getD_eq_getElem?_getD]
  cases found : arguments[i]? with
  | none => exact Modes.Sound.ofLiteral closed ValueOf.good_empty
  | some m => exact sound m (List.mem_of_getElem? found)

theorem BuiltIn.modes_sound (closed : ItemClass good) (callsSound : calls.Sound declared good)
    (f : BuiltIn) {location : Option Location} {atMostOne : Bool} {size? : Option Nat}
    {arguments : List Modes} (sound : ∀ m ∈ arguments, m.Sound declared good) :
    (f.modes calls location atMostOne size? arguments).Sound declared good := by
  have first : (arguments.headD (.ofLiteral .empty)).Sound declared good := by
    cases arguments with
    | nil => exact Modes.Sound.ofLiteral closed ValueOf.good_empty
    | cons m rest => exact sound m List.mem_cons_self
  have second := argument_sound closed sound 1
  -- Functions give an item or a value, from which the other one is derived.
  have ofItem : ∀ item : Eval (Option Item),
      KeepsSound declared good (fun found => ∀ a, found = some a → good a) item →
      (Modes.ofValueAndItem location atMostOne (do return valueOfOption (← item)) item).Sound
        declared good :=
    fun item keeps => .ofValueAndItem closed
      (keeps.bind fun found holds => .pure (good_valueOfOption holds)) keeps
  have ofValue : ∀ value : Eval Value, KeepsSound declared good (ValueOf.Good good) value →
      (Modes.ofValueAndItem location atMostOne value
        (do singleOfValue location (← value))).Sound declared good :=
    fun value keeps => .ofValueAndItem closed keeps
      (keeps.bind fun v holds => Modes.singleOfValue_keeps holds)
  cases f with
  | head =>
      refine ofItem _ (first.stream.bind fun s pulls => ?_)
      refine (Modes.stream_next_keeps pulls).bind fun found given => .pure fun a same => ?_
      cases found with
      | none => cases same
      | some pair =>
          cases same
          exact (given pair.1 pair.2 rfl).1
  | count =>
      refine ofItem _ ((countOf_keeps closed first.stream).map fun item holds a same => ?_)
      cases same
      exact holds
  | sum =>
      refine ofItem _ (sumOf_keeps closed first.value fun other same => ?_)
      cases found : arguments[1]? with
      | none =>
          rw [found] at same
          cases same
      | some m =>
          rw [found] at same
          cases same
          exact (sound m (List.mem_of_getElem? found)).item
  | avg => exact ofItem _ (averageOf_keeps closed first.value)
  | reverse =>
      refine ofValue _ (first.value.bind fun v holds => .pure ?_)
      exact holds.1.reverse_holds.allGood fun item member => holds.2 item (List.mem_reverse.1 member)
  | error => exact ofItem _ ((raisedError_keeps sound).bind fun _ _ => .fail)
  | foldLeft1 =>
      refine ofValue _ (first.value.bind fun v holds => second.toCallee.bind fun callee given => ?_)
      exact foldLeft1_keeps closed callsSound holds given
  | sortWith =>
      refine ofValue _ (first.value.bind fun v holds => second.toCallee.bind fun callee given => ?_)
      exact (sortWith_keeps closed callsSound holds given).mono fun _ both => both.1

/-! ## Expressions -/

theorem checkedDocuments_keeps (closed : ItemClass good) (source : DataSource) :
    KeepsSound declared good (ValueOf.Good good) (do
      Eval.checkStop
      pure (.collect (source.documents.map .node))) := by
  refine Eval.Keeps.checkStop.bind fun _ _ => .pure ?_
  refine (ValueOf.collect_holds _).allGood fun item member => ?_
  obtain ⟨n, _, rfl⟩ := List.mem_map.1 member
  exact closed.node n

theorem predicates_sound {predicates : List Expr}
    (sound : ∀ e ∈ predicates, (e.modes calls).Sound declared good) :
    ∀ p ∈ (predicates.map (·.position?)).zip (Expr.modesAll calls predicates),
      p.2.Sound declared good := by
  rintro ⟨position, m⟩ member
  exact Expr.modesAll_sound sound m (List.of_mem_zip member).2

theorem mapped_atom {E A : Type} {x : Except E A} {f : A → Atom} {item : Item}
    (made : x.map (fun a => ItemOf.atom (f a)) = .ok item) : ∃ z, item = .atom z := by
  cases x with
  | ok a =>
      cases made
      exact ⟨f a, rfl⟩
  | error e => cases made

theorem Expr.modes_sound (closed : ItemClass good) (callsSound : calls.Sound declared good)
    {e : Expr} (built : e.Built declared good) : (e.modes calls).Sound declared good := by
  induction built with
  | literal value => exact .ofLiteral closed value
  | @list operands location _ parts_ih =>
      have parts := modesAll_sound parts_ih
      exact (Modes.Sound.ofStream closed (Modes.pullAll_keeps parts)).withValue (listValue_keeps parts)
  | range _ _ low_ih high_ih => exact .ofValue closed (rangeValue_keeps closed low_ih high_ih)
  | arithmetic _ _ left_ih right_ih =>
      exact .ofItem closed (onAtoms_keeps closed left_ih right_ih fun x y item => mapped_atom)
  | comparison _ _ left_ih right_ih =>
      refine .ofItem closed (onAtoms_keeps closed left_ih right_ih fun x y item made => ?_)
      exact mapped_atom (f := fun order => .boolean (_ : Bool)) made
  | conditional _ _ _ condition_ih positive_ih negative_ih =>
      exact ⟨choose_keeps condition_ih positive_ih.stream negative_ih.stream,
        choose_keeps condition_ih positive_ih.item negative_ih.item,
        choose_keeps condition_ih positive_ih.value negative_ih.value,
        choose_keeps condition_ih positive_ih.booleanItem negative_ih.booleanItem⟩
  | contextValue => exact .ofValue closed contextValue_keeps
  | root => exact .ofValue closed (rootValue_keeps closed)
  | @documents source location => exact .ofValue closed (checkedDocuments_keeps closed source)
  | filter _ _ input_ih conditions_ih =>
      refine .ofValue closed (filterValue_keeps input_ih.value fun v holds => ?_)
      exact (passAll_keeps (predicates_sound conditions_ih) holds).mono
        fun w selects => selects.keepsGood holds
  | @letIn var bound body location agrees _ _ value_ih result_ih =>
      have entered := fun {A : Type} {P : A → Prop} {x : Eval A} (keeps : KeepsSound declared good P x) =>
        (bindTo_keeps agrees location value_ih).bind fun _ _ => keeps
      exact (Modes.Sound.ofStreamAndItem closed (entered result_ih.stream) (entered result_ih.item)).withValue
        (entered result_ih.value)
  | @forIn var source body location agrees _ _ input_ih result_ih =>
      refine .ofStream closed (input_ih.stream.bind fun s pulls => .pure fun c inv => ?_)
      exact (pulls c inv).forEach (enterLoop_sound agrees location result_ih)
  | varRef agrees => exact .ofValue closed (variableValue_keeps.mono fun _ both => both.1)
  | @call f arguments location takes _ parts_ih =>
      exact BuiltIn.modes_sound closed callsSound f (modesAll_sound parts_ih)
  | deferred => exact .ofValueAndItem closed .fail .fail
  | @dynamicCall callee arguments location _ _ function_ih parts_ih =>
      have value := dynamicValue_keeps closed callsSound function_ih (modesAll_sound parts_ih) location
      exact .ofValueAndItem closed value (value.bind fun v holds => Modes.singleOfValue_keeps holds)
  | @delete target location _ input_ih =>
      refine .ofValue closed ((deleteAll_keeps input_ih).mono fun v same => ?_)
      rw [same]
      exact ValueOf.good_empty

/-! ## Nested calls -/

/-- Parameters have no declared type, so binding them does not break any declaration. -/
theorem bindParameters_sound {pairs : List (Variable × Value)}
    (undeclared : ∀ pair ∈ pairs, declared pair.1.id = none) (all : ∀ pair ∈ pairs, pair.2.Good good)
    {c : Context} (inv : c.Sound declared good) :
    (pairs.foldl (fun c (var, value) => c.bind var value) c).Sound declared good := by
  induction pairs generalizing c with
  | nil => exact inv
  | cons pair rest rest_ih =>
      refine rest_ih (fun other member => undeclared other (List.mem_cons_of_mem _ member))
        (fun other member => all other (List.mem_cons_of_mem _ member)) ?_
      refine inv.bind (all pair List.mem_cons_self) fun type found => ?_
      rw [undeclared pair List.mem_cons_self] at found
      cases found

theorem callsWithin_sound (closed : ClosedClass declared good) (depth : Nat) :
    (callsWithin depth).Sound declared good := by
  induction depth with
  | zero => exact fun _ _ _ _ => .fail
  | succ depth depth_ih =>
      intro f arguments holds given
      refine .bind (P := fun _ => True) (.change (fun c inv => ?_) trivial)
        fun _ _ => (Expr.modes_sound closed.toItemClass depth_ih (closed.body f holds)).value
      refine bindParameters_sound (fun pair member => ?_) (fun pair member => ?_) inv
      · exact closed.parameter f holds pair.1 (List.of_mem_zip member).1
      · exact given pair.2 (List.of_mem_zip member).2

end QueryKernel
