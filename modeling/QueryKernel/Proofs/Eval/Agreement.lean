import QueryKernel.Proofs.Eval.Faithful

/-!
# All ways to evaluate agree

Every tree built with the constructors can be evaluated in each way, with the same outcome: the value
has the items of the stream, and at most one item and the item with the boolean value are what those
items say.

The induction carries soundness, agreement and bounds together: a node hides its parts from each other, but not
from its own static type.
-/

namespace QueryKernel

variable {declared : Declarations} {good : Item → Prop} {calls : Calls} {c : Context}

open Modes (KeepsSound Faithful)

/-! ## Expressions from their parts -/

theorem list_faithful {operands : List Expr} {location : Option Location}
    (sound : ((Expr.listOf operands location).modes calls).Sound declared good)
    (parts : ∀ e ∈ operands, (e.modes calls).Faithful declared good e.staticType) :
    ((Expr.listOf operands location).modes calls).Faithful declared good (Expr.concatType operands) := by
  have admits : (Expr.concatType operands).Admits (StreamAtMost declared good
      (pure ⟨none, Stream.pullAll ((Expr.modesAll calls operands).map (·.stream))⟩)) := by
    -- What the types say of the operands is added up, whichever bound that is.
    have bounded : ∀ bound : Expr → Nat,
        (∀ e ∈ operands, StreamAtMost declared good (e.modes calls).stream (bound e)) →
        StreamAtMost declared good
          (pure ⟨none, Stream.pullAll ((Expr.modesAll calls operands).map (·.stream))⟩)
          (sumOver bound operands) := by
      intro bound few
      refine .pure fun c inv => ?_
      rw [Expr.modesAll_eq_map, List.map_map]
      exact pullAll_atMost (fun e member => (parts e member).sound.stream) few inv
    refine Expr.concatType_admits (fun known => bounded _ fun e member => ?_)
      (fun few => bounded _ fun e member => ?_)
    · exact (parts e member).admits.exact _ (known e member)
    · have part : e.sequenceType.most ≤ sumOver (·.sequenceType.most) operands :=
        le_sumOver (fun e : Expr => e.sequenceType.most) member
      exact (parts e member).admits.most (Nat.lt_of_le_of_lt part few)
  refine ⟨sound, fun c inv => ?_, admits⟩
  have agree : ∀ m ∈ Expr.modesAll calls operands,
      m.Sound declared good ∧ ∀ c, c.Sound declared good → m.AgreeAt c := by
    rw [Expr.modesAll_eq_map]
    intro m member
    obtain ⟨e, inside, rfl⟩ := List.mem_map.1 member
    exact ⟨(parts e inside).sound, (parts e inside).agree⟩
  exact .ofList (fun m member => (agree m member).1) (fun m member => (agree m member).2) inv
    (Modes.fewAt_of_admits sound.stream admits inv)

theorem choose_eq {A : Type} (test yes no : Modes) (way : Modes → Eval A) :
    choose test (way yes) (way no) = test.boolean >>= fun held => way (if held then yes else no) := by
  refine congrArg (test.boolean >>= ·) (funext fun held => ?_)
  cases held <;> rfl

/-- A conditional is its condition followed by one of its branches, in every way to evaluate. -/
theorem modes_conditional (test yes no : Expr) (type : StaticType) (location : Option Location) :
    (Expr.conditional test yes no type location).modes calls =
      Modes.after (test.modes calls).boolean
        (fun held => if held then yes.modes calls else no.modes calls) location := by
  simp only [Expr.modes, Modes.after, Modes.mk.injEq, true_and]
  exact ⟨choose_eq _ _ _ Modes.stream, choose_eq _ _ _ Modes.item, choose_eq _ _ _ Modes.value,
    choose_eq _ _ _ Modes.booleanItem⟩

theorem conditional_faithful {test yes no : Expr} {location : Option Location}
    (sound : ((Expr.conditionalOf test yes no location).modes calls).Sound declared good)
    (condition : (test.modes calls).Sound declared good)
    (positive : (yes.modes calls).Faithful declared good yes.staticType)
    (negative : (no.modes calls).Faithful declared good no.staticType) :
    ((Expr.conditionalOf test yes no location).modes calls).Faithful declared good
      (Expr.branchType yes no) := by
  refine ⟨sound, fun c inv => ?_, ?_⟩
  · rw [Expr.conditionalOf, modes_conditional]
    refine .after fun held c₁ ran => ?_
    obtain ⟨inv₁, _⟩ := condition.boolean c held c₁ inv ran
    cases held with
    | true => exact positive.agree c₁ inv₁
    | false => exact negative.agree c₁ inv₁
  · refine Expr.branchType_admits positive.admits negative.admits fun m n few few' => ?_
    refine choose_keeps condition (few.mono (Nat.le_max_left m n)) (few'.mono (Nat.le_max_right m n))

theorem let_faithful {var : Variable} (agrees : var.Agrees declared) {bound body : Expr}
    {location : Option Location}
    (sound : ((Expr.letIn var bound body location).modes calls).Sound declared good)
    (value : (bound.modes calls).Sound declared good)
    (result : (body.modes calls).Faithful declared good body.staticType) :
    ((Expr.letIn var bound body location).modes calls).Faithful declared good body.staticType := by
  have entered := bindTo_keeps agrees location value
  have admits : body.staticType.Admits (StreamAtMost declared good
      (bindTo var location (bound.modes calls) >>= fun _ => (body.modes calls).stream)) :=
    result.admits.mono fun n few => entered.bind fun _ _ => few
  refine ⟨sound, fun c inv => ?_, admits⟩
  have agree : ∀ u c₁, bindTo var location (bound.modes calls) c = (.ok u, c₁) →
      (body.modes calls).AgreeAt c₁ := fun u c₁ ran => result.agree c₁ (entered c u c₁ inv ran).1
  exact Modes.AgreeAt.ofStreamAndItem (Modes.ItemAgreesAt.after fun u c₁ ran => (agree u c₁ ran).item)
    (Modes.fewAt_of_admits sound.stream admits inv)
    (fun items c' drained fits => Modes.value_after agree drained fits)
    (fun v c' => Modes.drain_after fun u c₁ ran => (agree u c₁ ran).drain_of_value)

theorem for_faithful {var : Variable} (agrees : var.Agrees declared) {source body : Expr}
    {location : Option Location}
    (sound : ((Expr.forOf var source body location).modes calls).Sound declared good)
    (input : (source.modes calls).Faithful declared good source.staticType)
    (result : (body.modes calls).Faithful declared good body.staticType) :
    ((Expr.forOf var source body location).modes calls).Faithful declared good
      (Expr.loopType source body) := by
  have bodySound := enterLoop_sound agrees location result.sound
  have admits : (Expr.loopType source body).Admits (StreamAtMost declared good
      (loopStream (source.modes calls).stream (enterLoop var location (body.modes calls)))) := by
    refine Expr.loopType_admits input.admits result.admits (fun m n few few' => ?_)
      loopStream_noInput (fun none => ?_)
    · exact loopStream_atMost input.sound.stream bodySound few (enterLoop_atMost agrees few')
    · exact loopStream_atMost_zero input.sound.stream bodySound (enterLoop_atMost agrees none)
  exact ⟨sound, fun c inv => .ofStreamAndItem' sound.stream (fun _ inv => inv.runs) inv .ofStream
    (Modes.fewAt_of_admits sound.stream admits inv), admits⟩

/-! ## Calls -/

theorem onePart {f : BuiltIn} {arguments : List Expr} (takes : f.takes arguments.length = true)
    (needed : 0 < f.leastArguments) : ∃ first rest, arguments = first :: rest := by
  cases arguments with
  | nil =>
      simp only [BuiltIn.takes, List.length_nil, Bool.and_eq_true, decide_eq_true_eq] at takes
      omega
  | cons first rest => exact ⟨first, rest, rfl⟩

theorem call_faithful (closed : ItemClass good) (callsSound : calls.Sound declared good)
    {f : BuiltIn} {arguments : List Expr} {location : Option Location}
    (takes : f.takes arguments.length = true)
    (parts : ∀ e ∈ arguments, (e.modes calls).Faithful declared good e.staticType) :
    ((Expr.call f arguments (f.resultType arguments) location).modes calls).Faithful declared good
      (f.resultType arguments) := by
  have each := Expr.modesAll_sound fun e member => (parts e member).sound
  have whole : ((Expr.call f arguments (f.resultType arguments) location).modes calls).Sound
      declared good := BuiltIn.modes_sound closed callsSound f each
  -- Functions that give one item at most are known by it, the others by their value.
  cases f with
  | head =>
      obtain ⟨first, rest, rfl⟩ := onePart takes (by decide)
      have input := parts first List.mem_cons_self
      exact .ofItemAndValue closed whole.item (BuiltIn.head_resultType_admits input.admits
        (first_atMost_zero input.sound.stream) (valueOfOption_atMost whole.item))
  | count =>
      exact .ofItemAndValue closed whole.item
        (BuiltIn.single_resultType_admits (.inl rfl) arguments (valueOfOption_atMost whole.item))
  | sum =>
      exact .ofItemAndValue closed whole.item
        (BuiltIn.single_resultType_admits (.inr (.inl rfl)) arguments (valueOfOption_atMost whole.item))
  | avg =>
      exact .ofItemAndValue closed whole.item
        (BuiltIn.single_resultType_admits (.inr (.inr rfl)) arguments (valueOfOption_atMost whole.item))
  | reverse =>
      obtain ⟨first, rest, rfl⟩ := onePart takes (by decide)
      have input := parts first List.mem_cons_self
      exact .ofValueAndSingle closed whole.value (input.value_admits.mono fun n few => reverse_atMost few)
  | error => exact .ofItemAndValue closed whole.item (.many rfl)
  | foldLeft1 => exact .ofValueAndSingle closed whole.value (.many rfl)
  | sortWith =>
      obtain ⟨first, rest, rfl⟩ := onePart takes (by decide)
      have input := parts first List.mem_cons_self
      exact .ofValueAndSingle closed whole.value (input.value_admits.mono fun n few =>
        sortWith_atMost closed callsSound few (argument_sound closed each 1).toCallee)

/-! ## All expressions -/

theorem deferred_faithful (closed : ItemClass good) {error : Error} {t : StaticType}
    {location : Option Location} :
    ((Expr.deferred error t location).modes calls).Faithful declared good t := by
  have fails : ∀ n, ValueAtMost declared good (Eval.fail (.error error)) n := fun n => .fail
  refine ⟨.ofValueAndItem closed .fail .fail, fun c inv => .ofValueAndItem ⟨?_, ?_⟩ ⟨?_, ?_⟩,
    ⟨fun n _ => (fails n).stream, fun _ => (fails _).stream⟩⟩
  · exact fun v c' ran => (Eval.fail_ok_iff.1 ran).elim
  · exact fun _ v c' ran => (Eval.fail_ok_iff.1 ran).elim
  · intro items c' drained
    obtain ⟨v, ran, _⟩ := (drainStream_ofValue fun v c' ran => (Eval.fail_ok_iff.1 ran).elim).1 drained
    exact (Eval.fail_ok_iff.1 ran).elim
  · exact fun found c' ran => (Eval.fail_ok_iff.1 ran).elim

theorem filter_faithful (closed : ItemClass good) {base : Expr} {predicates : List Expr}
    {location : Option Location}
    (sound : KeepsSound declared good (ValueOf.Good good) (filterValue (base.modes calls)
      ((predicates.map (·.position?)).zip (Expr.modesAll calls predicates))))
    (input : (base.modes calls).Faithful declared good base.staticType)
    (conditions : ∀ e ∈ predicates, (e.modes calls).Sound declared good) :
    ((Expr.filterOf base predicates location).modes calls).Faithful declared good
      (Expr.filterType base predicates) := by
  have each := predicates_sound conditions
  refine .ofValue closed sound (Expr.filterType_admits input.value_admits (filterValue_atMost each)
    (filterValue_atMost each) fun selected => ?_)
  refine filterValue_positional each input.sound ?_
  obtain ⟨e, member, positional⟩ := List.any_eq_true.1 selected
  refine ⟨(e.position?, e.modes calls), ?_, positional⟩
  rw [Expr.modesAll_eq_map, List.zip_map', List.mem_map]
  exact ⟨e, member, rfl⟩

theorem varRef_faithful (closed : ItemClass good) {var : Variable}
    (agrees : var.Agrees declared) {location : Option Location} :
    ((Expr.varRefOf var location).modes calls).Faithful declared good
      (.ofSequenceType (var.declared.getD .anything)) := by
  refine .ofValue closed (variableValue_keeps.mono fun _ both => both.1) ?_
  cases found : var.declared with
  | none => exact .many rfl
  | some type =>
      exact .ofSequenceType fun few => variableValue_atMost (agrees.symm.trans found) few

theorem Expr.modes_faithful (closed : ItemClass good) (callsSound : calls.Sound declared good)
    {e : Expr} (built : e.Built declared good) :
    (e.modes calls).Faithful declared good e.staticType := by
  have sound : ∀ {e : Expr}, e.Built declared good → (e.modes calls).Sound declared good :=
    Expr.modes_sound closed callsSound
  induction built with
  | @literal v value =>
      refine ⟨sound (.literal value), fun c inv => .ofLiteral value.1.shaped, .sized ?_⟩
      refine .pure fun c inv => ?_
      have few : ((Stream.ofValue v).pull c).AtMost (Context.Sound declared good) v.items.length :=
        Stream.ofValue_atMost value.1 c inv
      rwa [← value.1.size_eq] at few
  | list parts parts_ih => exact list_faithful (sound (.list parts)) parts_ih
  | range low high _ _ =>
      exact .ofValue closed (rangeValue_keeps closed (sound low) (sound high)) (.many rfl)
  | @arithmetic op a b _ left right _ _ =>
      exact .ofItem closed (onAtoms_keeps closed (sound left) (sound right)
        fun x y item => mapped_atom) (Expr.arithmeticType_admits op a b (Nat.le_refl 1))
  | @comparison op a b _ left right _ _ =>
      exact .ofItem closed (onAtoms_keeps closed (sound left) (sound right)
        fun x y item => mapped_atom (f := fun order => .boolean (op.holds order)))
        (Expr.comparisonType_admits a b (Nat.le_refl 1))
  | conditional condition positive negative _ positive_ih negative_ih =>
      exact conditional_faithful (sound (.conditional condition positive negative)) (sound condition)
        positive_ih negative_ih
  | contextValue => exact .ofValue closed contextValue_keeps (.many rfl)
  | root => exact .ofValue closed (t := .ofSequenceType (.many .anyNode)) (rootValue_keeps closed) (.many rfl)
  | @documents source _ =>
      exact .ofValue closed (t := .ofSequenceType (.many (.node .document)))
        (checkedDocuments_keeps closed source) (.many rfl)
  | @filter base predicates location input conditions input_ih _ =>
      have whole : ((Expr.filterOf base predicates location).modes calls).Sound declared good :=
        sound (.filter input conditions)
      exact filter_faithful closed whole.value input_ih
        fun e member => sound (conditions e member)
  | letIn agrees value result _ result_ih =>
      exact let_faithful agrees (sound (.letIn agrees value result)) (sound value) result_ih
  | forIn agrees input result input_ih result_ih =>
      exact for_faithful agrees (sound (.forIn agrees input result)) input_ih result_ih
  | varRef agrees => exact varRef_faithful closed agrees
  | call takes _ parts_ih => exact call_faithful closed callsSound takes parts_ih
  | deferred => exact deferred_faithful closed
  | dynamicCall function parts _ _ =>
      exact .ofValueAndSingle closed (dynamicValue_keeps closed callsSound (sound function)
        (Expr.modesAll_sound fun e member => sound (parts e member)) _) (.many rfl)
  | @delete target _ input _ =>
      refine .ofValue closed (t := .ofSequenceType .empty) ?_
        (.ofSequenceType fun _ => deleteAll_atMost (sound input))
      exact Eval.Keeps.mono (deleteAll_atMost (sound input)) fun _ given => given.1

/-! ## Agreement -/

/-- The ways to evaluate an expression agree, where function items respect declared types.  A value has the items
of the stream, a stream that can be drained has a value as long as a 64-bit size can tell their number, and the
other two ways answer according to these items. -/
theorem ways_to_evaluate_agree (closed : ItemClass good) (callsSound : calls.Sound declared good) {e : Expr}
    (built : e.Built declared good) (sound : c.Sound declared good) :
    let m := e.modes calls
    (∀ v c', m.value c = (.ok v, c') → m.drain c = (.ok v.items, c')) ∧
    ∀ items c', m.drain c = (.ok items, c') →
      (items.length ≤ maxSize → ∃ v, m.value c = (.ok v, c') ∧ v.items = items) ∧
      SingleOf items c' (m.item c) ∧ BooleanOf items (m.booleanItem c).1 := by
  intro m
  have agree : m.AgreeAt c := (Expr.modes_faithful closed callsSound built).agree c sound
  refine ⟨agree.drain_of_value, fun items c' drained => ⟨?_, ?_, ?_⟩⟩
  · exact agree.value_of_drain items c' drained
  · exact agree.item_of_drain items c' drained
  · exact agree.boolean_of_drain items c' drained

/-- A loop over two numbers that repeats each of them. -/
theorem ways_to_evaluate_agree_repeated :
    let x : Variable := ⟨0, "x", none⟩
    let e : Expr := .forOf x (.listOf [.literal (.integer 1), .literal (.integer 3)] none)
      (.listOf [.varRefOf x none, .varRefOf x none] none) none
    let c := Context.initial {}
    (∃ v, (e.run.value c).1 = .ok v ∧ v.items = [.integer 1, .integer 1, .integer 3, .integer 3]) ∧
      ∃ failure, (e.run.booleanItem c).1 = .error failure ∧
        failure.IsOfMany .booleanOfMany (.integer 1) (.integer 1) [.integer 3, .integer 3] := by
  intro x e c
  let declared : Declarations := fun _ => none
  have good : ∀ i, (ValueOf.integer i : Value).Good (ItemOf.WellFormed declared) :=
    fun i => ValueOf.good_one ((closedClass_wellFormed declared).atom _)
  have built : e.Built declared (ItemOf.WellFormed declared) := by
    refine .forIn rfl (.list fun part member => ?_) (.list fun part member => ?_)
    · simp only [List.mem_cons, List.not_mem_nil, or_false] at member
      rcases member with rfl | rfl
      · exact .literal (good 1)
      · exact .literal (good 3)
    · simp only [List.mem_cons, List.not_mem_nil, or_false, or_self] at member
      rw [member]
      exact .varRef rfl
  have sound : c.Sound declared (ItemOf.WellFormed declared) := sound_of_unbound rfl rfl rfl
  have closed := closedClass_wellFormed declared
  obtain ⟨_, answers⟩ := ways_to_evaluate_agree closed.toItemClass (callsWithin_sound closed callDepth) built sound
  obtain ⟨valued, _, boolean⟩ := answers
    [.integer 1, .integer 1, .integer 3, .integer 3] _ rfl
  obtain ⟨v, ran, same⟩ := valued (by decide)
  refine ⟨⟨v, ?_, same⟩, boolean⟩
  exact congrArg Prod.fst ran

/-- `(.((1, 2)), for $y in 7 return $x)`, where `$x` has been declared to hold one integer. -/
def setAndLoop : Expr :=
  .listOf [.dynamicCallOf (.contextValueOf none) [.literal (.ofItems [.integer 1, .integer 2])] none,
    .forOf ⟨1, "y", none⟩ (.literal (.integer 7)) (.varRefOf ⟨0, "x", some (.one .integer)⟩ none) none] none

/-- A function item that binds a declared variable breaks the agreement: the loop is taken to give one item as long
as its value is asked for, and gives two where it is drained. -/
theorem setAndLoop_disagrees :
    let x : Variable := ⟨0, "x", some (.one .integer)⟩
    let declared : Declarations := fun id => if id = 0 then x.declared else none
    let f : FunctionItem Expr := ⟨0, none, [⟨0, "p", none⟩], .literal .empty, .anyFunction⟩
    let c := ({ Context.initial {} with focus := .ofValue (some (.one (.function f))) }).bind x (.integer 5)
    setAndLoop.Built declared (fun _ => True) ∧ c.Sound declared (fun _ => True) ∧
      (setAndLoop.run.drain c).1 = .ok [.integer 1, .integer 2] ∧
      ∃ failure, (setAndLoop.run.value c).1 = .error failure ∧
        failure.IsOfMany .manyItems (.integer 1) (.integer 2) [] := by
  intro x declared f c
  have one : ∀ item, (ValueOf.one item : Value).Good fun _ => True := fun _ => ValueOf.good_one trivial
  have two : (ValueOf.ofItems [.integer 1, .integer 2] : Value).Good fun _ => True :=
    (ValueOf.ofItems_holds _).allGood fun _ _ => trivial
  have called : ({ Context.initial {} with focus := .ofValue (some (.one (.function f))) } : Context).Sound
      declared fun _ => True := by
    refine ⟨fun v found => ?_, fun _ _ none => (by cases none), fun _ _ none => (by cases none), rfl⟩
    cases found
    exact one _
  refine ⟨.list (Expr.forall_pair ?_ ?_), called.bind (one _) fun type found => ?_, rfl, _, rfl,
    isOfMany_manyItems _ _ [] none⟩
  · exact .dynamicCall .contextValue (List.forall_mem_singleton.2 (.literal two))
  · exact .forIn rfl (.literal (one _)) (.varRef rfl)
  · cases found
    rfl

end QueryKernel
