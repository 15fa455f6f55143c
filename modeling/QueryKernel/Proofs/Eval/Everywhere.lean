import QueryKernel.Proofs.Eval.Bounds
import QueryKernel.Proofs.Eval.Results
import QueryKernel.Proofs.Expr.Parts

/-!
# Evaluation keeps conditions

A condition on the context that no node of a tree breaks is kept by every way to evaluate the tree,
after success and failure and between the items of a stream, and the focus is always put back.
-/

namespace QueryKernel

/-- What a condition on the context and one on the focus have to satisfy: the first says nothing of the
focus, and the second holds of the focus on any item of the kind. -/
structure Rules (R : Context → Prop) (F : Focus → Prop) (k : Kind) : Prop where
  lawful : k.Lawful
  atom : ∀ a, k.item (.atom a)
  node : ∀ n, k.item (.node n)
  setFocus : ∀ c focus, R c → R { c with focus }
  focused : ∀ item position size, k.item item → F ⟨some (.one item), position, size⟩

/-- What is asked of a node: the values that it has or looks up are of the kind, and what it does itself
keeps the condition. -/
def Expr.Observes (R : Context → Prop) (F : Focus → Prop) (k : Kind) (calls : Calls) : Expr → Prop
  | literal v => k.value v
  | contextValue _ _ => ∀ focus v, F focus → focus.value = some v → k.value v
  | varRef var _ _ => ∀ c v, R c → c.bindings.lookup var.id = some v → k.value v
  | letIn var _ _ _ => ∀ c v, R c → k.value v → R (c.bind var v)
  | forIn var _ _ _ _ => ∀ c item, R c → k.item item → R (c.bind var (.one item))
  | delete _ _ => ∀ c n, R c → R { c with updates := c.updates.push (.delete n) }
  | call f _ _ _ => f = .foldLeft1 ∨ f = .sortWith →
      ∀ callee focus, F focus → k.item callee → calls.PairAlways (At R focus) k callee
  | dynamicCall _ _ _ _ => ∀ callee arguments focus, F focus → k.item callee →
      (∀ v ∈ arguments, k.value v) → (invoke calls callee arguments).Always (At R focus) k.value
  | _ => True

variable {R : Context → Prop} {F : Focus → Prop} {k r : Kind} {calls : Calls} {Inv : Context → Prop}

/-! ## Parts of meanings -/

theorem Modes.pullAll_always {operands : List Modes} (parts : ∀ m ∈ operands, m.Always Inv k) :
    Eval.Always Inv (Stream.Always Inv k.item)
      (pure ⟨none, Stream.pullAll (operands.map (·.stream))⟩) := by
  refine .pure fun c inv => Stream.pullAll_always (fun start member => ?_) inv
  obtain ⟨m, inside, rfl⟩ := List.mem_map.1 member
  exact (parts m inside).stream

theorem Modes.Always.ofList (lawful : k.Lawful) {operands : List Modes} {location : Option Location}
    {atMostOne : Bool} (parts : ∀ m ∈ operands, m.Always Inv k) :
    Modes.Always Inv k { Modes.ofStream location atMostOne
        (pure ⟨none, Stream.pullAll (operands.map (·.stream))⟩) with value := listValue operands } :=
  (Modes.Always.ofStream lawful (Modes.pullAll_always parts)).withValue
    (listValue_always lawful fun m member => (parts m member).value)

theorem choose_always {A : Type} {P : A → Prop} {test : Modes} {yes no : Eval A}
    (condition : test.Always Inv k) (positive : yes.Always Inv P) (negative : no.Always Inv P) :
    (choose test yes no).Always Inv P := by
  refine condition.boolean.bind fun held _ => ?_
  cases held with
  | true => exact positive
  | false => exact negative

theorem Modes.Always.chosen {test yes no : Modes} {location : Option Location}
    (condition : test.Always Inv k) (positive : yes.Always Inv r) (negative : no.Always Inv r) :
    Modes.Always Inv r
      { location := location
        stream := choose test yes.stream no.stream
        item := choose test yes.item no.item
        value := choose test yes.value no.value
        booleanItem := choose test yes.booleanItem no.booleanItem } :=
  ⟨choose_always condition positive.stream negative.stream,
    choose_always condition positive.item negative.item,
    choose_always condition positive.value negative.value,
    choose_always condition positive.booleanItem negative.booleanItem⟩

theorem Modes.Always.ofLet (lawful : r.Lawful) {var : Variable} {location : Option Location}
    {atMostOne : Bool} {bound body : Modes} (binds : (bindTo var location bound).Always Inv fun _ => True)
    (result : body.Always Inv r) :
    Modes.Always Inv r { Modes.ofStreamAndItem location atMostOne
        (do bindTo var location bound; body.stream) (do bindTo var location bound; body.item) with
      value := do bindTo var location bound; body.value } :=
  (Modes.Always.ofStreamAndItem lawful (binds.bind fun _ _ => result.stream)
    (binds.bind fun _ _ => result.item)).withValue (binds.bind fun _ _ => result.value)

theorem loopStream_always {source : Eval Stream} {enter : Item → Eval Stream}
    (input : source.Always Inv (Stream.Always Inv k.item))
    (each : ∀ item, k.item item → (enter item).Always Inv (Stream.Always Inv r.item)) :
    (loopStream source enter).Always Inv (Stream.Always Inv r.item) :=
  input.bind fun _ pulls => .pure fun c inv => (pulls c inv).forEach each

theorem enterLoop_always {var : Variable} {location : Option Location} {body : Modes} {item : Item}
    (binds : ∀ c, Inv c → Inv (c.bind var (.one item))) (result : body.Always Inv r) :
    (enterLoop var location body item).Always Inv (Stream.Always Inv r.item) :=
  Eval.Always.checkStop.bind fun _ _ => (bindVariable_always binds).bind fun _ _ => result.stream

theorem dynamicValue_always {callee : Modes} {arguments : List Modes} {location : Option Location}
    (function : callee.Always Inv k) (parts : ∀ m ∈ arguments, m.Always Inv k)
    (invokes : ∀ item values, k.item item → (∀ v ∈ values, k.value v) →
      (invoke calls item values).Always Inv k.value) :
    (dynamicValue calls callee arguments location).Always Inv k.value := by
  refine function.toCallee.bind fun item given => ?_
  refine .bind (P := fun values => ∀ v ∈ values, k.value v)
    (.foldList (fun v member => by cases member) ?_) fun values all => ?_
  · intro values all m member
    refine (parts m member).value.bind fun v holds => .pure fun w among => ?_
    rcases List.mem_cons.1 among with rfl | old
    · exact holds
    · exact all w old
  · exact (invokes item _ given fun v member => all v (List.mem_reverse.1 member)).locate

/-! ## Built-in functions -/

theorem firstItem_always {stream : Eval Stream} (always : stream.Always Inv (Stream.Always Inv k.item)) :
    Eval.Always Inv (fun found => ∀ item, found = some item → k.item item) (do
      let s ← stream
      return (← s.next).map Prod.fst) := by
  refine always.bind fun s pulls => (Stream.next_always pulls).bind fun found given => .pure ?_
  intro item same
  cases found with
  | none => cases same
  | some pair =>
      cases same
      exact (given pair.1 pair.2 rfl).1

/-- The functions that give some of the items of their first argument. -/
theorem BuiltIn.modes_select (lawful : r.Lawful) (argumentLawful : k.Lawful) {f : BuiltIn}
    (selects : f = .head ∨ f = .reverse ∨ f = .sortWith) {location : Option Location} {atMostOne : Bool}
    {size? : Option Nat} {arguments : List Modes} {argument : Modes}
    (first : arguments.headD (.ofLiteral .empty) = argument) (value : argument.value.Always Inv r.value)
    (single : Eval.Always Inv (fun found => ∀ item, found = some item → r.item item) (do
      let s ← argument.stream
      return (← s.next).map Prod.fst))
    (second : (arguments.getD 1 (.ofLiteral .empty)).Always Inv k)
    (pairs : f = .sortWith → ∀ callee, k.item callee → ∀ a b, r.item a → r.item b →
      (invoke calls callee [.one a, .one b]).Always Inv k.value) :
    (f.modes calls location atMostOne size? arguments).Always Inv r := by
  subst first
  rcases selects with rfl | rfl | rfl
  · exact .ofItemAndValue lawful single
  · exact .ofValueAndSingle lawful (value.bind fun _ given => .pure (lawful.reverse given))
  · refine .ofValueAndSingle lawful (value.bind fun v given => second.toCallee.bind fun callee holds => ?_)
    exact sortWith_always lawful argumentLawful (pairs rfl callee holds) given

theorem BuiltIn.error_always (lawful : r.Lawful) {location : Option Location} {atMostOne : Bool}
    {size? : Option Nat} {arguments : List Modes} (parts : ∀ m ∈ arguments, m.Always Inv k) :
    (BuiltIn.error.modes calls location atMostOne size? arguments).Always Inv r :=
  .ofItemAndValue lawful ((raisedError_always parts).bind fun _ _ => .fail)

theorem argument_always (lawful : k.Lawful) {arguments : List Modes}
    (parts : ∀ m ∈ arguments, m.Always Inv k) (i : Nat) :
    (arguments.getD i (.ofLiteral .empty)).Always Inv k := by
  rw [List.getD_eq_getElem?_getD]
  cases found : arguments[i]? with
  | none => exact Modes.Always.ofLiteral lawful lawful.empty
  | some m => exact parts m (List.mem_of_getElem? found)

theorem BuiltIn.modes_always (lawful : k.Lawful) (atom : ∀ a, k.item (.atom a)) (f : BuiltIn)
    {location : Option Location} {atMostOne : Bool} {size? : Option Nat} {arguments : List Modes}
    (parts : ∀ m ∈ arguments, m.Always Inv k)
    (pairs : f = .foldLeft1 ∨ f = .sortWith → ∀ callee, k.item callee → calls.PairAlways Inv k callee) :
    (f.modes calls location atMostOne size? arguments).Always Inv k := by
  have first : (arguments.headD (.ofLiteral .empty)).Always Inv k := by
    cases arguments with
    | nil => exact Modes.Always.ofLiteral lawful lawful.empty
    | cons m rest => exact parts m List.mem_cons_self
  have second := argument_always lawful parts 1
  have selected : f = .head ∨ f = .reverse ∨ f = .sortWith →
      (f = .sortWith → ∀ callee, k.item callee → ∀ a b, k.item a → k.item b →
        (invoke calls callee [.one a, .one b]).Always Inv k.value) →
      (f.modes calls location atMostOne size? arguments).Always Inv k :=
    fun selects => BuiltIn.modes_select lawful lawful selects rfl first.value (firstItem_always first.stream) second
  cases f with
  | head => exact selected (.inl rfl) fun impossible => by cases impossible
  | reverse => exact selected (.inr (.inl rfl)) fun impossible => by cases impossible
  | sortWith =>
      refine selected (.inr (.inr rfl)) fun _ callee given a b left right => ?_
      exact pairs (.inr rfl) callee given _ _ (lawful.one left) (lawful.one right)
  | count =>
      refine .ofItemAndValue lawful ((countOf_always first.stream).map fun item made other same => ?_)
      cases same
      obtain ⟨a, rfl⟩ := made
      exact atom a
  | sum =>
      refine .ofItemAndValue lawful (sumOf_always atom first.value fun other same => ?_)
      cases found : arguments[1]? with
      | none =>
          rw [found] at same
          cases same
      | some m =>
          rw [found] at same
          cases same
          exact (parts m (List.mem_of_getElem? found)).item
  | avg => exact .ofItemAndValue lawful (averageOf_always atom first.value)
  | error => exact BuiltIn.error_always lawful parts
  | foldLeft1 =>
      refine .ofValueAndSingle lawful
        (first.value.bind fun v given => second.toCallee.bind fun callee holds => ?_)
      exact foldLeft1_always lawful (pairs (.inl rfl) callee holds) given

/-! ## Trees -/

namespace Expr

theorem modesAll_always {operands : List Expr} (each : ∀ e ∈ operands, (e.modes calls).Always Inv k) :
    ∀ m ∈ modesAll calls operands, m.Always Inv k := by
  rw [modesAll_eq_map]
  intro m member
  obtain ⟨e, inside, rfl⟩ := List.mem_map.1 member
  exact each e inside

theorem predicates_always {predicates : List Expr} (each : ∀ e ∈ predicates, (e.modes calls).Always Inv k) :
    ∀ p ∈ (predicates.map (·.position?)).zip (modesAll calls predicates), p.2.Always Inv k := by
  rintro ⟨position, m⟩ member
  exact modesAll_always each m (List.of_mem_zip member).2

/-- Every way to evaluate the tree keeps the condition and puts the focus back, after success and failure. -/
def Keeps (R : Context → Prop) (F : Focus → Prop) (k : Kind) (calls : Calls) (e : Expr) : Prop :=
  ∀ {focus : Focus}, F focus → (e.modes calls).Always (At R focus) k

section Nodes

/-! ### Nodes that bind, focus, call or update -/

variable (rules : Rules R F k) {location : Option Location} {type : StaticType}

include rules

theorem filter_keeps {base : Expr} {predicates : List Expr} (input : base.Keeps R F k calls)
    (conditions : ∀ e ∈ predicates, e.Keeps R F k calls) :
    (filter base predicates type location).Keeps R F k calls := by
  intro focus held
  refine .ofValue rules.lawful (filterValue_always rules.setFocus rules.lawful (input held).value (r := k) ?_)
  exact fun p member item position size holds => predicates_always
    (fun e inside => conditions e inside (rules.focused item position size holds)) p member

theorem letIn_keeps {var : Variable} {bound body : Expr}
    (here : Observes R F k calls (letIn var bound body location)) (value : bound.Keeps R F k calls)
    (result : body.Keeps R F k calls) : (letIn var bound body location).Keeps R F k calls := by
  intro focus held
  have binds : (bindTo var location (bound.modes calls)).Always (At R focus) fun _ => True :=
    (value held).value.bind fun v given =>
      bindVariable_always fun c inv => ⟨inv.focus_eq, here c v inv.rest given⟩
  exact .ofLet rules.lawful binds (result held)

theorem forIn_keeps {var : Variable} {source body : Expr}
    (here : Observes R F k calls (forIn var source body type location)) (input : source.Keeps R F k calls)
    (result : body.Keeps R F k calls) : (forIn var source body type location).Keeps R F k calls := by
  intro focus held
  have binds : ∀ item, k.item item → ∀ c, At R focus c → At R focus (c.bind var (.one item)) :=
    fun item holds c inv => ⟨inv.focus_eq, here c item inv.rest holds⟩
  exact .ofStream rules.lawful (loopStream_always (input held).stream fun item holds =>
    enterLoop_always (binds item holds) (result held))

theorem call_keeps {f : BuiltIn} {arguments : List Expr}
    (here : Observes R F k calls (call f arguments type location))
    (parts : ∀ e ∈ arguments, e.Keeps R F k calls) : (call f arguments type location).Keeps R F k calls := by
  intro focus held
  exact BuiltIn.modes_always rules.lawful rules.atom f (modesAll_always fun e member => parts e member held)
    fun folds callee holds => here folds callee focus held holds

theorem dynamicCall_keeps {callee : Expr} {arguments : List Expr}
    (here : Observes R F k calls (dynamicCall callee arguments type location))
    (function : callee.Keeps R F k calls) (parts : ∀ e ∈ arguments, e.Keeps R F k calls) :
    (dynamicCall callee arguments type location).Keeps R F k calls := by
  intro focus held
  have all := modesAll_always fun e member => parts e member held
  exact .ofValueAndSingle rules.lawful (dynamicValue_always (function held) all fun item values =>
    here item values focus held)

theorem delete_keeps {target : Expr} (here : Observes R F k calls (delete target location))
    (input : target.Keeps R F k calls) : (delete target location).Keeps R F k calls := by
  intro focus held
  have records : ∀ c n, At R focus c → At R focus { c with updates := c.updates.push (.delete n) } :=
    fun c n inv => ⟨inv.focus_eq, here c n inv.rest⟩
  refine .ofValue rules.lawful ((deleteAll_always records (input held)).mono fun v same => ?_)
  rw [same]
  exact rules.lawful.empty

end Nodes

/-- Every way to evaluate a tree keeps the condition and puts the focus back, after success and failure. -/
theorem modes_always (rules : Rules R F k) {e : Expr} (observes : e.Every (Observes R F k calls)) {focus : Focus}
    (held : F focus) : (e.modes calls).Always (At R focus) k := by
  have lawful := rules.lawful
  induction e using byParts generalizing focus with
  | step e parts_ih =>
    have part : ∀ s ∈ e.parts, s.Keeps R F k calls :=
      fun s member _ held => parts_ih s member (observes.part member) held
    have here := observes.here
    cases e with
    | literal v => exact .ofLiteral lawful here
    | list operands type location =>
        exact .ofList lawful (modesAll_always fun e member => part e member held)
    | range first last type location =>
        exact .ofValue lawful (rangeValue_always lawful rules.atom (part first (by simp [parts]) held)
          (part last (by simp [parts]) held))
    | arithmetic op a b type location =>
        exact .ofItem lawful (onAtoms_always rules.atom (part a (by simp [parts]) held)
          (part b (by simp [parts]) held) fun x y item => mapped_atom)
    | comparison op a b type location =>
        refine .ofItem lawful (onAtoms_always rules.atom (part a (by simp [parts]) held)
          (part b (by simp [parts]) held) fun x y item made => ?_)
        exact mapped_atom (f := fun order => .boolean (_ : Bool)) made
    | conditional test yes no type location =>
        exact .chosen (part test (by simp [parts]) held) (part yes (by simp [parts]) held)
          (part no (by simp [parts]) held)
    | contextValue type location =>
        exact .ofValue lawful (contextValue_always fun v same => here focus v held same)
    | root location => exact .ofValue lawful (rootValue_always lawful rules.node)
    | documents source location => exact .ofValue lawful (documents_always lawful rules.node source)
    | filter base predicates type location =>
        exact filter_keeps rules (part base List.mem_cons_self)
          (fun s member => part s (List.mem_cons_of_mem _ member)) held
    | letIn var bound body location =>
        exact letIn_keeps rules here (part bound (by simp [parts])) (part body (by simp [parts])) held
    | forIn var source body type location =>
        exact forIn_keeps rules here (part source (by simp [parts])) (part body (by simp [parts])) held
    | varRef var type location =>
        exact .ofValue lawful (variableValue_always fun c v inv found => here c v inv.rest found)
    | call f arguments type location => exact call_keeps rules here part held
    | deferred error type location => exact .ofValueAndItem lawful .fail .fail
    | dynamicCall callee arguments type location =>
        exact dynamicCall_keeps rules here (part callee List.mem_cons_self)
          (fun s member => part s (List.mem_cons_of_mem _ member)) held
    | delete target location => exact delete_keeps rules here (part target (by simp [parts])) held

end Expr

/-! ## Calls of items -/

theorem singleKey_always {callee : Item} {arguments : List Value} :
    (singleKey callee arguments).Always Inv fun _ => True := by
  unfold singleKey
  split
  · refine .bind (P := fun _ => True) (.ofExcept fun _ _ => trivial) fun atoms _ => ?_
    split
    · exact .pure trivial
    · exact .raise
    · exact .raise
  · exact .raise

/-- What a call of an item does follows from what calls of functions do and from what maps and arrays
have inside. -/
theorem invoke_always {P : Value → Prop} {callee : Item} {arguments : List Value} (empty : P .empty)
    (function : ∀ f, callee = .function f → arguments.length = f.parameters.length →
      (calls f arguments).Always Inv P)
    (entry : ∀ identity entries type, callee = .map identity entries type → ∀ entry ∈ entries, P entry.2)
    (member : ∀ identity members type, callee = .array identity members type → ∀ v ∈ members, P v) :
    (invoke calls callee arguments).Always Inv P := by
  unfold invoke
  split
  · next f =>
      split
      · next arity => exact function f rfl arity
      · exact .raise
  · next identity entries type =>
      refine singleKey_always.bind fun key _ => .pure ?_
      unfold Entries.get?
      cases found : entries.find? fun (other, _) => other.sameKey key with
      | none => exact empty
      | some pair => exact entry identity entries type rfl pair (List.mem_of_find?_eq_some found)
  · next identity members type =>
      refine singleKey_always.bind fun key _ => ?_
      split
      · next i =>
          refine .ofExcept fun v found => ?_
          simp only [arrayMember] at found
          split at found
          · cases found
          · split at found
            · next inside looked =>
                cases found
                exact member identity members type rfl v (List.mem_of_getElem? looked)
            · cases found
      · exact .raise
  · exact .raise

/-! ## What no evaluation changes -/

/-- A condition that says nothing of focus, variables and updates. -/
structure Stable (R : Context → Prop) : Prop where
  focus : ∀ c focus, R c → R { c with focus }
  bind : ∀ c var v, R c → R (c.bind var v)
  updates : ∀ c updates, R c → R { c with updates }

/-- Calls keep the condition and put the focus back. -/
def Calls.Keep (calls : Calls) (R : Context → Prop) : Prop :=
  ∀ f arguments focus, (calls f arguments).Always (At R focus) fun _ => True

theorem Expr.modes_keep (stable : Stable R) (keep : calls.Keep R) (e : Expr) (focus : Focus) :
    (e.modes calls).Always (At R focus) .any := by
  have rules : Rules R (fun _ => True) .any :=
    ⟨Kind.any_lawful, fun _ => trivial, fun _ => trivial, stable.focus, fun _ _ _ _ => trivial⟩
  have invokes : ∀ callee arguments focus,
      (invoke calls callee arguments).Always (At R focus) Kind.any.value :=
    fun callee arguments focus => invoke_always trivial (fun f _ _ => keep f arguments focus)
      (fun _ _ _ _ _ _ => trivial) fun _ _ _ _ _ _ => trivial
  have observes : ∀ e : Expr, e.Observes R (fun _ => True) .any calls := by
    intro e
    cases e with
    | contextValue => exact fun _ _ _ _ => trivial
    | varRef => exact fun _ _ _ _ => trivial
    | letIn var => exact fun c v inv _ => stable.bind c var v inv
    | forIn var => exact fun c item inv _ => stable.bind c var _ inv
    | delete => exact fun c _ inv => stable.updates c _ inv
    | call => exact fun _ callee focus _ _ a b _ _ => invokes callee [a, b] focus
    | dynamicCall => exact fun callee arguments focus _ _ _ => invokes callee arguments focus
    | _ => trivial
  exact modes_always rules (every_of_forall observes e) trivial

/-- A function is called by binding its parameters, which stay bound, and evaluating its body. -/
def callBody (calls : Calls) (f : FunctionItem Expr) (arguments : List Value) : Eval Value := do
  Eval.change fun c => (f.parameters.zip arguments).foldl (fun c (var, value) => c.bind var value) c
  (f.body.modes calls).value

theorem callsWithin_succ (depth : Nat) (f : FunctionItem Expr) (arguments : List Value) :
    callsWithin (depth + 1) f arguments = callBody (callsWithin depth) f arguments := rfl

theorem callBody_always {f : FunctionItem Expr} {arguments : List Value} {P : Value → Prop}
    (binds : ∀ pair ∈ f.parameters.zip arguments, ∀ c, Inv c → Inv (c.bind pair.1 pair.2))
    (body : (f.body.modes calls).value.Always Inv P) : (callBody calls f arguments).Always Inv P := by
  have bound : ∀ pairs : List (Variable × Value), (∀ pair ∈ pairs, ∀ c, Inv c → Inv (c.bind pair.1 pair.2)) →
      ∀ c, Inv c → Inv (pairs.foldl (fun c pair => c.bind pair.1 pair.2) c) := by
    intro pairs keeps
    induction pairs with
    | nil => exact fun _ inv => inv
    | cons pair rest rest_ih =>
        obtain ⟨first, others⟩ := List.forall_mem_cons.1 keeps
        exact fun c inv => rest_ih others _ (first c inv)
  exact .bind (P := fun _ => True) (.change (fun c inv => bound _ binds c inv) trivial) fun _ _ => body

theorem callsWithin_keep (stable : Stable R) (depth : Nat) : (callsWithin depth).Keep R := by
  induction depth with
  | zero => exact fun _ _ _ => .fail
  | succ depth depth_ih =>
      intro f arguments focus
      rw [callsWithin_succ]
      exact callBody_always (fun pair _ c inv => ⟨inv.focus_eq, stable.bind c pair.1 pair.2 inv.rest⟩)
        (Expr.modes_keep stable depth_ih f.body focus).value

end QueryKernel
