import QueryKernel.Proofs.Eval.Everywhere
import QueryKernel.Proofs.Expr.Justified

/-!
# Trees without results give nothing

What gives nothing because of its form really gives nothing, in every way to evaluate it, as long as the variables
that are known to be empty hold nothing.

A binding makes its variable empty before its body is evaluated, and somebody else may bind it again before an item
is asked for.  So a stream without items is read where it has been started: there it ends at once.
-/

namespace QueryKernel

variable {Inv Inner Q : Context → Prop} {F : Focus → Prop} {k : Kind} {calls : Calls}

/-! ## Streams without items -/

namespace Eval

variable {A B : Type} {P : A → Prop} {S : B → Prop} {x : Eval Stream} {y : Eval A}

/-- A stream that has no first item when it has been started. -/
def Barren (Inv : Context → Prop) (x : Eval Stream) : Prop := (x >>= Stream.next).Always Inv (· = none)

/-- A computation that brings about another condition, unless it fails. -/
def Enters (Inv Inner : Context → Prop) (y : Eval A) : Prop :=
  ∀ c, Inv c → Inv (y c).2 ∧ ∀ a, (y c).1 = .ok a → Inner (y c).2

theorem Always.barren (always : x.Always Inv (Stream.Always Inv Kind.nothing.item)) : x.Barren Inv :=
  always.bind fun s pulls => (Stream.next_always pulls).mono fun found given => by
    cases found with
    | none => rfl
    | some pair => exact (given pair.1 pair.2 rfl).1.elim

theorem Barren.after {f : A → Eval Stream} (first : y.Always Inv P) (second : ∀ a, P a → (f a).Barren Inv) :
    (y >>= f).Barren Inv := by
  rw [Barren, bind_assoc]
  exact first.bind second

/-- Under the other condition something may be done that could not be done under the first one. -/
theorem Enters.bind {f : A → Eval B} (enters : y.Enters Inv Inner) (leaves : ∀ c, Inner c → Inv c)
    (second : ∀ a, (f a).Always Inner S) : (y >>= f).Always Inv S := by
  intro c inv
  obtain ⟨kept, inside⟩ := enters c inv
  rw [bind_apply]
  cases ran : y c with
  | mk result c₁ =>
      rw [ran] at kept inside
      cases result with
      | ok a =>
          obtain ⟨after, holds⟩ := second a c₁ (inside a rfl)
          exact ⟨leaves _ after, holds⟩
      | error e => exact ⟨kept, fun _ impossible => by cases impossible⟩

theorem Enters.after {f : A → Eval B} (first : y.Always Inv P) (second : ∀ a, P a → (f a).Enters Inv Inner) :
    (y >>= f).Enters Inv Inner := by
  intro c inv
  obtain ⟨kept, holds⟩ := first c inv
  rw [bind_apply]
  cases ran : y c with
  | mk result c₁ =>
      rw [ran] at kept holds
      cases result with
      | ok a => exact second a (holds a rfl) c₁ kept
      | error e => exact ⟨kept, fun _ impossible => by cases impossible⟩

theorem Enters.change {f : Context → Context} (keeps : ∀ c, Inv c → Inv (f c)) (enters : ∀ c, Inv c → Inner (f c)) :
    (change f).Enters Inv Inner := fun c inv => ⟨keeps c inv, fun _ _ => enters c inv⟩

theorem Barren.inside {f : A → Eval Stream} (enters : y.Enters Inv Inner) (leaves : ∀ c, Inner c → Inv c)
    (second : ∀ a, (f a).Barren Inner) : (y >>= f).Barren Inv := by
  rw [Barren, bind_assoc]
  exact enters.bind leaves second

/-- The first step of a stream without items. -/
theorem Barren.step (barren : x.Barren Inv) {c c₁ : Context} {s : Stream} (inv : Inv c) (started : x c = (.ok s, c₁)) :
    (s.pull c₁).Always Inv Kind.nothing.item := by
  obtain ⟨kept, none⟩ := barren c inv
  rw [bind_apply, started] at kept none
  dsimp only at kept none
  rw [Stream.next_apply] at kept none
  cases pulled : s.pull c₁ with
  | done c₂ =>
      rw [pulled] at kept
      exact kept
  | failed c₂ e =>
      rw [pulled] at kept
      exact kept
  | yield c₂ item left rest =>
      rw [pulled] at none
      cases none _ rfl

theorem Barren.failed (barren : x.Barren Inv) {c c₁ : Context} {e : Failure} (inv : Inv c)
    (started : x c = (.error e, c₁)) : Inv c₁ := by
  have kept := (barren c inv).1
  rwa [bind_apply, started] at kept

/-- What reads a stream without items goes on as behind its last item. -/
theorem Barren.read (barren : x.Barren Inv) {f : Stream → Eval B} {g : Eval B}
    (ended : ∀ s c c', s.pull c = .done c' → f s c = g c')
    (failed : ∀ s c c' e, s.pull c = .failed c' e → f s c = (.error e, c')) (rest : g.Always Inv S) :
    (x >>= f).Always Inv S := by
  intro c inv
  rw [bind_apply]
  cases started : x c with
  | mk result c₁ =>
      cases result with
      | error e => exact ⟨barren.failed inv started, fun _ impossible => by cases impossible⟩
      | ok s =>
          have pulled := barren.step inv started
          dsimp only
          cases step : s.pull c₁ with
          | done c₂ =>
              rw [step] at pulled
              rw [ended s c₁ c₂ step]
              exact rest c₂ pulled
          | failed c₂ e =>
              rw [step] at pulled
              rw [failed s c₁ c₂ e step]
              exact ⟨pulled, fun _ impossible => by cases impossible⟩
          | yield c₂ item left more =>
              rw [step] at pulled
              exact pulled.2.1.elim

theorem Barren.fold (barren : x.Barren Inv) {f : A → Item → Eval A} {a : A} {g : A → Eval B}
    (rest : (g a).Always Inv S) : (x >>= fun s => s.fold f a >>= g).Always Inv S := by
  refine barren.read (g := g a) (fun s c c' ended => ?_) (fun s c c' e failed => ?_) rest
  · rw [bind_apply, Stream.fold, ended, Step.fold]
  · rw [bind_apply, Stream.fold, failed, Step.fold]

theorem Barren.first (barren : x.Barren Inv) {g : Option (Item × Stream) → Eval B} (rest : (g none).Always Inv S) :
    (x >>= fun s => s.next >>= g).Always Inv S := by
  rw [← bind_assoc]
  exact barren.bind fun found none => none ▸ rest

end Eval

theorem Stream.pullAll_barren {starts : List (Eval Stream)} (each : ∀ start ∈ starts, start.Barren Inv) {c : Context}
    (inv : Inv c) : (pullAll starts c).Always Inv Kind.nothing.item := by
  induction starts generalizing c with
  | nil => exact inv
  | cons start rest rest_ih =>
      have first := each start List.mem_cons_self
      simp only [pullAll]
      split
      · next e c₁ ran => exact first.failed inv ran
      · next s c₁ ran =>
          exact (first.step inv ran).andThen fun c' inv' =>
            rest_ih (fun other member => each other (List.mem_cons_of_mem _ member)) inv'

/-- Each item is replaced by a stream without items. -/
theorem Step.forEach_barren {P : Item → Prop} {body : Item → Eval Stream} {s : Step} (always : s.Always Inv P)
    (each : ∀ item, P item → (body item).Barren Inv) : (s.forEach body).Always Inv Kind.nothing.item := by
  induction s with
  | done c => exact always
  | failed c e => exact always
  | yield c item left rest rest_ih =>
      obtain ⟨inv, holds, next⟩ := always
      simp only [Step.forEach]
      split
      · next e c₁ ran => exact (each item holds).failed inv ran
      · next inner c₁ ran =>
          have pulled := (each item holds).step inv ran
          split
          · next c₂ ended =>
              rw [ended] at pulled
              exact rest_ih c₂ (next c₂ pulled)
          · next c₂ e ended =>
              rw [ended] at pulled
              exact pulled
          · next c₂ item₂ left₂ more given =>
              rw [given] at pulled
              exact pulled.2.1.elim

/-- A loop over no items. -/
theorem loopStream_barren {source : Eval Stream} {enter : Item → Eval Stream} (input : source.Barren Inv) :
    (loopStream source enter).Barren Inv := by
  rw [Eval.Barren, loopStream, Eval.bind_assoc]
  refine input.read (g := pure none) (fun s c c' ended => ?_) (fun s c c' e failed => ?_) (.pure rfl)
  · simp only [Eval.bind_apply, Eval.pure_apply, Stream.next_apply, ended, Step.forEach]
  · simp only [Eval.bind_apply, Eval.pure_apply, Stream.next_apply, failed, Step.forEach]

/-! ## Ways to evaluate -/

namespace Modes

/-- No way to evaluate gives an item. -/
structure Vacant (Inv : Context → Prop) (m : Modes) : Prop where
  stream : m.stream.Barren Inv
  item : m.item.Always Inv fun found => ∀ item, found = some item → Kind.nothing.item item
  value : m.value.Always Inv Kind.nothing.value

variable {location : Option Location} {atMostOne : Bool} {stream : Eval Stream} {item : Eval (Option Item)} {m : Modes}

theorem Always.vacant (always : m.Always Inv .nothing) : m.Vacant Inv :=
  ⟨always.stream.barren, always.item, always.value⟩

theorem Vacant.ofStreamAndItem (streams : stream.Barren Inv)
    (single : item.Always Inv fun found => ∀ item, found = some item → Kind.nothing.item item) :
    (Modes.ofStreamAndItem location atMostOne stream item).Vacant Inv := by
  refine ⟨streams, single, ?_⟩
  simp only [Modes.ofStreamAndItem]
  split
  · exact single.bind fun found holds => .pure (Kind.nothing_lawful.valueOfOption holds)
  · exact streams.fold (.pure Kind.nothing_lawful.empty)

theorem Vacant.ofStream (streams : stream.Barren Inv) : (Modes.ofStream location atMostOne stream).Vacant Inv :=
  .ofStreamAndItem streams (streams.first (.pure fun _ none => by cases none))

theorem Vacant.withValue {value : Eval Value} (vacant : m.Vacant Inv) (values : value.Always Inv Kind.nothing.value) :
    ({ m with value := value } : Modes).Vacant Inv := ⟨vacant.stream, vacant.item, values⟩

theorem Vacant.ofList {operands : List Modes} (parts : ∀ m ∈ operands, m.Vacant Inv) :
    Modes.Vacant Inv { Modes.ofStream location atMostOne
        (pure ⟨none, Stream.pullAll (operands.map (·.stream))⟩) with value := listValue operands } := by
  have streams : ∀ start ∈ operands.map (·.stream), start.Barren Inv := by
    intro start member
    obtain ⟨m, inside, rfl⟩ := List.mem_map.1 member
    exact (parts m inside).stream
  exact (Vacant.ofStream (Eval.Always.barren (.pure fun _ => Stream.pullAll_barren streams))).withValue
    (listValue_always Kind.nothing_lawful fun m member => (parts m member).value)

theorem Vacant.chosen {test yes no : Modes} (condition : test.Always Inv k) (positive : yes.Vacant Inv)
    (negative : no.Vacant Inv) :
    Modes.Vacant Inv
      { location := location
        stream := choose test yes.stream no.stream
        item := choose test yes.item no.item
        value := choose test yes.value no.value
        booleanItem := choose test yes.booleanItem no.booleanItem } := by
  refine ⟨Eval.Barren.after condition.boolean fun held _ => ?_, choose_always condition positive.item negative.item,
    choose_always condition positive.value negative.value⟩
  cases held with
  | true => exact positive.stream
  | false => exact negative.stream

/-- The body of a binding is evaluated under a condition that need not hold later on. -/
theorem Vacant.ofLet {var : Variable} {bound body : Modes}
    (enters : (bindTo var location bound).Enters Inv Inner) (leaves : ∀ c, Inner c → Inv c)
    (result : body.Vacant Inner) :
    Modes.Vacant Inv { Modes.ofStreamAndItem location atMostOne
        (do bindTo var location bound; body.stream) (do bindTo var location bound; body.item) with
      value := do bindTo var location bound; body.value } :=
  (Vacant.ofStreamAndItem (.inside enters leaves fun _ => result.stream)
    (enters.bind leaves fun _ => result.item)).withValue (enters.bind leaves fun _ => result.value)

theorem Vacant.selects (lawful : k.Lawful) {f : BuiltIn} (selects : f = .head ∨ f = .reverse ∨ f = .sortWith)
    {size? : Option Nat} {argument : Modes} {others : List Modes} (first : argument.Vacant Inv)
    (second : ((argument :: others).getD 1 (.ofLiteral .empty)).Always Inv k) :
    (f.modes calls location atMostOne size? (argument :: others)).Vacant Inv :=
  (BuiltIn.modes_select Kind.nothing_lawful lawful selects rfl first.value
    (first.stream.first (g := fun found => pure (found.map Prod.fst)) (.pure fun _ none => by cases none)) second
    fun _ _ _ _ _ impossible => impossible.elim).vacant

end Modes

/-! ## Trees -/

/-- The variables known to be empty are so, or have no value. -/
def Context.Empties (empty : Nat → Prop) (c : Context) : Prop :=
  ∀ id v, empty id → c.bindings.lookup id = some v → v = .empty

/-- What is asked of a node: variables of some stock that hold nothing go on doing so, but for the one that the node
binds, which is of the stock as well. -/
structure Expr.Minds (Q : Context → Prop) (F : Focus → Prop) (k : Kind) (calls : Calls) (stock : Nat → Prop)
    (s : Expr) : Prop where
  binder : ∀ var, s.binder? = some var → stock var.id
  observes : ∀ empty : Nat → Prop, (∀ id, empty id → stock id) → (∀ var, s.binder? = some var → ¬empty var.id) →
    s.Observes (fun c => Q c ∧ c.Empties empty) F k calls

variable {stock empty : Nat → Prop} {K : Surroundings} {e : Expr}

theorem Rules.empties (rules : Rules Q F k) (empty : Nat → Prop) : Rules (fun c => Q c ∧ c.Empties empty) F k :=
  { rules with setFocus := fun c focus inv => ⟨rules.setFocus c focus inv.1, inv.2⟩ }

namespace Expr

/-- Evaluation keeps variables empty that are so around the tree. -/
theorem Justified.keeps (justified : e.Justified K) (rules : Rules Q F k) (minds : e.Every (Minds Q F k calls stock))
    (around : ∀ id, K.empty id → stock id) : e.Keeps (fun c => Q c ∧ c.Empties K.empty) F k calls := by
  intro focus held
  refine modes_always (rules.empties K.empty) (minds.mono fun s inside here => ?_) held
  refine here.observes K.empty around fun var binds known => ?_
  exact justified.not_bound _ ((binders_inside inside).subset (binders_variable binds)) (K.within _ known)

/-- A variable that is bound to nothing is empty as well from then on. -/
theorem bindTo_enters {var : Variable} {bound : Modes} {location : Option Location} {focus : Focus} {nothing : Prop}
    (binds : ∀ c v, Q c ∧ c.Empties empty → k.value v → Q (c.bind var v) ∧ (c.bind var v).Empties empty)
    (value : bound.value.Always (At (fun c => Q c ∧ c.Empties empty) focus) fun v =>
      k.value v ∧ (nothing → v = .empty)) :
    (bindTo var location bound).Enters (At (fun c => Q c ∧ c.Empties empty) focus)
      (At (fun c => Q c ∧ c.Empties fun id => (id = var.id ∧ nothing) ∨ empty id) focus) := by
  refine .after value fun v given => .after (P := fun _ => True) (.ofExcept fun _ _ => trivial) fun _ _ => ?_
  refine .change (fun c inv => ⟨inv.focus_eq, binds c v inv.rest given.1⟩) fun c inv => ?_
  obtain ⟨kept, empties⟩ := binds c v inv.rest given.1
  refine ⟨inv.focus_eq, kept, ?_⟩
  rintro id w (⟨rfl, nil⟩ | known) found
  · rw [Context.bind, Bindings.lookup_set, if_pos rfl] at found
    cases found
    exact given.2 nil
  · exact empties id w known found

/-- In a tree whose types of nothing are right, what gives nothing because of its form gives nothing. -/
theorem Justified.vacant (justified : e.Justified K) (rules : Rules Q F k) (minds : e.Every (Minds Q F k calls stock))
    (around : ∀ id, K.empty id → stock id) (null : e.Null K.empty) {focus : Focus} (held : F focus) :
    (e.modes calls).Vacant (At (fun c => Q c ∧ c.Empties K.empty) focus) := by
  induction justified generalizing focus with
  | @node K e unbound nil parts parts_ih =>
      have keeps : ∀ s ∈ e.parts, (s.modes calls).Always (At (fun c => Q c ∧ c.Empties K.empty) focus) k :=
        fun s member => (parts s member).keeps rules (minds.part member) around held
      have vacant : ∀ s ∈ e.parts, s.Null K.empty →
          (s.modes calls).Vacant (At (fun c => Q c ∧ c.Empties K.empty) focus) :=
        fun s member null => parts_ih s member (minds.part member) around null held
      have here := minds.here.observes K.empty around fun var binds => by rw [unbound] at binds; cases binds
      cases null with
      | literal => exact (Modes.Always.ofLiteral Kind.nothing_lawful rfl).vacant
      | list nulls =>
          refine .ofList fun m member => ?_
          rw [modesAll_eq_map] at member
          obtain ⟨s, inside, rfl⟩ := List.mem_map.1 member
          exact vacant s inside (nulls s inside)
      | conditional positive negative =>
          exact .chosen (keeps _ List.mem_cons_self) (vacant _ (by simp [Expr.parts]) positive)
            (vacant _ (by simp [Expr.parts]) negative)
      | filter input =>
          refine (Modes.Always.ofValue Kind.nothing_lawful (filterValue_always (rules.empties K.empty).setFocus
            Kind.nothing_lawful (vacant _ List.mem_cons_self input).value (r := k) ?_)).vacant
          exact fun _ _ _ _ _ impossible => impossible.elim
      | letIn | letEmpty | forSource | forBody => cases unbound
      | varRef known =>
          exact (Modes.Always.ofValue Kind.nothing_lawful
            (variableValue_always fun c v inv found => inv.rest.2 _ v known found)).vacant
      | call selects input =>
          refine .selects rules.lawful selects (vacant _ List.mem_cons_self input) ?_
          exact argument_always rules.lawful (modesAll_always keeps) 1
      | error => exact (BuiltIn.error_always Kind.nothing_lawful (modesAll_always keeps)).vacant
      | deferred => exact (Modes.Always.ofValueAndItem Kind.nothing_lawful .fail .fail).vacant
      | delete =>
          refine (Modes.Always.ofValue Kind.nothing_lawful (deleteAll_always (fun c n inv => ?_)
            (keeps _ List.mem_cons_self))).vacant
          exact ⟨inv.focus_eq, here c n inv.rest⟩
  | @letIn K var bound body location undeclared new value result value_ih result_ih =>
      have stocked := minds.here.binder var rfl
      have binds := minds.here.observes K.empty around fun other same known => by
        cases same
        exact new (K.within _ known)
      have evaluates : (bound.modes calls).value.Always (At (fun c => Q c ∧ c.Empties K.empty) focus) fun v =>
          k.value v ∧ (bound.Null K.empty → v = .empty) := by
        intro c inv
        obtain ⟨kept, given⟩ := (value.keeps rules (minds.part (by simp [parts])) around held).value c inv
        refine ⟨kept, fun v ran => ⟨given v ran, fun none => ?_⟩⟩
        exact ((value_ih (minds.part (by simp [parts])) around none held).value c inv).2 v ran
      refine .ofLet (bindTo_enters binds evaluates) (fun c inv => ?_) (result_ih (minds.part (by simp [parts])) ?_
        (null_let.1 null) held)
      · exact ⟨inv.focus_eq, inv.rest.1, fun id v known => inv.rest.2 id v (.inr known)⟩
      · rintro id (⟨rfl, _⟩ | known)
        · exact stocked
        · exact around id known
  | @forIn K var source body type location none undeclared new input result input_ih result_ih =>
      have binds := minds.here.observes K.empty around fun other same known => by
        cases same
        exact new (K.within _ known)
      rcases null_for.1 null with nothing | nothing
      · exact .ofStream (loopStream_barren (input_ih (minds.part (by simp [parts])) around nothing held).stream)
      · have source := (input.keeps rules (minds.part (by simp [parts])) around held).stream
        rw [K.add_false] at result_ih
        have vacant := result_ih (minds.part (by simp [parts])) around nothing held
        refine .ofStream (Eval.Always.barren (source.bind fun s pulls => .pure fun c inv =>
          Step.forEach_barren (pulls c inv) fun item given => ?_))
        refine .after .checkStop fun _ _ => .after (bindVariable_always fun c inv => ?_) fun _ _ => vacant.stream
        exact ⟨inv.focus_eq, binds c item inv.rest given⟩

end Expr

end QueryKernel
