import QueryKernel.Proofs.Eval.Agreement
import QueryKernel.Proofs.Eval.Nested
import QueryKernel.Proofs.Value.Atomized

/-!
# Single atoms

Asking for the only atom of an expression compared with all atoms of its value.  Both start over in the same
context, the one with at most one item, the other with the whole value.

Only one direction is needed.  Where there is a value nothing stops the evaluation, so what others are asked for
is there as well; a stream that can be drained need not have a value that fits.  This way nothing has to be
known of static types, declared types or reasons to stop.

Items come first: two of them are refused before any atom is looked for.  So the answer is the one that the atoms
ask for if there is at most one item or if all are atoms; but an array without members counts as an item as long as
there is another one.
-/

namespace QueryKernel

/-- The answer to asking for at most one of some atoms: none, the only one, or an error with the first two and
whether there are more. -/
def SingleAtomOf (atoms : List Atom) (c : Context) (result : Except Failure (Option Atom) × Context) : Prop :=
  match atoms with
  | [] => result = (.ok none, c)
  | [atom] => result = (.ok (some atom), c)
  | first :: second :: rest =>
      ∃ failure c', result = (.error failure, c') ∧
        failure.IsOfMany .manyItems (.atom first) (.atom second) (rest.map .atom)

namespace Modes

/-- Where there is a value, the stream has its items; and at most one item is that of the stream. -/
structure FollowsValue (m : Modes) (c : Context) : Prop where
  drain_of_value : ∀ v c', m.value c = (.ok v, c') → m.drain c = (.ok v.items, c')
  single : ItemAgreesAt m.stream m.item c

variable {m : Modes} {location : Option Location} {atMostOne : Bool} {stream : Eval Stream}
  {item : Eval (Option Item)} {value : Eval Value} {c c' : Context}

/-! ## Ways that follow the value -/

theorem FollowsValue.item_of_value (follows : m.FollowsValue c) {v : Value} (valued : m.value c = (.ok v, c')) :
    SingleOf v.items c' (m.item c) :=
  follows.single.item_of_drain v.items c' (follows.drain_of_value v c' valued)

theorem FollowsValue.ofStreamAndItem (agrees : ItemAgreesAt stream item c) :
    (Modes.ofStreamAndItem location atMostOne stream item).FollowsValue c :=
  ⟨fun _ _ => agrees.drain_of_value, agrees⟩

theorem FollowsValue.ofValueAndItem (shaped : ∀ v c', value c = (.ok v, c') → v.Shaped)
    (agrees : ItemAgreesAt (do return .ofValue (← value)) item c) :
    (Modes.ofValueAndItem location atMostOne value item).FollowsValue c :=
  ⟨fun v _ valued => (drainStream_ofValue shaped).2 ⟨v, valued, rfl⟩, agrees⟩

theorem FollowsValue.ofValue (shaped : ∀ v c', value c = (.ok v, c') → v.Shaped) :
    (Modes.ofValue location atMostOne value).FollowsValue c :=
  .ofValueAndItem shaped .ofStream

theorem FollowsValue.ofLiteral {v : Value} (shaped : v.Shaped) : (Modes.ofLiteral v).FollowsValue c :=
  have agree : (Modes.ofLiteral v).AgreeAt c := .ofLiteral shaped
  ⟨agree.drain_of_value, agree.item⟩

theorem FollowsValue.after {A : Type} {x : Eval A} {rest : A → Modes}
    (follows : ∀ a c₁, x c = (.ok a, c₁) → (rest a).FollowsValue c₁) : (Modes.after x rest location).FollowsValue c :=
  ⟨fun _ _ => drain_after fun a c₁ ran => (follows a c₁ ran).drain_of_value,
    .after fun a c₁ ran => (follows a c₁ ran).single⟩

end Modes

theorem BuiltIn.modes_followValue {calls : Calls} {f : BuiltIn} {location : Option Location} {atMostOne : Bool}
    {size? : Option Nat} {arguments : List Modes} {c : Context}
    (shaped : ∀ v c', (f.modes calls location atMostOne size? arguments).value c = (.ok v, c') → v.Shaped) :
    (f.modes calls location atMostOne size? arguments).FollowsValue c := by
  cases f with
  | head | count | sum | avg | error => exact .ofValueAndItem shaped .ofItem
  | reverse | foldLeft1 | sortWith => exact .ofValueAndItem shaped (.ofValue shaped)

section Trees

variable {k : Kind} {R : Context → Prop} {calls : Calls}

/-- In every context that is carried, stream and single item follow the value. -/
theorem Expr.modes_followValue (inShape : ∀ v, k.value v → v.Shaped) (nested : k.Nested)
    (carried : k.Carried (fun _ => True) R)
    (stay : calls.Stay k R) {e : Expr} (bears : e.Every (Bears k True)) {focus : Focus} (held : k.Focused focus)
    {c : Context} (inv : At R focus c) : (e.modes calls).FollowsValue c := by
  induction e using byParts generalizing c with
  | step e parts_ih =>
    have part : ∀ s ∈ e.parts, ∀ c, At R focus c → (s.modes calls).FollowsValue c :=
      fun s member c inv => parts_ih s member (bears.part member) inv
    have always : ∀ s ∈ e.parts, (s.modes calls).Always (At R focus) k :=
      fun s member => modes_stay nested carried stay (bears.part member) (fun _ _ => trivial) held
    have shaped : ∀ v c', (e.modes calls).value c = (.ok v, c') → v.Shaped := fun v c' valued =>
      inShape v ((modes_stay nested carried stay bears (fun _ _ => trivial) held).value.ok inv valued).2
    -- Only lists, conditionals and bindings hand the question on to their parts.  All others derive the stream
    -- from the value or the item, or the value from the stream.
    cases e with
    | literal v => exact .ofLiteral (inShape v bears.here)
    | list operands type location =>
        have each : ∀ m ∈ modesAll calls operands, m.value.Keeps (At R focus) ValueOf.Shaped ∧
            ∀ c, At R focus c → m.FollowsValue c := by
          rw [modesAll_eq_map]
          intro m member
          obtain ⟨s, inside, rfl⟩ := List.mem_map.1 member
          refine ⟨fun c v c' inv valued => ?_, part s inside⟩
          exact ((always s inside).value.ok inv valued).imp_right (inShape v)
        refine ⟨fun v c' => Modes.drain_of_listValue (fun m member => (each m member).1) ?_ inv, .ofStream⟩
        exact fun m member c inv => ((each m member).2 c inv).drain_of_value
    | range | contextValue | root | documents | filter | varRef | delete => exact .ofValue shaped
    | arithmetic | comparison => exact .ofStreamAndItem .ofOption
    | forIn => exact .ofStreamAndItem .ofStream
    | deferred error type location =>
        exact .ofValueAndItem shaped (@Modes.ItemAgreesAt.ofValue location _ _ shaped)
    | dynamicCall callee arguments type location => exact .ofValueAndItem shaped (.ofValue shaped)
    | call f arguments type location => exact BuiltIn.modes_followValue shaped
    | conditional test yes no type location =>
        rw [modes_conditional]
        refine .after fun held c₁ ran => ?_
        obtain ⟨inv₁, -⟩ := (always test (by simp [parts])).boolean.ok inv ran
        cases held with
        | true => exact part yes (by simp [parts]) c₁ inv₁
        | false => exact part no (by simp [parts]) c₁ inv₁
    | letIn var bound body location =>
        have binds : (bindTo var location (bound.modes calls)).Always (At R focus) fun _ => True :=
          (always bound (by simp [parts])).value.bind fun v given => bindVariable_always fun c inv =>
            ⟨inv.focus_eq, carried.bind c var v trivial inv.rest given⟩
        have follows : (Modes.after (bindTo var location (bound.modes calls)) (fun _ => body.modes calls)
            location).FollowsValue c :=
          .after fun _ c₁ ran => part body (by simp [parts]) c₁ (binds.ok inv ran).1
        exact ⟨follows.drain_of_value, follows.single⟩

end Trees

/-! ## Atoms -/

section Answers

variable {make : Item → Item → Bool → Cause Expr} {first second : Item} {rest : List Item} {failure : Failure}
  {c c' : Context}

/-- Of the items behind the first two, an error tells only whether there are any. -/
theorem Failure.IsOfMany.replace {others : List Item} (many : failure.IsOfMany make first second rest)
    (same : rest = [] ↔ others = []) : failure.IsOfMany make first second others := by
  cases failure with
  | error e =>
      cases rest with
      | nil =>
          obtain rfl := same.1 rfl
          exact many
      | cons third later =>
          cases others with
          | nil => cases same.2 rfl
          | cons other more => exact many
  | callsTooDeep => exact many
  | fault fault => exact many

/-- A refusal of several items is the one that the atoms ask for exactly if the first two items are the first two
atoms and both have others behind them or neither has. -/
theorem singleAtomOf_error_iff {atoms : List Atom} (many : failure.IsOfMany .manyItems first second rest) :
    SingleAtomOf atoms c (.error failure, c') ↔
      ∃ a b others, atoms = a :: b :: others ∧ first = .atom a ∧ second = .atom b ∧ (rest = [] ↔ others = []) := by
  constructor
  · intro answer
    match atoms with
    | [] => cases answer
    | [a] => cases answer
    | a :: b :: others =>
        obtain ⟨_, _, same, wanted⟩ := answer
        cases same
        -- Both name the first two items of one error.
        cases failure with
        | error e =>
            obtain ⟨rfl, rfl, behind⟩ := Cause.manyItems.inj (many.1.symm.trans wanted.1)
            refine ⟨a, b, others, rfl, rfl, rfl, ?_⟩
            cases rest <;> cases others <;> simp at behind ⊢
        | callsTooDeep => exact many.elim
        | fault fault => exact many.elim
  · rintro ⟨a, b, others, rfl, rfl, rfl, same⟩
    exact ⟨failure, c', rfl, many.replace (same.trans List.map_eq_nil_iff.symm)⟩

end Answers

namespace Modes

variable {m : Modes} {c c' : Context} {atoms : List Atom}

theorem atomItem_of_none (asked : m.item c = (.ok none, c')) : m.atomItem c = (.ok none, c') := by
  simp only [atomItem, Eval.bind_apply, asked]
  rfl

theorem atomItem_of_error {failure : Failure} (asked : m.item c = (.error failure, c')) :
    m.atomItem c = (.error failure, c') := by
  simp only [atomItem, Eval.bind_apply, asked]

/-- A single item gives its only atom. -/
theorem atomItem_of_some {item : Item} (asked : m.item c = (.ok (some item), c')) (found : item.atoms = .ok atoms) :
    SingleAtomOf atoms c' (m.atomItem c) := by
  simp only [atomItem, Eval.bind_apply, asked, found]
  match atoms with
  | [] => rfl
  | [a] => rfl
  | a :: b :: others =>
      refine ⟨_, c', rfl, ?_⟩
      have many := isOfMany_manyItems (.atom a) (.atom b) (others.map .atom) m.location
      rwa [List.isEmpty_map] at many

/-- The answer for the only atom, given the items of the value and their atoms. -/
theorem atomItem_of_single {items : List Item} (single : SingleOf items c' (m.item c))
    (flattens : Flattens items atoms) :
    (items.length ≤ 1 → SingleAtomOf atoms c' (m.atomItem c)) ∧
      ∀ first second rest, items = first :: second :: rest →
        ∃ failure c₁, m.atomItem c = (.error failure, c₁) ∧ failure.IsOfMany .manyItems first second rest := by
  refine ⟨fun few => ?_, ?_⟩
  · obtain ⟨found, asked, rfl⟩ := single.atMostOne few
    cases found with
    | none =>
        cases flattens
        exact atomItem_of_none asked
    | some item => exact atomItem_of_some asked (ItemOf.atoms_of_flattens flattens)
  · rintro first second rest rfl
    obtain ⟨failure, c₁, asked, many⟩ := single
    exact ⟨failure, c₁, atomItem_of_error asked, many⟩

end Modes

/-- Wherever a value can be atomized, asking for its only atom answers by the items first.  If there is at most one
item, the answer is the one that its atoms ask for; several items are refused with the first two of them and whether
there are more, and that is what the atoms ask for exactly if these two are the first two atoms and there are others
behind them in both cases or in neither. -/
theorem atomItem_answers_by_items {good : Item → Prop} (nested : (Kind.valid good).Nested)
    (tagged : ∀ item, good item → item.Tagged) {calls : Calls}
    (stay : calls.Stay (Kind.valid good) (Kind.valid good).Bound) {e : Expr}
    (literals : e.Every (Expr.Bears (Kind.valid good) True)) {c c' : Context}
    (focus : (Kind.valid good).Focused c.focus) (bound : (Kind.valid good).Bound c) {w : Value}
    (atomized : (e.modes calls).atomValue c = (.ok w, c')) :
    ∃ v atoms, (e.modes calls).value c = (.ok v, c') ∧ Flattens v.items atoms ∧
      w.items = atoms.map .atom ∧
      (v.items.length ≤ 1 → SingleAtomOf atoms c' ((e.modes calls).atomItem c)) ∧
      ∀ first second rest, v.items = first :: second :: rest →
        (∃ failure c₁, (e.modes calls).atomItem c = (.error failure, c₁) ∧
          failure.IsOfMany .manyItems first second rest) ∧
        (SingleAtomOf atoms c' ((e.modes calls).atomItem c) ↔
          ∃ a b others, atoms = a :: b :: others ∧ first = .atom a ∧ second = .atom b ∧
            (rest = [] ↔ others = [])) := by
  have carried := (Kind.valid good).carried_bound fun _ => True
  have inv : At (Kind.valid good).Bound c.focus c := ⟨rfl, bound⟩
  obtain ⟨v, c₁, valued, converted⟩ := Eval.bind_ok_iff.1 atomized
  obtain ⟨made, rfl⟩ := Eval.ofExcept_ok_iff.1 converted
  have inShape : ∀ v, (Kind.valid good).value v → v.Shaped := fun v given => given.1.shaped
  have follows := Expr.modes_followValue inShape nested carried stay literals focus inv
  obtain ⟨-, valid, all⟩ := (Expr.modes_stay nested carried stay literals (fun _ _ => trivial) focus).value.ok inv
    valued
  obtain ⟨atoms, flattens, ⟨-, items⟩, -⟩ := valid.atomize_holds (fun item member => tagged item (all item member)) made
  obtain ⟨few, many⟩ := Modes.atomItem_of_single (follows.item_of_value valued) flattens
  refine ⟨v, atoms, valued, flattens, items, few, fun first second rest same => ?_⟩
  obtain ⟨failure, c₂, refused, isOfMany⟩ := many first second rest same
  refine ⟨⟨failure, c₂, refused, isOfMany⟩, ?_⟩
  rw [refused]
  exact singleAtomOf_error_iff isOfMany

/-- An atom, a node, or an array of atoms. -/
def ItemOf.Shallow : Item → Prop
  | .atom _ => True
  | .node _ => True
  | .array _ members type => type.isFunction = true ∧ ∀ v ∈ members, v.Valid ∧ ∀ item ∈ v.items, ∃ a, item = .atom a
  | _ => False

theorem shallow_nested : (Kind.valid ItemOf.Shallow).Nested where
  lawful := Kind.valid_lawful _
  atom := fun _ => trivial
  node := fun _ => trivial
  entry := fun _ _ _ impossible => impossible.elim
  member := fun _ _ _ shallow v member => by
    obtain ⟨valid, atoms⟩ := shallow.2 v member
    refine ⟨valid, fun item inside => ?_⟩
    obtain ⟨a, rfl⟩ := atoms item inside
    trivial

theorem ItemOf.Shallow.tagged {item : Item} (shallow : item.Shallow) : item.Tagged := by
  intro function
  cases item with
  | atom a => cases function
  | node n => cases function
  | array identity members type => exact shallow.1
  | function f => exact shallow.elim
  | map identity entries type => exact shallow.elim

/-- `[1 to 3]` -/
def arrayOfThree : Item := .array 0 [.range ⟨1, 3⟩] (.function .array)

/-- An array of three integers is a single item with three atoms. -/
theorem atomItem_of_arrayOfThree :
    let c := Context.initial {}
    ∃ failure c', (Expr.literal (.one arrayOfThree)).run.atomItem c = (.error failure, c') ∧
      failure.IsOfMany .manyItems (.integer 1) (.integer 2) [.integer 3] := by
  intro c
  have shallow : arrayOfThree.Shallow := by
    refine ⟨rfl, List.forall_mem_singleton.2 ⟨⟨by decide, by decide, by decide⟩, fun item inside => ?_⟩⟩
    obtain ⟨i, _, rfl⟩ := List.mem_map.1 inside
    exact ⟨_, rfl⟩
  have flattens : Flattens (ValueOf.one arrayOfThree).items [.integer 1, .integer 2, .integer 3] :=
    have inside : Flattens ([.range ⟨1, 3⟩].flatMap fun member : Value => member.items)
        [.integer 1, .integer 2, .integer 3] := flattens_atoms [.integer 1, .integer 2, .integer 3]
    .array inside .nil
  have made : (ValueOf.one arrayOfThree).atomize =
      .ok (.collect ([.integer 1, .integer 2, .integer 3].map .atom)) := by
    have collected : (ValueOf.one arrayOfThree).atomize =
        (ValueOf.one arrayOfThree).atoms.map fun atoms => .collect (atoms.map .atom) := rfl
    rw [collected, ValueOf.atoms_of_flattens flattens]
    rfl
  have atomized : (Expr.literal (.one arrayOfThree)).run.atomValue c = (.ok _, c) :=
    Eval.bind_ok_iff.2 ⟨_, c, rfl, Eval.ofExcept_ok_iff.2 ⟨made, rfl⟩⟩
  have literals : (Expr.literal (.one arrayOfThree)).Every (Expr.Bears (Kind.valid ItemOf.Shallow) True) :=
    .node (ValueOf.good_one shallow) fun _ none => by cases none
  have stay : (callsWithin callDepth).Stay (Kind.valid ItemOf.Shallow) (Kind.valid ItemOf.Shallow).Bound :=
    callsWithin_stay shallow_nested (fun _ impossible => impossible.elim) (fun _ impossible => impossible.elim)
      (Kind.carried_bound _ fun _ => True) callDepth
  obtain ⟨v, atoms, valued, derived, -, few, -⟩ := atomItem_answers_by_items shallow_nested
    (fun item => ItemOf.Shallow.tagged) stay literals (fun _ none => by cases none)
    (fun _ _ none => by cases none) atomized
  cases valued
  obtain rfl : [.integer 1, .integer 2, .integer 3] = atoms :=
    Except.ok.inj ((ValueOf.atoms_of_flattens flattens).symm.trans (ValueOf.atoms_of_flattens derived))
  exact few (by decide)

/-- `([], 1)` -/
def emptyArrayAndOne : Expr := .listOf [.literal (.one (.array 0 [] (.function .array))), .literal (.integer 1)] none

/-- An array without members and an integer have a single atom, but are refused as two items. -/
theorem atomItem_refuses_emptyArrayAndOne :
    let c := Context.initial {}
    ∃ w c', emptyArrayAndOne.run.atomValue c = (.ok w, c') ∧ w.items = [.integer 1] ∧
      ¬ SingleAtomOf [.integer 1] c' (emptyArrayAndOne.run.atomItem c) := by
  intro c
  let v : Value := .flat [.array 0 [] (.function .array), .integer 1] ⟨.item, false⟩
  have valued : emptyArrayAndOne.run.value c = (.ok v, c) := by with_unfolding_all rfl
  have flattens : Flattens v.items [.integer 1] :=
    have inside : Flattens ([].flatMap fun member : Value => member.items) [] := .nil
    .array inside (.atom _ .nil)
  have made : v.atomize = .ok (.collect [.integer 1]) := by
    rw [ValueOf.atomize, if_neg (by decide), ValueOf.atoms_of_flattens flattens]
    rfl
  have refused : emptyArrayAndOne.run.item c =
      (.error (.error ⟨.manyItems (.array 0 [] (.function .array)) (.integer 1) false, none⟩), c) := by
    with_unfolding_all rfl
  refine ⟨_, c, Eval.bind_ok_iff.2 ⟨v, c, valued, Eval.ofExcept_ok_iff.2 ⟨made, rfl⟩⟩, rfl, fun answer => ?_⟩
  rw [Modes.atomItem_of_error refused] at answer
  cases answer

end QueryKernel
