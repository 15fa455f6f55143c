import QueryKernel.Proofs.Eval.Bounds

/-!
# Ways that agree and keep to their type

Ways to evaluate that are sound, agree with each other, and yield no more items than a static type
allows; and the ways of putting them together that keep these properties.

Agreement and bounds depend on each other: a way derived for at most one item agrees only where the bound holds,
and the bound of a value follows from that of the stream by agreement.
-/

namespace QueryKernel

variable {declared : Declarations} {good : Item → Prop} {c : Context}

open Modes (KeepsSound)

/-! ## Sequences of computations -/

theorem drainStream_bind {A : Type} (x : Eval A) (f : A → Eval Stream) :
    drainStream (x >>= f) = x >>= fun a => drainStream (f a) := Eval.bind_assoc x f _

namespace Modes

/-- Ways to evaluate that start with the same computation. -/
def after {A : Type} (x : Eval A) (rest : A → Modes) (location : Option Location) : Modes where
  location := location
  stream := do (rest (← x)).stream
  item := do (rest (← x)).item
  value := do (rest (← x)).value
  booleanItem := do (rest (← x)).booleanItem

theorem ItemAgreesAt.after {A : Type} {x : Eval A} {stream : A → Eval Stream}
    {item : A → Eval (Option Item)}
    (agrees : ∀ a c₁, x c = (.ok a, c₁) → ItemAgreesAt (stream a) (item a) c₁) :
    ItemAgreesAt (x >>= stream) (x >>= item) c := by
  constructor
  · intro items c' drained
    rw [drainStream_bind] at drained
    obtain ⟨a, c₁, ran, drained⟩ := Eval.bind_ok_iff.1 drained
    rw [Eval.bind_apply, ran]
    exact (agrees a c₁ ran).item_of_drain items c' drained
  · intro found c' asked
    obtain ⟨a, c₁, ran, asked⟩ := Eval.bind_ok_iff.1 asked
    rw [drainStream_bind]
    exact Eval.bind_ok_iff.2 ⟨a, c₁, ran, (agrees a c₁ ran).drain_of_item found c' asked⟩

theorem AgreeAt.item {m : Modes} (agree : m.AgreeAt c) : ItemAgreesAt m.stream m.item c :=
  ⟨agree.item_of_drain, agree.drain_of_item⟩

theorem value_after {A : Type} {x : Eval A} {rest : A → Modes}
    (agree : ∀ a c₁, x c = (.ok a, c₁) → (rest a).AgreeAt c₁) {items : List Item} {c' : Context}
    (drained : drainStream (x >>= fun a => (rest a).stream) c = (.ok items, c'))
    (fits : items.length ≤ maxSize) :
    ∃ v, (x >>= fun a => (rest a).value) c = (.ok v, c') ∧ v.items = items := by
  rw [drainStream_bind] at drained
  obtain ⟨a, c₁, ran, drained⟩ := Eval.bind_ok_iff.1 drained
  obtain ⟨v, valued, same⟩ := (agree a c₁ ran).value_of_drain items c' drained fits
  exact ⟨v, Eval.bind_ok_iff.2 ⟨a, c₁, ran, valued⟩, same⟩

theorem drain_after {A : Type} {x : Eval A} {rest : A → Modes}
    (drains : ∀ a c₁, x c = (.ok a, c₁) → ∀ v c', (rest a).value c₁ = (.ok v, c') →
      (rest a).drain c₁ = (.ok v.items, c')) {v : Value} {c' : Context}
    (valued : (x >>= fun a => (rest a).value) c = (.ok v, c')) :
    drainStream (x >>= fun a => (rest a).stream) c = (.ok v.items, c') := by
  obtain ⟨a, c₁, ran, valued⟩ := Eval.bind_ok_iff.1 valued
  rw [drainStream_bind]
  exact Eval.bind_ok_iff.2 ⟨a, c₁, ran, drains a c₁ ran v c' valued⟩

theorem AgreeAt.after {A : Type} {x : Eval A} {rest : A → Modes} {location : Option Location}
    (agree : ∀ a c₁, x c = (.ok a, c₁) → (rest a).AgreeAt c₁) :
    (Modes.after x rest location).AgreeAt c := by
  have single := ItemAgreesAt.after fun a c₁ ran => (agree a c₁ ran).item
  refine ⟨fun items c' drained fits => value_after agree drained fits,
    fun v c' => drain_after fun a c₁ ran => (agree a c₁ ran).drain_of_value, single.item_of_drain,
    single.drain_of_item, fun items c' drained => ?_⟩
  change drainStream (x >>= fun a => (rest a).stream) c = (.ok items, c') at drained
  rw [drainStream_bind] at drained
  obtain ⟨a, c₁, ran, drained⟩ := Eval.bind_ok_iff.1 drained
  have answer := (agree a c₁ ran).boolean_of_drain items c' drained
  change BooleanOf items ((x >>= fun a => (rest a).booleanItem) c).1
  rw [Eval.bind_apply, ran]
  exact answer

/-! ## Operands one after another -/

theorem pullAll_cons_ok_iff {start : Eval Stream} {rest : List (Eval Stream)} {items : List Item}
    {c' : Context} : (Stream.pullAll (start :: rest) c).drain = (.ok items, c') ↔
      ∃ front c₁ back, drainStream start c = (.ok front, c₁) ∧
        (Stream.pullAll rest c₁).drain = (.ok back, c') ∧ items = front ++ back := by
  simp only [drainStream_ok_iff, Stream.pullAll]
  cases started : start c with
  | mk result c₁ =>
      cases result with
      | error e => simp [Step.drain]
      | ok s =>
          simp only [Step.drain_andThen]
          constructor
          · rintro ⟨front, c₂, back, first, second, same⟩
            exact ⟨front, c₂, back, ⟨s, c₁, rfl, first⟩, second, same⟩
          · rintro ⟨front, c₂, back, ⟨s', c₁', same', first⟩, second, same⟩
            cases same'
            exact ⟨front, c₂, back, first, second, same⟩

/-- Adds the value of an operand. -/
def addOperand (b : ValueBuilder Expr) (m : Modes) : Eval (ValueBuilder Expr) := do
  Eval.checkStop
  let v ← m.value
  Eval.ofFaulty (b.addValueBounded v)

theorem addValueBounded_of_le {b : ValueBuilder Expr} {items : List Item} {v : Value}
    (collects : b.Collects items) (valid : v.Valid) (fits : (items ++ v.items).length ≤ maxSize) :
    ∃ grown, b.addValueBounded v = .ok grown ∧ grown.Collects (items ++ v.items) := by
  have joined := collects.addValue valid
  refine ⟨b.addValue v, ?_, joined⟩
  rw [ValueBuilder.addValueBounded, if_pos (by rw [joined.size_eq]; exact fits)]

section Operands

variable {parts : List Modes} (sound : ∀ m ∈ parts, m.Sound declared good)
  (agree : ∀ m ∈ parts, ∀ c, c.Sound declared good → m.AgreeAt c)

include sound agree

/-- Operands that can be drained have values, added up by a builder. -/
theorem addOperands_of_drain (inv : c.Sound declared good) {b : ValueBuilder Expr}
    {front items : List Item} {c' : Context} (collects : b.Collects front)
    (drained : (Stream.pullAll (parts.map (·.stream)) c).drain = (.ok items, c'))
    (fits : (front ++ items).length ≤ maxSize) :
    ∃ b', Eval.foldList addOperand b parts c = (.ok b', c') ∧ b'.Collects (front ++ items) := by
  induction parts generalizing c b front items with
  | nil =>
      cases drained
      exact ⟨b, rfl, by rwa [List.append_nil]⟩
  | cons m rest rest_ih =>
      obtain ⟨first, c₁, back, drained₁, drained₂, rfl⟩ := pullAll_cons_ok_iff.1 drained
      have member : m ∈ m :: rest := List.mem_cons_self
      -- The bound on all items leaves room for those of each operand.
      rw [← List.append_assoc] at fits
      have fits₁ : (front ++ first).length ≤ maxSize :=
        Nat.le_trans ((List.sublist_append_left _ back).length_le) fits
      obtain ⟨v, valued, rfl⟩ := (agree m member c inv).value_of_drain first c₁ drained₁
        (Nat.le_trans (List.sublist_append_right front first).length_le fits₁)
      obtain ⟨inv₁, holds⟩ := (sound m member).value c v c₁ inv valued
      obtain ⟨grown, added, collects₁⟩ := addValueBounded_of_le collects holds.1 fits₁
      obtain ⟨b', ran, collects'⟩ := rest_ih
        (fun other later => sound other (List.mem_cons_of_mem _ later))
        (fun other later => agree other (List.mem_cons_of_mem _ later)) inv₁ collects₁ drained₂ fits
      refine ⟨b', ?_, by rwa [← List.append_assoc]⟩
      rw [Eval.foldList_cons]
      refine Eval.bind_ok_iff.2 ⟨grown, c₁, ?_, ran⟩
      refine Eval.bind_ok_iff.2 ⟨(), c, Eval.checkStop_ok_iff.2 ⟨inv.runs, rfl⟩, ?_⟩
      exact Eval.bind_ok_iff.2 ⟨v, c₁, valued, Eval.ofFaulty_ok_iff.2 ⟨added, rfl⟩⟩

end Operands

/-- Operands whose values can be added up can be drained, if each of them can. -/
theorem drain_of_addOperands {Inv : Context → Prop} {parts : List Modes}
    (shaped : ∀ m ∈ parts, m.value.Keeps Inv ValueOf.Shaped)
    (drains : ∀ m ∈ parts, ∀ c, Inv c → ∀ v c', m.value c = (.ok v, c') → m.drain c = (.ok v.items, c'))
    (inv : Inv c) {b b' : ValueBuilder Expr} {front : List Item} {c' : Context} (gathers : b.Gathers front)
    (ran : Eval.foldList addOperand b parts c = (.ok b', c')) :
    ∃ items, (Stream.pullAll (parts.map (·.stream)) c).drain = (.ok items, c') ∧
      b'.Gathers (front ++ items) := by
  induction parts generalizing c b front with
  | nil =>
      cases ran
      exact ⟨[], rfl, by rwa [List.append_nil]⟩
  | cons m rest rest_ih =>
      have member : m ∈ m :: rest := List.mem_cons_self
      rw [Eval.foldList_cons] at ran
      obtain ⟨grown, c₁, stepped, others⟩ := Eval.bind_ok_iff.1 ran
      obtain ⟨_, c₂, checked, asked⟩ := Eval.bind_ok_iff.1 stepped
      obtain ⟨-, rfl⟩ := Eval.checkStop_ok_iff.1 checked
      obtain ⟨v, c₃, valued, grew⟩ := Eval.bind_ok_iff.1 asked
      obtain ⟨added, rfl⟩ := Eval.ofFaulty_ok_iff.1 grew
      obtain ⟨inv₁, holds⟩ := shaped m member c₂ v c₃ inv valued
      obtain ⟨back, drained, gathers'⟩ := rest_ih
        (fun other later => shaped other (List.mem_cons_of_mem _ later))
        (fun other later => drains other (List.mem_cons_of_mem _ later)) inv₁
        (gathers.addValueBounded holds added) others
      have drained₁ := drains m member c₂ inv v c₃ valued
      refine ⟨v.items ++ back, pullAll_cons_ok_iff.2 ⟨v.items, c₃, back, drained₁, drained, rfl⟩, ?_⟩
      rwa [← List.append_assoc]

/-- The value of operands has the items that they yield. -/
theorem drain_of_listValue {Inv : Context → Prop} {parts : List Modes}
    (shaped : ∀ m ∈ parts, m.value.Keeps Inv ValueOf.Shaped)
    (drains : ∀ m ∈ parts, ∀ c, Inv c → ∀ v c', m.value c = (.ok v, c') → m.drain c = (.ok v.items, c'))
    (inv : Inv c) {v : Value} {c' : Context} (ran : listValue parts c = (.ok v, c')) :
    drainStream (pure ⟨none, Stream.pullAll (parts.map (·.stream))⟩) c = (.ok v.items, c') := by
  obtain ⟨b, c₁, added, frozen⟩ := Eval.bind_ok_iff.1 ran
  obtain ⟨rfl, rfl⟩ := Eval.pure_ok_iff.1 frozen
  obtain ⟨items, drained, gathers⟩ := drain_of_addOperands shaped drains inv ValueBuilder.empty_gathers added
  rw [gathers.freeze.2]
  exact drained

theorem AgreeAt.ofList {parts : List Modes} (sound : ∀ m ∈ parts, m.Sound declared good)
    (agree : ∀ m ∈ parts, ∀ c, c.Sound declared good → m.AgreeAt c) (inv : c.Sound declared good)
    {location : Option Location} {atMostOne : Bool}
    (few : FewAt atMostOne (pure ⟨none, Stream.pullAll (parts.map (·.stream))⟩) c) :
    AgreeAt { Modes.ofStream location atMostOne (pure ⟨none, Stream.pullAll (parts.map (·.stream))⟩) with
      value := listValue parts } c := by
  refine AgreeAt.ofStreamAndItem .ofStream few (fun items c' drained fits => ?_) fun v c' =>
    drain_of_listValue (fun m member c v c' inv ran => ?_)
      (fun m member c inv => (agree m member c inv).drain_of_value) inv
  · obtain ⟨b, ran, collects⟩ :=
      addOperands_of_drain sound agree inv ValueBuilder.empty_collects drained fits
    exact ⟨b.freeze, Eval.bind_ok_iff.2 ⟨b, c', ran, rfl⟩, collects.freeze_holds.2⟩
  · obtain ⟨inv', holds⟩ := (sound m member).value c v c' inv ran
    exact ⟨inv', holds.1.shaped⟩

/-! ## Faithful ways -/

/-- Sound ways to evaluate that agree and yield no more items than a type allows. -/
structure Faithful (declared : Declarations) (good : Item → Prop) (t : StaticType) (m : Modes) :
    Prop where
  sound : m.Sound declared good
  agree : ∀ c, c.Sound declared good → m.AgreeAt c
  admits : t.Admits (StreamAtMost declared good m.stream)

variable {t : StaticType}

theorem fewAt_of_admits {stream : Eval Stream}
    (sound : KeepsSound declared good (Stream.Sound (Context.Sound declared good) good) stream)
    (admits : t.Admits (StreamAtMost declared good stream)) (inv : c.Sound declared good) :
    FewAt t.sequenceType.isAtMostOne stream c := by
  intro said items c' drained
  have upper := (SequenceType.isAtMostOne_iff _).1 said
  exact Nat.le_trans ((admits.most (by omega)).drain sound inv drained) upper

/-- The value has no more items than the stream may yield. -/
theorem Faithful.value_admits {m : Modes} (faithful : m.Faithful declared good t) :
    t.Admits (ValueAtMost declared good m.value) := by
  refine faithful.admits.mono fun n few c v c' inv ran => ?_
  obtain ⟨inv', holds⟩ := faithful.sound.value c v c' inv ran
  have drained := (faithful.agree c inv).drain_of_value v c' ran
  exact ⟨inv', holds, few.drain faithful.sound.stream inv drained⟩

section Rules

variable {value : Eval Value} {item : Eval (Option Item)} {location : Option Location}

theorem valueFits_of_admits (keeps : KeepsSound declared good (ValueOf.Good good) value)
    (admits : t.Admits (ValueAtMost declared good value)) (inv : c.Sound declared good) :
    ValueFitsAt t.sequenceType.isAtMostOne value c := by
  refine ⟨fun v c' ran => (keeps c v c' inv ran).2.1, fun said v c' ran => ?_⟩
  have upper := (SequenceType.isAtMostOne_iff _).1 said
  obtain ⟨_, _, few⟩ := admits.most (by omega) c v c' inv ran
  exact Nat.le_trans few upper

theorem Faithful.ofValue (closed : ItemClass good)
    (keeps : KeepsSound declared good (ValueOf.Good good) value)
    (admits : t.Admits (ValueAtMost declared good value)) :
    (Modes.ofValue location t.sequenceType.isAtMostOne value).Faithful declared good t :=
  ⟨.ofValue closed keeps, fun _ inv => .ofValue (valueFits_of_admits keeps admits inv),
    admits.mono fun _ few => few.stream⟩

theorem Faithful.ofValueAndItem (closed : ItemClass good)
    (keeps : KeepsSound declared good (ValueOf.Good good) value)
    (itemKeeps : KeepsSound declared good (fun found => ∀ a, found = some a → good a) item)
    (admits : t.Admits (ValueAtMost declared good value))
    (agrees : ∀ c, c.Sound declared good → ItemAgreesAt (do return .ofValue (← value)) item c) :
    (Modes.ofValueAndItem location t.sequenceType.isAtMostOne value item).Faithful declared good t :=
  ⟨.ofValueAndItem closed keeps itemKeeps,
    fun c inv => .ofValueAndItem (valueFits_of_admits keeps admits inv) (agrees c inv),
    admits.mono fun _ few => few.stream⟩

/-- A value and its only item. -/
theorem Faithful.ofValueAndSingle (closed : ItemClass good)
    (keeps : KeepsSound declared good (ValueOf.Good good) value)
    (admits : t.Admits (ValueAtMost declared good value)) :
    (Modes.ofValueAndItem location t.sequenceType.isAtMostOne value
      (do singleOfValue location (← value))).Faithful declared good t :=
  .ofValueAndItem closed keeps (keeps.bind fun _ holds => singleOfValue_keeps holds) admits
    fun c inv => .ofValue fun v c' ran => (keeps c v c' inv ran).2.1.shaped

/-- An item and the value made from it. -/
theorem Faithful.ofItemAndValue (closed : ItemClass good)
    (keeps : KeepsSound declared good (fun found => ∀ a, found = some a → good a) item)
    (admits : t.Admits (ValueAtMost declared good (do return valueOfOption (← item)))) :
    (Modes.ofValueAndItem location t.sequenceType.isAtMostOne
      (do return valueOfOption (← item)) item).Faithful declared good t :=
  .ofValueAndItem closed (keeps.bind fun _ holds => .pure (good_valueOfOption holds)) keeps admits
    fun _ _ => .ofItem

/-- An item alone, for a type that allows one. -/
theorem Faithful.ofItem (closed : ItemClass good)
    (keeps : KeepsSound declared good (fun found => ∀ a, found = some a → good a) item)
    (one : t.Admits (1 ≤ ·)) :
    (Modes.ofItem location t.sequenceType.isAtMostOne item).Faithful declared good t := by
  refine ⟨.ofItem closed keeps, fun c inv => .ofItem keeps (fun _ inv => inv.runs) inv,
    one.mono fun n fits => ?_⟩
  refine keeps.bind fun found holds => .pure fun c inv => ?_
  refine (Stream.ofValue_atMost (valueOfOption_valid found) c inv).mono (Nat.le_trans ?_ fits)
  rw [items_valueOfOption]
  cases found <;> simp

end Rules

end Modes

end QueryKernel
