import QueryKernel.Proofs.Eval.Drain
import QueryKernel.Proofs.Value.Reachable

/-!
# Ways to evaluate that agree

What the other ways to evaluate have to give when the stream of an expression can be drained, and that
the ways derived from a stream, a value or an item give that.

## Definitions

* `drainStream` reads a stream to its end.
* `Failure.IsOfMany` is a failure because there are several items.
* `SingleOf` and `BooleanOf` are the answers for a list of items.
* `Modes.AgreeAt` says that all ways agree when started in a context.
-/

namespace QueryKernel

/-- All items of a stream. -/
def drainStream (stream : Eval Stream) : Eval (List Item) := do
  let s ← stream
  fun c => (s.pull c).drain

/-- A failure because there are several items.  Its payload has the first two of them, and dots exactly
if there are more. -/
def Failure.IsOfMany (make : Item → Item → Bool → Cause Expr) (first second : Item) (rest : List Item) :
    Failure → Prop
  | .error e => e.cause = make first second (!rest.isEmpty) ∧ e.cause.kind = .cardinality ∧
      e.cause.payload = [.item first, .item second] ++ (if rest = [] then [] else [.text "..."])
  | _ => False

/-- The answer to asking for at most one of some items: none, the only one, or an error with the first
two and whether there are more. -/
def SingleOf (items : List Item) (c : Context) (result : Except Failure (Option Item) × Context) : Prop :=
  match items with
  | [] => result = (.ok none, c)
  | [item] => result = (.ok (some item), c)
  | first :: second :: rest =>
      ∃ failure c', result = (.error failure, c') ∧ failure.IsOfMany .manyItems first second rest

/-- The answer to asking for the item that has the boolean value of some items. -/
def BooleanOf (items : List Item) (result : Except Failure Item) : Prop :=
  match items with
  | [] => result = .ok (.boolean false)
  | [item] => result = .ok item
  | first :: second :: rest =>
      if first.isNode then result = .ok first
      else ∃ failure, result = .error failure ∧ failure.IsOfMany .booleanOfMany first second rest

theorem isOfMany_manyItems (first second : Item) (rest : List Item) (location : Option Location) :
    Failure.IsOfMany .manyItems first second rest
      (.error ⟨.manyItems first second (!rest.isEmpty), location⟩) := by
  refine ⟨rfl, rfl, ?_⟩
  cases rest <;> rfl

theorem isOfMany_booleanOfMany (first second : Item) (rest : List Item) (location : Option Location) :
    Failure.IsOfMany .booleanOfMany first second rest
      (.error ⟨.booleanOfMany first second (!rest.isEmpty), location⟩) := by
  refine ⟨rfl, rfl, ?_⟩
  cases rest <;> rfl

namespace Modes

/-- All items of the stream. -/
def drain (m : Modes) : Eval (List Item) := drainStream m.stream

/-- All ways to evaluate agree in a context.  Sequences too long for a 64-bit size have no value. -/
structure AgreeAt (m : Modes) (c : Context) : Prop where
  value_of_drain : ∀ items c', m.drain c = (.ok items, c') → items.length ≤ maxSize →
    ∃ v, m.value c = (.ok v, c') ∧ v.items = items
  drain_of_value : ∀ v c', m.value c = (.ok v, c') → m.drain c = (.ok v.items, c')
  item_of_drain : ∀ items c', m.drain c = (.ok items, c') → SingleOf items c' (m.item c)
  drain_of_item : ∀ item c', m.item c = (.ok item, c') → m.drain c = (.ok item.toList, c')
  boolean_of_drain : ∀ items c', m.drain c = (.ok items, c') → BooleanOf items (m.booleanItem c).1

end Modes

/-! ## The answers of a stream -/

theorem drainStream_ok_iff {stream : Eval Stream} {c c' : Context} {items : List Item} :
    drainStream stream c = (.ok items, c') ↔
      ∃ s c₁, stream c = (.ok s, c₁) ∧ (s.pull c₁).drain = (.ok items, c') :=
  Eval.bind_ok_iff

theorem Stream.next_apply (s : Stream) (c : Context) :
    s.next c = match s.pull c with
      | .done c => (.ok none, c)
      | .failed c e => (.error e, c)
      | .yield c item left rest => (.ok (some (item, ⟨left, rest⟩)), c) := rfl

theorem Stream.next_of_drain_nil {s : Stream} {c c' : Context}
    (drained : (s.pull c).drain = (.ok [], c')) : s.next c = (.ok none, c') := by
  rw [next_apply]
  cases pulled : s.pull c with
  | done c₁ =>
      rw [pulled] at drained
      cases drained
      rfl
  | failed c₁ e =>
      rw [pulled] at drained
      cases drained
  | yield c₁ item left rest =>
      rw [pulled] at drained
      obtain ⟨others, _, same⟩ := Step.drain_yield_ok.1 drained
      cases same

theorem Stream.next_of_drain_cons {s : Stream} {c c' : Context} {item : Item} {others : List Item}
    (drained : (s.pull c).drain = (.ok (item :: others), c')) :
    ∃ s' c₁, s.next c = (.ok (some (item, s')), c₁) ∧ (s'.pull c₁).drain = (.ok others, c') := by
  rw [next_apply]
  cases pulled : s.pull c with
  | done c₁ =>
      rw [pulled] at drained
      cases drained
  | failed c₁ e =>
      rw [pulled] at drained
      cases drained
  | yield c₁ first left rest =>
      rw [pulled] at drained
      obtain ⟨others, rested, same⟩ := Step.drain_yield_ok.1 drained
      cases same
      exact ⟨_, _, rfl, rested⟩

theorem Stream.drain_of_next_none {s : Stream} {c c₁ : Context} (asked : s.next c = (.ok none, c₁)) :
    (s.pull c).drain = (.ok [], c₁) := by
  rw [next_apply] at asked
  cases pulled : s.pull c with
  | done c₂ =>
      rw [pulled] at asked
      cases asked
      rfl
  | failed c₂ e =>
      rw [pulled] at asked
      cases asked
  | yield c₂ item left rest =>
      rw [pulled] at asked
      cases asked

theorem Stream.drain_of_next_some {s s' : Stream} {c c₁ c' : Context} {item : Item}
    {others : List Item} (asked : s.next c = (.ok (some (item, s')), c₁))
    (rested : (s'.pull c₁).drain = (.ok others, c')) :
    (s.pull c).drain = (.ok (item :: others), c') := by
  rw [next_apply] at asked
  cases pulled : s.pull c with
  | done c₂ =>
      rw [pulled] at asked
      cases asked
  | failed c₂ e =>
      rw [pulled] at asked
      cases asked
  | yield c₂ first left rest =>
      rw [pulled] at asked
      cases asked
      exact Step.drain_yield_ok.2 ⟨others, rested, rfl⟩

theorem singleOfStream_of_drain {location : Option Location} {stream : Eval Stream} {c c' : Context}
    {items : List Item} (drained : drainStream stream c = (.ok items, c')) :
    SingleOf items c' (singleOfStream location stream c) := by
  obtain ⟨s, c₁, started, pulled⟩ := drainStream_ok_iff.1 drained
  unfold singleOfStream
  match items with
  | [] =>
      simp only [SingleOf, Eval.bind_apply, started, Stream.next_of_drain_nil pulled]
      rfl
  | [first] =>
      obtain ⟨s₁, c₂, asked, pulled⟩ := Stream.next_of_drain_cons pulled
      simp only [SingleOf, Eval.bind_apply, started, asked, Stream.next_of_drain_nil pulled]
      rfl
  | [first, second] =>
      obtain ⟨s₁, c₂, asked, pulled⟩ := Stream.next_of_drain_cons pulled
      obtain ⟨s₂, c₃, asked₁, pulled⟩ := Stream.next_of_drain_cons pulled
      simp only [SingleOf, Eval.bind_apply, started, asked, asked₁, Stream.next_of_drain_nil pulled]
      exact ⟨_, _, rfl, isOfMany_manyItems first second [] location⟩
  | first :: second :: third :: rest =>
      obtain ⟨s₁, c₂, asked, pulled⟩ := Stream.next_of_drain_cons pulled
      obtain ⟨s₂, c₃, asked₁, pulled⟩ := Stream.next_of_drain_cons pulled
      obtain ⟨s₃, c₄, asked₂, _⟩ := Stream.next_of_drain_cons pulled
      simp only [SingleOf, Eval.bind_apply, started, asked, asked₁, asked₂]
      exact ⟨_, _, rfl, isOfMany_manyItems first second (third :: rest) location⟩

theorem drain_of_singleOfStream {location : Option Location} {stream : Eval Stream} {c c' : Context}
    {item : Option Item} (ran : singleOfStream location stream c = (.ok item, c')) :
    drainStream stream c = (.ok item.toList, c') := by
  unfold singleOfStream at ran
  obtain ⟨s, c₁, started, ran⟩ := Eval.bind_ok_iff.1 ran
  obtain ⟨found, c₂, asked, ran⟩ := Eval.bind_ok_iff.1 ran
  rw [drainStream_ok_iff]
  refine ⟨s, c₁, started, ?_⟩
  match found with
  | none =>
      obtain ⟨rfl, rfl⟩ := Eval.pure_ok_iff.1 ran
      exact Stream.drain_of_next_none asked
  | some (first, s₁) =>
      obtain ⟨found, c₃, asked₁, ran⟩ := Eval.bind_ok_iff.1 ran
      match found with
      | none =>
          obtain ⟨rfl, rfl⟩ := Eval.pure_ok_iff.1 ran
          exact Stream.drain_of_next_some asked (Stream.drain_of_next_none asked₁)
      | some (second, s₂) =>
          obtain ⟨third, c₄, _, ran⟩ := Eval.bind_ok_iff.1 ran
          exact (Eval.raise_ok_iff.1 ran).elim

theorem booleanItemOfStream_of_drain {location : Option Location} {stream : Eval Stream}
    {c c' : Context} {items : List Item} (drained : drainStream stream c = (.ok items, c')) :
    BooleanOf items (booleanItemOfStream location stream c).1 := by
  obtain ⟨s, c₁, started, pulled⟩ := drainStream_ok_iff.1 drained
  unfold booleanItemOfStream
  -- The first item may decide alone; the next two tell how many there are.
  match items with
  | [] =>
      simp only [BooleanOf, Eval.bind_apply, started, Stream.next_of_drain_nil pulled]
      rfl
  | [first] =>
      obtain ⟨s₁, c₂, asked, pulled⟩ := Stream.next_of_drain_cons pulled
      simp only [BooleanOf, Eval.bind_apply, started, asked]
      split
      · rfl
      · simp only [Eval.bind_apply, Stream.next_of_drain_nil pulled]
        rfl
  | [first, second] =>
      obtain ⟨s₁, c₂, asked, pulled⟩ := Stream.next_of_drain_cons pulled
      obtain ⟨s₂, c₃, asked₁, pulled⟩ := Stream.next_of_drain_cons pulled
      simp only [BooleanOf, Eval.bind_apply, started, asked]
      split
      · rfl
      · simp only [Eval.bind_apply, asked₁, Stream.next_of_drain_nil pulled]
        exact ⟨_, rfl, isOfMany_booleanOfMany first second [] location⟩
  | first :: second :: third :: rest =>
      obtain ⟨s₁, c₂, asked, pulled⟩ := Stream.next_of_drain_cons pulled
      obtain ⟨s₂, c₃, asked₁, pulled⟩ := Stream.next_of_drain_cons pulled
      obtain ⟨s₃, c₄, asked₂, _⟩ := Stream.next_of_drain_cons pulled
      simp only [BooleanOf, Eval.bind_apply, started, asked]
      split
      · rfl
      · simp only [Eval.bind_apply, asked₁, asked₂]
        exact ⟨_, rfl, isOfMany_booleanOfMany first second (third :: rest) location⟩

/-- Adding the items of a stream to a builder is draining the stream, where there is no reason to
stop. -/
theorem fold_addBack_eq {Inv : Context → Prop} {good : Item → Prop}
    (runs : ∀ c, Inv c → c.stopCause? = none) {s : Step} (sound : s.Sound Inv good) :
    s.fold (fun (b : ValueBuilder Expr) item => do
      Eval.checkStop
      pure (b.addBack item)) ValueBuilder.empty =
    match s.drain with
      | (.ok items, c) => (.ok (items.foldl ValueBuilder.addBack .empty), c)
      | (.error e, c) => (.error e, c) := by
  refine sound.fold_eq (fun b item c inv => ?_) _
  exact Eval.bind_ok_iff.2 ⟨(), c, Eval.checkStop_ok_iff.2 ⟨runs c inv, rfl⟩, rfl⟩

/-- What is collected are the items of the stream. -/
theorem drain_of_collectStream {stream : Eval Stream} {c c' : Context} {v : Value}
    (ran : collectStream stream c = (.ok v, c')) :
    ∃ items, drainStream stream c = (.ok items, c') ∧ ValueOf.collect items = v := by
  obtain ⟨s, c₁, started, ran⟩ := Eval.bind_ok_iff.1 ran
  obtain ⟨builder, c₂, collected, frozen⟩ := Eval.bind_ok_iff.1 ran
  obtain ⟨rfl, rfl⟩ := Eval.pure_ok_iff.1 frozen
  obtain ⟨items, drained, rfl⟩ := Step.drain_of_fold (g := ValueBuilder.addBack) (fun b item d b' d' stepped => by
    obtain ⟨_, d₁, checked, added⟩ := Eval.bind_ok_iff.1 stepped
    obtain ⟨-, rfl⟩ := Eval.checkStop_ok_iff.1 checked
    obtain ⟨rfl, rfl⟩ := Eval.pure_ok_iff.1 added
    exact ⟨rfl, rfl⟩) collected
  exact ⟨items, drainStream_ok_iff.2 ⟨s, c₁, started, drained⟩, rfl⟩

/-- Collecting a stream is draining it, where there is no reason to stop. -/
theorem collectStream_ok_iff {Inv : Context → Prop} {good : Item → Prop} {stream : Eval Stream}
    (sound : stream.Keeps Inv (Stream.Sound Inv good)) (runs : ∀ c, Inv c → c.stopCause? = none)
    {c c' : Context} (inv : Inv c) {v : Value} :
    collectStream stream c = (.ok v, c') ↔
      ∃ items, drainStream stream c = (.ok items, c') ∧ ValueOf.collect items = v := by
  refine ⟨drain_of_collectStream, ?_⟩
  rintro ⟨items, drained, rfl⟩
  obtain ⟨s, c₁, started, drained⟩ := drainStream_ok_iff.1 drained
  obtain ⟨inv₁, pulls⟩ := sound c s c₁ inv started
  refine Eval.bind_ok_iff.2 ⟨s, c₁, started, ?_⟩
  refine Eval.bind_ok_iff.2 ⟨items.foldl ValueBuilder.addBack .empty, c', ?_, rfl⟩
  rw [Stream.fold, fold_addBack_eq runs (pulls c₁ inv₁), drained]

/-! ## The answers of a value -/

theorem drainStream_ofValue {value : Eval Value} {c c' : Context}
    (shaped : ∀ v c', value c = (.ok v, c') → v.Shaped) {items : List Item} :
    drainStream (do return .ofValue (← value)) c = (.ok items, c') ↔
      ∃ v, value c = (.ok v, c') ∧ v.items = items := by
  rw [drainStream_ok_iff]
  simp only [Eval.bind_ok_iff, Eval.pure_ok_iff]
  constructor
  · rintro ⟨s, c₁, ⟨v, c₂, ran, rfl, rfl⟩, drained⟩
    rw [Stream.ofValue_drain (shaped v c₂ ran)] at drained
    cases drained
    exact ⟨v, ran, rfl⟩
  · rintro ⟨v, ran, rfl⟩
    exact ⟨_, c', ⟨v, c', ran, rfl, rfl⟩, Stream.ofValue_drain (shaped v c' ran) c'⟩

theorem singleOfValue_answers (location : Option Location) {v : Value} (shaped : v.Shaped) (c : Context) :
    SingleOf v.items c (singleOfValue location v c) := by
  unfold singleOfValue
  rw [shaped.get?_eq, shaped.get?_eq, shaped.size_eq]
  match v.items with
  | [] => rfl
  | [first] => rfl
  | [first, second] => exact ⟨_, c, rfl, isOfMany_manyItems first second [] location⟩
  | first :: second :: third :: rest =>
      have more : decide (2 < (first :: second :: third :: rest).length) = true := by simp
      rw [more]
      exact ⟨_, c, rfl, isOfMany_manyItems first second (third :: rest) location⟩

/-- An answer that is not an error tells all items. -/
theorem SingleOf.items_eq {items : List Item} {c c' : Context} {item : Option Item}
    (single : SingleOf items c (.ok item, c')) : items = item.toList ∧ c' = c := by
  match items with
  | [] =>
      cases single
      exact ⟨rfl, rfl⟩
  | [first] =>
      cases single
      exact ⟨rfl, rfl⟩
  | first :: second :: rest =>
      obtain ⟨failure, c₁, same, _⟩ := single
      cases same

theorem items_valueOfOption (item : Option Item) : (valueOfOption item).items = item.toList := by
  cases item <;> rfl

theorem valueOfOption_valid (item : Option Item) : (valueOfOption item).Valid := by
  cases item <;> trivial

theorem ofOption_drain (item : Option Item) (c : Context) :
    ((Stream.ofOption item).pull c).drain = (.ok item.toList, c) := by
  rw [← items_valueOfOption]
  exact Stream.ofValue_drain (valueOfOption_valid item).shaped c

/-- At most one item, asked for directly. -/
theorem SingleOf.atMostOne {items : List Item} {c : Context} {result : Except Failure (Option Item) × Context}
    (single : SingleOf items c result) (few : items.length ≤ 1) :
    ∃ item, result = (.ok item, c) ∧ items = item.toList := by
  match items with
  | [] => exact ⟨none, single, rfl⟩
  | [first] => exact ⟨some first, single, rfl⟩
  | first :: second :: rest =>
      simp only [List.length_cons] at few
      omega

namespace Modes

variable {location : Option Location} {atMostOne : Bool} {stream : Eval Stream}
  {item : Eval (Option Item)} {value : Eval Value} {c : Context}

/-- Asking for at most one item agrees with the stream. -/
structure ItemAgreesAt (stream : Eval Stream) (item : Eval (Option Item)) (c : Context) : Prop where
  item_of_drain : ∀ items c', drainStream stream c = (.ok items, c') → SingleOf items c' (item c)
  drain_of_item : ∀ found c', item c = (.ok found, c') → drainStream stream c = (.ok found.toList, c')

/-- The stream has at most one item if that is said. -/
def FewAt (atMostOne : Bool) (stream : Eval Stream) (c : Context) : Prop :=
  atMostOne = true → ∀ items c', drainStream stream c = (.ok items, c') → items.length ≤ 1

theorem ItemAgreesAt.ofStream : ItemAgreesAt stream (singleOfStream location stream) c :=
  ⟨fun _ _ drained => singleOfStream_of_drain drained, fun _ _ ran => drain_of_singleOfStream ran⟩

theorem boolean_of_drain_ofStreamAndItem (agrees : ItemAgreesAt stream item c)
    (few : FewAt atMostOne stream c) {items : List Item} {c' : Context}
    (drained : drainStream stream c = (.ok items, c')) :
    BooleanOf items ((ofStreamAndItem location atMostOne stream item).booleanItem c).1 := by
  simp only [ofStreamAndItem]
  split
  · next said =>
      obtain ⟨found, asked, rfl⟩ :=
        (agrees.item_of_drain items c' drained).atMostOne (few said items c' drained)
      rw [Eval.bind_apply, asked]
      cases found <;> rfl
  · exact booleanItemOfStream_of_drain drained

/-- All ways agree if the item and the value agree with the stream. -/
theorem AgreeAt.ofStreamAndItem (agrees : ItemAgreesAt stream item c) (few : FewAt atMostOne stream c)
    (value_of_drain : ∀ items c', drainStream stream c = (.ok items, c') → items.length ≤ maxSize →
      ∃ v, value c = (.ok v, c') ∧ v.items = items)
    (drain_of_value : ∀ v c', value c = (.ok v, c') → drainStream stream c = (.ok v.items, c')) :
    AgreeAt { Modes.ofStreamAndItem location atMostOne stream item with value := value } c :=
  ⟨value_of_drain, drain_of_value, agrees.item_of_drain, agrees.drain_of_item,
    fun _ _ drained => boolean_of_drain_ofStreamAndItem agrees few drained⟩

/-- A value made from at most one item, or collected, has the items of the stream. -/
theorem ItemAgreesAt.drain_of_value (agrees : ItemAgreesAt stream item c) {v : Value} {c' : Context}
    (ran : (Modes.ofStreamAndItem location atMostOne stream item).value c = (.ok v, c')) :
    drainStream stream c = (.ok v.items, c') := by
  simp only [Modes.ofStreamAndItem] at ran
  split at ran
  · obtain ⟨found, c₁, asked, ran⟩ := Eval.bind_ok_iff.1 ran
    obtain ⟨rfl, rfl⟩ := Eval.pure_ok_iff.1 ran
    rw [items_valueOfOption]
    exact agrees.drain_of_item found c₁ asked
  · obtain ⟨items, drained, rfl⟩ := drain_of_collectStream ran
    rw [(ValueOf.collect_holds items).2]
    exact drained

theorem AgreeAt.ofStreamAndItem' {Inv : Context → Prop} {good : Item → Prop}
    (sound : stream.Keeps Inv (Stream.Sound Inv good)) (runs : ∀ c, Inv c → c.stopCause? = none)
    (inv : Inv c) (agrees : ItemAgreesAt stream item c) (few : FewAt atMostOne stream c) :
    AgreeAt (Modes.ofStreamAndItem location atMostOne stream item) c := by
  show AgreeAt { Modes.ofStreamAndItem location atMostOne stream item with
    value := (Modes.ofStreamAndItem location atMostOne stream item).value } c
  refine AgreeAt.ofStreamAndItem agrees few (fun items c' drained _ => ?_) fun v c' => agrees.drain_of_value
  simp only [Modes.ofStreamAndItem]
  split
  · next said =>
      obtain ⟨found, asked, rfl⟩ :=
        (agrees.item_of_drain items c' drained).atMostOne (few said items c' drained)
      exact ⟨_, Eval.bind_ok_iff.2 ⟨found, c', asked, rfl⟩, items_valueOfOption found⟩
  · exact ⟨_, (collectStream_ok_iff sound runs inv).2 ⟨items, drained, rfl⟩,
      (ValueOf.collect_holds items).2⟩

/-- The value is valid, and has at most one item if that is said. -/
structure ValueFitsAt (atMostOne : Bool) (value : Eval Value) (c : Context) : Prop where
  valid : ∀ v c', value c = (.ok v, c') → v.Valid
  few : atMostOne = true → ∀ v c', value c = (.ok v, c') → v.items.length ≤ 1

theorem ValueFitsAt.shaped (fits : ValueFitsAt atMostOne value c) (v : Value) (c' : Context)
    (ran : value c = (.ok v, c')) : v.Shaped := (fits.valid v c' ran).shaped

theorem ValueFitsAt.fewAt (fits : ValueFitsAt atMostOne value c) :
    FewAt atMostOne (do return .ofValue (← value)) c := by
  intro said items c' drained
  obtain ⟨v, ran, rfl⟩ := (drainStream_ofValue fits.shaped).1 drained
  exact fits.few said v c' ran

theorem AgreeAt.ofValue (fits : ValueFitsAt atMostOne value c) :
    AgreeAt (Modes.ofValue location atMostOne value) c :=
  AgreeAt.ofStreamAndItem .ofStream fits.fewAt
    (fun _ _ drained _ => (drainStream_ofValue fits.shaped).1 drained)
    (fun v _ ran => (drainStream_ofValue fits.shaped).2 ⟨v, ran, rfl⟩)

theorem AgreeAt.ofValueAndItem (fits : ValueFitsAt atMostOne value c)
    (agrees : ItemAgreesAt (do return .ofValue (← value)) item c) :
    AgreeAt (Modes.ofValueAndItem location atMostOne value item) c :=
  AgreeAt.ofStreamAndItem agrees fits.fewAt
    (fun _ _ drained _ => (drainStream_ofValue fits.shaped).1 drained)
    (fun v _ ran => (drainStream_ofValue fits.shaped).2 ⟨v, ran, rfl⟩)

/-- At most one item of the value. -/
theorem ItemAgreesAt.ofValue (shaped : ∀ v c', value c = (.ok v, c') → v.Shaped) :
    ItemAgreesAt (do return .ofValue (← value)) (do singleOfValue location (← value)) c := by
  constructor
  · intro items c' drained
    obtain ⟨v, ran, rfl⟩ := (drainStream_ofValue shaped).1 drained
    rw [Eval.bind_apply, ran]
    exact singleOfValue_answers location (shaped v c' ran) c'
  · intro found c' ran
    obtain ⟨v, c₁, ran, asked⟩ := Eval.bind_ok_iff.1 ran
    have single := singleOfValue_answers location (shaped v c₁ ran) c₁
    rw [asked] at single
    obtain ⟨all, rfl⟩ := single.items_eq
    exact (drainStream_ofValue shaped).2 ⟨v, ran, all⟩

/-- A value made from at most one item. -/
theorem ItemAgreesAt.ofItem :
    ItemAgreesAt (do return .ofValue (← (do return valueOfOption (← item) : Eval Value))) item c := by
  have shaped : ∀ v c', (do return valueOfOption (← item) : Eval Value) c = (.ok v, c') → v.Shaped := by
    intro v c' ran
    obtain ⟨found, c₁, _, made⟩ := Eval.bind_ok_iff.1 ran
    obtain ⟨rfl, rfl⟩ := Eval.pure_ok_iff.1 made
    exact (valueOfOption_valid found).shaped
  constructor
  · intro items c' drained
    obtain ⟨v, ran, rfl⟩ := (drainStream_ofValue shaped).1 drained
    obtain ⟨found, c₁, asked, made⟩ := Eval.bind_ok_iff.1 ran
    obtain ⟨rfl, rfl⟩ := Eval.pure_ok_iff.1 made
    rw [asked, items_valueOfOption]
    cases found <;> rfl
  · intro found c' asked
    have ran : (do return valueOfOption (← item) : Eval Value) c = (.ok (valueOfOption found), c') :=
      Eval.bind_ok_iff.2 ⟨found, c', asked, rfl⟩
    exact (drainStream_ofValue shaped).2 ⟨_, ran, items_valueOfOption found⟩

/-- A stream of at most one item. -/
theorem ItemAgreesAt.ofOption : ItemAgreesAt (do return Stream.ofOption (← item)) item c := by
  constructor
  · intro items c' drained
    obtain ⟨s, c₁, started, pulled⟩ := drainStream_ok_iff.1 drained
    obtain ⟨found, c₂, asked, made⟩ := Eval.bind_ok_iff.1 started
    obtain ⟨rfl, rfl⟩ := Eval.pure_ok_iff.1 made
    rw [ofOption_drain] at pulled
    cases pulled
    rw [asked]
    cases found <;> rfl
  · intro found c' asked
    exact drainStream_ok_iff.2 ⟨_, c', Eval.bind_ok_iff.2 ⟨found, c', asked, rfl⟩, ofOption_drain found c'⟩

theorem AgreeAt.ofItem {Inv : Context → Prop} {good : Item → Prop}
    (keeps : item.Keeps Inv fun found => ∀ a, found = some a → good a)
    (runs : ∀ c, Inv c → c.stopCause? = none) (inv : Inv c) :
    AgreeAt (Modes.ofItem location atMostOne item) c := by
  have sound : Eval.Keeps Inv (Stream.Sound Inv good) (do return Stream.ofOption (← item)) := by
    refine keeps.bind fun found holds => .pure ?_
    refine Stream.ofValue_sound (valueOfOption_valid found) fun a member => ?_
    cases found with
    | none => cases member
    | some b =>
        rw [List.mem_singleton.1 member]
        exact holds b rfl
  refine .ofStreamAndItem' sound runs inv .ofOption fun _ items c' drained => ?_
  obtain ⟨s, c₁, started, pulled⟩ := drainStream_ok_iff.1 drained
  obtain ⟨found, c₂, asked, made⟩ := Eval.bind_ok_iff.1 started
  obtain ⟨rfl, rfl⟩ := Eval.pure_ok_iff.1 made
  rw [ofOption_drain] at pulled
  cases pulled
  cases found <;> simp

theorem AgreeAt.ofLiteral {v : Value} (shaped : v.Shaped) : AgreeAt (.ofLiteral v) c := by
  have drained : (Modes.ofLiteral v).drain c = (.ok v.items, c) :=
    drainStream_ok_iff.2 ⟨_, c, rfl, Stream.ofValue_drain shaped c⟩
  refine ⟨fun items c' ran _ => ?_, fun w c' ran => ?_, fun items c' ran => ?_, fun found c' ran => ?_,
    fun items c' ran => ?_⟩
  · rw [drained] at ran
    cases ran
    exact ⟨v, rfl, rfl⟩
  · cases ran
    exact drained
  · rw [drained] at ran
    cases ran
    exact singleOfValue_answers none shaped c
  · have single := singleOfValue_answers none shaped c
    rw [show singleOfValue none v c = (.ok found, c') from ran] at single
    obtain ⟨all, rfl⟩ := single.items_eq
    rw [drained, all]
  · rw [drained] at ran
    cases ran
    simp only [Modes.ofLiteral]
    rw [shaped.get?_eq, shaped.get?_eq, shaped.size_eq]
    -- As in a stream, three items are looked at.
    match v.items with
    | [] => rfl
    | [first] => rfl
    | [first, second] =>
        by_cases isNode : first.isNode = true
        · simp only [BooleanOf, List.getElem?_cons_zero, List.getElem?_cons_succ, if_pos isNode]
          rfl
        · simp only [BooleanOf, List.getElem?_cons_zero, List.getElem?_cons_succ, if_neg isNode]
          exact ⟨_, rfl, isOfMany_booleanOfMany first second [] none⟩
    | first :: second :: third :: rest =>
        by_cases isNode : first.isNode = true
        · simp only [BooleanOf, List.getElem?_cons_zero, List.getElem?_cons_succ, if_pos isNode]
          rfl
        · simp only [BooleanOf, List.getElem?_cons_zero, List.getElem?_cons_succ, if_neg isNode]
          have more : decide (2 < (first :: second :: third :: rest).length) = true := by simp
          rw [more]
          exact ⟨_, rfl, isOfMany_booleanOfMany first second (third :: rest) none⟩

end Modes

end QueryKernel
