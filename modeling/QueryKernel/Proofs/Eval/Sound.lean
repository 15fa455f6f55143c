import QueryKernel.Proofs.Eval.Agree
import QueryKernel.Proofs.Eval.Built

/-!
# Evaluation keeps contexts sound

Every way to evaluate a tree built with the constructors gives items of the class that its literals,
the focus and the variables are from, and leaves the context sound, also between the items of a lazy
stream.

Calls of function items bind parameters without any check: a parameter has no declared type, so no reference to
another variable is affected.
-/

namespace QueryKernel

variable {declared : Declarations} {good : Item → Prop}

/-! ## Changes of a context -/

theorem Bindings.lookup_set (bindings : Bindings) (id other : Nat) (v : Value) :
    (bindings.set id v).lookup other = if other = id then some v else bindings.lookup other := by
  have decided : (other == id) = decide (other = id) := rfl
  induction bindings with
  | nil =>
      simp only [Bindings.set, List.lookup_cons, decided, List.lookup_nil]
      by_cases same : other = id <;> simp [same]
  | cons first rest rest_ih =>
      obtain ⟨key, bound⟩ := first
      simp only [Bindings.set]
      by_cases found : key = id
      · rw [if_pos found]
        simp only [List.lookup_cons, decided, found]
        by_cases same : other = id <;> simp [same]
      · rw [if_neg found]
        simp only [List.lookup_cons, rest_ih]
        by_cases same : other = id
        · have different : (id == key) = false := by simpa using fun equal : id = key => found equal.symm
          simp [same, different]
        · simp [same]

theorem Context.Sound.bind {c : Context} (sound : c.Sound declared good) {var : Variable} {v : Value}
    (holds : v.Good good)
    (allowed : ∀ type, declared var.id = some type → type.occurrence.allows v.size = true) :
    (c.bind var v).Sound declared good := by
  refine ⟨sound.focus, fun id w found => ?_, fun id w found => ?_, sound.runs⟩
  · rw [Context.bind, Bindings.lookup_set] at found
    split at found
    · cases found
      exact holds
    · exact sound.value id w found
  · rw [Context.bind, Bindings.lookup_set] at found
    split at found
    · next same =>
        cases found
        rw [same]
        exact allowed
    · exact sound.fits id w found

theorem Context.Sound.withFocus {c : Context} (sound : c.Sound declared good) {focus : Focus}
    (holds : ∀ v, focus.value = some v → v.Good good) :
    ({ c with focus := focus } : Context).Sound declared good :=
  ⟨holds, sound.value, sound.fits, sound.runs⟩

theorem Context.Sound.withUpdates {c : Context} (sound : c.Sound declared good)
    (updates : Array PendingUpdate) : ({ c with updates := updates } : Context).Sound declared good :=
  ⟨sound.focus, sound.value, sound.fits, sound.runs⟩

/-! ## Values of a class -/

theorem ValueOf.good_empty : (ValueOf.empty : Value).Good good :=
  ⟨trivial, fun _ member => by cases member⟩

theorem ValueOf.good_one {item : Item} (holds : good item) : (ValueOf.one item).Good good := by
  refine ⟨trivial, fun other member => ?_⟩
  rw [List.mem_singleton.1 member]
  exact holds

theorem ValueOf.Holds.allGood {v : Value} {items : List Item} (holds : v.Holds items)
    (all : ∀ item ∈ items, good item) : v.Good good := by
  obtain ⟨valid, rfl⟩ := holds
  exact ⟨valid, all⟩

theorem ValueOf.Good.get? {v : Value} (holds : v.Good good) {i : Nat} {item : Item}
    (found : v.get? i = some item) : good item := by
  rw [holds.1.get?_eq] at found
  exact holds.2 item (List.mem_of_getElem? found)

theorem good_valueOfOption {found : Option Item} (holds : ∀ item, found = some item → good item) :
    (valueOfOption found).Good good := by
  cases found with
  | none => exact ValueOf.good_empty
  | some item => exact ValueOf.good_one (holds item rfl)

/-! ## Ways to evaluate -/

namespace Modes

/-- Each way keeps contexts sound and gives items of the class. -/
structure Sound (declared : Declarations) (good : Item → Prop) (m : Modes) : Prop where
  stream : m.stream.Keeps (Context.Sound declared good) (Stream.Sound (Context.Sound declared good) good)
  item : m.item.Keeps (Context.Sound declared good) fun found => ∀ a, found = some a → good a
  value : m.value.Keeps (Context.Sound declared good) (ValueOf.Good good)
  booleanItem : m.booleanItem.Keeps (Context.Sound declared good) good

/-- What a computation with a context of this kind keeps. -/
abbrev KeepsSound (declared : Declarations) (good : Item → Prop) {A : Type} (P : A → Prop)
    (x : Eval A) : Prop := x.Keeps (Context.Sound declared good) P

variable {location : Option Location} {atMostOne : Bool} {stream : Eval Stream}
  {item : Eval (Option Item)} {value : Eval Value}

theorem stream_next_keeps {s : Stream} (sound : s.Sound (Context.Sound declared good) good) :
    KeepsSound declared good (fun found => ∀ a s', found = some (a, s') →
      good a ∧ s'.Sound (Context.Sound declared good) good) s.next := by
  intro c found c' inv asked
  have pulled := sound c inv
  rw [Stream.next_apply] at asked
  cases pull : s.pull c with
  | done c₁ =>
      rw [pull] at asked pulled
      cases asked
      exact ⟨pulled, fun _ _ none => by cases none⟩
  | failed c₁ e =>
      rw [pull] at asked
      cases asked
  | yield c₁ first left rest =>
      rw [pull] at asked pulled
      cases asked
      obtain ⟨inv₁, holds, next⟩ := pulled
      refine ⟨inv₁, fun a s' same => ?_⟩
      cases same
      exact ⟨holds, next⟩

theorem singleOfStream_keeps
    (keeps : KeepsSound declared good (Stream.Sound (Context.Sound declared good) good) stream) :
    KeepsSound declared good (fun found => ∀ a, found = some a → good a)
      (singleOfStream location stream) := by
  refine keeps.bind fun s sound => (stream_next_keeps sound).bind fun found given => ?_
  cases found with
  | none => exact .pure fun _ none => by cases none
  | some pair =>
      obtain ⟨first, s₁⟩ := pair
      obtain ⟨holds, sound₁⟩ := given first s₁ rfl
      refine (stream_next_keeps sound₁).bind fun found given₁ => ?_
      cases found with
      | none =>
          refine .pure fun a same => ?_
          cases same
          exact holds
      | some pair =>
          obtain ⟨second, s₂⟩ := pair
          exact (stream_next_keeps (given₁ second s₂ rfl).2).bind fun _ _ => .raise

theorem booleanItemOfStream_keeps (closed : ItemClass good)
    (keeps : KeepsSound declared good (Stream.Sound (Context.Sound declared good) good) stream) :
    KeepsSound declared good good (booleanItemOfStream location stream) := by
  refine keeps.bind fun s sound => (stream_next_keeps sound).bind fun found given => ?_
  cases found with
  | none => exact .pure (closed.atom _)
  | some pair =>
      obtain ⟨first, s₁⟩ := pair
      obtain ⟨holds, sound₁⟩ := given first s₁ rfl
      dsimp only
      split
      · exact .pure holds
      · refine (stream_next_keeps sound₁).bind fun found given₁ => ?_
        cases found with
        | none => exact .pure holds
        | some pair =>
            obtain ⟨second, s₂⟩ := pair
            exact (stream_next_keeps (given₁ second s₂ rfl).2).bind fun _ _ => .raise

theorem collectStream_keeps
    (keeps : KeepsSound declared good (Stream.Sound (Context.Sound declared good) good) stream) :
    KeepsSound declared good (ValueOf.Good good) (collectStream stream) := by
  intro c v c' inv ran
  obtain ⟨items, drained, rfl⟩ := (collectStream_ok_iff keeps (fun _ inv => inv.runs) inv).1 ran
  obtain ⟨s, c₁, started, pulled⟩ := drainStream_ok_iff.1 drained
  obtain ⟨inv₁, sound⟩ := keeps c s c₁ inv started
  obtain ⟨final, all⟩ := (sound c₁ inv₁).drain pulled
  exact ⟨final, (ValueOf.collect_holds items).allGood all⟩

theorem singleOfValue_keeps {v : Value} (holds : v.Good good) :
    KeepsSound declared good (fun found => ∀ a, found = some a → good a)
      (singleOfValue location v) := by
  unfold singleOfValue
  split
  · exact .raise
  · exact .pure fun a found => holds.get? found

theorem Sound.ofStreamAndItem (closed : ItemClass good)
    (streamKeeps : KeepsSound declared good (Stream.Sound (Context.Sound declared good) good) stream)
    (itemKeeps : KeepsSound declared good (fun found => ∀ a, found = some a → good a) item) :
    (Modes.ofStreamAndItem location atMostOne stream item).Sound declared good := by
  refine ⟨streamKeeps, itemKeeps, ?_, ?_⟩
  · simp only [Modes.ofStreamAndItem]
    split
    · exact itemKeeps.bind fun found holds => .pure (good_valueOfOption holds)
    · exact collectStream_keeps streamKeeps
  · simp only [Modes.ofStreamAndItem]
    split
    · refine itemKeeps.bind fun found holds => .pure ?_
      cases found with
      | none => exact closed.atom _
      | some a => exact holds a rfl
    · exact booleanItemOfStream_keeps closed streamKeeps

theorem Sound.ofStream (closed : ItemClass good)
    (keeps : KeepsSound declared good (Stream.Sound (Context.Sound declared good) good) stream) :
    (Modes.ofStream location atMostOne stream).Sound declared good :=
  .ofStreamAndItem closed keeps (singleOfStream_keeps keeps)

theorem Sound.withValue {m : Modes} (sound : m.Sound declared good)
    (keeps : KeepsSound declared good (ValueOf.Good good) value) :
    ({ m with value := value } : Modes).Sound declared good :=
  ⟨sound.stream, sound.item, keeps, sound.booleanItem⟩

theorem streamOfValue_keeps (keeps : KeepsSound declared good (ValueOf.Good good) value) :
    KeepsSound declared good (Stream.Sound (Context.Sound declared good) good)
      (do return .ofValue (← value)) :=
  keeps.bind fun _ holds => .pure (Stream.ofValue_sound holds.1 holds.2)

theorem Sound.ofValue (closed : ItemClass good)
    (keeps : KeepsSound declared good (ValueOf.Good good) value) :
    (Modes.ofValue location atMostOne value).Sound declared good :=
  (Sound.ofStream closed (streamOfValue_keeps keeps)).withValue keeps

theorem Sound.ofValueAndItem (closed : ItemClass good)
    (valueKeeps : KeepsSound declared good (ValueOf.Good good) value)
    (itemKeeps : KeepsSound declared good (fun found => ∀ a, found = some a → good a) item) :
    (Modes.ofValueAndItem location atMostOne value item).Sound declared good :=
  (Sound.ofStreamAndItem closed (streamOfValue_keeps valueKeeps) itemKeeps).withValue valueKeeps

theorem Sound.ofItem (closed : ItemClass good)
    (keeps : KeepsSound declared good (fun found => ∀ a, found = some a → good a) item) :
    (Modes.ofItem location atMostOne item).Sound declared good := by
  refine .ofStreamAndItem closed (keeps.bind fun found holds => .pure ?_) keeps
  have given := good_valueOfOption holds
  exact Stream.ofValue_sound given.1 given.2

theorem Sound.ofLiteral (closed : ItemClass good) {v : Value} (holds : v.Good good) :
    (Modes.ofLiteral v).Sound declared good := by
  refine ⟨.pure (Stream.ofValue_sound holds.1 holds.2), singleOfValue_keeps holds, .pure holds, ?_⟩
  unfold Modes.ofLiteral
  dsimp only
  split
  · exact .pure (closed.atom _)
  · next first found _ => exact .pure (holds.get? found)
  · next first second found _ =>
      split
      · exact .pure (holds.get? found)
      · exact .raise

/-! ## Readings of the result -/

variable {m : Modes}

theorem Sound.boolean (sound : m.Sound declared good) :
    KeepsSound declared good (fun _ => True) m.boolean :=
  sound.booleanItem.bind fun _ _ => .ofExcept fun _ _ => trivial

theorem Sound.test (sound : m.Sound declared good) :
    KeepsSound declared good (fun _ => True) m.test := by
  unfold Modes.test
  refine sound.booleanItem.bind fun item holds => ?_
  have decided : KeepsSound declared good (fun _ => True) (do
      let held ← Eval.ofExcept m.location item.booleanValue
      pure (if held then some item else none)) :=
    .bind (P := fun _ => True) (.ofExcept fun _ _ => trivial) fun _ _ => .pure trivial
  dsimp only
  split
  · split
    · refine Eval.Keeps.context.bind fun _ _ => ?_
      exact .bind (P := fun _ => True) (.pure trivial) fun _ _ => .pure trivial
    · exact decided
  · exact decided

theorem Sound.atomItem (sound : m.Sound declared good) :
    KeepsSound declared good (fun _ => True) m.atomItem := by
  refine sound.item.bind fun found holds => ?_
  cases found with
  | none => exact .pure trivial
  | some item =>
      refine .bind (P := fun _ => True) (.ofExcept fun _ _ => trivial) fun atoms _ => ?_
      match atoms with
      | [] => exact .pure trivial
      | [atom] => exact .pure trivial
      | first :: second :: rest => exact .raise

theorem present_keeps {A : Type} {P : A → Prop} {expected : Option ItemType} {found : Option A}
    (holds : ∀ a, found = some a → P a) : KeepsSound declared good P (m.present expected found) := by
  cases found with
  | none => exact .raise
  | some a => exact .pure (holds a rfl)

end Modes

end QueryKernel
