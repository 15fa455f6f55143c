import QueryKernel.Proofs.Eval.Agree
import QueryKernel.Proofs.Eval.Preserve
import QueryKernel.Proofs.Value.Shaped

/-!
# What successful evaluation gives

Conditions on the items of a result that hold in whatever context evaluation starts, and whatever is done
to the context while a stream is read.

The condition is one on the whole result.  A stream that is read item by item meets it once it has come to its
end, so behind each item it has to meet what is left of the condition.
-/

namespace QueryKernel

variable {A B : Type} {D E : List Item → Prop}

/-- In whatever context the computation starts, a result satisfies the condition. -/
def Eval.Returns (P : A → Prop) (x : Eval A) : Prop := x.Keeps (fun _ => True) P

theorem Eval.Returns.of {P : A → Prop} {x : Eval A} (returns : x.Returns P) {c c' : Context} {a : A}
    (ran : x c = (.ok a, c')) : P a := (returns c a c' trivial ran).2

/-- A computation of which nothing is known. -/
theorem Eval.returns_any (x : Eval A) : x.Returns fun _ => True := fun _ _ _ _ _ => ⟨trivial, trivial⟩

/-! ## Streams -/

/-- A stream that comes to its end has yielded items that meet the condition, whatever is done to the
context in between. -/
def Step.Meets : Step → (List Item → Prop) → Prop
  | done _, D => D []
  | failed _ _, _ => True
  | yield _ item _ rest, D => ∀ c, (rest c).Meets fun items => D (item :: items)

/-- So it does wherever it is read. -/
def Stream.Meets (D : List Item → Prop) (s : Stream) : Prop := ∀ c, (s.pull c).Meets D

/-- Behind each item the items so far can be the beginning of items that meet the condition, and at the
end they meet it. -/
def Step.Conforms : Step → (List Item → Prop) → Prop
  | done _, D => D []
  | failed _ _, _ => True
  | yield _ item _ rest, D => (∃ others, D (item :: others)) ∧
      ∀ c, (rest c).Conforms fun items => D (item :: items)

/-- The stream conforms wherever it is read. -/
def Stream.Conforms (D : List Item → Prop) (s : Stream) : Prop := ∀ c, (s.pull c).Conforms D

namespace Step

theorem Meets.mono {s : Step} (meets : s.Meets D) (implies : ∀ items, D items → E items) : s.Meets E := by
  induction s generalizing D E with
  | done c => exact implies [] meets
  | failed c e => trivial
  | yield c item left rest rest_ih =>
      exact fun c' => rest_ih c' (meets c') fun items => implies (item :: items)

theorem Meets.drain {s : Step} (meets : s.Meets D) {items : List Item} {c : Context}
    (drained : s.drain = (.ok items, c)) : D items := by
  induction s generalizing D items with
  | done c₀ =>
      cases drained
      exact meets
  | failed c₀ e => cases drained
  | yield c₀ item left rest rest_ih =>
      obtain ⟨others, rested, rfl⟩ := drain_yield_ok.1 drained
      exact rest_ih c₀ (meets c₀) rested

theorem Conforms.meets {s : Step} (conforms : s.Conforms D) : s.Meets D := by
  induction s generalizing D with
  | done c => exact conforms
  | failed c e => trivial
  | yield c item left rest rest_ih => exact fun c' => rest_ih c' (conforms.2 c')

theorem Meets.andThen {s : Step} {more : Context → Step} (first : s.Meets D)
    (second : ∀ c, (more c).Meets E) :
    (s.andThen more).Meets fun items => ∃ front back, D front ∧ E back ∧ items = front ++ back := by
  induction s generalizing D with
  | done c => exact (second c).mono fun items given => ⟨[], items, first, given, rfl⟩
  | failed c e => trivial
  | yield c item left rest rest_ih =>
      refine fun c' => (rest_ih c' (first c')).mono ?_
      rintro _ ⟨front, back, now, later, rfl⟩
      exact ⟨item :: front, back, now, later, rfl⟩

/-- The items that a loop gives: those for the first item, those for the second one and so on. -/
def ForEach (D E : List Item → Prop) (items : List Item) : Prop :=
  ∃ (source : List Item) (pieces : List (List Item)),
    D source ∧ pieces.length = source.length ∧ (∀ p ∈ pieces, E p) ∧ items = pieces.flatten

theorem ForEach.cons {item : Item} (piece : List Item) {items : List Item} (now : E piece)
    (later : ForEach (fun source => D (item :: source)) E items) : ForEach D E (piece ++ items) := by
  obtain ⟨source, pieces, given, length, each, rfl⟩ := later
  exact ⟨item :: source, piece :: pieces, given, congrArg (· + 1) length,
    List.forall_mem_cons.2 ⟨now, each⟩, rfl⟩

theorem Meets.forEach {s : Step} {body : Item → Eval Stream} (meets : s.Meets D)
    (each : ∀ item, (body item).Returns (Stream.Meets E)) : (s.forEach body).Meets (ForEach D E) := by
  induction s generalizing D with
  | done c => exact ⟨[], [], meets, rfl, fun _ member => (by cases member), rfl⟩
  | failed c e => trivial
  | yield c item left rest rest_ih =>
      have others := fun c' => rest_ih c' (meets c')
      simp only [Step.forEach]
      cases started : body item c with
      | mk result c₁ =>
          cases result with
          | error e => trivial
          | ok inner =>
              have pulled := (each item).of started c₁
              dsimp only
              -- Either the body gives nothing for this item, or its first item starts a piece.
              cases first : inner.pull c₁ with
              | done c₂ =>
                  rw [first] at pulled
                  exact (others c₂).mono fun items later => .cons [] pulled later
              | failed c₂ e => trivial
              | yield c₂ item₂ left₂ more =>
                  rw [first] at pulled
                  refine fun c' => ((pulled c').andThen others).mono ?_
                  rintro _ ⟨front, back, now, later, rfl⟩
                  exact .cons (item₂ :: front) now later

/-- Collecting the items behind those collected before. -/
theorem Meets.collect {s : Step} (meets : s.Meets D) {b b' : ValueBuilder Expr} {before : List Item}
    (gathers : b.Gathers before) {c' : Context}
    (folded : s.fold (fun (b : ValueBuilder Expr) item => do
      Eval.checkStop
      pure (b.addBack item)) b = (.ok b', c')) :
    ∃ items, D items ∧ b'.Gathers (before ++ items) := by
  induction s generalizing D b before with
  | done c =>
      cases folded
      exact ⟨[], meets, by rwa [List.append_nil]⟩
  | failed c e => cases folded
  | yield c item left rest rest_ih =>
      simp only [Step.fold] at folded
      split at folded
      · next b₁ c₁ added =>
          obtain ⟨_, c₂, _, made⟩ := Eval.bind_ok_iff.1 added
          obtain ⟨same, rfl⟩ := Eval.pure_ok_iff.1 made
          rw [← same] at folded
          obtain ⟨items, given, gathered⟩ := rest_ih _ (meets _) (gathers.addBack item) folded
          rw [List.append_assoc] at gathered
          exact ⟨item :: items, given, gathered⟩
      · cases folded

end Step

namespace Stream

theorem ofWalk_conforms {n : Nat} {w : Walk Expr} {items : List Item} (reads : w.Reads items)
    (enough : items.length ≤ n) (given : D items) (c : Context) : (ofWalk n w c).Conforms D := by
  induction n generalizing w items c D with
  | zero =>
      rw [List.length_eq_zero_iff.1 (Nat.le_zero.1 enough)] at given
      exact given
  | succ n n_ih =>
      obtain ⟨item, rest⟩ := reads.next
      generalize moved : w.next = step at item rest
      obtain ⟨found, w'⟩ := step
      simp only [ofWalk, moved]
      cases items with
      | nil =>
          simp only [List.head?_nil] at item
          subst item
          exact given
      | cons first others =>
          simp only [List.head?_cons] at item
          subst item
          exact ⟨⟨others, given⟩, fun c' => n_ih rest (Nat.le_of_succ_le_succ enough) given c'⟩

theorem ofValue_conforms {v : Value} (shaped : v.Shaped) (given : D v.items) : (ofValue v).Conforms D :=
  ofWalk_conforms shaped.walk_reads (Nat.le_of_eq shaped.size_eq.symm) given

theorem ofValue_meets {v : Value} (shaped : v.Shaped) (given : D v.items) : (ofValue v).Meets D :=
  fun c => (ofValue_conforms shaped given c).meets

end Stream

/-! ## Ways to evaluate -/

namespace Modes

/-- In whatever context evaluation starts, the items of a result meet the condition. -/
structure Meets (D : List Item → Prop) (m : Modes) : Prop where
  stream : m.stream.Returns (Stream.Meets D)
  item : m.item.Returns fun found => D found.toList
  value : m.value.Returns fun v => v.Shaped ∧ D v.items

section Derived

variable {location : Option Location} {atMostOne : Bool} {stream : Eval Stream}
  {item : Eval (Option Item)} {value : Eval Value}

theorem drainStream_returns (returns : stream.Returns (Stream.Meets D)) : (drainStream stream).Returns D := by
  intro c items c' _ ran
  obtain ⟨s, c₁, started, drained⟩ := drainStream_ok_iff.1 ran
  exact ⟨trivial, (returns.of started c₁).drain drained⟩

theorem singleOfStream_returns (returns : stream.Returns (Stream.Meets D)) :
    (singleOfStream location stream).Returns fun found => D found.toList :=
  fun _ _ _ _ ran => ⟨trivial, (drainStream_returns returns).of (drain_of_singleOfStream ran)⟩

theorem collectStream_returns (returns : stream.Returns (Stream.Meets D)) :
    (collectStream stream).Returns fun v => v.Shaped ∧ D v.items := by
  refine Eval.Keeps.bind returns fun s meets => .bind (P := fun b => ∃ items, D items ∧ b.Gathers items) ?_ ?_
  · intro c b c' _ folded
    exact ⟨trivial, (meets c).collect ValueBuilder.empty_gathers folded⟩
  · rintro b ⟨items, given, gathers⟩
    obtain ⟨shaped, same⟩ := gathers.freeze
    exact .pure ⟨shaped, by rwa [same]⟩

theorem valueOfOption_returns (returns : item.Returns fun found => D found.toList) :
    Eval.Returns (fun v => v.Shaped ∧ D v.items) (do return valueOfOption (← item)) := by
  refine Eval.Keeps.bind returns fun found given => .pure ⟨(valueOfOption_valid found).shaped, ?_⟩
  rwa [items_valueOfOption]

theorem Meets.ofStreamAndItem (streams : stream.Returns (Stream.Meets D))
    (single : item.Returns fun found => D found.toList) :
    (Modes.ofStreamAndItem location atMostOne stream item).Meets D := by
  refine ⟨streams, single, ?_⟩
  simp only [Modes.ofStreamAndItem]
  split
  · exact valueOfOption_returns single
  · exact collectStream_returns streams

theorem Meets.ofStream (streams : stream.Returns (Stream.Meets D)) :
    (Modes.ofStream location atMostOne stream).Meets D :=
  .ofStreamAndItem streams (singleOfStream_returns streams)

theorem Meets.withValue {m : Modes} (meets : m.Meets D)
    (values : value.Returns fun v => v.Shaped ∧ D v.items) :
    ({ m with value := value } : Modes).Meets D := ⟨meets.stream, meets.item, values⟩

theorem streamOfValue_meets (values : value.Returns fun v => v.Shaped ∧ D v.items) :
    Eval.Returns (Stream.Meets D) (do return .ofValue (← value)) :=
  Eval.Keeps.bind values fun _ given => .pure (Stream.ofValue_meets given.1 given.2)

theorem Meets.ofValue (values : value.Returns fun v => v.Shaped ∧ D v.items) :
    (Modes.ofValue location atMostOne value).Meets D :=
  (Meets.ofStream (streamOfValue_meets values)).withValue values

theorem Meets.ofValueAndItem (values : value.Returns fun v => v.Shaped ∧ D v.items)
    (single : item.Returns fun found => D found.toList) :
    (Modes.ofValueAndItem location atMostOne value item).Meets D :=
  (Meets.ofStreamAndItem (streamOfValue_meets values) single).withValue values

theorem singleOfValue_returns (values : value.Returns fun v => v.Shaped ∧ D v.items) :
    Eval.Returns (fun found => D found.toList) (do singleOfValue location (← value)) := by
  refine Eval.Keeps.bind values fun v given => ?_
  obtain ⟨shaped, meets⟩ := given
  unfold singleOfValue
  simp only [shaped.get?_eq]
  match v.items, meets with
  | [], meets => exact .pure meets
  | [first], meets => exact .pure meets
  | first :: second :: rest, _ => exact .raise

/-- A function that gives at most one item. -/
theorem Meets.ofItem (single : item.Returns fun found => D found.toList) :
    (Modes.ofValueAndItem location atMostOne (do return valueOfOption (← item)) item).Meets D :=
  .ofValueAndItem (valueOfOption_returns single) single

/-- A function that gives a value. -/
theorem Meets.ofWhole (values : value.Returns fun v => v.Shaped ∧ D v.items) :
    (Modes.ofValueAndItem location atMostOne value (do singleOfValue location (← value))).Meets D :=
  .ofValueAndItem values (singleOfValue_returns values)

end Derived

end Modes

end QueryKernel
