import QueryKernel.Proofs.Eval.Agree
import QueryKernel.Proofs.Eval.Results
import QueryKernel.Proofs.Eval.Unless

/-!
# Computations that depend on nothing

A computation that gives the same in all contexts, and leaves them alone, may be made in advance.  A literal with its
value stands for it in every way to evaluate; where it fails anything may stand, as failures do not count here.

The ways to evaluate a literal are not those of an expression that gives its value.  The one has looked at its items
before, the other one goes through a stream, and both come to the same boolean value.
-/

namespace QueryKernel

variable {A B : Type}

/-! ## Computations that depend on nothing -/

/-- A computation with one result in all contexts, none of which it changes.  It may be told to stop. -/
structure Eval.Fixed (result : Except Failure A) (x : Eval A) : Prop where
  running : ∀ c, c.stopCause? = none → x c = (result, c)
  given : ∀ c a c', x c = (.ok a, c') → result = .ok a ∧ c' = c

/-- There is such a result, and a condition holds of it unless it is a failure. -/
def Eval.IsFixed (P : A → Prop) (x : Eval A) : Prop :=
  ∃ result, x.Fixed result ∧ ∀ a, result = .ok a → P a

namespace Eval

variable {P : A → Prop} {Q : B → Prop} {x : Eval A}

theorem IsFixed.pure {a : A} (holds : P a) : IsFixed P (pure a) := by
  refine ⟨.ok a, ⟨fun _ _ => rfl, fun c b c' ran => ?_⟩, fun b same => ?_⟩
  · obtain ⟨rfl, rfl⟩ := pure_ok_iff.1 ran
    exact ⟨rfl, rfl⟩
  · cases same
    exact holds

theorem IsFixed.fail {failure : Failure} : IsFixed P (fail failure) :=
  ⟨.error failure, ⟨fun _ _ => rfl, fun _ _ _ ran => (by cases ran)⟩, fun _ impossible => by cases impossible⟩

theorem IsFixed.ofExcept {location : Option Location} {found : Except (Cause Expr) A}
    (holds : ∀ a, found = .ok a → P a) : IsFixed P (ofExcept location found) := by
  cases found with
  | ok a => exact .pure (holds a rfl)
  | error cause => exact .fail

theorem IsFixed.checkStop : IsFixed (fun _ => True) checkStop := by
  refine ⟨.ok (), ⟨fun c runs => ?_, fun c _ c' ran => ?_⟩, fun _ _ => trivial⟩
  · exact checkStop_ok_iff.2 ⟨runs, rfl⟩
  · exact ⟨rfl, (checkStop_ok_iff.1 ran).2⟩

theorem IsFixed.bind {f : A → Eval B} (first : x.IsFixed P) (second : ∀ a, P a → (f a).IsFixed Q) :
    (x >>= f).IsFixed Q := by
  obtain ⟨result, fixed, holds⟩ := first
  cases result with
  | error e =>
      refine ⟨.error e, ⟨fun c runs => ?_, fun c b c' ran => ?_⟩, fun _ impossible => by cases impossible⟩
      · rw [bind_apply, fixed.running c runs]
      · obtain ⟨a, c₁, ran, _⟩ := bind_ok_iff.1 ran
        cases (fixed.given c a c₁ ran).1
  | ok a =>
      obtain ⟨result', fixed', holds'⟩ := second a (holds a rfl)
      refine ⟨result', ⟨fun c runs => ?_, fun c b c' ran => ?_⟩, holds'⟩
      · rw [bind_apply, fixed.running c runs]
        exact fixed'.running c runs
      · obtain ⟨a', c₁, ran, others⟩ := bind_ok_iff.1 ran
        obtain ⟨same, rfl⟩ := fixed.given c a' c₁ ran
        cases same
        exact fixed'.given c₁ b c' others

theorem IsFixed.locate {location : Option Location} (fixed : x.IsFixed P) : (x.locate location).IsFixed P := by
  obtain ⟨result, fixed, holds⟩ := fixed
  cases result with
  | ok a =>
      refine ⟨.ok a, ⟨fun c runs => ?_, fun c b c' ran => ?_⟩, holds⟩
      · exact locate_ok_iff.2 (fixed.running c runs)
      · exact fixed.given c b c' (locate_ok_iff.1 ran)
  | error e =>
      obtain ⟨e', fails⟩ : ∃ e', ∀ c d, x c = (.error e, d) → x.locate location c = (.error e', d) := by
        cases e <;> exact ⟨_, fun c d ran => by unfold Eval.locate; rw [ran]⟩
      refine ⟨.error e', ⟨fun c runs => fails c c (fixed.running c runs), fun c b c' ran => ?_⟩,
        fun _ impossible => by cases impossible⟩
      cases (fixed.given c b c' (locate_ok_iff.1 ran)).1

theorem IsFixed.foldWalk {f : B → Item → Eval B} (step : ∀ b, Q b → ∀ item, (f b item).IsFixed Q) (n : Nat)
    {b : B} (start : Q b) (w : Walk Expr) : (Eval.foldWalk f n b w).IsFixed Q := by
  induction n generalizing b w with
  | zero => exact .pure start
  | succ n n_ih =>
      simp only [Eval.foldWalk]
      split
      · exact .pure start
      · exact (step b start _).bind fun d holds => n_ih holds _

/-- A computation against one that has its results, where failures do not count. -/
theorem sameUnless_anything {y : Eval A} (leads : ∀ c a c', x c = (.ok a, c') → y c = (.ok a, c')) :
    x.SameUnless .anything Eq y := by
  intro c
  cases ran : x c with
  | mk result c' =>
      cases result with
      | error e => exact .excused trivial _
      | ok a =>
          rw [leads c a c' ran]
          exact .done rfl c'

theorem SameUnless.leads {y : Eval A} (same : x.SameUnless .anything Eq y) {c c' : Context} {a : A}
    (ran : x c = (.ok a, c')) : y c = (.ok a, c') := by
  have compared := same c
  rw [ran] at compared
  generalize y c = outcome at compared ⊢
  cases compared with
  | done related c' => exact related ▸ rfl

theorem Fixed.sameUnless {a : A} (fixed : x.Fixed (.ok a)) : x.SameUnless .anything Eq (Pure.pure a) := by
  refine sameUnless_anything fun c b c' ran => ?_
  obtain ⟨same, rfl⟩ := fixed.given c b c' ran
  cases same
  rfl

/-- There is no result, in any context. -/
def Never (x : Eval A) : Prop := ∀ c a c', x c ≠ (.ok a, c')

theorem Never.bind {f : A → Eval B} (never : x.Never) : (x >>= f).Never := by
  intro c b c' ran
  obtain ⟨a, c₁, given, _⟩ := bind_ok_iff.1 ran
  exact never c a c₁ given

theorem Never.sameUnless {R : A → A → Prop} {y : Eval A} (never : x.Never) : x.SameUnless .anything R y := by
  intro c
  cases ran : x c with
  | mk result c' =>
      cases result with
      | ok a => exact absurd ran (never c a c')
      | error e => exact .excused trivial _

theorem Fixed.never {failure : Failure} (fixed : x.Fixed (.error failure)) : x.Never := by
  intro c a c' ran
  cases (fixed.given c a c' ran).1

end Eval

/-! ## What stands in place of a computation -/

/-- The items decide which item stands for the boolean value. -/
theorem BooleanOf.determined {items : List Item} {result result' : Except Failure Item} {item : Item}
    (left : BooleanOf items result) (right : BooleanOf items result') (given : result = .ok item) :
    result' = .ok item := by
  subst given
  match items with
  | [] | [_] => exact right.trans left.symm
  | first :: second :: rest =>
      simp only [BooleanOf] at left right
      split at left
      · next isNode =>
          rw [if_pos isNode] at right
          exact right.trans left.symm
      · obtain ⟨_, impossible, _⟩ := left
        cases impossible

namespace Modes

variable {w : Value}

/-- Asked for a boolean value, the items of a value answer like the literal. -/
theorem booleanItem_ofValue (valid : w.Valid) (location : Option Location) :
    (booleanItemOfStream location (pure (.ofValue w))).SameUnless .anything Eq (ofLiteral w).booleanItem := by
  intro c
  have drained : drainStream (pure (.ofValue w)) c = (.ok w.items, c) :=
    drainStream_ok_iff.2 ⟨_, c, rfl, Stream.ofValue_drain valid.shaped c⟩
  have streamed : BooleanOf w.items (booleanItemOfStream location (pure (.ofValue w)) c).1 :=
    booleanItemOfStream_of_drain drained
  have known := (AgreeAt.ofLiteral (c := c) valid.shaped).boolean_of_drain _ _ drained
  -- Neither of them does anything to the context.
  have opened : (pure (.ofValue w) : Eval Stream).Always (· = c) (Stream.Always (· = c) Kind.any.item) :=
    .pure (ofValue_always Kind.any_lawful trivial)
  have asked : (booleanItemOfStream location (pure (.ofValue w))).Always (· = c) fun _ => True :=
    booleanItemOfStream_always opened
  have literal : (ofLiteral w).Always (· = c) .any := .ofLiteral Kind.any_lawful trivial
  have left := (asked c rfl).1
  have right := (literal.booleanItem c rfl).1
  generalize booleanItemOfStream location (pure (.ofValue w)) c = outcome at streamed left ⊢
  obtain ⟨result, c₁⟩ := outcome
  cases result with
  | error e => exact .excused trivial _
  | ok item =>
      obtain rfl : c₁ = c := left
      have same : (ofLiteral w).booleanItem c₁ = (.ok item, c₁) := Prod.ext (streamed.determined known rfl) right
      rw [same]
      exact .done rfl c₁

/-- A literal of which the only item is asked for. -/
theorem single_booleanItem (w : Value) :
    (do return (← singleOfValue none w).getD (.boolean false) : Eval Item).SameUnless .anything Eq
      (ofLiteral w).booleanItem := by
  simp only [singleOfValue, ofLiteral]
  split
  · exact fun c => .excused trivial _
  · next other =>
      cases first : w.get? 0 with
      | none => exact .pure rfl
      | some item =>
          cases second : w.get? 1 with
          | none => exact .pure rfl
          | some item' => exact absurd second (other item item' first)

theorem booleanItem_ofLiteral (alone : w.get? 1 = none) :
    (ofLiteral w).booleanItem = do return (← (ofLiteral w).item).getD (.boolean false) := by
  simp only [ofLiteral, singleOfValue, alone]
  cases w.get? 0 <;> rfl

variable {x : Eval Value} {location : Option Location}

/-- What gives no other value may be replaced by the literal. -/
theorem literal_inPlace (value : x.SameUnless .anything Eq (pure w)) (valid : w.Valid) (location : Option Location)
    (atMostOne : Bool) :
    (ofValueAndItem location atMostOne x (do singleOfValue location (← x))).SameUnless .anything (ofLiteral w) := by
  have anywhere : ∀ other, Excuse.anything.Places location other := fun _ => .inr fun _ _ => trivial
  have item : (do singleOfValue location (← x)).SameUnless .anything Eq (singleOfValue none w) :=
    value.followed (g := singleOfValue none) fun v => singleOfValue_sameUnless (anywhere none) v
  have stream : (do return .ofValue (← x) : Eval Stream).SameUnless .anything (Stream.SameUnless .anything)
      (pure (.ofValue w)) := streamOf_sameUnless value
  refine ⟨anywhere none, stream, item, value, ?_⟩
  cases atMostOne with
  | true => exact (item.andThen (f := fun found => pure (found.getD (.boolean false)))).trans (single_booleanItem w)
  | false => exact (booleanItemOfStream_sameUnless (.inl rfl) stream).trans (booleanItem_ofValue valid location)

/-- In place of what never has a result anything may stand. -/
theorem anything_inPlace (never : x.Never) (location : Option Location) (atMostOne : Bool) (n : Modes) :
    (ofValueAndItem location atMostOne x (do singleOfValue location (← x))).SameUnless .anything n := by
  refine ⟨.inr fun _ _ => trivial, never.bind.sameUnless, never.bind.sameUnless, never.sameUnless, ?_⟩
  cases atMostOne with
  | true => exact never.bind.bind.sameUnless
  | false => exact never.bind.bind.sameUnless

end Modes

end QueryKernel
