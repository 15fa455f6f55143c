import QueryKernel.Proofs.Eval.Agreement
import QueryKernel.Proofs.Meaning.Allowed
import QueryKernel.Proofs.Meaning.Operation
import QueryKernel.Query

/-!
# Static sizes are right

A result of a tree built with the constructors has as many items as its static type allows, and exactly
as many as the type says if it says so.  So the number that `count` gives is that of the items.

The class of items matters: arithmetic on two single items is said to give one item, which is wrong for an array
without atoms.  So no item of the class may have no atoms.  A number of items is only known when a stream has
come to its end, whatever has been done to the context meanwhile.

## Definitions

* `SumsOf` has the sums of some numbers, each from a set.
* `Step.Counts` says that a stream which comes to its end has yielded a number of items from a set.
* `StreamCounts` and `ItemCounts` say so of computations from sound contexts.
-/

namespace QueryKernel

/-- The sums of so many numbers of a set. -/
def SumsOf (P : Nat → Prop) : Nat → Nat → Prop
  | 0, n => n = 0
  | m + 1, n => ∃ k rest, P k ∧ SumsOf P m rest ∧ n = k + rest

namespace Expr

/-- The type of a loop allows the sum of one size of the body for each item. -/
theorem loopType_allows_sums {source body : Expr} {m n : Nat} (input : source.staticType.Allows m)
    (sums : SumsOf body.staticType.Allows m n) : (loopType source body).Allows n := by
  -- The three bounds are shown together, by going through the pieces once.
  have bounds : (∀ k, body.size? = some k → n = m * k) ∧
      body.sequenceType.occurrence.least * m ≤ n ∧
      (body.sequenceType.occurrence.most < 2 → n ≤ body.sequenceType.occurrence.most * m) := by
    clear input
    induction m generalizing n with
    | zero =>
        rw [show n = 0 from sums]
        simp
    | succ m m_ih =>
        obtain ⟨k, rest, allows, others, rfl⟩ := sums
        obtain ⟨exact, lower, upper⟩ := m_ih others
        have each : body.sequenceType.occurrence.least ≤ k ∧
            (body.sequenceType.occurrence.most < 2 → k ≤ body.sequenceType.occurrence.most) :=
          Occurrence.allows_iff.1 allows.occurrence
        rw [Nat.mul_succ, Nat.mul_succ]
        refine ⟨fun size known => ?_, by omega, fun few => ?_⟩
        · rw [exact size known, allows.exact size known, Nat.succ_mul, Nat.add_comm]
        · have one := each.2 few
          have more := upper few
          omega
  refine loopType_allows input (fun none => ?_) bounds.1 bounds.2.1 bounds.2.2
  subst none
  exact sums

/-- The type of the first item allows it. -/
theorem headType_allows {first : Expr} {rest : List Expr} {n : Nat} (few : n ≤ 1)
    (none : n = 0 → first.staticType.Allows 0) (some : n = 1 → first.sequenceType.isEmpty = false) :
    (BuiltIn.head.resultType (first :: rest)).Allows n := by
  by_cases empty : first.sequenceType.isEmpty = true
  · have type : BuiltIn.head.resultType (first :: rest) = .ofSequenceType .empty := by
      simp [BuiltIn.resultType, empty]
    have zero : n ≠ 1 := fun one => by simp [some one] at empty
    rw [type, show n = 0 by omega]
    exact .empty
  · by_cases least : 0 < first.sequenceType.occurrence.least
    · have type : BuiltIn.head.resultType (first :: rest) =
          .ofSequenceType (.one first.sequenceType.type) := by
        simp [BuiltIn.resultType, empty, least]
      have nonzero : n ≠ 0 := fun zero => by
        have lower : first.sequenceType.occurrence.least ≤ 0 :=
          (Occurrence.allows_iff.1 (none zero).occurrence).1
        omega
      rw [type, show n = 1 by omega]
      exact .one _
    · have type : BuiltIn.head.resultType (first :: rest) =
          .ofSequenceType (.optional first.sequenceType.type) := by
        simp [BuiltIn.resultType, empty, least]
      rw [type]
      exact .optional _ few

end Expr

/-! ## Streams that come to their end -/

namespace Step

variable {Inv : Context → Prop} {good : Item → Prop} {P Q : Nat → Prop}

/-- At its end the stream has yielded a number of items from a set, whatever happens to the context in
between. -/
def Counts (Inv : Context → Prop) : Step → (Nat → Prop) → Prop
  | done _, P => P 0
  | failed _ _, _ => True
  | yield _ _ _ rest, P => ∀ c', Inv c' → (rest c').Counts Inv fun n => P (n + 1)

theorem Counts.mono {s : Step} (counts : s.Counts Inv P) (implies : ∀ n, P n → Q n) : s.Counts Inv Q := by
  induction s generalizing P Q with
  | done c => exact implies 0 counts
  | failed c e => trivial
  | yield c item left rest rest_ih =>
      exact fun c' inv => rest_ih c' (counts c' inv) fun n => implies (n + 1)

theorem counts_any (s : Step) (any : ∀ n, P n) : s.Counts Inv P := by
  induction s generalizing P with
  | done c => exact any 0
  | failed c e => trivial
  | yield c item left rest rest_ih => exact fun c' _ => rest_ih c' fun n => any (n + 1)

theorem Counts.drain {s : Step} (counts : s.Counts Inv P) (sound : s.Sound Inv good) {items : List Item}
    {c : Context} (drained : s.drain = (.ok items, c)) : P items.length := by
  induction s generalizing P items with
  | done c₀ =>
      cases drained
      exact counts
  | failed c₀ e => cases drained
  | yield c₀ item left rest rest_ih =>
      obtain ⟨inv, _, next⟩ := sound
      obtain ⟨others, rested, rfl⟩ := drain_yield_ok.1 drained
      exact rest_ih c₀ (counts c₀ inv) (next c₀ inv) rested

theorem Counts.andThen {s : Step} {more : Context → Step} (first : s.Counts Inv P) (sound : s.Sound Inv good)
    (second : ∀ c, Inv c → (more c).Counts Inv Q) :
    (s.andThen more).Counts Inv fun n => ∃ m k, P m ∧ Q k ∧ n = m + k := by
  induction s generalizing P with
  | done c => exact (second c sound).mono fun n given => ⟨0, n, first, given, (Nat.zero_add n).symm⟩
  | failed c e => trivial
  | yield c item left rest rest_ih =>
      obtain ⟨inv, _, next⟩ := sound
      refine fun c' inv' => (rest_ih c' (first c' inv') (next c' inv')).mono ?_
      rintro _ ⟨m, k, now, later, rfl⟩
      exact ⟨m + 1, k, now, later, by omega⟩

/-- What a loop makes of an item yields a number of items from a set. -/
def BodyCounts (Inv : Context → Prop) (good : Item → Prop) (P : Nat → Prop) (body : Item → Eval Stream) :
    Prop :=
  ∀ item, good item → (body item).Keeps Inv fun inner => ∀ c, Inv c → (inner.pull c).Counts Inv P

theorem Counts.forEach {s : Step} {body : Item → Eval Stream} (counts : s.Counts Inv P)
    (sound : s.Sound Inv good) (bodySound : BodySound Inv good body) (each : BodyCounts Inv good Q body) :
    (s.forEach body).Counts Inv fun n => ∃ m, P m ∧ SumsOf Q m n := by
  induction s generalizing P with
  | done c => exact ⟨0, counts, rfl⟩
  | failed c e => trivial
  | yield c item left rest rest_ih =>
      obtain ⟨inv, holds, next⟩ := sound
      have others := fun c' inv' => rest_ih c' (counts c' inv') (next c' inv')
      -- The items for this item, and the sum of those for the others.
      have joined : ∀ k n, Q k → (∃ m, P (m + 1) ∧ SumsOf Q m n) →
          ∃ m, P m ∧ SumsOf Q m (k + n) := by
        rintro k n now ⟨m, counted, sums⟩
        exact ⟨m + 1, counted, k, n, now, sums, rfl⟩
      simp only [Step.forEach]
      cases started : body item c with
      | mk result c₁ =>
          cases result with
          | error e => trivial
          | ok inner =>
              obtain ⟨inv₁, pulls⟩ := bodySound item holds c inner c₁ inv started
              obtain ⟨_, countsInner⟩ := each item holds c inner c₁ inv started
              have pulled := pulls c₁ inv₁
              have counted := countsInner c₁ inv₁
              dsimp only
              cases first : inner.pull c₁ with
              | done c₂ =>
                  rw [first] at pulled counted
                  refine (others c₂ pulled).mono fun n given => ?_
                  have sum := joined 0 n counted given
                  rwa [Nat.zero_add] at sum
              | failed c₂ e => trivial
              | yield c₂ item₂ left₂ more =>
                  rw [first] at pulled counted
                  obtain ⟨inv₂, holds₂, next₂⟩ := pulled
                  refine fun c' inv' => ((counted c' inv').andThen (next₂ c' inv') others).mono ?_
                  rintro _ ⟨k, n, now, later, rfl⟩
                  have sum := joined (k + 1) n now later
                  rwa [Nat.add_right_comm] at sum

end Step

theorem Stream.ofWalk_counts {Inv : Context → Prop} {n : Nat} {w : Walk Expr} {items : List Item}
    (reads : w.Reads items) (enough : items.length ≤ n) {c : Context} :
    (ofWalk n w c).Counts Inv (· = items.length) := by
  induction n generalizing w items c with
  | zero => exact (Nat.le_zero.1 enough).symm
  | succ n n_ih =>
      obtain ⟨item, rest⟩ := reads.next
      generalize moved : w.next = step at item rest
      obtain ⟨found, w'⟩ := step
      simp only [ofWalk, moved]
      cases items with
      | nil =>
          simp only [List.head?_nil] at item
          subst item
          rfl
      | cons first others =>
          simp only [List.head?_cons] at item
          subst item
          refine fun c' _ => (n_ih rest (Nat.le_of_succ_le_succ enough)).mono fun k same => ?_
          exact congrArg (· + 1) same

/-! ## Computations from sound contexts -/

variable {declared : Declarations} {good : Item → Prop} {calls : Calls} {P Q : Nat → Prop}

open Modes (KeepsSound Faithful)

/-- A stream that comes to its end has yielded a number of items from a set. -/
def StreamCounts (declared : Declarations) (good : Item → Prop) (P : Nat → Prop) (stream : Eval Stream) :
    Prop :=
  KeepsSound declared good (fun s => ∀ c, c.Sound declared good →
    (s.pull c).Counts (Context.Sound declared good) P) stream

/-- The number of items found, none or one, is from a set. -/
def ItemCounts (declared : Declarations) (good : Item → Prop) (P : Nat → Prop) {A : Type}
    (item : Eval (Option A)) : Prop :=
  KeepsSound declared good (fun found => P found.toList.length) item

theorem StreamCounts.mono {stream : Eval Stream} (counts : StreamCounts declared good P stream)
    (implies : ∀ n, P n → Q n) : StreamCounts declared good Q stream :=
  Eval.Keeps.mono counts fun _ given c inv => (given c inv).mono implies

theorem StreamCounts.drain {stream : Eval Stream} (counts : StreamCounts declared good P stream)
    (sound : KeepsSound declared good (Stream.Sound (Context.Sound declared good) good) stream)
    {c c' : Context} (inv : c.Sound declared good) {items : List Item}
    (drained : drainStream stream c = (.ok items, c')) : P items.length := by
  obtain ⟨s, c₁, started, pulled⟩ := drainStream_ok_iff.1 drained
  obtain ⟨inv₁, pulls⟩ := sound c s c₁ inv started
  obtain ⟨_, counted⟩ := counts c s c₁ inv started
  exact (counted c₁ inv₁).drain (pulls c₁ inv₁) pulled

/-- Nothing is said of the number. -/
theorem StreamCounts.any {m : Modes} (sound : m.Sound declared good) (any : ∀ n, P n) :
    StreamCounts declared good P m.stream :=
  Eval.Keeps.mono sound.stream fun s _ c _ => (s.pull c).counts_any any

theorem StreamCounts.ofValue {value : Eval Value}
    (counts : KeepsSound declared good (fun v => v.Valid ∧ P v.items.length) value) :
    StreamCounts declared good P (do return .ofValue (← value)) := by
  refine Eval.Keeps.bind counts fun v given => .pure fun c _ => ?_
  refine (Stream.ofWalk_counts given.1.walk_reads (Nat.le_of_eq given.1.size_eq.symm)).mono ?_
  rintro _ rfl
  exact given.2

theorem ItemCounts.value {item : Eval (Option Item)} (counts : ItemCounts declared good P item) :
    KeepsSound declared good (fun v => v.Valid ∧ P v.items.length) (do return valueOfOption (← item)) := by
  refine Eval.Keeps.bind counts fun found given => .pure ⟨valueOfOption_valid found, ?_⟩
  rwa [items_valueOfOption]

theorem StreamCounts.ofOption {item : Eval (Option Item)} (counts : ItemCounts declared good P item) :
    StreamCounts declared good P (do return .ofOption (← item)) := by
  refine Eval.Keeps.bind counts fun found given => .pure fun c _ => ?_
  have valid := valueOfOption_valid found
  refine (Stream.ofWalk_counts valid.walk_reads (Nat.le_of_eq valid.size_eq.symm)).mono ?_
  rintro _ rfl
  rwa [items_valueOfOption]

section Parts

variable {m : Modes} {t : StaticType} (faithful : m.Faithful declared good t)
  (counts : StreamCounts declared good P m.stream)

include faithful counts

end Parts

/-! ## Expressions from their parts -/

end QueryKernel
