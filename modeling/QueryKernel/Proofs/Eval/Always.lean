import QueryKernel.Eval.Run
import QueryKernel.Proofs.Eval.Keeps

/-!
# Conditions that hold after success and failure

Computations and streams that keep a condition on the context whatever comes of them.

A stream is asked for its items one at a time, and whoever asks may do something else in between: the condition
has to hold again each time before the next item is asked for, and nothing more is known of the context then.
-/

namespace QueryKernel

/-! ## Computations -/

namespace Eval

variable {A B : Type} {Inv : Context → Prop} {P : A → Prop} {Q : B → Prop}

/-- From a context where the condition holds, success and failure lead to one where it holds, and a
result satisfies the other condition. -/
def Always (Inv : Context → Prop) (P : A → Prop) (x : Eval A) : Prop :=
  ∀ c, Inv c → Inv (x c).2 ∧ ∀ a, (x c).1 = .ok a → P a

theorem Always.ok {x : Eval A} (always : x.Always Inv P) {c c' : Context} {a : A} (inv : Inv c)
    (ran : x c = (.ok a, c')) : Inv c' ∧ P a := by
  obtain ⟨kept, holds⟩ := always c inv
  rw [ran] at kept holds
  exact ⟨kept, holds a rfl⟩

theorem Always.failed {x : Eval A} (always : x.Always Inv P) {c c' : Context} {e : Failure} (inv : Inv c)
    (ran : x c = (.error e, c')) : Inv c' := by
  have kept := (always c inv).1
  rwa [ran] at kept

theorem Always.mono {P' : A → Prop} {x : Eval A} (always : x.Always Inv P) (implies : ∀ a, P a → P' a) :
    x.Always Inv P' := by
  intro c inv
  obtain ⟨kept, holds⟩ := always c inv
  exact ⟨kept, fun a given => implies a (holds a given)⟩

theorem Always.pure {a : A} (holds : P a) : Always Inv P (pure a) := by
  intro c inv
  refine ⟨inv, fun b same => ?_⟩
  cases same
  exact holds

theorem Always.fail {e : Failure} : Always Inv P (fail e) :=
  fun _ inv => ⟨inv, fun _ impossible => by cases impossible⟩

theorem Always.raise {cause : Cause Expr} {location : Option Location} :
    Always Inv P (raise cause location) := .fail

theorem Always.bind {x : Eval A} {f : A → Eval B} (first : x.Always Inv P)
    (second : ∀ a, P a → (f a).Always Inv Q) : (x >>= f).Always Inv Q := by
  intro c inv
  obtain ⟨kept, holds⟩ := first c inv
  rw [bind_apply]
  cases ran : x c with
  | mk result c₁ =>
      rw [ran] at kept holds
      cases result with
      | ok a => exact second a (holds a rfl) c₁ kept
      | error e => exact ⟨kept, fun _ impossible => by cases impossible⟩

theorem Always.map {x : Eval A} {f : A → B} (always : x.Always Inv P) (holds : ∀ a, P a → Q (f a)) :
    (f <$> x).Always Inv Q := .bind always fun a given => .pure (holds a given)

theorem Always.ofExcept {location : Option Location} {x : Except (Cause Expr) A}
    (holds : ∀ a, x = .ok a → P a) : Always Inv P (ofExcept location x) := by
  cases x with
  | ok a => exact .pure (holds a rfl)
  | error cause => exact .raise

theorem Always.ofFaulty {x : Except Fault A} (holds : ∀ a, x = .ok a → P a) :
    Always Inv P (ofFaulty x) := by
  cases x with
  | ok a => exact .pure (holds a rfl)
  | error fault => exact .fail

theorem Always.context : Always Inv Inv context := by
  intro c inv
  refine ⟨inv, fun d same => ?_⟩
  cases same
  exact inv

theorem Always.change {f : Context → Context} {R : Unit → Prop} (keeps : ∀ c, Inv c → Inv (f c))
    (holds : R ()) : Always Inv R (change f) :=
  fun c inv => ⟨keeps c inv, fun _ _ => holds⟩

theorem Always.checkStop : Always Inv (fun _ => True) checkStop := by
  intro c inv
  refine ⟨?_, fun _ _ => trivial⟩
  unfold Eval.checkStop
  split <;> exact inv

theorem Always.locate {location : Option Location} {x : Eval A} (always : x.Always Inv P) :
    (x.locate location).Always Inv P := by
  intro c inv
  obtain ⟨kept, holds⟩ := always c inv
  unfold Eval.locate
  split
  · next e c₁ ran =>
      rw [ran] at kept
      exact ⟨kept, fun _ impossible => by cases impossible⟩
  · exact ⟨kept, holds⟩

theorem Always.foldList {f : B → A → Eval B} {list : List A} {b : B} (start : Q b)
    (step : ∀ b, Q b → ∀ a ∈ list, (f b a).Always Inv Q) : (foldList f b list).Always Inv Q := by
  induction list generalizing b with
  | nil => exact .pure start
  | cons a rest rest_ih =>
      rw [foldList_cons]
      refine .bind (step b start a List.mem_cons_self) fun b' holds => ?_
      exact rest_ih holds fun b'' given a' member => step b'' given a' (List.mem_cons_of_mem _ member)

end Eval

/-! ## Walks -/

/-- The next items of a walk, so many of them, satisfy a condition. -/
def Walk.Gives (P : Item → Prop) : Nat → Walk Expr → Prop
  | 0, _ => True
  | n + 1, w =>
      match w.next with
      | (none, _) => True
      | (some item, w) => P item ∧ Walk.Gives P n w

theorem Walk.Reads.gives {P : Item → Prop} {w : Walk Expr} {items : List Item} (reads : w.Reads items)
    (all : ∀ item ∈ items, P item) (n : Nat) : w.Gives P n := by
  induction n generalizing w items with
  | zero => trivial
  | succ n n_ih =>
      obtain ⟨item, rest⟩ := reads.next
      generalize moved : w.next = step at item rest
      obtain ⟨found, w'⟩ := step
      simp only [Walk.Gives, moved]
      cases items with
      | nil =>
          simp only [List.head?_nil] at item
          subst item
          trivial
      | cons first others =>
          simp only [List.head?_cons] at item
          subst item
          exact ⟨all first List.mem_cons_self,
            n_ih rest fun other member => all other (List.mem_cons_of_mem _ member)⟩

theorem Eval.Always.foldWalk {B : Type} {Inv : Context → Prop} {P : Item → Prop} {Q : B → Prop}
    {f : B → Item → Eval B} {n : Nat} {w : Walk Expr} (gives : w.Gives P n) {b : B} (start : Q b)
    (step : ∀ b, Q b → ∀ item, P item → (f b item).Always Inv Q) :
    (Eval.foldWalk f n b w).Always Inv Q := by
  induction n generalizing w b with
  | zero => exact .pure start
  | succ n n_ih =>
      intro c inv
      simp only [Eval.foldWalk]
      simp only [Walk.Gives] at gives
      split
      · exact Eval.Always.pure (a := b) start c inv
      · next item w' moved =>
          rw [moved] at gives
          obtain ⟨holds, others⟩ := gives
          have stepped := step b start item holds
          split
          · next b' c₁ ran =>
              obtain ⟨kept, given⟩ := stepped.ok inv ran
              exact n_ih others given c₁ kept
          · next e c₁ ran => exact ⟨stepped.failed inv ran, fun _ impossible => by cases impossible⟩

/-! ## Streams -/

namespace Step

variable {Inv : Context → Prop} {P : Item → Prop}

/-- The condition holds at the end, after a failure and behind each item, if it holds whenever an item
is asked for, and the items satisfy the other condition. -/
def Always (Inv : Context → Prop) (P : Item → Prop) : Step → Prop
  | done c => Inv c
  | failed c _ => Inv c
  | yield c item _ rest => Inv c ∧ P item ∧ ∀ c', Inv c' → (rest c').Always Inv P

theorem Always.andThen {s : Step} {more : Context → Step} (first : s.Always Inv P)
    (second : ∀ c, Inv c → (more c).Always Inv P) : (s.andThen more).Always Inv P := by
  induction s with
  | done c => exact second c first
  | failed c e => exact first
  | yield c item left rest rest_ih =>
      obtain ⟨inv, holds, next⟩ := first
      exact ⟨inv, holds, fun c' inv' => rest_ih c' (next c' inv')⟩

theorem Always.fold {B : Type} {Q : B → Prop} {f : B → Item → Eval B} {s : Step}
    (always : s.Always Inv P) {b : B} (start : Q b)
    (steps : ∀ b, Q b → ∀ item, P item → (f b item).Always Inv Q) :
    Inv (s.fold f b).2 ∧ ∀ b', (s.fold f b).1 = .ok b' → Q b' := by
  induction s generalizing b with
  | done c => exact Eval.Always.pure (a := b) start c always
  | failed c e => exact ⟨always, fun _ impossible => by cases impossible⟩
  | yield c item left rest rest_ih =>
      obtain ⟨inv, holds, next⟩ := always
      have stepped := steps b start item holds
      simp only [Step.fold]
      split
      · next b' c₁ ran =>
          obtain ⟨kept, given⟩ := stepped.ok inv ran
          exact rest_ih c₁ (next c₁ kept) given
      · next e c₁ ran => exact ⟨stepped.failed inv ran, fun _ impossible => by cases impossible⟩

end Step

namespace Stream

variable {Inv : Context → Prop} {P : Item → Prop}

/-- Wherever the stream is read, it keeps the condition and its items satisfy the other one. -/
def Always (Inv : Context → Prop) (P : Item → Prop) (s : Stream) : Prop :=
  ∀ c, Inv c → (s.pull c).Always Inv P

theorem ofWalk_always {n : Nat} {w : Walk Expr} (gives : w.Gives P n) {c : Context} (inv : Inv c) :
    (ofWalk n w c).Always Inv P := by
  induction n generalizing w c with
  | zero => exact inv
  | succ n n_ih =>
      simp only [ofWalk]
      simp only [Walk.Gives] at gives
      split
      · exact inv
      · next item w' moved =>
          rw [moved] at gives
          exact ⟨inv, gives.1, fun c' inv' => n_ih gives.2 inv'⟩

theorem next_always {s : Stream} (always : s.Always Inv P) :
    s.next.Always Inv fun found => ∀ item rest, found = some (item, rest) →
      P item ∧ rest.Always Inv P := by
  intro c inv
  have pulled := always c inv
  unfold Stream.next
  split
  · next c₁ ended =>
      rw [ended] at pulled
      exact ⟨pulled, fun found same item rest some => by cases same; cases some⟩
  · next c₁ e ended =>
      rw [ended] at pulled
      exact ⟨pulled, fun _ impossible => by cases impossible⟩
  · next c₁ item left rest given =>
      rw [given] at pulled
      obtain ⟨kept, holds, next⟩ := pulled
      refine ⟨kept, fun found same other more some => ?_⟩
      cases same
      cases some
      exact ⟨holds, next⟩

theorem Always.fold {B : Type} {Q : B → Prop} {f : B → Item → Eval B} {s : Stream}
    (always : s.Always Inv P) {b : B} (start : Q b)
    (steps : ∀ b, Q b → ∀ item, P item → (f b item).Always Inv Q) : (s.fold f b).Always Inv Q :=
  fun c inv => (always c inv).fold start steps

theorem pullAll_always {starts : List (Eval Stream)}
    (each : ∀ start ∈ starts, start.Always Inv (Stream.Always Inv P)) {c : Context} (inv : Inv c) :
    (pullAll starts c).Always Inv P := by
  induction starts generalizing c with
  | nil => exact inv
  | cons start rest rest_ih =>
      have first := each start List.mem_cons_self
      have others := fun c' inv' =>
        rest_ih (fun other member => each other (List.mem_cons_of_mem _ member)) (c := c') inv'
      simp only [pullAll]
      split
      · next e c₁ ran => exact first.failed inv ran
      · next s c₁ ran =>
          obtain ⟨kept, pulls⟩ := first.ok inv ran
          exact (pulls c₁ kept).andThen others

end Stream

namespace Step

variable {Inv : Context → Prop} {P Q : Item → Prop} {body : Item → Eval Stream}

theorem Always.forEach {s : Step} (always : s.Always Inv P)
    (each : ∀ item, P item → (body item).Always Inv (Stream.Always Inv Q)) :
    (s.forEach body).Always Inv Q := by
  induction s with
  | done c => exact always
  | failed c e => exact always
  | yield c item left rest rest_ih =>
      obtain ⟨inv, holds, next⟩ := always
      have others : ∀ c', Inv c' → ((rest c').forEach body).Always Inv Q :=
        fun c' inv' => rest_ih c' (next c' inv')
      have entered := each item holds
      simp only [Step.forEach]
      split
      · next e c₁ ran => exact entered.failed inv ran
      · next inner c₁ ran =>
          obtain ⟨kept, pulls⟩ := entered.ok inv ran
          have pulled := pulls c₁ kept
          split
          · next c₂ ended =>
              rw [ended] at pulled
              exact others c₂ pulled
          · next c₂ e ended =>
              rw [ended] at pulled
              exact pulled
          · next c₂ item₂ left₂ more given =>
              rw [given] at pulled
              obtain ⟨inv₂, holds₂, next₂⟩ := pulled
              exact ⟨inv₂, holds₂, fun c' inv' => (next₂ c' inv').andThen others⟩

end Step

end QueryKernel
