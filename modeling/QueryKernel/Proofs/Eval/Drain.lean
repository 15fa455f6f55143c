import QueryKernel.Eval.Modes
import QueryKernel.Proofs.Eval.Keeps
import QueryKernel.Proofs.Value.Shaped

/-!
# Draining streams

All items of a stream, and what is known of a stream whose consumer may change the context between two
items in any way that keeps a condition.

The work is in `Step.AtMost`: a bound on the number of items has to hold whatever is done between them, because
a loop evaluates its body while its source is still being read.
-/

namespace QueryKernel

namespace Step

/-- All items of a stream, one after another. -/
def drain : Step → Except Failure (List Item) × Context
  | done c => (.ok [], c)
  | failed c e => (.error e, c)
  | yield c item _ rest =>
      match (rest c).drain with
      | (.ok items, c) => (.ok (item :: items), c)
      | (.error e, c) => (.error e, c)

/-- The condition holds after each step if it holds before, and all items are good. -/
def Sound (Inv : Context → Prop) (good : Item → Prop) : Step → Prop
  | done c => Inv c
  | failed _ _ => True
  | yield c item _ rest => Inv c ∧ good item ∧ ∀ c', Inv c' → (rest c').Sound Inv good

/-- No more items than the given number, whatever happens to the context in between. -/
def AtMost (Inv : Context → Prop) : Step → Nat → Prop
  | done _, _ => True
  | failed _ _, _ => True
  | yield _ _ _ rest, n => ∃ m, n = m + 1 ∧ ∀ c', Inv c' → (rest c').AtMost Inv m

variable {Inv : Context → Prop} {good : Item → Prop}

theorem drain_yield_ok {c c' : Context} {item : Item} {left : Option Nat} {rest : Context → Step}
    {items : List Item} : (yield c item left rest).drain = (.ok items, c') ↔
      ∃ others, (rest c).drain = (.ok others, c') ∧ items = item :: others := by
  simp only [drain]
  cases (rest c).drain with
  | mk result c₁ =>
      cases result with
      | ok others =>
          simp only [Prod.mk.injEq, Except.ok.injEq]
          constructor
          · rintro ⟨rfl, rfl⟩
            exact ⟨others, ⟨rfl, rfl⟩, rfl⟩
          · rintro ⟨_, ⟨rfl, rfl⟩, rfl⟩
            exact ⟨rfl, rfl⟩
      | error e => simp

theorem Sound.drain {s : Step} (sound : s.Sound Inv good) {items : List Item} {c : Context}
    (drained : s.drain = (.ok items, c)) : Inv c ∧ ∀ item ∈ items, good item := by
  induction s generalizing items with
  | done c₀ =>
      cases drained
      exact ⟨sound, by simp⟩
  | failed c₀ e => cases drained
  | yield c₀ item left rest rest_ih =>
      obtain ⟨inv, holds, next⟩ := sound
      obtain ⟨others, rested, rfl⟩ := drain_yield_ok.1 drained
      obtain ⟨final, all⟩ := rest_ih c₀ (next c₀ inv) rested
      exact ⟨final, by simpa using ⟨holds, all⟩⟩

theorem AtMost.mono {s : Step} {n m : Nat} (atMost : s.AtMost Inv n) (fewer : n ≤ m) :
    s.AtMost Inv m := by
  induction s generalizing n m with
  | done c => trivial
  | failed c e => trivial
  | yield c item left rest rest_ih =>
      obtain ⟨k, rfl, next⟩ := atMost
      exact ⟨m - 1, by omega, fun c' inv => rest_ih c' (next c' inv) (by omega)⟩

theorem AtMost.drain {s : Step} {n : Nat} (atMost : s.AtMost Inv n) (sound : s.Sound Inv good)
    {items : List Item} {c : Context} (drained : s.drain = (.ok items, c)) : items.length ≤ n := by
  induction s generalizing n items with
  | done c₀ =>
      cases drained
      exact Nat.zero_le _
  | failed c₀ e => cases drained
  | yield c₀ item left rest rest_ih =>
      obtain ⟨inv, _, next⟩ := sound
      obtain ⟨others, rested, rfl⟩ := drain_yield_ok.1 drained
      obtain ⟨k, rfl, few⟩ := atMost
      exact Nat.succ_le_succ (rest_ih c₀ (few c₀ inv) (next c₀ inv) rested)

/-! ## One stream after another -/

theorem Sound.andThen {s : Step} {more : Context → Step} (first : s.Sound Inv good)
    (second : ∀ c, Inv c → (more c).Sound Inv good) : (s.andThen more).Sound Inv good := by
  induction s with
  | done c => exact second c first
  | failed c e => trivial
  | yield c item left rest rest_ih =>
      obtain ⟨inv, holds, next⟩ := first
      exact ⟨inv, holds, fun c' inv' => rest_ih c' (next c' inv')⟩

theorem AtMost.andThen {s : Step} {more : Context → Step} {m n : Nat} (first : s.AtMost Inv m)
    (sound : s.Sound Inv good) (second : ∀ c, Inv c → (more c).AtMost Inv n) :
    (s.andThen more).AtMost Inv (m + n) := by
  induction s generalizing m with
  | done c => exact (second c sound).mono (Nat.le_add_left _ _)
  | failed c e => trivial
  | yield c item left rest rest_ih =>
      obtain ⟨_, _, next⟩ := sound
      obtain ⟨k, rfl, few⟩ := first
      exact ⟨k + n, by omega, fun c' inv' => rest_ih c' (few c' inv') (next c' inv')⟩

theorem drain_andThen {s : Step} {more : Context → Step} {items : List Item} {c' : Context} :
    (s.andThen more).drain = (.ok items, c') ↔
      ∃ front c₁ back, s.drain = (.ok front, c₁) ∧ (more c₁).drain = (.ok back, c') ∧
        items = front ++ back := by
  induction s generalizing items with
  | done c =>
      constructor
      · exact fun drained => ⟨[], c, items, rfl, drained, rfl⟩
      · rintro ⟨front, c₁, back, first, second, rfl⟩
        cases first
        exact second
  | failed c e =>
      constructor
      · exact fun drained => by cases drained
      · rintro ⟨front, c₁, back, first, second, rfl⟩
        cases first
  | yield c item left rest rest_ih =>
      simp only [Step.andThen, drain_yield_ok, rest_ih]
      constructor
      · rintro ⟨_, ⟨front, c₁, back, first, second, rfl⟩, rfl⟩
        exact ⟨item :: front, c₁, back, ⟨front, first, rfl⟩, second, rfl⟩
      · rintro ⟨_, c₁, back, ⟨front, first, rfl⟩, second, rfl⟩
        exact ⟨front ++ back, ⟨front, c₁, back, first, second, rfl⟩, rfl⟩

/-! ## A stream for each item -/

/-- What a loop makes of an item: a stream that is sound wherever it is read. -/
def BodySound (Inv : Context → Prop) (good : Item → Prop) (body : Item → Eval Stream) : Prop :=
  ∀ item, good item →
    (body item).Keeps Inv fun inner => ∀ c, Inv c → (inner.pull c).Sound Inv good

theorem Sound.forEach {s : Step} {body : Item → Eval Stream} (sound : s.Sound Inv good)
    (bodySound : BodySound Inv good body) : (s.forEach body).Sound Inv good := by
  induction s with
  | done c => exact sound
  | failed c e => trivial
  | yield c item left rest rest_ih =>
      obtain ⟨inv, holds, next⟩ := sound
      have entered := bodySound item holds c
      simp only [Step.forEach]
      cases started : body item c with
      | mk result c₁ =>
          cases result with
          | error e => trivial
          | ok inner =>
              obtain ⟨inv₁, pulls⟩ := entered inner c₁ inv started
              have pulled := pulls c₁ inv₁
              dsimp only
              cases first : inner.pull c₁ with
              | done c₂ =>
                  rw [first] at pulled
                  exact rest_ih c₂ (next c₂ pulled)
              | failed c₂ e => trivial
              | yield c₂ item₂ left₂ more =>
                  rw [first] at pulled
                  obtain ⟨inv₂, holds₂, next₂⟩ := pulled
                  refine ⟨inv₂, holds₂, fun c' inv' => (next₂ c' inv').andThen fun c'' inv'' => ?_⟩
                  exact rest_ih c'' (next c'' inv'')

/-- What a loop makes of an item yields at most so many items. -/
def BodyAtMost (Inv : Context → Prop) (good : Item → Prop) (n : Nat) (body : Item → Eval Stream) : Prop :=
  ∀ item, good item → (body item).Keeps Inv fun inner => ∀ c, Inv c → (inner.pull c).AtMost Inv n

/-- One item and the others: the bounds for them are added. -/
theorem forEach_yield_atMost {c : Context} {item : Item} {left : Option Nat} {rest : Context → Step}
    {body : Item → Eval Stream} {n k : Nat} (inv : Inv c) (holds : good item)
    (bodySound : BodySound Inv good body) (bounded : BodyAtMost Inv good n body)
    (others : ∀ c', Inv c' → ((rest c').forEach body).AtMost Inv k) :
    ((yield c item left rest).forEach body).AtMost Inv (n + k) := by
  simp only [Step.forEach]
  cases started : body item c with
  | mk result c₁ =>
      cases result with
      | error e => trivial
      | ok inner =>
          obtain ⟨inv₁, pulls⟩ := bodySound item holds c inner c₁ inv started
          obtain ⟨_, fewPulls⟩ := bounded item holds c inner c₁ inv started
          have pulled := pulls c₁ inv₁
          have few := fewPulls c₁ inv₁
          dsimp only
          cases first : inner.pull c₁ with
          | done c₂ =>
              rw [first] at pulled
              exact (others c₂ pulled).mono (Nat.le_add_left _ _)
          | failed c₂ e => trivial
          | yield c₂ item₂ left₂ more =>
              rw [first] at pulled few
              obtain ⟨inv₂, holds₂, next₂⟩ := pulled
              obtain ⟨m, rfl, few⟩ := few
              refine ⟨m + k, by omega, fun c' inv' => ?_⟩
              exact (few c' inv').andThen (next₂ c' inv') others

theorem AtMost.forEach {s : Step} {body : Item → Eval Stream} {m n : Nat} (atMost : s.AtMost Inv m)
    (sound : s.Sound Inv good) (bodySound : BodySound Inv good body)
    (bounded : BodyAtMost Inv good n body) : (s.forEach body).AtMost Inv (m * n) := by
  induction s generalizing m with
  | done c => trivial
  | failed c e => trivial
  | yield c item left rest rest_ih =>
      obtain ⟨inv, holds, next⟩ := sound
      obtain ⟨k, rfl, few⟩ := atMost
      have others : ∀ c', Inv c' → ((rest c').forEach body).AtMost Inv (k * n) :=
        fun c' inv' => rest_ih c' (few c' inv') (next c' inv')
      rw [Nat.succ_mul, Nat.add_comm]
      exact forEach_yield_atMost inv holds bodySound bounded others

/-- A body that yields nothing. -/
theorem forEach_atMost_zero {s : Step} {body : Item → Eval Stream} (sound : s.Sound Inv good)
    (bodySound : BodySound Inv good body) (bounded : BodyAtMost Inv good 0 body) :
    (s.forEach body).AtMost Inv 0 := by
  induction s with
  | done c => trivial
  | failed c e => trivial
  | yield c item left rest rest_ih =>
      obtain ⟨inv, holds, next⟩ := sound
      exact forEach_yield_atMost (k := 0) inv holds bodySound bounded
        fun c' inv' => rest_ih c' (next c' inv')

/-! ## Folding -/

/-- Folding is draining with something done to each item, unless that fails or changes the context. -/
theorem Sound.fold_eq {β : Type} {f : β → Item → Eval β} {g : β → Item → β} {s : Step}
    (sound : s.Sound Inv good) (steps : ∀ b item c, Inv c → f b item c = (.ok (g b item), c)) (b : β) :
    s.fold f b = match s.drain with
      | (.ok items, c) => (.ok (items.foldl g b), c)
      | (.error e, c) => (.error e, c) := by
  induction s generalizing b with
  | done c => rfl
  | failed c e => rfl
  | yield c item left rest rest_ih =>
      obtain ⟨inv, _, next⟩ := sound
      simp only [Step.fold, Step.drain, steps b item c inv]
      rw [rest_ih c (next c inv)]
      cases (rest c).drain with
      | mk result c₁ => cases result <;> rfl

/-- What a fold gives comes of all items, if its steps leave the context alone. -/
theorem drain_of_fold {β : Type} {f : β → Item → Eval β} {g : β → Item → β}
    (steps : ∀ b item c b' c', f b item c = (.ok b', c') → b' = g b item ∧ c' = c) {s : Step} {b b' : β}
    {c' : Context} (folded : s.fold f b = (.ok b', c')) :
    ∃ items, s.drain = (.ok items, c') ∧ items.foldl g b = b' := by
  induction s generalizing b with
  | done c =>
      cases folded
      exact ⟨[], rfl, rfl⟩
  | failed c e => cases folded
  | yield c item left rest rest_ih =>
      simp only [Step.fold] at folded
      cases stepped : f b item c with
      | mk result c₁ =>
          rw [stepped] at folded
          cases result with
          | error e => cases folded
          | ok b₁ =>
              obtain ⟨rfl, rfl⟩ := steps b item c b₁ c₁ stepped
              obtain ⟨items, drained, same⟩ := rest_ih c₁ folded
              exact ⟨item :: items, drain_yield_ok.2 ⟨items, drained, rfl⟩, same⟩

/-- Whoever goes through one stream and then another one starts the second with what the first has given. -/
theorem fold_andThen {β : Type} (f : β → Item → Eval β) (b : β) (s : Step) (more : Context → Step) :
    (s.andThen more).fold f b = match s.fold f b with
      | (.ok b, c) => (more c).fold f b
      | (.error e, c) => (.error e, c) := by
  induction s generalizing b with
  | done c => rfl
  | failed c e => rfl
  | yield c item left rest rest_ih =>
      simp only [Step.andThen, Step.fold]
      cases f b item c with
      | mk result c₁ =>
          cases result with
          | error e => rfl
          | ok b₁ => exact rest_ih c₁ b₁

theorem Sound.fold {β : Type} {Q : β → Prop} {f : β → Item → Eval β} {s : Step}
    (sound : s.Sound Inv good) {b : β} (start : Q b)
    (steps : ∀ b, Q b → ∀ item, good item → (f b item).Keeps Inv Q) {b' : β} {c' : Context}
    (folded : s.fold f b = (.ok b', c')) : Inv c' ∧ Q b' := by
  induction s generalizing b with
  | done c =>
      cases folded
      exact ⟨sound, start⟩
  | failed c e => cases folded
  | yield c item left rest rest_ih =>
      obtain ⟨inv, holds, next⟩ := sound
      simp only [Step.fold] at folded
      cases stepped : f b item c with
      | mk result c₁ =>
          rw [stepped] at folded
          cases result with
          | error e => cases folded
          | ok b₁ =>
              obtain ⟨inv₁, given⟩ := steps b start item holds c b₁ c₁ inv stepped
              exact rest_ih c₁ (next c₁ inv₁) given folded

end Step

/-! ## Streams of values -/

namespace Stream

variable {Inv : Context → Prop} {good : Item → Prop}

/-- The stream is sound wherever it is read. -/
def Sound (Inv : Context → Prop) (good : Item → Prop) (s : Stream) : Prop :=
  ∀ c, Inv c → (s.pull c).Sound Inv good

/-- The stream yields at most so many items wherever it is read. -/
def AtMost (Inv : Context → Prop) (n : Nat) (s : Stream) : Prop :=
  ∀ c, Inv c → (s.pull c).AtMost Inv n

theorem ofWalk_sound {n : Nat} {w : Walk Expr} {items : List Item} (reads : w.Reads items)
    (all : ∀ item ∈ items, good item) {c : Context} (inv : Inv c) :
    (ofWalk n w c).Sound Inv good := by
  induction n generalizing w items c with
  | zero => exact inv
  | succ n n_ih =>
      obtain ⟨item, rest⟩ := reads.next
      generalize moved : w.next = step at item rest
      obtain ⟨found, w'⟩ := step
      simp only [ofWalk, moved]
      cases items with
      | nil =>
          simp only [List.head?_nil] at item
          subst item
          exact inv
      | cons first others =>
          simp only [List.head?_cons] at item
          subst item
          refine ⟨inv, all first List.mem_cons_self, fun c' inv' => ?_⟩
          exact n_ih rest (fun other member => all other (List.mem_cons_of_mem _ member)) inv'

theorem ofWalk_atMost {n : Nat} {w : Walk Expr} {items : List Item} (reads : w.Reads items)
    {c : Context} : (ofWalk n w c).AtMost Inv items.length := by
  induction n generalizing w items c with
  | zero => trivial
  | succ n n_ih =>
      obtain ⟨item, rest⟩ := reads.next
      generalize moved : w.next = step at item rest
      obtain ⟨found, w'⟩ := step
      simp only [ofWalk, moved]
      cases items with
      | nil =>
          simp only [List.head?_nil] at item
          subst item
          trivial
      | cons first others =>
          simp only [List.head?_cons] at item
          subst item
          exact ⟨others.length, rfl, fun c' _ => n_ih rest⟩

theorem ofWalk_drain {n : Nat} {w : Walk Expr} {items : List Item} (reads : w.Reads items)
    (c : Context) : (ofWalk n w c).drain = (.ok (items.take n), c) := by
  induction n generalizing w items with
  | zero => rfl
  | succ n n_ih =>
      obtain ⟨item, rest⟩ := reads.next
      generalize moved : w.next = step at item rest
      obtain ⟨found, w'⟩ := step
      simp only [ofWalk, moved]
      cases items with
      | nil =>
          simp only [List.head?_nil] at item
          subst item
          rfl
      | cons first others =>
          simp only [List.head?_cons] at item
          subst item
          simp only [Step.drain, n_ih rest]
          rfl

theorem ofValue_sound {v : Value} (valid : v.Valid) (all : ∀ item ∈ v.items, good item) :
    (ofValue v).Sound Inv good :=
  fun _ inv => ofWalk_sound valid.walk_reads all inv

theorem ofValue_atMost {v : Value} (valid : v.Valid) : (ofValue v).AtMost Inv v.items.length :=
  fun _ _ => ofWalk_atMost valid.walk_reads

theorem ofValue_drain {v : Value} (shaped : v.Shaped) (c : Context) :
    ((ofValue v).pull c).drain = (.ok v.items, c) := by
  have drained := ofWalk_drain (n := v.size) shaped.walk_reads c
  rw [shaped.size_eq, List.take_length] at drained
  rw [ofValue, shaped.size_eq]
  exact drained

end Stream

end QueryKernel
