import QueryKernel.Eval
import QueryKernel.Proofs.Value.Walk

/-!
# Successful computations

What it means for each way of putting computations together to succeed, and the computations that keep
a condition on the context.
-/

namespace QueryKernel

theorem ErrorOf.cause_locate (error : Error) (location : Option Location) :
    (error.locate location).cause = error.cause := by
  unfold ErrorOf.locate
  split <;> rfl

namespace Eval

variable {α β : Type}

/-! ## Success -/

theorem bind_apply (x : Eval α) (f : α → Eval β) (c : Context) :
    (x >>= f) c = match x c with
      | (.ok a, c) => f a c
      | (.error e, c) => (.error e, c) := rfl

theorem pure_apply (a : α) (c : Context) : (pure a : Eval α) c = (.ok a, c) := rfl

theorem bind_pure (x : Eval α) : (x >>= fun a => pure a) = x := by
  funext c
  rw [bind_apply]
  cases x c with
  | mk result c' => cases result <;> rfl

theorem bind_assoc {γ : Type} (x : Eval α) (f : α → Eval β) (g : β → Eval γ) :
    x >>= f >>= g = x >>= fun a => f a >>= g := by
  funext c
  simp only [bind_apply]
  cases x c with
  | mk result c₁ => cases result <;> rfl

@[simp] theorem bind_ok_iff {x : Eval α} {f : α → Eval β} {c c' : Context} {b : β} :
    (x >>= f) c = (.ok b, c') ↔ ∃ a c₁, x c = (.ok a, c₁) ∧ f a c₁ = (.ok b, c') := by
  rw [bind_apply]
  constructor
  · intro ran
    cases first : x c with
    | mk result c₁ =>
        cases result with
        | ok a =>
            rw [first] at ran
            exact ⟨a, c₁, rfl, ran⟩
        | error e =>
            rw [first] at ran
            cases ran
  · rintro ⟨a, c₁, first, second⟩
    rw [first]
    exact second

@[simp] theorem pure_ok_iff {a b : α} {c c' : Context} :
    (pure a : Eval α) c = (.ok b, c') ↔ a = b ∧ c = c' := by
  constructor
  · intro ran
    cases ran
    exact ⟨rfl, rfl⟩
  · rintro ⟨rfl, rfl⟩
    rfl

@[simp] theorem map_ok_iff {x : Eval α} {f : α → β} {c c' : Context} {b : β} :
    (f <$> x) c = (.ok b, c') ↔ ∃ a, x c = (.ok a, c') ∧ f a = b := by
  have unfolded : f <$> x = x >>= fun a => pure (f a) := rfl
  rw [unfolded, bind_ok_iff]
  constructor
  · rintro ⟨a, c₁, first, second⟩
    obtain ⟨rfl, rfl⟩ := pure_ok_iff.1 second
    exact ⟨a, first, rfl⟩
  · rintro ⟨a, first, rfl⟩
    exact ⟨a, c', first, rfl⟩

@[simp] theorem fail_ok_iff {e : Failure} {c c' : Context} {a : α} :
    (fail e : Eval α) c = (.ok a, c') ↔ False :=
  ⟨fun ran => (by cases ran), False.elim⟩

@[simp] theorem raise_ok_iff {cause : Cause Expr} {location : Option Location} {c c' : Context} {a : α} :
    (raise cause location : Eval α) c = (.ok a, c') ↔ False := fail_ok_iff

@[simp] theorem ofExcept_ok_iff {location : Option Location} {x : Except (Cause Expr) α}
    {c c' : Context} {a : α} : ofExcept location x c = (.ok a, c') ↔ x = .ok a ∧ c = c' := by
  cases x with
  | ok b =>
      have unfolded : ofExcept location (.ok b) = pure b := rfl
      rw [unfolded, pure_ok_iff, Except.ok.injEq]
  | error cause =>
      have unfolded : (ofExcept location (.error cause) : Eval α) = raise cause location := rfl
      rw [unfolded, raise_ok_iff]
      simp

@[simp] theorem ofFaulty_ok_iff {x : Except Fault α} {c c' : Context} {a : α} :
    ofFaulty x c = (.ok a, c') ↔ x = .ok a ∧ c = c' := by
  cases x with
  | ok b =>
      have unfolded : ofFaulty (.ok b) = pure b := rfl
      rw [unfolded, pure_ok_iff, Except.ok.injEq]
  | error fault =>
      have unfolded : (ofFaulty (.error fault) : Eval α) = fail (.fault fault) := rfl
      rw [unfolded, fail_ok_iff]
      simp

@[simp] theorem context_ok_iff {c c' d : Context} : context c = (.ok d, c') ↔ d = c ∧ c' = c := by
  constructor
  · intro ran
    cases ran
    exact ⟨rfl, rfl⟩
  · rintro ⟨rfl, rfl⟩
    rfl

@[simp] theorem change_ok_iff {f : Context → Context} {c c' : Context} {u : Unit} :
    change f c = (.ok u, c') ↔ c' = f c := by
  constructor
  · intro ran
    cases ran
    rfl
  · rintro rfl
    rfl

@[simp] theorem checkStop_ok_iff {c c' : Context} {u : Unit} :
    checkStop c = (.ok u, c') ↔ c.stopCause? = none ∧ c' = c := by
  unfold checkStop
  cases c.stopCause? with
  | none =>
      constructor
      · intro ran
        cases ran
        exact ⟨rfl, rfl⟩
      · rintro ⟨-, rfl⟩
        rfl
  | some cause => simp

@[simp] theorem locate_ok_iff {location : Option Location} {x : Eval α} {c c' : Context} {a : α} :
    locate location x c = (.ok a, c') ↔ x c = (.ok a, c') := by
  unfold locate
  split
  · next e c₁ failed => simp [failed]
  · rfl

theorem foldList_cons (f : β → α → Eval β) (b : β) (a : α) (rest : List α) :
    foldList f b (a :: rest) = f b a >>= fun b => foldList f b rest := rfl

/-! ## Conditions that are kept -/

/-- A success from a context where the condition holds leads to one where it holds, with a result
that satisfies the other condition. -/
def Keeps (Inv : Context → Prop) (P : α → Prop) (x : Eval α) : Prop :=
  ∀ c a c', Inv c → x c = (.ok a, c') → Inv c' ∧ P a

variable {Inv : Context → Prop} {P : α → Prop} {Q : β → Prop}

theorem Keeps.mono {P' : α → Prop} {x : Eval α} (keeps : Keeps Inv P x) (implies : ∀ a, P a → P' a) :
    Keeps Inv P' x := by
  intro c a c' inv ran
  obtain ⟨kept, holds⟩ := keeps c a c' inv ran
  exact ⟨kept, implies a holds⟩

theorem Keeps.pure {a : α} (holds : P a) : Keeps Inv P (pure a) := by
  intro c b c' inv ran
  obtain ⟨rfl, rfl⟩ := pure_ok_iff.1 ran
  exact ⟨inv, holds⟩

theorem Keeps.bind {x : Eval α} {f : α → Eval β} (first : Keeps Inv P x)
    (second : ∀ a, P a → Keeps Inv Q (f a)) : Keeps Inv Q (x >>= f) := by
  intro c b c' inv ran
  obtain ⟨a, c₁, ran₁, ran₂⟩ := bind_ok_iff.1 ran
  obtain ⟨kept, holds⟩ := first c a c₁ inv ran₁
  exact second a holds c₁ b c' kept ran₂

theorem Keeps.map {x : Eval α} {f : α → β} (keeps : Keeps Inv P x) (holds : ∀ a, P a → Q (f a)) :
    Keeps Inv Q (f <$> x) := by
  intro c b c' inv ran
  obtain ⟨a, inner, rfl⟩ := map_ok_iff.1 ran
  obtain ⟨kept, given⟩ := keeps c a c' inv inner
  exact ⟨kept, holds a given⟩

theorem Keeps.fail {e : Failure} : Keeps Inv P (fail e) := by
  intro c a c' _ ran
  exact (fail_ok_iff.1 ran).elim

theorem Keeps.raise {cause : Cause Expr} {location : Option Location} :
    Keeps Inv P (raise cause location) := Keeps.fail

theorem Keeps.ofExcept {location : Option Location} {x : Except (Cause Expr) α}
    (holds : ∀ a, x = .ok a → P a) : Keeps Inv P (ofExcept location x) := by
  intro c a c' inv ran
  obtain ⟨made, rfl⟩ := ofExcept_ok_iff.1 ran
  exact ⟨inv, holds a made⟩

theorem Keeps.ofFaulty {x : Except Fault α} (holds : ∀ a, x = .ok a → P a) :
    Keeps Inv P (ofFaulty x) := by
  intro c a c' inv ran
  obtain ⟨made, rfl⟩ := ofFaulty_ok_iff.1 ran
  exact ⟨inv, holds a made⟩

theorem Keeps.context : Keeps Inv Inv context := by
  intro c d c' inv ran
  obtain ⟨rfl, rfl⟩ := context_ok_iff.1 ran
  exact ⟨inv, inv⟩

theorem Keeps.change {f : Context → Context} {R : Unit → Prop} (keeps : ∀ c, Inv c → Inv (f c))
    (holds : R ()) : Keeps Inv R (change f) := by
  intro c u c' inv ran
  rw [change_ok_iff.1 ran]
  exact ⟨keeps c inv, holds⟩

theorem Keeps.checkStop : Keeps Inv (fun _ => True) checkStop := by
  intro c u c' inv ran
  rw [(checkStop_ok_iff.1 ran).2]
  exact ⟨inv, trivial⟩

theorem Keeps.locate {location : Option Location} {x : Eval α} (keeps : Keeps Inv P x) :
    Keeps Inv P (locate location x) :=
  fun c a c' inv ran => keeps c a c' inv (locate_ok_iff.1 ran)

theorem Keeps.foldList {f : β → α → Eval β} {list : List α} {b : β} (start : Q b)
    (step : ∀ b, Q b → ∀ a ∈ list, Keeps Inv Q (f b a)) : Keeps Inv Q (foldList f b list) := by
  induction list generalizing b with
  | nil => exact .pure start
  | cons a rest rest_ih =>
      rw [foldList_cons]
      refine .bind (step b start a List.mem_cons_self) fun b' holds => ?_
      exact rest_ih holds fun b'' given a' member => step b'' given a' (List.mem_cons_of_mem _ member)

/-! ## Going through a value -/

theorem foldWalk_eq {f : β → Item → Eval β} (n : Nat) (b : β) {w : Walk Expr} {items : List Item}
    (reads : w.Reads items) : foldWalk f n b w = foldList f b (items.take n) := by
  induction n generalizing b w items with
  | zero => rfl
  | succ n n_ih =>
      obtain ⟨item, rest⟩ := reads.next
      generalize moved : w.next = step at item rest
      obtain ⟨found, w'⟩ := step
      funext c
      cases items with
      | nil =>
          simp only [List.head?_nil] at item
          subst item
          simp only [foldWalk, moved]
          rfl
      | cons first others =>
          simp only [List.head?_cons] at item
          subst item
          simp only [foldWalk, moved, List.take_succ_cons, foldList]
          cases f b first c with
          | mk result c₁ =>
              cases result with
              | ok b' => exact congrFun (n_ih b' rest) c₁
              | error e => rfl

theorem foldValue_eq {f : β → Item → Eval β} (b : β) {v : Value} (valid : v.Valid) :
    foldValue f b v = foldList f b v.items := by
  rw [foldValue, foldWalk_eq _ _ valid.walk_reads, valid.size_eq, List.take_length]

end Eval

end QueryKernel
