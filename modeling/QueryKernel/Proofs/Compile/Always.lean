import QueryKernel.Compile.Optimize
import QueryKernel.Proofs.Eval.Always

/-!
# Conditions on compilations

Compilation steps that keep a condition on the state whatever comes of them, with a condition on their
results and one on their errors.

Both stacks are put back after each step: a step in a scope or under a focus of its own may leave anything
behind there, because both are put back from the state before it.
-/

namespace QueryKernel

namespace Compile

variable {A B : Type} {Inv Inv' : CompileContext → Prop} {Refused : Cause Expr → Prop}
  {P : A → Prop} {Q : B → Prop}

/-- From a state where the condition holds, success and failure lead to one where it holds; results and
the causes of errors satisfy the other conditions. -/
def Always (Inv : CompileContext → Prop) (Refused : Cause Expr → Prop) (P : A → Prop)
    (x : Compile A) : Prop :=
  ∀ c, Inv c → Inv (x c).2 ∧ (∀ a, (x c).1 = .ok a → P a) ∧
    ∀ e, (x c).1 = .error (.error e) → Refused e.cause

theorem bind_apply (x : Compile A) (f : A → Compile B) (c : CompileContext) :
    (x >>= f) c = match x c with
      | (.ok a, c) => f a c
      | (.error e, c) => (.error e, c) := rfl

theorem Always.mono {P' : A → Prop} {x : Compile A} (always : x.Always Inv Refused P)
    (implies : ∀ a, P a → P' a) : x.Always Inv Refused P' := by
  intro c inv
  obtain ⟨kept, holds, refused⟩ := always c inv
  exact ⟨kept, fun a given => implies a (holds a given), refused⟩

theorem Always.pure {a : A} (holds : P a) : Always Inv Refused P (pure a) := by
  intro c inv
  refine ⟨inv, fun b same => ?_, fun e impossible => by cases impossible⟩
  cases same
  exact holds

theorem Always.raise {cause : Cause Expr} {location : Option Location} (refused : Refused cause) :
    Always Inv Refused P (raise cause location) := by
  intro c inv
  refine ⟨inv, fun b impossible => (by cases impossible), fun e same => ?_⟩
  cases same
  exact refused

theorem Always.broken {fault : Fault} : Always Inv Refused P (broken fault) :=
  fun _ inv => ⟨inv, fun _ impossible => (by cases impossible), fun _ impossible => by cases impossible⟩

theorem Always.bind {x : Compile A} {f : A → Compile B} (first : x.Always Inv Refused P)
    (second : ∀ a, P a → (f a).Always Inv Refused Q) : (x >>= f).Always Inv Refused Q := by
  intro c inv
  obtain ⟨kept, holds, refused⟩ := first c inv
  rw [bind_apply]
  cases ran : x c with
  | mk result c₁ =>
      rw [ran] at kept holds refused
      cases result with
      | ok a => exact second a (holds a rfl) c₁ kept
      | error e =>
          refine ⟨kept, fun _ impossible => (by cases impossible), fun e' same => ?_⟩
          cases same
          exact refused e' rfl

theorem Always.state : Always Inv Refused Inv state := by
  intro c inv
  refine ⟨inv, fun d same => ?_, fun _ impossible => by cases impossible⟩
  cases same
  exact inv

theorem Always.options : Always Inv Refused (fun _ => True) options :=
  fun _ inv => ⟨inv, fun _ _ => trivial, fun _ impossible => by cases impossible⟩

theorem Always.change {f : CompileContext → CompileContext} (keeps : ∀ c, Inv c → Inv (f c)) :
    Always Inv Refused (fun _ => True) (change f) :=
  fun c inv => ⟨keeps c inv, fun _ _ => trivial, fun _ impossible => by cases impossible⟩

/-- Something that is evaluated keeps the condition if it keeps what the condition says of the context;
its errors are results. -/
theorem Always.attempt {R : CompileContext → Context → Prop} {x : Eval A}
    (evaluates : ∀ c, Inv c → x.Always (R c) P) (before : ∀ c, Inv c → R c c.context)
    (after : ∀ c context, Inv c → R c context → Inv { c with context }) :
    Always Inv Refused (fun result => ∀ a, result = .ok a → P a) (attempt x) := by
  intro c inv
  obtain ⟨kept, holds⟩ := evaluates c inv c.context (before c inv)
  have kept' := after c (x c.context).2 inv kept
  simp only [Compile.attempt]
  split
  · next a context ran =>
      rw [ran] at kept' holds
      refine ⟨kept', fun result same b given => ?_, fun _ impossible => by cases impossible⟩
      cases same
      cases given
      exact holds a rfl
  · next e context ran =>
      rw [ran] at kept'
      refine ⟨kept', fun result same b given => ?_, fun _ impossible => by cases impossible⟩
      cases same
      cases given
  · next failure context other ran =>
      rw [ran] at kept'
      refine ⟨kept', fun result impossible => (by cases impossible), fun e same => ?_⟩
      cases same
      exact absurd rfl (other e)

theorem Always.inScope {scope : Scope} {x : Compile A} (always : x.Always Inv' Refused P)
    (enter : ∀ c, Inv c → Inv' { c.pushScope with innermost := scope })
    (leave : ∀ c after, Inv c → Inv' after →
      Inv { after with innermost := c.innermost, outer := c.outer }) :
    Always Inv Refused P (inScope scope x) := by
  intro c inv
  obtain ⟨kept, holds, refused⟩ := always _ (enter c inv)
  exact ⟨leave c _ inv kept, holds, refused⟩

theorem Always.withFocus {value : Option Value} {x : Compile A} (always : x.Always Inv' Refused P)
    (enter : ∀ c, Inv c → Inv' (c.pushFocus value))
    (leave : ∀ c after, Inv c → Inv' after → Inv { after with
      context := { after.context with focus := c.context.focus }, focuses := c.focuses }) :
    Always Inv Refused P (withFocus value x) := by
  intro c inv
  obtain ⟨kept, holds, refused⟩ := always _ (enter c inv)
  exact ⟨leave c _ inv kept, holds, refused⟩

theorem Always.copying {renames : Renaming} {copy : Copying → A × Copying}
    (copies : ∀ s, P (copy s).1)
    (after : ∀ c n (declared : List Variable), Inv c → Inv { c with
      context := { c.context with nextVariable := n }
      innermost := declared.map (fun var => ⟨var, none, none⟩) ++ c.innermost }) :
    Always Inv Refused (fun copied => P copied.1) (copying renames copy) := by
  intro c inv
  refine ⟨after c _ _ inv, fun copied same => ?_, fun _ impossible => by cases impossible⟩
  cases same
  exact copies _

end Compile

end QueryKernel
