import QueryKernel.Proofs.Compile.Undisturbed

/-!
# Successful compilation steps

What it means for the steps of a compilation to succeed, and what becomes of a call of a built-in
function with one argument: the argument is simplified as it would be alone, and the call is reduced
afterwards.
-/

namespace QueryKernel

variable {calls : Calls}

namespace Compile

variable {A B : Type} {c c' : CompileContext}

theorem bind_ok_iff {x : Compile A} {f : A → Compile B} {b : B} :
    (x >>= f) c = (.ok b, c') ↔ ∃ a c₁, x c = (.ok a, c₁) ∧ f a c₁ = (.ok b, c') := by
  rw [bind_apply]
  constructor
  · intro ran
    split at ran
    · next a c₁ first => exact ⟨a, c₁, first, ran⟩
    · cases ran
  · rintro ⟨a, c₁, first, second⟩
    rw [first]
    exact second

theorem pure_ok_iff {a b : A} : (pure a : Compile A) c = (.ok b, c') ↔ a = b ∧ c = c' := by
  constructor
  · intro ran
    cases ran
    exact ⟨rfl, rfl⟩
  · rintro ⟨rfl, rfl⟩
    rfl

theorem options_ok_iff {options : Options} :
    Compile.options c = (.ok options, c') ↔ options = c.context.options ∧ c' = c := by
  constructor
  · intro ran
    cases ran
    exact ⟨rfl, rfl⟩
  · rintro ⟨rfl, rfl⟩
    rfl

/-- A check has no effect. -/
theorem requireNoUpdates_ok {description : String} {e : Expr} {u : Unit}
    (passed : requireNoUpdates description e c = (.ok u, c')) : e.hasUpdates = false ∧ c' = c := by
  unfold requireNoUpdates at passed
  split at passed
  · cases passed
  · next quiet =>
      cases passed
      exact ⟨Bool.eq_false_iff.2 quiet, rfl⟩

theorem requireNoneUpdates_ok {description : String} {es : List Expr} {u : Unit}
    (passed : requireNoneUpdates description es c = (.ok u, c')) :
    (∀ e ∈ es, e.hasUpdates = false) ∧ c' = c := by
  induction es generalizing c with
  | nil =>
      cases passed
      exact ⟨fun _ member => (by cases member), rfl⟩
  | cons e rest rest_ih =>
      obtain ⟨_, c₁, first, others⟩ := bind_ok_iff.1 passed
      obtain ⟨quiet, rfl⟩ := requireNoUpdates_ok first
      obtain ⟨all, rfl⟩ := rest_ih others
      exact ⟨List.forall_mem_cons.2 ⟨quiet, all⟩, rfl⟩

theorem requireNoneUpdates_of_quiet {description : String} {es : List Expr}
    (quiet : ∀ e ∈ es, e.hasUpdates = false) : requireNoneUpdates description es c = (.ok (), c) := by
  induction es with
  | nil => rfl
  | cons e rest rest_ih =>
      have first : requireNoUpdates description e c = (.ok (), c) := by
        rw [requireNoUpdates, quiet e List.mem_cons_self]
        rfl
      exact bind_ok_iff.2 ⟨(), c, first, rest_ih fun s member => quiet s (List.mem_cons_of_mem _ member)⟩

/-- A value found in advance stands in place of the expression. -/
theorem precompute_ok {e : Expr} {k : CompileContext} {v : Value} {context : Context}
    (ran : (e.modes calls).value k.context = (.ok v, context)) :
    ∃ k', precompute calls e k = (.ok (.literal (v.narrow e.sequenceType)), k') := by
  obtain ⟨k', noted⟩ := noteReplacement_ok "pre-evaluate" e.summary (.literal v) { k with context }
  refine ⟨k', ?_⟩
  simp only [precompute, bind_apply, attempt, ran, noted]
  rfl

/-- What is computed in advance becomes a literal, or an error for later. -/
theorem precompute_made {e e' : Expr} {k k' : CompileContext} (made : precompute calls e k = (.ok e', k')) :
    (∃ v context, (e.modes calls).value k.context = (.ok v, context) ∧
      e' = .literal (v.narrow e.sequenceType)) ∨
    ∃ error context, (e.modes calls).value k.context = (.error (.error error), context) ∧
      e' = .deferred (error.locate e.location) (.ofSequenceType e.sequenceType) e.location := by
  obtain ⟨result, k₁, tried, made⟩ := bind_ok_iff.1 made
  unfold attempt at tried
  split at tried
  · next v context ran =>
      cases tried
      obtain ⟨_, _, _, made⟩ := bind_ok_iff.1 made
      exact .inl ⟨v, context, ran, (pure_ok_iff.1 made).1.symm⟩
  · next error context ran =>
      cases tried
      obtain ⟨_, _, _, made⟩ := bind_ok_iff.1 made
      exact .inr ⟨error, context, ran, (pure_ok_iff.1 made).1.symm⟩
  · cases tried

theorem replaceWith_ok (e after : Expr) (k : CompileContext) :
    ∃ k', replaceWith e after k = (.ok (after.narrow e.sequenceType), k') := by
  obtain ⟨k', noted⟩ := noteReplacement_ok "simplify" e.summary after k
  refine ⟨k', ?_⟩
  simp only [replaceWith, replace, bind_apply, noted]
  rfl

end Compile

namespace Expr

open Compile

theorem loopDepth_call {f : BuiltIn} (simple : f ≠ .foldLeft1) (argument : Expr) (type : StaticType)
    (location : Option Location) : (call f [argument] type location).loopDepth = argument.loopDepth := by
  simp [loopDepth, loopDepthAll, simple]

theorem optimizeAllWith_one {again : Expr → Compile Expr} {e : Expr} {es : List Expr}
    {c c' : CompileContext} (ran : optimizeAllWith calls again [e] c = (.ok es, c')) :
    ∃ compiled, es = [compiled] ∧ optimizeWith calls again e c = (.ok compiled, c') := by
  obtain ⟨compiled, c₁, first, others⟩ := bind_ok_iff.1 ran
  obtain ⟨rest, c₂, none, made⟩ := bind_ok_iff.1 others
  obtain ⟨rfl, rfl⟩ := pure_ok_iff.1 none
  obtain ⟨rfl, rfl⟩ := pure_ok_iff.1 made
  exact ⟨compiled, rfl, first⟩

/-- A call with one argument is compiled by simplifying the argument and reducing the call. -/
theorem optimize_call_ok {f : BuiltIn} (simple : f ≠ .foldLeft1) {argument e : Expr} {type : StaticType}
    {location : Option Location} {c c' : CompileContext}
    (ran : (call f [argument] type location).optimizeBy calls c = (.ok e, c')) :
    ∃ compiled c₁, argument.optimizeBy calls c = (.ok compiled, c₁) ∧
      ∃ again, reduceCall calls again f [compiled] location c₁ = (.ok e, c') := by
  rw [optimizeBy, loopDepth_call simple] at ran
  rw [optimizeBy]
  -- What is unrolled is simplified in the same way for the argument and for the call.
  have parts : ∀ again, optimizeWith calls again (call f [argument] type location) c = (.ok e, c') →
      ∃ compiled c₁, optimizeWith calls again argument c = (.ok compiled, c₁) ∧
        ∃ again, reduceCall calls again f [compiled] location c₁ = (.ok e, c') := by
    intro again ran
    rw [optimizeWith] at ran
    obtain ⟨arguments, c₁, first, reduced⟩ := bind_ok_iff.1 ran
    obtain ⟨compiled, rfl, alone⟩ := optimizeAllWith_one first
    exact ⟨compiled, c₁, alone, again, reduced⟩
  generalize argument.loopDepth = depth at ran ⊢
  cases depth with
  | zero => exact parts _ ran
  | succ depth => exact parts _ ran

/-- The same for whole queries. -/
theorem compile_call_ok {f : BuiltIn} (simple : f ≠ .foldLeft1) {argument e : Expr} {type : StaticType}
    {location : Option Location} {c c' : Context}
    (ran : (call f [argument] type location).compileBy calls c = (.ok e, c')) :
    ∃ compiled c₁ c₂, argument.compileBy calls c = (.ok compiled, c₁.context) ∧
      ∃ again, reduceCall calls again f [compiled] location c₁ = (.ok e, c₂) := by
  obtain ⟨made, rfl⟩ := Prod.mk.inj ran
  obtain ⟨compiled, c₁, alone, again, reduced⟩ :=
    optimize_call_ok simple (Prod.ext made rfl :
      (call f [argument] type location).optimizeBy calls (.start c) = (.ok e, _))
  exact ⟨compiled, c₁, _, by rw [compileBy, alone], again, reduced⟩

end Expr

end QueryKernel
