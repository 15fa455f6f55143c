import QueryKernel.Proofs.Compile.Everywhere

/-!
# Steps that leave a compilation where it is

Steps of a compilation that change neither scopes nor focuses and make no variables.

Evaluating something in advance is such a step if calls of function items are: no expression makes variables by
itself.
-/

namespace QueryKernel

/-- Focus, supply of variables and the reason to stop are the same. -/
structure Context.Unmoved (c c' : Context) : Prop where
  focus : c'.focus = c.focus
  nextVariable : c'.nextVariable = c.nextVariable
  stopCause : c'.stopCause? = c.stopCause?

/-- Scopes and the focuses set aside are the same as well. -/
structure CompileContext.Unmoved (c c' : CompileContext) : Prop where
  context : c.context.Unmoved c'.context
  innermost : c'.innermost = c.innermost
  outer : c'.outer = c.outer
  focuses : c'.focuses = c.focuses

/-- Calls of function items put the focus back, make no variables and give no reason to stop. -/
def Calls.Unmoving (calls : Calls) : Prop := ∀ f arguments c, Context.Unmoved c (calls f arguments c).2

theorem Context.unmoved_refl (c : Context) : c.Unmoved c := ⟨rfl, rfl, rfl⟩

theorem CompileContext.unmoved_refl (c : CompileContext) : c.Unmoved c := ⟨c.context.unmoved_refl, rfl, rfl, rfl⟩

theorem CompileContext.Unmoved.trans {c₁ c₂ c₃ : CompileContext} (first : c₁.Unmoved c₂) (second : c₂.Unmoved c₃) :
    c₁.Unmoved c₃ :=
  ⟨⟨second.context.focus.trans first.context.focus, second.context.nextVariable.trans first.context.nextVariable,
    second.context.stopCause.trans first.context.stopCause⟩, second.innermost.trans first.innermost,
    second.outer.trans first.outer, second.focuses.trans first.focuses⟩

namespace Compile

variable {A B : Type}

/-- Scopes, focuses, the supply of variables and the reason to stop are left alone. -/
def Still (x : Compile A) : Prop := ∀ c : CompileContext, c.Unmoved (x c).2

theorem Still.pure {a : A} : Still (pure a) := CompileContext.unmoved_refl

theorem Still.bind {x : Compile A} {f : A → Compile B} (first : x.Still) (second : ∀ a, (f a).Still) :
    (x >>= f).Still := by
  intro c
  rw [bind_apply]
  have before := first c
  split
  · next a c₁ step =>
      rw [step] at before
      exact before.trans (second a c₁)
  · next e c₁ step =>
      rw [step] at before
      exact before

theorem options_still : options.Still := CompileContext.unmoved_refl

theorem state_still : state.Still := CompileContext.unmoved_refl

theorem note_still (message : String) (texts : List String) : (note message texts).Still :=
  fun _ => ⟨⟨rfl, rfl, rfl⟩, rfl, rfl, rfl⟩

theorem noteReplacement_still (verb : String) (before : ExprSummary) (after : Expr) :
    (noteReplacement verb before after).Still := by
  refine options_still.bind fun most => ?_
  dsimp only
  split
  · exact .pure
  · exact note_still _ _

theorem attempt_still {x : Eval A} (keeps : ∀ c : Context, c.Unmoved (x c).2) : (attempt x).Still := by
  intro c
  have kept := keeps c.context
  simp only [attempt]
  split <;> next ran =>
    rw [ran] at kept
    exact ⟨kept, rfl, rfl, rfl⟩

/-- No evaluation makes variables or gives a reason to stop, and the focus is put back, if calls do as much. -/
theorem modes_unmoved {calls : Calls} (unmoving : calls.Unmoving) (e : Expr) (c : Context) :
    c.Unmoved ((e.modes calls).value c).2 := by
  have stable : Stable fun d : Context => d.nextVariable = c.nextVariable ∧ d.stopCause? = c.stopCause? :=
    ⟨fun _ _ same => same, fun _ _ _ same => same, fun _ _ same => same⟩
  have keep : calls.Keep fun d : Context => d.nextVariable = c.nextVariable ∧ d.stopCause? = c.stopCause? := by
    intro f arguments focus d inv
    have kept := unmoving f arguments d
    exact ⟨⟨kept.focus.trans inv.focus_eq, kept.nextVariable.trans inv.rest.1, kept.stopCause.trans inv.rest.2⟩,
      fun _ _ => trivial⟩
  obtain ⟨focus, next, stop⟩ := ((e.modes_keep stable keep c.focus).value c ⟨rfl, rfl, rfl⟩).1
  exact ⟨focus, next, stop⟩

theorem callsWithin_unmoving (depth : Nat) : (callsWithin depth).Unmoving := by
  intro f arguments c
  have stable : Stable fun d : Context => d.nextVariable = c.nextVariable ∧ d.stopCause? = c.stopCause? :=
    ⟨fun _ _ same => same, fun _ _ _ same => same, fun _ _ same => same⟩
  obtain ⟨focus, next, stop⟩ := (callsWithin_keep stable depth f arguments c.focus c ⟨rfl, rfl, rfl⟩).1
  exact ⟨focus, next, stop⟩

theorem placeholder?_still (type : ItemType) (known : Option Value) (source : Option DataSource) :
    (placeholder? type known source).Still := by
  have made : ∀ build, (newNode build).Still := fun _ _ => ⟨⟨rfl, rfl, rfl⟩, rfl, rfl, rfl⟩
  have named : ∀ item, (newItem item).Still := fun _ _ => ⟨⟨rfl, rfl, rfl⟩, rfl, rfl, rfl⟩
  unfold placeholder?
  split
  · exact .pure
  · exact .pure
  · split
    · exact .pure
    · exact made _
    · exact made _
    · exact made _
    · exact named _
    · exact named _
    · exact .pure

theorem contextItem?_still (base : Option Expr) : (contextItem? base).Still := by
  have value : (contextValue? base).Still := by
    refine state_still.bind fun c => ?_
    dsimp only
    split
    · exact .pure
    · exact .pure
    · exact .pure
    · exact .pure
    · exact (placeholder?_still _ _ _).bind fun _ => .pure
  refine value.bind fun found => ?_
  split
  · exact .pure
  · exact .pure
  · exact .pure
  · exact placeholder?_still _ _ _

end Compile

end QueryKernel
