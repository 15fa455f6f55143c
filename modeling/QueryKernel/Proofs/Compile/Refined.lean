import QueryKernel.Proofs.Compile.Undisturbed
import QueryKernel.Proofs.Eval.Built
import QueryKernel.Proofs.Value.Matches

/-!
# Refined types

What stands in place of other expressions, one after another, takes over what was known of their types.  Its
type only gets narrower, no value is lost that has all the types, a known size stays, and so do the items of
a literal.

A size may be known beside a narrower type.  It stays together with the occurrence it came with, and the two
agree because a size only ever comes with the narrowest occurrence.

## Definitions

* `StaticType.RefinedBy` and `Expr.RefinedBy` relate what was there before and after.
* `ValueOf.SameItems` says what narrowing leaves of the items of a literal.
* `Compile.replaceAll` puts an expression in place of others, one after another.
-/

namespace QueryKernel

/-- A value of the known type matches what becomes of another type that is narrowed by it. -/
theorem ValueOf.Matches.of_narrowed {F : Type} {v : ValueOf F} {known found narrower : SequenceType}
    (fits : v.Matches known) (valid : v.Valid) (narrowed : narrowed? known found = some narrower) :
    v.Matches narrower := by
  obtain ⟨-, -, rfl⟩ := narrowed?_ok narrowed
  split
  · next empty => exact (matches_empty_iff valid).2 (fits.nil_of_isEmpty valid empty)
  · exact fits

/-! ## Static types -/

namespace StaticType

/-- The second static type is narrower than the first.  A known size stays and is allowed by the occurrence,
and a value of the first type that has all known types is of the second type too. -/
structure RefinedBy (known : List SequenceType) (before after : StaticType) : Prop where
  subtype : after.sequenceType.isSubtype before.sequenceType = true
  size : ∀ n, before.size? = some n → after.size? = some n
  consistent : ∀ n, after.size? = some n → after.sequenceType.occurrence.allows n = true
  keeps : ∀ v : Value, v.Valid → (∀ s ∈ known, v.Matches s) → v.Matches before.sequenceType →
    v.Matches after.sequenceType

variable {t t' t'' : StaticType} {known more : List SequenceType}

theorem Formed.consistent (formed : t.Formed) (n : Nat) (size : t.size? = some n) :
    t.sequenceType.occurrence.allows n = true := by
  rw [formed.occurrence_eq size]
  exact Occurrence.allows_ofSize n

theorem Formed.refined_self (formed : t.Formed) : t.RefinedBy known t :=
  ⟨SequenceType.isSubtype_refl _, fun _ => id, formed.consistent, fun _ _ _ => id⟩

theorem RefinedBy.trans (first : t.RefinedBy known t') (second : t'.RefinedBy more t'') :
    t.RefinedBy (known ++ more) t'' where
  subtype := SequenceType.isSubtype_trans second.subtype first.subtype
  size n size := second.size n (first.size n size)
  consistent := second.consistent
  keeps v valid all fits := by
    rw [List.forall_mem_append] at all
    exact second.keeps v valid all.2 (first.keeps v valid all.1 fits)

/-- Another item type, below the first one and above the items of all values that count. -/
theorem Formed.refined_retyped (formed : t.Formed) {type : ItemType}
    (below : type.isSubtype t.sequenceType.type = true)
    (instances : ∀ v : Value, v.Valid → (∀ s ∈ known, v.Matches s) → ∀ item ∈ v.items,
      item.type.isSubtype type = true) :
    t.RefinedBy known ⟨⟨type, t.sequenceType.occurrence⟩, t.size?⟩ where
  subtype := SequenceType.isSubtype_iff.2 ⟨Occurrence.isWithin_refl _, fun _ => below⟩
  size _ := id
  consistent := formed.consistent
  keeps v valid all fits := ⟨fits.allows, instances v valid all⟩

theorem Formed.refined_assign (formed : t.Formed) {known narrower : SequenceType}
    (narrowed : narrowed? known t.sequenceType = some narrower) :
    t.RefinedBy [known] (t.assign narrower) := by
  have below := isSubtype_of_narrowed narrowed
  have kept : ∀ v : Value, v.Valid → (∀ s ∈ [known], v.Matches s) → v.Matches narrower :=
    fun v valid all => (all known List.mem_cons_self).of_narrowed valid narrowed
  have still := (formed.assigned narrower).consistent
  have made := t.assign_assigned narrower
  generalize t.assign narrower = t' at made still ⊢
  cases made with
  | empty none =>
      -- Either the size was known, and with it the occurrence, or the narrower type allows nothing else.
      rcases none with known | ⟨unknown, empty⟩
      · have zero : t.sequenceType.occurrence = .zero := formed.occurrence_eq known
        refine ⟨SequenceType.empty_isSubtype_iff.2 (by rw [zero]; rfl), fun n size => ?_, still, ?_⟩
        · rw [← size, known]
        · intro v valid _ fits
          exact (ValueOf.matches_empty_iff valid).2 (fits.nil_of_isEmpty valid (beq_iff_eq.2 zero))
      · rw [SequenceType.isSubtype, if_pos empty] at below
        refine ⟨SequenceType.empty_isSubtype_iff.2 (beq_iff_eq.1 below), fun n size => ?_, still, ?_⟩
        · rw [unknown] at size
          cases size
        · intro v valid all _
          exact (ValueOf.matches_empty_iff valid).2 ((kept v valid all).nil_of_isEmpty valid empty)
  | ignored => exact formed.refined_self
  | @sized n size occupied fits =>
      rw [← size]
      refine formed.refined_retyped ?_ fun v valid all => (kept v valid all).instances
      refine (SequenceType.isSubtype_iff.1 below).2 (SequenceType.isEmpty_eq_false.2 fun zero => occupied ?_)
      rw [zero] at fits
      exact Occurrence.size_of_allows_zero fits
  | adopted unknown =>
      refine ⟨below, fun n size => ?_, still, fun v valid all _ => kept v valid all⟩
      rw [unknown] at size
      cases size

end StaticType

/-! ## Values -/

namespace ItemOf

variable {F : Type} {item : ItemOf F}

@[simp] theorem refine_refine (item : ItemOf F) (type other : ItemType) :
    (item.refine type).refine other = item.refine other := by
  cases item <;> rfl

theorem type_refine (function : item.isFunction = true) (type : ItemType) : (item.refine type).type = type := by
  cases item <;> first | rfl | cases function

end ItemOf

namespace ValueOf

/-- All items are the same.  Of a single function, map or array the type tag may be another one. -/
inductive SameItems (v w : Value) : Prop where
  | same (items : w.items = v.items)
  | retagged {item : Item} {type : ItemType} (before : v.items = [item]) (function : item.isFunction = true)
      (after : w.items = [item.refine type])

theorem SameItems.trans {v w u : Value} (first : v.SameItems w) (second : w.SameItems u) : v.SameItems u := by
  cases second with
  | same items =>
      cases first with
      | same items' => exact .same (items.trans items')
      | retagged before function after => exact .retagged before function (items.trans after)
  | retagged before' function' after' =>
      cases first with
      | same items' => exact .retagged (items'.symm.trans before') function' after'
      | retagged before function after =>
          obtain rfl := List.singleton_inj.1 (after.symm.trans before')
          exact .retagged before function (after'.trans (by rw [ItemOf.refine_refine]))

theorem sameItems_narrow (v : Value) (known : SequenceType) : v.SameItems (v.narrow known) := by
  have made := v.narrow_narrowed known
  generalize v.narrow known = w at made ⊢
  cases made with
  | same => exact .same rfl
  | item single function => exact .retagged (by rw [single]; rfl) function rfl
  | sequence => exact .same (v.items_refine _)

theorem refined_narrow (v : Value) (known : SequenceType) :
    (StaticType.sized v.type v.size).RefinedBy [known]
      (.sized (v.narrow known).type (v.narrow known).size) := by
  have formed : (StaticType.sized v.type v.size).Formed := .sized _ _
  rw [v.size_narrow known]
  have made := v.narrow_narrowed known
  generalize v.narrow known = w at made ⊢
  cases made with
  | same => exact formed.refined_self
  | @item item narrower single function narrowed =>
      subst single
      have retagged : (one (item.refine narrower.type)).type = narrower.type := ItemOf.type_refine function _
      rw [retagged]
      obtain ⟨within, below⟩ := SequenceType.isSubtype_iff.1 (isSubtype_of_narrowed narrowed)
      -- Exactly one item was found, so that the known type is of exactly one item too.
      have some : narrower.isEmpty = false := by
        refine SequenceType.isEmpty_eq_false.2 fun zero => ?_
        rw [zero] at within
        cases within
      exact formed.refined_retyped (below some) fun v valid all =>
        ((all known List.mem_cons_self).of_narrowed valid narrowed).instances
  | sequence below tagged =>
      rw [tagged]
      exact formed.refined_retyped below fun v _ all => (all known List.mem_cons_self).instances

end ValueOf

/-! ## Expressions -/

namespace Expr

variable {e e' e'' : Expr} {known more : List SequenceType}

/-- The static type is refined, and a literal stays one with the same items. -/
structure RefinedBy (known : List SequenceType) (before after : Expr) : Prop where
  type : before.staticType.RefinedBy known after.staticType
  items : ∀ v, before = .literal v → ∃ w, after = .literal w ∧ v.SameItems w

theorem refined_self (formed : e.staticType.Formed) : e.RefinedBy known e :=
  ⟨formed.refined_self, fun v literal => ⟨v, literal, .same rfl⟩⟩

theorem RefinedBy.trans (first : e.RefinedBy known e') (second : e'.RefinedBy more e'') :
    e.RefinedBy (known ++ more) e'' := by
  refine ⟨first.type.trans second.type, fun v literal => ?_⟩
  obtain ⟨w, literal', same⟩ := first.items v literal
  obtain ⟨u, literal'', same'⟩ := second.items w literal'
  exact ⟨u, literal'', same.trans same'⟩

/-- An expression has a static type of its own to narrow, or it stays as it is. -/
theorem staticType_assignType (e : Expr) (narrower : SequenceType) :
    e.assignType narrower = e ∨ (e.assignType narrower).staticType = e.staticType.assign narrower := by
  cases e <;> first | exact .inl rfl | exact .inr rfl

theorem formed_narrow (formed : e.staticType.Formed) (known : SequenceType) :
    (e.narrow known).staticType.Formed := by
  cases literal : e.isLiteral with
  | true =>
      cases e with
      | literal v => exact .sized _ _
      | _ => cases literal
  | false =>
      obtain same | ⟨narrower, -, assigned⟩ := narrow_cases known literal
      · rwa [same]
      · rw [assigned]
        obtain same | typed := e.staticType_assignType narrower
        · rwa [same]
        · rw [typed]
          exact formed.assigned narrower

/-- What is known of one more expression refines the type. -/
theorem refined_narrow (formed : e.staticType.Formed) (known : SequenceType) :
    e.RefinedBy [known] (e.narrow known) := by
  cases literal : e.isLiteral with
  | true =>
      cases e with
      | literal v =>
          refine ⟨v.refined_narrow known, fun u same => ?_⟩
          cases same
          exact ⟨_, rfl, v.sameItems_narrow known⟩
      | _ => cases literal
  | false =>
      have noItems : ∀ v, e = .literal v → ∃ w, e.narrow known = .literal w ∧ v.SameItems w := by
        rintro v rfl
        cases literal
      obtain same | ⟨narrower, narrowed, assigned⟩ := narrow_cases known literal
      · rw [same]
        exact refined_self formed
      · refine ⟨?_, noItems⟩
        rw [assigned]
        obtain same | typed := e.staticType_assignType narrower
        · rw [same]
          exact formed.refined_self
        · rw [typed]
          exact formed.refined_assign narrowed

end Expr

/-! ## Types of expressions as they are built -/

namespace Expr

theorem concatType_formed (operands : List Expr) : (concatType operands).Formed := by
  unfold concatType
  dsimp only
  split
  · exact .sized _ _
  · exact .ofSequenceType _

theorem branchType_formed (yes no : Expr) : (branchType yes no).Formed := by
  unfold branchType
  dsimp only
  split
  · split
    · exact .sized _ _
    · exact .ofSequenceType _
  · exact .ofSequenceType _

theorem loopType_formed (source body : Expr) : (loopType source body).Formed := by
  unfold loopType
  dsimp only
  split
  · exact .ofSequenceType _
  · split
    · exact .sized _ _
    · exact .ofSequenceType _

theorem resultType_formed (f : BuiltIn) {arguments : List Expr}
    (formed : ∀ e ∈ arguments, e.staticType.Formed) : (f.resultType arguments).Formed := by
  cases f with
  | reverse | sortWith =>
      cases arguments with
      | nil => exact .ofSequenceType _
      | cons first rest => exact formed first List.mem_cons_self
  | _ => exact .ofSequenceType _

/-- An expression has a type that was made by the constructors of types, if that holds of the errors in it
that are left for evaluation. -/
theorem Built.formed {declared : Declarations} {good : Item → Prop} {e : Expr} (built : e.Built declared good)
    (later : e.Every fun s => ∀ error type location, s = .deferred error type location → type.Formed) :
    e.staticType.Formed := by
  induction built with
  | literal => exact .sized _ _
  | list => exact concatType_formed _
  | conditional => exact branchType_formed _ _
  | forIn => exact loopType_formed _ _
  | letIn _ _ _ _ result_ih => exact result_ih (later.part (by simp [parts]))
  | call _ _ parts_ih => exact resultType_formed _ fun e member => parts_ih e member (later.part member)
  | deferred => exact later.here _ _ _ rfl
  | _ => exact .ofSequenceType _

end Expr

/-! ## Replacements one after another -/

namespace Compile

/-- Puts an expression in place of others, one after another. -/
def replaceAll (after : Expr) : List ExprSummary → Compile Expr
  | [] => pure after
  | before :: rest => do replaceAll (← replace before after) rest

theorem replace_ok (before : ExprSummary) (after : Expr) (c : CompileContext) :
    ∃ c', replace before after c = (.ok (after.narrow before.sequenceType), c') := by
  obtain ⟨c', noted⟩ := noteReplacement_ok "simplify" before after c
  exact ⟨c', by rw [replace, bind_apply, noted]; rfl⟩

theorem replaceAll_refines {e : Expr} (formed : e.staticType.Formed) (originals : List ExprSummary)
    (c : CompileContext) : ∃ e' c', replaceAll e originals c = (.ok e', c') ∧ e'.staticType.Formed ∧
      e.RefinedBy (originals.map (·.sequenceType)) e' := by
  induction originals generalizing e c with
  | nil => exact ⟨e, c, rfl, formed, Expr.refined_self formed⟩
  | cons before rest rest_ih =>
      obtain ⟨c₁, replaced⟩ := replace_ok before e c
      obtain ⟨e', c', ran, formed', others⟩ := rest_ih (Expr.formed_narrow formed before.sequenceType) c₁
      refine ⟨e', c', ?_, formed', (Expr.refined_narrow formed before.sequenceType).trans others⟩
      rw [replaceAll, bind_apply, replaced]
      exact ran

/-- However often an expression is put in place of others, it gets a type each time that is narrower than the
one it had, keeps a known size, which its occurrence allows, and the values that had its type and that of the
original, and a literal keeps its items.  The same holds from the first replacement to the last one. -/
theorem replacements_refine {e : Expr} (formed : e.staticType.Formed) (originals : List ExprSummary)
    (last : ExprSummary) (c : CompileContext) :
    ∃ before c₁ after c₂, replaceAll e originals c = (.ok before, c₁) ∧
      replace last before c₁ = (.ok after, c₂) ∧
      before.RefinedBy [last.sequenceType] after ∧
      e.RefinedBy ((originals ++ [last]).map (·.sequenceType)) after := by
  obtain ⟨before, c₁, ran, formed', earlier⟩ := replaceAll_refines formed originals c
  obtain ⟨c₂, replaced⟩ := replace_ok last before c₁
  have step := Expr.refined_narrow formed' last.sequenceType
  refine ⟨before, c₁, _, c₂, ran, replaced, step, ?_⟩
  rw [List.map_append]
  exact earlier.trans step

/-- A call of unknown type in place of any number of integers, of one integer, and of numbers. -/
theorem replacements_refine_call :
    let call := Expr.dynamicCallOf .emptySequence [] none
    let summary := fun s : SequenceType => (⟨"call", "f()", s⟩ : ExprSummary)
    let earlier := [summary (.many .integer), summary (.one .integer)]
    let last := summary (.many (.atomic .numeric))
    let c := CompileContext.start (.initial {})
    call.staticType.Formed ∧
      ((replaceAll call (earlier ++ [last]) c).1.toOption.map fun e => e.staticType) = some (.sized .integer 1) ∧
      ∃ before c₁ after c₂, replaceAll call earlier c = (.ok before, c₁) ∧
        replace last before c₁ = (.ok after, c₂) ∧ before.RefinedBy [last.sequenceType] after ∧
        call.RefinedBy [.many .integer, .one .integer, .many (.atomic .numeric)] after := by
  intro call summary earlier last c
  have formed : call.staticType.Formed := .ofSequenceType .anything
  exact ⟨formed, by decide +kernel, replacements_refine formed earlier last c⟩

end Compile

end QueryKernel
