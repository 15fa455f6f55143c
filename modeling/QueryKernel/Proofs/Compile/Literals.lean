import QueryKernel.Proofs.Compile.Alike
import QueryKernel.Proofs.Eval.Kind
import QueryKernel.Proofs.Expr.Narrow

/-!
# Literals of compiled trees

Trees whose literals are of a kind, and what copying and narrowing do to them.
-/

namespace QueryKernel

namespace Expr

/-- What is asked of a node: a literal is of the kind, and an update is allowed. -/
def Bears (k : Kind) (updating : Prop) : Expr → Prop
  | literal v => k.value v
  | delete _ _ => updating
  | _ => True

variable {k : Kind} {updating : Prop} {e e' : Expr}

theorem exists_of_anyUpdates {es : List Expr} (some : anyUpdates es = true) :
    ∃ e ∈ es, e.hasUpdates = true := by
  induction es with
  | nil => cases some
  | cons first rest rest_ih =>
      rw [anyUpdates, Bool.or_eq_true] at some
      rcases some with here | later
      · exact ⟨first, List.mem_cons_self, here⟩
      · obtain ⟨e, member, found⟩ := rest_ih later
        exact ⟨e, List.mem_cons_of_mem _ member, found⟩

theorem updating_of_hasUpdates (bears : e.Every (Bears k updating)) (updates : e.hasUpdates = true) :
    updating := by
  induction e using byParts with
  | step e parts_ih =>
    have part : ∀ s ∈ e.parts, s.hasUpdates = true → updating :=
      fun s member => parts_ih s member (bears.part member)
    -- Only these hand on the updates of their parts; the others have none.
    cases e with
    | list operands type location =>
        obtain ⟨s, member, found⟩ := exists_of_anyUpdates updates
        exact part s member found
    | conditional test yes no type location =>
        rw [hasUpdates, Bool.or_eq_true] at updates
        rcases updates with positive | negative
        · exact part yes (by simp [parts]) positive
        · exact part no (by simp [parts]) negative
    | letIn var bound body location =>
        rw [hasUpdates, Bool.or_eq_true] at updates
        rcases updates with value | result
        · exact part bound (by simp [parts]) value
        · exact part body (by simp [parts]) result
    | forIn var source body type location =>
        rw [hasUpdates, Bool.or_eq_true] at updates
        rcases updates with input | result
        · exact part source (by simp [parts]) input
        · exact part body (by simp [parts]) result
    | delete target location => exact bears.here
    | _ => cases updates

/-! ## Narrowing -/

theorem parts_narrow (e : Expr) (known : SequenceType) : (e.narrow known).parts = e.parts := by
  cases e with
  | literal v => rfl
  | _ => simp only [narrow]; split <;> rfl

theorem binder?_narrow (e : Expr) (known : SequenceType) : (e.narrow known).binder? = e.binder? := by
  cases e with
  | literal v => rfl
  | _ => simp only [narrow]; split <;> rfl

theorem binders_narrow (e : Expr) (known : SequenceType) : (e.narrow known).binders = e.binders := by
  cases e with
  | literal v => rfl
  | _ => simp only [narrow]; split <;> rfl

/-- A condition on the nodes of an expression is kept by narrowing if it is kept at its root. -/
theorem Every.narrow {p : Expr → Prop} {known : SequenceType} (every : e.Every p)
    (here : p (e.narrow known)) : (e.narrow known).Every p := by
  refine .node here fun s member => every.part ?_
  rwa [parts_narrow] at member

theorem bears_narrow (closed : ∀ v known, k.value v → k.value (v.narrow known))
    (bears : e.Every (Bears k updating)) (known : SequenceType) :
    (e.narrow known).Every (Bears k updating) := by
  refine bears.narrow ?_
  have here := bears.here
  cases e with
  | literal v => exact closed v known here
  | delete target location =>
      simp only [Expr.narrow]
      split <;> exact here
  | _ =>
      simp only [Expr.narrow]
      split <;> trivial

/-! ## Copies -/

variable {ref bind : Nat → Nat → Prop}

theorem mem_zip_of_mem_right {A B : Type} {as : List A} {bs : List B} (length : as.length = bs.length) {b : B}
    (member : b ∈ bs) : ∃ a ∈ as, (a, b) ∈ as.zip bs := by
  obtain ⟨i, bound, rfl⟩ := List.mem_iff_getElem.1 member
  have within : i < as.length := length ▸ bound
  have both : i < (as.zip bs).length := by
    rw [List.length_zip, length, Nat.min_self]
    exact bound
  refine ⟨as[i], List.getElem_mem within, ?_⟩
  rw [← List.getElem_zip (h := both)]
  exact List.getElem_mem both

theorem alike_part (alike : Alike ref bind e e') {s' : Expr} (member : s' ∈ e'.parts) :
    ∃ s ∈ e.parts, Alike ref bind s s' := by
  -- Parts are listed, or are two, or one comes before a list.
  have listed : ∀ {es es' : List Expr}, es.length = es'.length →
      (∀ pair ∈ es.zip es', Alike ref bind pair.1 pair.2) → s' ∈ es' → ∃ s ∈ es, Alike ref bind s s' := by
    intro es es' length parts inside
    obtain ⟨s, original, paired⟩ := mem_zip_of_mem_right length inside
    exact ⟨s, original, parts _ paired⟩
  have both : ∀ {a b a' b' : Expr}, Alike ref bind a a' → Alike ref bind b b' → s' ∈ [a', b'] →
      ∃ s ∈ [a, b], Alike ref bind s s' := by
    intro a b a' b' left right inside
    rcases List.mem_cons.1 inside with rfl | last
    · exact ⟨a, List.mem_cons_self, left⟩
    · rw [List.mem_singleton.1 last]
      exact ⟨b, List.mem_cons_of_mem _ List.mem_cons_self, right⟩
  have headed : ∀ {a a' : Expr} {es es' : List Expr}, Alike ref bind a a' → es.length = es'.length →
      (∀ pair ∈ es.zip es', Alike ref bind pair.1 pair.2) → s' ∈ a' :: es' →
      ∃ s ∈ a :: es, Alike ref bind s s' := by
    intro a a' es es' first length parts inside
    rcases List.mem_cons.1 inside with rfl | later
    · exact ⟨a, List.mem_cons_self, first⟩
    · obtain ⟨s, original, found⟩ := listed length parts later
      exact ⟨s, List.mem_cons_of_mem _ original, found⟩
  cases alike with
  | list length parts => exact listed length parts member
  | call length parts => exact listed length parts member
  | range low high => exact both low high member
  | arithmetic left right => exact both left right member
  | comparison left right => exact both left right member
  | letIn _ _ value result => exact both value result member
  | forIn _ _ input result => exact both input result member
  | conditional condition positive negative =>
      rcases List.mem_cons.1 member with rfl | later
      · exact ⟨_, List.mem_cons_self, condition⟩
      · obtain ⟨s, original, found⟩ := both positive negative later
        exact ⟨s, List.mem_cons_of_mem _ original, found⟩
  | filter input length conditions => exact headed input length conditions member
  | dynamicCall function length parts => exact headed function length parts member
  | delete input =>
      rw [List.mem_singleton.1 member]
      exact ⟨_, List.mem_cons_self, input⟩
  | _ => cases member

/-- A condition on the nodes of an expression carries over to alike ones if it does so at each node. -/
theorem Alike.every {p q : Expr → Prop} (node : ∀ {s s'}, Alike ref bind s s' → p s → q s')
    (alike : Alike ref bind e e') (every : e.Every p) : e'.Every q := by
  induction e' using byParts generalizing e with
  | step e' parts_ih =>
      refine .node (node alike every.here) fun s' member => ?_
      obtain ⟨s, original, same⟩ := alike_part alike member
      exact parts_ih s' member same (every.part original)

theorem alike_bears (alike : Alike ref bind e e') (bears : e.Every (Bears k updating)) :
    e'.Every (Bears k updating) := by
  refine alike.every (fun same here => ?_) bears
  cases same <;> exact here

/-- Copying keeps the literals and makes no updates. -/
theorem copy_bears (bears : e.Every (Bears k updating)) (s : Copying) :
    (e.copy s).1.Every (Bears k updating) := alike_bears (alike_copy e s) bears

end Expr

/-! ## Values in shape -/

namespace ValueOf

theorem narrow_shaped {v : Value} (known : SequenceType) (shaped : v.Shaped) : (v.narrow known).Shaped := by
  have made := v.narrow_narrowed known
  generalize v.narrow known = w at made ⊢
  cases made with
  | same => exact shaped
  | item => trivial
  | sequence => cases v <;> exact shaped

theorem items_narrow {good : Item → Prop} (refine : ∀ item type, good item → good (item.refine type))
    {v : Value} (known : SequenceType) (all : ∀ item ∈ v.items, good item) :
    ∀ item ∈ (v.narrow known).items, good item := by
  have made := v.narrow_narrowed known
  generalize v.narrow known = w at made ⊢
  cases made with
  | same => exact all
  | item single =>
      subst single
      intro other member
      rw [List.mem_singleton.1 member]
      exact refine _ _ (all _ List.mem_cons_self)
  | sequence => rwa [items_refine]

end ValueOf

theorem Kind.shaped_narrow {good : Item → Prop}
    (refine : ∀ item type, good item → good (item.refine type)) (v : Value) (known : SequenceType)
    (given : (Kind.shaped good).value v) : (Kind.shaped good).value (v.narrow known) :=
  ⟨v.narrow_shaped known given.1, v.items_narrow refine known given.2⟩

end QueryKernel
