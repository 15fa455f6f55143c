import QueryKernel.ItemType

/-!
# The order of item types

Being a subtype is reflexive, transitive and antisymmetric, the union of two types is above both, and
their intersection has the subtypes that they have in common.

Everything rests on `ancestors_eq`: the bound on the length of a chain of parents is never reached, so the wider
types are those of the parent.  Everything else is an induction from `item()` downwards.
-/

namespace QueryKernel

namespace ItemType

theorem ancestors_eq (t : ItemType) :
    t.ancestors = t :: match t.parent? with
      | none => []
      | some wider => wider.ancestors := by
  cases t with
  | item => rfl
  | atomic a => cases a <;> rfl
  | node n => cases n <;> rfl
  | function f => cases f <;> rfl

theorem self_mem_ancestors (t : ItemType) : t ∈ t.ancestors := by
  rw [ancestors_eq]
  exact List.mem_cons_self

theorem item_mem_ancestors (t : ItemType) : item ∈ t.ancestors := by
  cases t with
  | item => decide
  | atomic a => cases a <;> decide
  | node n => cases n <;> decide
  | function f => cases f <;> decide

theorem isSubtype_iff {t wider : ItemType} : t.isSubtype wider = true ↔ wider ∈ t.ancestors := by
  simp [isSubtype]

theorem isSubtype_refl (t : ItemType) : t.isSubtype t = true :=
  isSubtype_iff.2 t.self_mem_ancestors

theorem isSubtype_item (t : ItemType) : t.isSubtype item = true :=
  isSubtype_iff.2 t.item_mem_ancestors

theorem isSubtype_iff_parent {t wider : ItemType} :
    t.isSubtype wider = true ↔ wider = t ∨ ∃ p, t.parent? = some p ∧ p.isSubtype wider = true := by
  simp only [isSubtype_iff]
  rw [ancestors_eq, List.mem_cons]
  cases t.parent? <;> simp

/-- Induction from `item()` downwards: what holds of a type whenever it holds of its parent. -/
theorem induction_down {motive : ItemType → Prop}
    (step : ∀ t, (∀ p, t.parent? = some p → motive p) → motive t) (t : ItemType) : motive t := by
  generalize above : t.ancestors.length = n
  induction n generalizing t with
  | zero =>
      rw [ancestors_eq] at above
      simp at above
  | succ n n_ih =>
      refine step t fun p parent => n_ih p ?_
      rw [ancestors_eq, parent] at above
      simpa using above

theorem isSubtype_trans {t u v : ItemType} (first : t.isSubtype u = true)
    (second : u.isSubtype v = true) : t.isSubtype v = true := by
  induction t using induction_down with
  | step t parent_ih =>
      rcases isSubtype_iff_parent.1 first with rfl | ⟨p, parent, wider⟩
      · exact second
      · exact isSubtype_iff_parent.2 (.inr ⟨p, parent, parent_ih p parent wider⟩)

/-- A wider type has fewer types above it. -/
theorem eq_or_fewer_of_isSubtype {t u : ItemType} (wider : t.isSubtype u = true) :
    t = u ∨ u.ancestors.length < t.ancestors.length := by
  induction t using induction_down with
  | step t parent_ih =>
      rcases isSubtype_iff_parent.1 wider with rfl | ⟨p, parent, further⟩
      · exact .inl rfl
      · have length : t.ancestors.length = p.ancestors.length + 1 := by
          rw [ancestors_eq, parent, List.length_cons]
        obtain rfl | fewer := parent_ih p parent further
        · exact .inr (by omega)
        · exact .inr (by omega)

theorem isSubtype_antisymm {t u : ItemType} (first : t.isSubtype u = true) (second : u.isSubtype t = true) :
    t = u := by
  obtain same | fewer := eq_or_fewer_of_isSubtype first
  · exact same
  · obtain same | more := eq_or_fewer_of_isSubtype second
    · exact same.symm
    · omega

theorem isSubtype_union_left (t u : ItemType) : t.isSubtype (t.union u) = true := by
  unfold union
  cases found : t.ancestors.find? u.isSubtype with
  | none => exact t.isSubtype_item
  | some wider => exact isSubtype_iff.2 (List.mem_of_find?_eq_some found)

theorem isSubtype_union_right (t u : ItemType) : u.isSubtype (t.union u) = true := by
  unfold union
  cases found : t.ancestors.find? u.isSubtype with
  | none => exact u.isSubtype_item
  | some wider => exact List.find?_some found

theorem union_self (t : ItemType) : t.union t = t := by
  unfold union
  rw [ancestors_eq, List.find?_cons_of_pos t.isSubtype_refl]
  rfl

/-- A type above two others is above their union: the union is the first type above both in the chain from the
first one upwards. -/
theorem union_isSubtype {a b wider : ItemType} (first : a.isSubtype wider = true)
    (second : b.isSubtype wider = true) : (a.union b).isSubtype wider = true := by
  induction a using induction_down with
  | step a parent_ih =>
      unfold union
      rw [ancestors_eq, List.find?_cons]
      cases found : b.isSubtype a with
      | true => exact first
      | false =>
          rcases isSubtype_iff_parent.1 first with rfl | ⟨p, parent, further⟩
          · rw [second] at found
            cases found
          · rw [parent]
            exact parent_ih p parent further

/-! ## Kinds of types -/

/-- A wider type is that of all items, or one of the same kind. -/
theorem same_kind {t wider : ItemType} (le : t.isSubtype wider = true) :
    wider = item ∨ (∃ a b, t = atomic a ∧ wider = atomic b) ∨ (∃ n m, t = node n ∧ wider = node m) ∨
      ∃ f g, t = function f ∧ wider = function g := by
  cases wider with
  | item => exact .inl rfl
  | atomic b =>
      cases t with
      | atomic a => exact .inr (.inl ⟨a, b, rfl, rfl⟩)
      | item => cases le
      | node n => cases n <;> cases le
      | function f => cases f <;> cases le
  | node m =>
      cases t with
      | node n => exact .inr (.inr (.inl ⟨n, m, rfl, rfl⟩))
      | item => cases le
      | atomic a => cases a <;> cases le
      | function f => cases f <;> cases le
  | function g =>
      cases t with
      | function f => exact .inr (.inr (.inr ⟨f, g, rfl, rfl⟩))
      | item => cases le
      | atomic a => cases a <;> cases le
      | node n => cases n <;> cases le

theorem atomic_le_anyAtomic (a : AtomicType) : (atomic a).isSubtype anyAtomic = true := by
  cases a <;> decide

/-! ## Intersections -/

/-- Types with a subtype in common are comparable: the wider types of a type form a chain. -/
theorem comparable_of_common {t a b : ItemType} (first : t.isSubtype a = true)
    (second : t.isSubtype b = true) : a.isSubtype b = true ∨ b.isSubtype a = true := by
  induction t using induction_down with
  | step t parent_ih =>
      rcases isSubtype_iff_parent.1 first with rfl | ⟨p, parent, wider⟩
      · exact .inl second
      · rcases isSubtype_iff_parent.1 second with rfl | ⟨q, same, alsoWider⟩
        · exact .inr first
        · obtain rfl : p = q := Option.some.inj (parent.symm.trans same)
          exact parent_ih p parent wider alsoWider

theorem isSubtype_intersect {t a b common : ItemType} (met : a.intersect? b = some common) :
    t.isSubtype common = true ↔ t.isSubtype a = true ∧ t.isSubtype b = true := by
  unfold intersect? at met
  split at met
  · next below =>
      cases met
      exact ⟨fun le => ⟨le, isSubtype_trans le below⟩, And.left⟩
  · split at met
    · next above =>
        cases met
        exact ⟨fun le => ⟨isSubtype_trans le above, le⟩, And.right⟩
    · cases met

theorem not_isSubtype_of_disjoint {t a b : ItemType} (disjoint : a.intersect? b = none)
    (first : t.isSubtype a = true) : ¬ t.isSubtype b = true := by
  intro second
  unfold intersect? at disjoint
  rcases comparable_of_common first second with below | above
  · simp [below] at disjoint
  · rw [if_pos above] at disjoint
    split at disjoint <;> cases disjoint

end ItemType

end QueryKernel
