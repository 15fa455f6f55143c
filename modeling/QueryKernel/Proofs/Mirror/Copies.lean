import QueryKernel.Proofs.Mirror.Expressions

/-!
# Copies go the same way

A copy of an expression gives what the expression gives, in a context in which the variables that replace
others hold what the others held.

Bodies of function items are shared by an expression and its copy.  So what they mention must stand for itself:
it is neither bound in the expression nor replaced.
-/

namespace QueryKernel

/-- The number of the variable that replaces a variable. -/
def Copying.image (s : Copying) (id : Nat) : Nat := ((s.renames.lookup id).map Variable.id).getD id

theorem Copying.apply_id (s : Copying) (var : Variable) : (s.renames.apply var).id = s.image var.id := by
  unfold Renaming.apply image
  cases s.renames.lookup var.id <;> rfl

/-- Variables are replaced where the expression refers to them, those that it binds are new in their order, and
some stand for themselves. -/
def Copying.link (s : Copying) (e : Expr) (own : Nat → Prop) : Link := fun x y =>
  (x ∈ e.free ∧ y = s.image x) ∨ (∃ i, e.binders[i]? = some x ∧ y = s.nextVariable + i) ∨ (own x ∧ y = x)

/-- The focus, the trees and some variables are visible. -/
def Visible.variables (own : Nat → Prop) : Visible
  | .variable id => own id
  | _ => True

namespace Expr

/-- Variables that are bound in the expression are distinct and apart from those it refers to and from some others, and
the numbers of all others have been taken before. -/
structure KeptApart (own : Nat → Prop) (s : Copying) (e : Expr) : Prop where
  distinct : e.binders.Nodup
  apart : ∀ id ∈ e.binders, id ∉ e.free ∧ ¬own id
  taken : ∀ id ∈ e.free, s.image id < s.nextVariable
  ownTaken : ∀ id, own id → id < s.nextVariable

variable {own : Nat → Prop} {s : Copying} {e : Expr}

namespace KeptApart

/-- A variable that is bound in the expression and the one bound in its place stand for each other. -/
theorem only_new (kept : e.KeptApart own s) {i x : Nat} (found : e.binders[i]? = some x) :
    (s.link e own).Only x (s.nextVariable + i) := by
  have bound : x ∈ e.binders := List.mem_of_getElem? found
  obtain ⟨notFree, notOwn⟩ := kept.apart x bound
  refine ⟨.inr (.inl ⟨i, found, rfl⟩), ?_, ?_⟩
  · rintro y (⟨free, -⟩ | ⟨j, other, rfl⟩ | ⟨owned, -⟩)
    · exact absurd free notFree
    · rw [(List.getElem?_inj (List.getElem?_eq_some_iff.1 found).1 kept.distinct).1 (found.trans other.symm)]
    · exact absurd owned notOwn
  · rintro x' (⟨free, same⟩ | ⟨j, other, same⟩ | ⟨owned, same⟩)
    · have before := kept.taken x' free
      omega
    · obtain rfl : i = j := by omega
      exact Option.some.inj (other.symm.trans found)
    · have before := kept.ownTaken x' owned
      omega

/-- A variable stands for itself only, if no other is replaced by it and it is not replaced itself. -/
theorem only_self (kept : e.KeptApart own s) {id : Nat} (owned : own id)
    (apart : ∀ x ∈ e.free, s.image x = id ↔ x = id) : (s.link e own).Only id id := by
  have before := kept.ownTaken id owned
  refine ⟨.inr (.inr ⟨owned, rfl⟩), ?_, ?_⟩
  · rintro y (⟨free, rfl⟩ | ⟨j, other, rfl⟩ | ⟨-, rfl⟩)
    · exact (apart id free).2 rfl
    · exact absurd owned (kept.apart id (List.mem_of_getElem? other)).2
    · rfl
  · rintro x (⟨free, same⟩ | ⟨j, other, rfl⟩ | ⟨-, rfl⟩)
    · exact (apart x free).1 same.symm
    · omega
    · rfl

/-- What is copied is alike the copy. -/
theorem alike_copy (kept : e.KeptApart own s) : Alike (s.link e own) (s.link e own).Only e (e.copy s).1 := by
  have replaced : Replaces (s.link e own) (· ∈ e.free) s.renames :=
    fun var free => .inl ⟨free, s.apply_id var⟩
  have stands : Stands (s.link e own) (s.link e own).Only e.binders s.nextVariable :=
    fun i x found => ⟨(kept.only_new found).linked, kept.only_new found⟩
  exact (copy_alike e _ s (fun _ free => free) replaced stands).1

end KeptApart

end Expr

end QueryKernel
