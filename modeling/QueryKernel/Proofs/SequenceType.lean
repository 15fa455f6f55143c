import QueryKernel.Proofs.ItemType
import QueryKernel.SequenceType

/-!
# The order of sequence types

Being a subtype is reflexive and transitive, the item type of a union is above those of both types, and two
types meet where their sizes and their items do.

Where a type allows nothing but the empty sequence its item type does not count, so that each fact has a case of
its own for it.
-/

namespace QueryKernel

namespace Occurrence

variable {a b c : Occurrence}

theorem isWithin_iff : a.isWithin b = true ↔ b.bounds.1 ≤ a.bounds.1 ∧ a.bounds.2 ≤ b.bounds.2 := by
  simp [isWithin]

theorem isWithin_refl (a : Occurrence) : a.isWithin a = true := by
  simp [isWithin_iff]

theorem isWithin_trans (first : a.isWithin b = true) (second : b.isWithin c = true) : a.isWithin c = true := by
  rw [isWithin_iff] at *
  omega

theorem zero_isWithin_iff : zero.isWithin a = true ↔ a.least = 0 := by
  cases a <;> decide

theorem eq_zero_of_isWithin_zero (within : a.isWithin zero = true) : a = zero := by
  cases a <;> first | rfl | cases within

theorem size_of_allows_zero {n : Nat} (allowed : zero.allows n = true) : n = 0 := by
  simpa [allows, least, greatest?, bounds] using allowed

/-- What is allowed by both is the narrower of two, one within the other. -/
theorem intersect?_of_isWithin (within : a.isWithin b = true) : a.intersect? b = some a := by
  cases a <;> cases b <;> first | rfl | cases within

end Occurrence

namespace SequenceType

theorem isEmpty_eq_false {s : SequenceType} : s.isEmpty = false ↔ s.occurrence ≠ .zero := by
  simp [isEmpty]

/-! ## Subtypes -/

/-- The item types are compared unless the empty sequence is all there is. -/
theorem isSubtype_iff {a b : SequenceType} : a.isSubtype b = true ↔
    a.occurrence.isWithin b.occurrence = true ∧ (a.isEmpty = false → a.type.isSubtype b.type = true) := by
  unfold isSubtype
  by_cases empty : a.isEmpty = true
  · have zero : a.occurrence = .zero := beq_iff_eq.1 empty
    simp [empty, zero, Occurrence.zero_isWithin_iff]
  · simp [empty]

theorem isSubtype_refl (s : SequenceType) : s.isSubtype s = true :=
  isSubtype_iff.2 ⟨s.occurrence.isWithin_refl, fun _ => s.type.isSubtype_refl⟩

theorem isSubtype_trans {a b c : SequenceType} (first : a.isSubtype b = true) (second : b.isSubtype c = true) :
    a.isSubtype c = true := by
  obtain ⟨sizes, items⟩ := isSubtype_iff.1 first
  obtain ⟨sizes', items'⟩ := isSubtype_iff.1 second
  refine isSubtype_iff.2 ⟨Occurrence.isWithin_trans sizes sizes', fun occupied => ?_⟩
  have stillOccupied : b.isEmpty = false := by
    rw [isEmpty_eq_false] at occupied ⊢
    intro zero
    rw [zero] at sizes
    exact occupied (Occurrence.eq_zero_of_isWithin_zero sizes)
  exact ItemType.isSubtype_trans (items occupied) (items' stillOccupied)

/-! ## Unions and intersections -/

theorem type_le_union_left {s u : SequenceType} (occupied : s.isEmpty = false) :
    s.type.isSubtype (s.union u).type = true := by
  simp only [union, occupied, Bool.false_eq_true, if_false]
  split
  · exact s.type.isSubtype_refl
  · exact ItemType.isSubtype_union_left _ _

theorem type_le_union_right {s u : SequenceType} (occupied : u.isEmpty = false) :
    u.type.isSubtype (s.union u).type = true := by
  simp only [union, occupied, Bool.false_eq_true, if_false]
  split
  · exact u.type.isSubtype_refl
  · exact ItemType.isSubtype_union_right _ _

/-- The intersection of two types, by what their sizes and their items have in common. -/
inductive Meet (a b : SequenceType) : Option SequenceType → Prop where
  | noSize (apart : a.occurrence.intersect? b.occurrence = none) : Meet a b none
  | noItem {o : Occurrence} (sizes : a.occurrence.intersect? b.occurrence = some o)
      (apart : a.type.intersect? b.type = none) (least : o.least ≠ 0) : Meet a b none
  | onlyEmpty {o : Occurrence} (sizes : a.occurrence.intersect? b.occurrence = some o)
      (none : o = .zero ∨ a.type.intersect? b.type = none) (least : o.least = 0) : Meet a b (some .empty)
  | common {o : Occurrence} {t : ItemType} (sizes : a.occurrence.intersect? b.occurrence = some o)
      (items : a.type.intersect? b.type = some t) : Meet a b (some ⟨t, o⟩)

theorem intersect?_meet (a b : SequenceType) : Meet a b (a.intersect? b) := by
  unfold intersect?
  split
  · next apart => exact .noSize apart
  · next sizes => exact .onlyEmpty sizes (.inl rfl) rfl
  · next o _ sizes =>
      split
      · next t items => exact .common sizes items
      · next apart =>
          split
          · next least => exact .onlyEmpty sizes (.inr apart) least
          · next least => exact .noItem sizes apart least

/-- A subtype is what it has in common with the type, but for the item type of the empty sequence. -/
theorem intersect?_of_isSubtype {a b : SequenceType} (subtype : a.isSubtype b = true) :
    a.intersect? b = some (if a.isEmpty then empty else a) := by
  obtain ⟨sizes, items⟩ := isSubtype_iff.1 subtype
  have same := Occurrence.intersect?_of_isWithin sizes
  unfold intersect?
  rw [same]
  cases occupied : a.isEmpty with
  | true =>
      have zero : a.occurrence = .zero := beq_iff_eq.1 occupied
      simp [zero]
  | false =>
      have common : a.type.intersect? b.type = some a.type := by
        rw [ItemType.intersect?, if_pos (items occupied)]
      have some := isEmpty_eq_false.1 occupied
      split
      · contradiction
      · next zero => exact absurd (Option.some.inj zero) some
      · next o _ sizes =>
          cases sizes
          simp [common]

theorem empty_isSubtype_iff {s : SequenceType} : empty.isSubtype s = true ↔ s.occurrence.least = 0 := by
  simp [isSubtype, isEmpty, empty]

end SequenceType

end QueryKernel
