import QueryKernel.Proofs.Expr.Sizes
import QueryKernel.Proofs.Value.Reachable
import QueryKernel.Proofs.Value.Shaped

/-!
# Additions keep their order

However additions at the front, at the back and of whole values are mixed, the builder counts what it was given
and the finished value has the items in the order that the additions ask for.

The work is in `Addition.Kept`: what relates a builder to a list is kept by each addition, also by that of a
rope, for which the builder freezes and starts again from the joined rope.  That the sizes stay within 64 bits
on the way follows from the size in the end, because additions only make the list longer.
-/

namespace QueryKernel

variable {F : Type}

/-- The builder after a step, unless its size gets too large. -/
def ValueBuilder.performBounded (b : ValueBuilder F) (addition : Addition F) : Except Fault (ValueBuilder F) :=
  let grown := b.perform addition
  if grown.size ≤ maxSize then .ok grown else .error .sizeOverflow

namespace Addition

theorem gathers_kept : Kept ValueOf.Shaped (ValueBuilder.Gathers (F := F)) where
  back := fun gathers item => gathers.addBack item
  front := fun gathers item => gathers.addFront item
  value := fun gathers shaped => gathers.addValue shaped

/-- How many items a step adds. -/
def count : Addition F → Nat
  | .back _ | .front _ => 1
  | .value v => v.size

theorem length_extend {additions : List (Addition F)} (shaped : ∀ v, .value v ∈ additions → v.Shaped)
    (items : List (ItemOf F)) :
    (extend additions items).length = items.length + sumOver count additions := by
  induction additions generalizing items with
  | nil => simp [extend_nil, sumOver]
  | cons addition rest rest_ih =>
      have counted : addition.before.length + addition.after.length = addition.count := by
        cases addition with
        | back item => rfl
        | front item => rfl
        | value v => simp [before, after, count, (shaped v List.mem_cons_self).size_eq]
      rw [extend_cons, rest_ih fun v member => shaped v (List.mem_cons_of_mem _ member), sumOver, ← counted]
      simp only [List.length_append, List.length_reverse]
      omega

theorem length_le_extend (additions : List (Addition F)) (items : List (ItemOf F)) :
    items.length ≤ (extend additions items).length := by
  simp only [extend, List.length_append]
  omega

/-- No size on the way is larger than the one in the end. -/
theorem performBounded_run {additions : List (Addition F)} (shaped : ∀ v, .value v ∈ additions → v.Shaped)
    {b : ValueBuilder F} {items : List (ItemOf F)} (gathers : b.Gathers items)
    (fits : (extend additions items).length ≤ maxSize) :
    additions.foldlM ValueBuilder.performBounded b = .ok (additions.foldl ValueBuilder.perform b) := by
  induction additions generalizing b items with
  | nil => rfl
  | cons addition rest rest_ih =>
      rw [extend_cons] at fits
      have grown : (b.perform addition).Gathers (addition.before.reverse ++ items ++ addition.after) := by
        refine gathers_kept.perform ?_ gathers
        rintro v rfl
        exact shaped v List.mem_cons_self
      have small : (b.perform addition).size ≤ maxSize := by
        rw [grown.size_eq]
        exact Nat.le_trans (length_le_extend rest _) fits
      have performed : b.performBounded addition = .ok (b.perform addition) := if_pos small
      rw [List.foldlM_cons, performed]
      exact rest_ih (fun v member => shaped v (List.mem_cons_of_mem _ member)) grown fits

/-- However they are mixed, additions of at most so many items as 64 bits can count all succeed.  Afterwards the
builder counts the items it was given, and the finished value has those added in front, latest first, before those
added at the back, earliest first.  Its shape is right, and what is recorded of its items too if it is for the added
values. -/
theorem additions_keep_order {additions : List (Addition F)} (shaped : ∀ v, .value v ∈ additions → v.Shaped)
    (fits : sumOver count additions ≤ maxSize) :
    ∃ b, additions.foldlM ValueBuilder.performBounded .empty = .ok b ∧
      b.size = sumOver count additions ∧
      b.freeze.items = (additions.flatMap before).reverse ++ additions.flatMap after ∧
      b.freeze.Shaped ∧ (∀ rope tag, b.freeze = .tree rope tag → rope.check = .ok ()) ∧
      ((∀ v, .value v ∈ additions → v.Valid) →
        (∀ rope tag, b.freeze = .tree rope tag → ValueOf.checkRope rope tag = .ok ()) ∧
        (∀ item ∈ b.freeze.items, item.type.isSubtype b.freeze.type = true) ∧
        (b.freeze.isHomogeneous = true → ∀ item ∈ b.freeze.items, item.type = b.freeze.type)) := by
  have counted : (extend additions []).length = sumOver count additions := by
    simpa using length_extend shaped []
  have gathers := gathers_kept.run shaped ValueBuilder.empty_gathers
  obtain ⟨whole, items⟩ := gathers.freeze
  refine ⟨_, performBounded_run shaped ValueBuilder.empty_gathers (counted ▸ fits), ?_, ?_, whole, ?_, ?_⟩
  · rw [gathers.size_eq, counted]
  · simpa [extend] using items
  · intro rope tag frozen
    rw [frozen] at whole
    exact Rope.WellFormed.check_eq whole
  -- The order needs the shapes only; the tags need valid values.
  · intro valid
    have whole := (collects_kept.run valid ValueBuilder.empty_collects).freeze_holds.1
    refine ⟨fun rope tag frozen => ?_, whole.covers.above, whole.covers.exact⟩
    rw [frozen] at whole
    exact whole.checkRope_eq

/-- One item, a range after it, an item in front of both and a rope after all. -/
def fromBothEnds : List (Addition Unit) :=
  [.back (.integer 1), .value (.range ⟨5, 1000⟩), .front (.boolean true),
    .value (.ofItems ((List.range 10).map fun _ => .boolean false))]

theorem fromBothEnds_valid (v : ValueOf Unit) (member : .value v ∈ fromBothEnds) : v.Valid := by
  simp only [fromBothEnds, List.mem_cons, reduceCtorEq, Addition.value.injEq, List.not_mem_nil, or_false,
    false_or] at member
  rcases member with rfl | rfl
  · exact ⟨by decide, by decide, by decide⟩
  · exact (ValueOf.ofItems_holds _).1

theorem additions_keep_order_fromBothEnds :
    ∃ b, fromBothEnds.foldlM ValueBuilder.performBounded .empty = .ok b ∧ b.size = 1012 ∧
      b.freeze.items = .boolean true :: .integer 1 :: ((ValueOf.range ⟨5, 1000⟩).items ++
        (ValueOf.ofItems ((List.range 10).map fun _ => .boolean false)).items) ∧
      (b.freeze.isHomogeneous = true → ∀ item ∈ b.freeze.items, item.type = b.freeze.type) := by
  have counted : sumOver count fromBothEnds = 1012 := by decide +kernel
  obtain ⟨b, ran, size, items, _, _, tagged⟩ :=
    additions_keep_order (fun v member => (fromBothEnds_valid v member).shaped) (counted ▸ by decide)
  refine ⟨b, ran, size.trans counted, ?_, (tagged fromBothEnds_valid).2.2⟩
  simpa [fromBothEnds, before, after] using items

end Addition

end QueryKernel
