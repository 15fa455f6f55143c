import QueryKernel.Proofs.Sequence.Rope
import QueryKernel.Sequence.Buffer

/-!
# Buffers hold what was added

A buffer that is filled item by item keeps a well-formed middle, and gives a sequence in shape.
-/

namespace QueryKernel

variable {α : Type}

namespace Buffer

/-- The middle is well formed. -/
def WellFormed (b : Buffer α) : Prop := b.middle.WellFormed 0

theorem WellFormed.size_eq {b : Buffer α} (wellFormed : b.WellFormed) : b.size = b.toList.length := by
  have inner := Spine.WellFormed.size_eq wellFormed
  simp only [size, toList, List.length_append, List.length_reverse, inner]
  omega

theorem addBack_toList (b : Buffer α) (a : α) : (b.addBack a).toList = b.toList ++ [a] := by
  unfold addBack
  dsimp only
  split
  · simp only [toList, Spine.toList_pushBack, Block.toList, List.reverse_reverse, List.append_assoc,
      List.take_append_drop, List.reverse_cons]
  · simp [toList]

theorem addFront_toList (b : Buffer α) (a : α) : (b.addFront a).toList = a :: b.toList := by
  unfold addFront
  dsimp only
  split
  · simp only [toList, Spine.toList_pushFront, Block.toList]
    rw [← List.append_assoc (List.take _ _), List.take_append_drop]
    rfl
  · rfl

theorem WellFormed.addBack {b : Buffer α} (wellFormed : b.WellFormed) (a : α) :
    (b.addBack a).WellFormed := by
  unfold Buffer.addBack
  dsimp only
  split
  · next full =>
      simp only [maxLoose, maxLeaf] at full
      refine Spine.WellFormed.pushBack wellFormed (Block.wellFormed_leaf ?_ ?_) <;>
        simp only [List.length_take, List.length_reverse, minLeaf, maxLeaf] <;> omega
  · exact wellFormed

theorem WellFormed.addFront {b : Buffer α} (wellFormed : b.WellFormed) (a : α) :
    (b.addFront a).WellFormed := by
  unfold Buffer.addFront
  dsimp only
  split
  · next full =>
      simp only [maxLoose, maxLeaf] at full
      refine Spine.WellFormed.pushFront wellFormed (Block.wellFormed_leaf ?_ ?_) <;>
        simp only [List.length_drop, minLeaf, maxLeaf] <;> omega
  · exact wellFormed

theorem WellFormed.freeze_holds {b : Buffer α} (wellFormed : b.WellFormed) :
    b.freeze.Holds b.toList := by
  unfold freeze
  split
  · next nothing =>
      rw [toList, Spine.isEmpty_iff.1 nothing, Spine.toList, List.append_nil]
      exact Bundle.ofList_holds _
  · exact Bundle.ofParts_holds _ wellFormed _

theorem ofRope_toList (r : Rope α) : (ofRope r).toList = r.toList := by
  simp [ofRope, toList, Rope.toList]

theorem ofRope_wellFormed {r : Rope α} (wellFormed : r.WellFormed) : (ofRope r).WellFormed :=
  wellFormed.middle

end Buffer

end QueryKernel
