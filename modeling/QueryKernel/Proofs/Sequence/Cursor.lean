import QueryKernel.Proofs.Sequence.Edit
import QueryKernel.Sequence.Cursor

/-!
# Cursors read the list

A cursor gives the items of its rope one after the other, whichever run it has kept from an earlier
reading.
-/

namespace QueryKernel

variable {α : Type}

namespace Cursor

/-- The kept run, if any, is a part of the items at its place. -/
def BlockFits (c : Cursor α) : Prop :=
  ∀ found, c.block = some found →
    ∃ before after, c.rope.toList = before ++ found.1 ++ after ∧ found.2 = before.length

/-- The given items are still to come. -/
structure Reads (c : Cursor α) (rest : List α) : Prop where
  rope : c.rope.WellFormed
  block : c.BlockFits
  inside : c.index ≤ c.rope.toList.length
  rest_eq : rest = c.rope.toList.drop c.index

theorem start_reads {r : Rope α} (wellFormed : r.WellFormed) (i : Nat) :
    (start r (min i r.size)).Reads (r.toList.drop i) := by
  rw [wellFormed.size_eq]
  refine ⟨wellFormed, fun _ kept => by simp [start] at kept, Nat.min_le_right _ _, ?_⟩
  simp only [start]
  by_cases inside : i ≤ r.toList.length
  · rw [Nat.min_eq_left inside]
  · rw [Nat.min_eq_right (by omega), List.drop_eq_nil_of_le (by omega), List.drop_length]

theorem Reads.remaining_eq {c : Cursor α} {rest : List α} (reads : c.Reads rest) :
    c.remaining = rest.length := by
  rw [reads.rest_eq, List.length_drop, remaining, reads.rope.size_eq]

/-- What is fetched is the item at the position, from the kept run or from a new one. -/
theorem fetch_spec {c : Cursor α} {i : Nat} (wellFormed : c.rope.WellFormed) (fits : c.BlockFits)
    (inside : i < c.rope.toList.length) :
    (c.fetch i).1 = c.rope.toList[i]? ∧ (Cursor.mk c.rope (i + 1) (c.fetch i).2).BlockFits := by
  have around := wellFormed.blockAt_around inside
  have looked : (c.rope.blockAt i).1[i - (c.rope.blockAt i).2]? = c.rope.toList[i]? := by
    have := around.get?
    rwa [Nat.zero_add] at this
  obtain ⟨before, after, whole, first, above, below⟩ := around
  have fresh : (Cursor.mk c.rope (i + 1) (some (c.rope.blockAt i))).BlockFits := by
    intro found kept
    cases kept
    exact ⟨before, after, whole, by omega⟩
  simp only [fetch]
  cases kept : c.block with
  | none => exact ⟨looked, fresh⟩
  | some found =>
      obtain ⟨items, first⟩ := found
      obtain ⟨before, after, whole, start⟩ := fits _ kept
      dsimp only at whole start ⊢
      split
      · refine ⟨?_, fun found kept' => fits found (kept.trans kept')⟩
        rw [whole, List.append_assoc, List.getElem?_append_right (by omega),
          List.getElem?_append_left (by omega), start]
      · exact ⟨looked, fresh⟩

theorem Reads.next_nil {c : Cursor α} (reads : c.Reads []) : c.next = (none, c) := by
  have atEnd := reads.remaining_eq
  simp only [remaining, List.length_nil] at atEnd
  simp only [next]
  rw [if_pos (by omega)]

theorem Reads.next_cons {c : Cursor α} {a : α} {rest : List α} (reads : c.Reads (a :: rest)) :
    c.next.1 = some a ∧ c.next.2.Reads rest := by
  have inside : c.index < c.rope.toList.length := by
    have := reads.remaining_eq
    rw [remaining, reads.rope.size_eq, List.length_cons] at this
    omega
  have rest_eq := reads.rest_eq
  rw [List.drop_eq_getElem_cons inside] at rest_eq
  obtain ⟨rfl, rfl⟩ := List.cons.inj rest_eq
  obtain ⟨item, fits⟩ := fetch_spec reads.rope reads.block inside
  simp only [next, reads.rope.size_eq]
  rw [if_neg (by omega)]
  exact ⟨by rw [← List.getElem?_eq_getElem inside]; exact item, reads.rope, fits, inside, rfl⟩

end Cursor

end QueryKernel
