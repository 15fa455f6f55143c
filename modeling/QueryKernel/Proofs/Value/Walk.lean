import QueryKernel.Proofs.Sequence.Cursor
import QueryKernel.Proofs.Value.Edit
import QueryKernel.Value.Walk

/-!
# Walks read the list

A walk through a valid value, from any position on, gives the items of the value one after the other
and then nothing.
-/

namespace QueryKernel

variable {F : Type}

namespace Walk

/-- The given items are still to come. -/
def Reads : Walk F → List (ItemOf F) → Prop
  | list rest, items => items = rest
  | flat all position, items => items = all.drop position
  | range next left, items =>
      items = integersFrom next left ∧ (0 < left → next.toInt + left - 1 ≤ Int64.maxValue.toInt)
  | rope cursor, items => cursor.Reads items

theorem Reads.remaining_eq {w : Walk F} {items : List (ItemOf F)} (reads : w.Reads items) :
    w.remaining = items.length := by
  cases w with
  | list rest => rw [show items = rest from reads, remaining]
  | flat all position => rw [show items = all.drop position from reads, List.length_drop, remaining]
  | range next left => rw [reads.1, length_integersFrom, remaining]
  | rope cursor => exact Cursor.Reads.remaining_eq reads

theorem integersFrom_succ {first next : Int64} {count : Nat} (adjacent : next.toInt = first.toInt + 1) :
    (integersFrom first (count + 1) : List (ItemOf F)) = .integer first :: integersFrom next count := by
  rw [Nat.add_comm, ValueOf.integersFrom_append first 1 count adjacent]
  simp [integersFrom, List.range_succ]

theorem Reads.next {w : Walk F} {items : List (ItemOf F)} (reads : w.Reads items) :
    w.next.1 = items.head? ∧ w.next.2.Reads items.tail := by
  cases w with
  | list rest =>
      rw [show items = rest from reads]
      cases rest <;> exact ⟨rfl, rfl⟩
  | flat all position =>
      rw [show items = all.drop position from reads]
      exact ⟨List.head?_drop.symm, List.tail_drop⟩
  | range first left =>
      obtain ⟨rfl, inside⟩ := reads
      match left with
      | 0 => exact ⟨rfl, rfl, fun more => (Nat.lt_irrefl _ more).elim⟩
      | 1 =>
          refine ⟨?_, ?_, fun more => (Nat.lt_irrefl _ more).elim⟩ <;>
            simp [integersFrom, List.range_succ, Walk.next]
      | left + 2 =>
          have inside := inside (by omega)
          have greatest : Int64.maxValue.toInt = 9223372036854775807 := rfl
          have least := first.le_toInt
          -- More items follow, so that the next integer does not overflow.
          have adjacent : (first + 1).toInt = first.toInt + 1 := by
            rw [Int64.toInt_add]
            rw [show Int64.toInt 1 = 1 from rfl, Int.bmod_eq_of_le] <;> omega
          rw [integersFrom_succ adjacent]
          exact ⟨rfl, rfl, fun _ => by omega⟩
  | rope cursor =>
      cases items with
      | nil =>
          have atEnd := Cursor.Reads.next_nil reads
          simp only [Walk.next, atEnd]
          exact ⟨rfl, reads⟩
      | cons item rest => exact Cursor.Reads.next_cons reads

theorem Reads.take {w : Walk F} {items : List (ItemOf F)} (reads : w.Reads items) (n : Nat) :
    (w.take n).1 = items.take n ∧ (w.take n).2.Reads (items.drop n) := by
  induction n generalizing w items with
  | zero => exact ⟨rfl, reads⟩
  | succ n n_ih =>
      obtain ⟨item, rest⟩ := reads.next
      generalize moved : w.next = step at item rest
      obtain ⟨found, w'⟩ := step
      cases items with
      | nil =>
          simp only [List.head?_nil] at item
          subst item
          simp only [Walk.take, moved]
          exact ⟨rfl, rest⟩
      | cons first others =>
          simp only [List.head?_cons] at item
          subst item
          obtain ⟨taken, left⟩ := n_ih rest
          simp only [Walk.take, moved]
          exact ⟨by rw [taken]; rfl, left⟩

end Walk

theorem ValueOf.Valid.walkFrom_reads {v : ValueOf F} (valid : v.Valid) (start : Nat) :
    (v.walkFrom start).Reads (v.items.drop start) := by
  cases v with
  | empty => exact List.drop_nil
  | one item => rfl
  | flat items tag => rfl
  | range r =>
      have inside := IntegerRange.Valid.inside valid
      rw [items_range, walkFrom]
      split
      · next before =>
          have first := IntegerRange.Valid.toInt_get valid before
          exact ⟨drop_integersFrom (by omega) first, fun _ => by omega⟩
      · next beyond =>
          refine ⟨?_, fun more => (Nat.lt_irrefl _ more).elim⟩
          rw [List.drop_eq_nil_of_le (by rw [length_integersFrom]; omega)]
          rfl
  | tree rope tag =>
      rw [items_tree]
      exact Cursor.start_reads valid.1 start

theorem ValueOf.Valid.walk_reads {v : ValueOf F} (valid : v.Valid) : v.walk.Reads v.items := by
  have reads := valid.walkFrom_reads 0
  rwa [List.drop_zero] at reads

end QueryKernel
