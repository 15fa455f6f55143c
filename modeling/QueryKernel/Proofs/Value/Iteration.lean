import QueryKernel.Proofs.Sequence.Moves
import QueryKernel.Proofs.Value.Shaped

/-!
# Iteration

What a walk gives when it is asked again and again, also behind the end: the items from its start on, one each
time, and then nothing.  Only in a flat sequence the position is counted behind the end too, and there it can get
too large.

Everything rests on `Walk.Reads.run`: the items still to come decide every answer, whichever way the walk keeps
them, as long as a position that is counted stays within 64 bits.
-/

namespace QueryKernel

variable {F : Type}

namespace Walk

/-- What a walk gives when it is asked so many times, and the walk afterwards. -/
def run : Nat → Walk F → Except Fault (List (Option (ItemOf F)) × Walk F)
  | 0, w => .ok ([], w)
  | n + 1, w => do
      let (item, w) ← w.nextBounded
      let (items, w) ← run n w
      .ok (item :: items, w)

/-- The position that is counted behind the end too, if there is one. -/
def counted? : Walk F → Option Nat
  | flat _ position => some position
  | _ => none

theorem counted?_next (w : Walk F) : w.next.2.counted? = w.counted?.map (· + 1) := by
  cases w with
  | list rest => cases rest <;> rfl
  | flat items position => rfl
  | range first left => match left with
    | 0 | 1 | left + 2 => rfl
  | rope cursor => rfl

theorem nextBounded_eq {w : Walk F} (room : ∀ position ∈ w.counted?, position < maxSize) :
    w.nextBounded = .ok w.next := by
  cases w with
  | flat items position => exact if_pos (room position rfl)
  | list _ | range _ _ | rope _ => rfl

theorem run_succ {w : Walk F} {n : Nat} (room : ∀ position ∈ w.counted?, position < maxSize) :
    w.run (n + 1) = (w.next.2.run n).map fun (items, w') => (w.next.1 :: items, w') := by
  simp only [run, nextBounded_eq room, bind, Except.bind]
  cases run n w.next.2 <;> rfl

/-- So many answers are the next items, and nothing where there are none left. -/
theorem Reads.run {w : Walk F} {items : List (ItemOf F)} (reads : w.Reads items) {n : Nat}
    (room : ∀ position ∈ w.counted?, position + n ≤ maxSize) :
    ∃ w', w.run n = .ok ((List.range n).map fun k => items[k]?, w') ∧ w'.Reads (items.drop n) := by
  induction n generalizing w items with
  | zero => exact ⟨w, rfl, reads⟩
  | succ n n_ih =>
      obtain ⟨item, rest⟩ := reads.next
      have later : ∀ position ∈ w.next.2.counted?, position + n ≤ maxSize := by
        intro position found
        rw [counted?_next] at found
        obtain ⟨before, at_before, rfl⟩ := Option.map_eq_some_iff.1 found
        have := room before at_before
        omega
      obtain ⟨w', ran, left⟩ := n_ih rest later
      refine ⟨w', ?_, by rwa [List.drop_tail] at left⟩
      rw [run_succ fun position found => by have := room position found; omega, ran, item]
      simp [Except.map, List.range_succ_eq_map, List.head?_eq_getElem?, Function.comp_def]

/-- The position in a flat sequence gets too large in the end, since there is nothing to stop it. -/
theorem run_flat_overflow {items : List (ItemOf F)} {position n : Nat} (inside : position ≤ maxSize)
    (beyond : maxSize < position + n) : (flat items position).run n = .error .sizeOverflow := by
  induction n generalizing position with
  | zero => omega
  | succ n n_ih =>
      -- Each answer moves the position on, whether there was an item or not.
      by_cases last : position < maxSize
      · rw [run_succ fun _ found => by cases found; exact last]
        exact congrArg (Except.map _) (n_ih (show position + 1 ≤ maxSize from last) (by omega))
      · simp only [run, nextBounded, if_neg last]
        rfl

end Walk

namespace ValueOf

/-- Whether this is a flat sequence. -/
def isFlat : ValueOf F → Bool
  | flat _ _ => true
  | _ => false

theorem counted?_walkFrom (v : ValueOf F) (start : Nat) :
    (v.walkFrom start).counted? = if v.isFlat then some start else none := by
  cases v with
  | range r =>
      rw [walkFrom]
      split <;> rfl
  | empty | one _ | flat _ _ | tree _ _ => rfl

/-- A cursor passes, in both directions, what would be passed in the list of items, and is where it would be then.
A walk from any position gives the items from there on and then nothing, and always knows how many are to come;
a walk through a flat sequence cannot be asked, though, at the last position that 64 bits can count. -/
theorem iteration_reads_in_order {α : Type} :
    (∀ (rope : Rope α), rope.WellFormed → ∀ index ≤ rope.size, ∀ moves,
      ((Cursor.start rope index).run moves).1 = Move.allPassed rope.toList moves index ∧
      ((Cursor.start rope index).run moves).2.index = Move.targetOf rope.size moves index ∧
      ((Cursor.start rope index).run moves).2.remaining = rope.size - Move.targetOf rope.size moves index) ∧
    (∀ (v : ValueOf F), v.Shaped → ∀ (start : UInt64) (n : Nat),
      (v.isFlat = true → start.toNat + n ≤ maxSize) →
      ∃ w, (v.walkFrom start.toNat).run n = .ok ((List.range n).map fun k => v.items[start.toNat + k]?, w) ∧
        w.remaining = v.size - (start.toNat + n)) ∧
    (∀ (v : ValueOf F) (start : UInt64) (n : Nat), v.isFlat = true → maxSize < start.toNat + n →
      (v.walkFrom start.toNat).run n = .error .sizeOverflow) := by
  refine ⟨fun rope wellFormed index inside moves => ?_, fun v shaped start n room => ?_,
    fun v start n isFlat beyond => ?_⟩
  · obtain ⟨passed, stands⟩ := (Cursor.start_stands wellFormed inside).run moves
    rw [wellFormed.size_eq]
    exact ⟨passed, stands.index_eq, stands.remaining_eq⟩
  · have counted : ∀ position ∈ (v.walkFrom start.toNat).counted?, position + n ≤ maxSize := by
      -- Only a walk through a flat sequence has a position that is counted.
      intro position found
      rw [counted?_walkFrom] at found
      split at found
      · next flat =>
          cases found
          exact room flat
      · cases found
    obtain ⟨w, ran, reads⟩ := (shaped.walkFrom_reads start.toNat).run counted
    refine ⟨w, ?_, ?_⟩
    · simpa only [List.getElem?_drop] using ran
    · rw [reads.remaining_eq, List.length_drop, List.length_drop, shaped.size_eq]
      omega
  · cases v with
    | flat items tag => exact Walk.run_flat_overflow (Nat.le_of_lt_succ start.toNat_lt) beyond
    | empty | one _ | range _ | tree _ _ => cases isFlat

/-- Sixteen numbers: four at either end and a leaf between them. -/
def sixteenNumbers : Rope Nat :=
  .ofParts [0, 1, 2, 3] (.single (.leaf [4, 5, 6, 7, 8, 9, 10, 11])) [12, 13, 14, 15]

theorem sixteenNumbers_wellFormed : sixteenNumbers.WellFormed :=
  Rope.ofParts_wellFormed ⟨by decide, by decide⟩ (by decide) (by decide) (by decide) (by decide)

/-- A cursor that goes from the front into the leaf and back, and walks through a pair. -/
theorem iteration_reads_in_order_small :
    ((Cursor.start sixteenNumbers 3).run [.next, .next, .previous, .previous, .previous, .next]).1 =
      [some 3, some 4, some 4, some 3, some 2, some 2] ∧
    (∃ w, ((ofItems [.integer 1, .integer 2] : ValueOf Unit).walkFrom 1).run 3 =
      .ok ([some (.integer 2), none, none], w) ∧ w.remaining = 0) ∧
    ((ofItems [.integer 1, .integer 2] : ValueOf Unit).walkFrom (maxSize - 1)).run 2 = .error .sizeOverflow := by
  obtain ⟨cursors, walks, overflow⟩ := iteration_reads_in_order (F := Unit) (α := Nat)
  refine ⟨(cursors sixteenNumbers sixteenNumbers_wellFormed 3 (by decide) _).1, ?_, ?_⟩
  · exact walks _ (ofItems_holds _).1.shaped 1 3 fun _ => by decide
  · exact overflow (ofItems [.integer 1, .integer 2]) 18446744073709551614 2 rfl (by decide)

/-- Behind the end of a pair there is nothing to come, and still the walk from the last position cannot be asked. -/
theorem pair_fails_at_last_position :
    ((ofItems [.integer 1, .integer 2] : ValueOf Unit).walkFrom maxSize).remaining = 0 ∧
      ((ofItems [.integer 1, .integer 2] : ValueOf Unit).walkFrom maxSize).nextBounded = .error .sizeOverflow :=
  ⟨rfl, rfl⟩

end ValueOf

end QueryKernel
