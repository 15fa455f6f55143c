import QueryKernel.Proofs.Value.Builder

/-!
# Edits of values

Each edit of valid values gives a valid value of the items that the edit of the lists gives, whatever
the shapes of the operands are.  A failing edit says which position or slice was out of bounds, or that
the sequence got too long.

The non-trivial ingredient is `spliceRope_holds`, where the two halves of a rope meet a value of any shape.
-/

namespace QueryKernel

variable {F : Type}

/-! ## The same edits of lists -/

namespace ListEdit

variable {α : Type}

/-- A list with a length that fits 64 bits. -/
def bounded (items : List α) : Except Fault (List α) :=
  if items.length ≤ maxSize then .ok items else .error .sizeOverflow

/-- The item at a position. -/
def itemAt (items : List α) (i : Nat) : Except Fault α :=
  match items[i]? with
  | some item => .ok item
  | none => .error (.position i items.length)

/-- `count` items from a position on. -/
def slice (items : List α) (start count : Nat) : Except Fault (List α) :=
  if items.length < start + count then .error (.slice start count items.length)
  else .ok ((items.drop start).take count)

/-- The list with an item inserted at a position. -/
def insert (items : List α) (i : Nat) (item : α) : Except Fault (List α) :=
  if items.length < i then .error (.position i items.length) else bounded (items.insertIdx i item)

/-- The list with another one inserted before a position. -/
def insertBefore (items : List α) (i : Nat) (more : List α) : Except Fault (List α) :=
  if items.length < i then .error (.position i items.length)
  else bounded (items.take i ++ more ++ items.drop i)

/-- The list without the item at a position. -/
def remove (items : List α) (i : Nat) : Except Fault (List α) :=
  if items.length ≤ i then .error (.position i items.length) else .ok (items.eraseIdx i)

end ListEdit

namespace ValueOf

/-- An edit of values and one of lists are refused alike, or the value is valid and holds the list. -/
def Agrees {E : Type} : Except E (ValueOf F) → Except E (List (ItemOf F)) → Prop
  | .ok v, .ok items => v.Holds items
  | .error f, .error g => f = g
  | _, _ => False

theorem Holds.bounded {v : ValueOf F} {items : List (ItemOf F)} (holds : v.Holds items) :
    Agrees v.bounded (ListEdit.bounded items) := by
  obtain ⟨valid, rfl⟩ := holds
  unfold ValueOf.bounded ListEdit.bounded
  rw [valid.size_eq]
  split
  · exact ⟨valid, rfl⟩
  · rfl

theorem Holds.agrees_bounded {v : ValueOf F} {items : List (ItemOf F)} (holds : v.Holds items)
    (fits : items.length ≤ maxSize) : Agrees (.ok v) (ListEdit.bounded items) := by
  unfold ListEdit.bounded
  rw [if_pos fits]
  exact holds

/-! ## Concatenation -/

theorem integersFrom_append (first : Int64) (count more : Nat) {next : Int64}
    (adjacent : next.toInt = first.toInt + count) :
    (integersFrom first (count + more) : List (ItemOf F)) =
      integersFrom first count ++ integersFrom next more := by
  simp only [integersFrom, List.range_add, List.map_append, List.map_map]
  congr 1
  apply List.map_congr_left
  intro i _
  simp only [Function.comp_apply, adjacent, Int.natCast_add, Int.add_assoc]

theorem joinRanges?_holds {a b joined : IntegerRange} (first : a.Valid) (second : b.Valid)
    (made : joinRanges? a b = some joined) :
    (range joined : ValueOf F).Holds ((range a).items ++ (range b).items) := by
  unfold joinRanges? at made
  split at made
  · next adjacent =>
      cases made
      obtain ⟨next, fits⟩ := adjacent
      rw [first.toInt_last] at next
      have start : b.first.toInt = a.first.toInt + a.length := by omega
      have inside := second.inside
      have least := first.least
      refine ⟨⟨?_, fits, ?_⟩, ?_⟩
      · dsimp only; omega
      · dsimp only; omega
      · rw [items_range, items_range, items_range]
        exact integersFrom_append _ _ _ start
  · cases made

theorem appendByBuilder_holds {v w : ValueOf F} (first : v.Valid) (second : w.Valid) :
    (appendByBuilder v w).Holds (v.items ++ w.items) :=
  ((ValueBuilder.empty_collects.addValue first).addValue second).freeze_holds

theorem Valid.append_holds {v w : ValueOf F} (first : v.Valid) (second : w.Valid) :
    (v.append w).Holds (v.items ++ w.items) := by
  have byBuilder := appendByBuilder_holds first second
  unfold append
  split
  · exact ⟨second, rfl⟩
  · exact ⟨first, by simp [items]⟩
  · next a b =>
      split
      · next joined made => exact joinRanges?_holds first second made
      · exact byBuilder
  · next rope tag _ =>
      cases made : afterRope? rope tag w with
      | some joined =>
          rw [items_tree]
          exact afterRope?_holds first.tagged second made
      | none => exact byBuilder
  · next rope tag _ _ =>
      cases made : beforeRope? v rope tag with
      | some joined =>
          rw [items_tree]
          exact beforeRope?_holds first second.tagged made
      | none => exact byBuilder
  · exact byBuilder

/-! ## Slices -/

theorem Valid.itemAt_eq {v : ValueOf F} (valid : v.Valid) (i : Nat) :
    v.itemAt i = ListEdit.itemAt v.items i := by
  rw [itemAt, ListEdit.itemAt, valid.get?_eq, valid.size_eq]
  cases v.items[i]? <;> rfl

theorem take_integersFrom (first : Int64) {count fewer : Nat} (fits : fewer ≤ count) :
    (integersFrom first count : List (ItemOf F)).take fewer = integersFrom first fewer := by
  rw [integersFrom, ← List.map_take, List.take_range, Nat.min_eq_left fits]
  rfl

theorem drop_integersFrom {first next : Int64} {count n : Nat} (fits : n ≤ count)
    (start : next.toInt = first.toInt + n) :
    (integersFrom first count : List (ItemOf F)).drop n = integersFrom next (count - n) := by
  have whole : count = n + (count - n) := by omega
  rw [whole, integersFrom_append _ _ _ start, List.drop_left' (length_integersFrom _ _),
    Nat.add_sub_cancel_left]

/-- Part of a range, given its first and last integers. -/
theorem range?_part {r : IntegerRange} (valid : r.Valid) (start count : Nat) (first last : Int64)
    (inside : start + count ≤ r.length) (atFirst : first.toInt = r.first.toInt + start)
    (atLast : last.toInt = first.toInt + count - 1) :
    ((range? first last).getD empty : ValueOf F).Holds (((range r).items.drop start).take count) := by
  have whole : ((range r : ValueOf F).items.drop start).take count = integersBetween first last := by
    have length : (last.toInt - first.toInt + 1).toNat = count := by omega
    rw [items_range, integersBetween, length, drop_integersFrom (by omega) atFirst,
      take_integersFrom _ (by omega)]
  rw [whole]
  cases made : (range? first last : Option (ValueOf F)) with
  | some part => exact range?_holds made
  | none =>
      have tooMany := (range?_eq_none_iff first last).1 made
      have most := valid.most
      simp only [integersBetween, length_integersFrom] at tooMany
      omega

theorem ofFew_part_holds {items part : List (ItemOf F)} {tag : TypeTag}
    (valid : (flat items tag).Valid) (fewer : part.length ≤ items.length) (subset : part ⊆ items) :
    (ofFew part tag).Holds part :=
  ofFew_holds (Nat.le_trans fewer valid.2.1) (valid.2.2.mono subset)

theorem Valid.slice_agrees {v : ValueOf F} (valid : v.Valid) (start count : Nat) :
    Agrees (v.slice start count) (ListEdit.slice v.items start count) := by
  have sizes := valid.size_eq
  unfold slice ListEdit.slice
  rw [sizes]
  split
  · rfl
  next inside =>
  split
  · next all =>
      have atStart : start = 0 := by omega
      exact ⟨valid, by simp [atStart, all]⟩
  split
  · next nothing => exact ⟨trivial, by simp [nothing, items]⟩
  next notAll some =>
  split
  · next r =>
      rw [← sizes, size] at inside notAll
      refine range?_part valid _ _ _ _ (by omega) ?_ ?_
      · exact IntegerRange.Valid.toInt_get valid (by omega)
      · rw [IntegerRange.Valid.toInt_get valid (by omega), IntegerRange.Valid.toInt_get valid (by omega)]
        omega
  · next rope tag =>
      rw [items_tree] at inside ⊢
      refine ofBundle_holds (valid.1.slice_holds start count (by omega)) (valid.2.mono fun item member => ?_)
      exact List.mem_of_mem_drop (List.mem_of_mem_take member)
  · next items tag =>
      refine ofFew_part_holds valid ?_ fun item member => ?_
      · simp only [List.length_take, List.length_drop]; omega
      · exact List.mem_of_mem_drop (List.mem_of_mem_take member)
  · next notRange notTree notFlat =>
      -- Nothing is left but values without parts of their own.
      cases v with
      | empty => simp only [items, List.length_nil] at inside notAll; omega
      | one item => simp only [items, List.length_cons, List.length_nil] at inside notAll; omega
      | range r => exact (notRange r rfl).elim
      | tree rope tag => exact (notTree rope tag rfl).elim
      | flat items tag => exact (notFlat items tag rfl).elim

/-- A part that is inside of a sequence can be taken. -/
theorem Valid.slice_ok {v : ValueOf F} (valid : v.Valid) (start count : Nat)
    (inside : start + count ≤ v.items.length) :
    ∃ w, v.slice start count = .ok w ∧ w.Holds ((v.items.drop start).take count) := by
  have agrees := valid.slice_agrees start count
  rw [ListEdit.slice, if_neg (Nat.not_lt.2 inside)] at agrees
  cases taken : v.slice start count with
  | error fault =>
      rw [taken] at agrees
      exact agrees.elim
  | ok w =>
      rw [taken] at agrees
      exact ⟨w, rfl, agrees⟩

/-! ## Removal and reversal -/

theorem Valid.remove_agrees {v : ValueOf F} (valid : v.Valid) (i : Nat) :
    Agrees (v.remove i) (ListEdit.remove v.items i) := by
  have sizes := valid.size_eq
  unfold remove ListEdit.remove
  rw [sizes]
  split
  · rfl
  next inside =>
  split
  · next rope tag =>
      rw [items_tree] at inside ⊢
      refine ofBundle_holds (valid.1.remove_holds (by omega)) (valid.2.mono ?_)
      exact (List.eraseIdx_sublist _ _).subset
  · next items tag =>
      refine ofFew_part_holds valid ?_ ?_
      · exact (List.eraseIdx_sublist _ _).length_le
      · exact (List.eraseIdx_sublist _ _).subset
  · next r =>
      rw [← sizes, size] at inside
      have least := IntegerRange.Valid.least valid
      -- Without its first or last item a range is a range; without another one it falls apart.
      split
      · next first =>
          have part := range?_part (F := F) valid 1 (r.length - 1) (r.get 1) r.last
            (by omega) (IntegerRange.Valid.toInt_get valid (by omega))
            (by rw [IntegerRange.Valid.toInt_last valid, IntegerRange.Valid.toInt_get valid (by omega)]; omega)
          have whole : ((range r : ValueOf F).items.drop 1).take (r.length - 1) =
              (range r).items.eraseIdx 0 := by
            rw [List.take_of_length_le (Nat.le_of_eq (by rw [List.length_drop, ← sizes, size])),
              List.eraseIdx_zero, List.drop_one]
          rw [first, ← whole]
          exact part
      · split
        · next notFirst last =>
            have part := range?_part (F := F) valid 0 (r.length - 1) r.first (r.get (r.length - 2))
              (by omega) (by omega)
              (by rw [IntegerRange.Valid.toInt_get valid (by omega)]; omega)
            have whole : ((range r : ValueOf F).items.drop 0).take (r.length - 1) =
                (range r).items.eraseIdx (r.length - 1) := by
              rw [List.drop_zero, List.eraseIdx_eq_take_drop_succ,
                List.drop_eq_nil_of_le (by rw [← sizes, size]; omega), List.append_nil]
            rw [last, ← whole]
            exact part
        · exact ofItems_holds _
  · exact ofItems_holds _

/-- The tag that a value carries, whatever its shape, covers its items. -/
theorem Valid.covers {v : ValueOf F} (valid : v.Valid) :
    (⟨v.type, v.isHomogeneous⟩ : TypeTag).Covers v.items := by
  cases v with
  | empty => exact TypeTag.covers_nil _
  | one item => exact TypeTag.covers_one item
  | flat items tag => exact valid.2.2
  | range r =>
      have integers : ∀ item ∈ (range r : ValueOf F).items, item.type = .integer := by
        intro item member
        simp only [items, List.mem_map] at member
        obtain ⟨i, _, rfl⟩ := member
        rfl
      refine ⟨fun item member => ?_, fun _ item member => integers item member⟩
      rw [integers item member]
      exact ItemType.isSubtype_refl _
  | tree rope tag =>
      rw [items_tree]
      exact valid.2

theorem Valid.reverse_holds {v : ValueOf F} (valid : v.Valid) : v.reverse.Holds v.items.reverse := by
  have covers : TypeTag.Covers _ v.items.reverse := valid.covers.mono (by simp)
  unfold reverse
  split
  · exact holds_empty
  · exact holds_one _
  · next rope tag =>
      rw [items_tree] at covers ⊢
      exact ofBundle_holds rope.reverse_holds covers
  · exact ofBundle_holds (Bundle.ofList_holds _) covers

/-! ## Insertion -/

theorem Valid.insert_agrees {v : ValueOf F} (valid : v.Valid) (i : Nat) (item : ItemOf F) :
    Agrees (v.insert i item) (ListEdit.insert v.items i item) := by
  have sizes := valid.size_eq
  unfold insert ListEdit.insert
  rw [sizes]
  split
  · rfl
  next inside =>
  split
  · next rope tag =>
      rw [items_tree] at inside ⊢
      refine (ofBundle_holds (valid.1.insert_holds item (by omega)) ?_).bounded
      refine (valid.2.addFront item).mono fun other member => ?_
      rcases (List.mem_insertIdx (by omega)).1 member with rfl | inRope
      · exact List.mem_cons_self
      · exact List.mem_cons_of_mem _ inRope
  · next notTree =>
      refine (ofItems_holds _).agrees_bounded ?_
      -- Only ropes can be as long as that: a range is at most half as long as the longest sequence.
      have longest : maxSize = 18446744073709551615 := rfl
      have most : IntegerRange.maxLength = 9223372036854775808 := rfl
      have length : (v.items.insertIdx i item).length = v.size + 1 := by
        rw [sizes]
        exact List.length_insertIdx_of_le_length (by omega) item
      rw [length]
      cases v with
      | empty | one item => simp only [size]; omega
      | flat items tag =>
          have few : items.length ≤ 7 := valid.2.1
          simp only [size]
          omega
      | range r =>
          have := IntegerRange.Valid.most valid
          simp only [size]
          omega
      | tree rope tag => exact (notTree rope tag rfl).elim

theorem spliceRope_holds {rope : Rope (ItemOf F)} {tag : TypeTag} {i : Nat} {v : ValueOf F}
    (whole : (tree rope tag).Valid) (inside : i ≤ rope.toList.length) (valid : v.Valid) :
    (spliceRope rope tag i v).Holds (rope.toList.take i ++ v.items ++ rope.toList.drop i) := by
  have before : (ofBundle tag (rope.slice 0 i)).Holds (rope.toList.take i) := by
    have part := whole.1.slice_holds 0 i (by omega)
    rw [List.drop_zero] at part
    exact ofBundle_holds part (whole.2.mono fun item member => List.mem_of_mem_take member)
  have after : (ofBundle tag (rope.slice i (rope.size - i))).Holds (rope.toList.drop i) := by
    have part := whole.1.slice_holds i (rope.size - i)
      (by rw [whole.1.size_eq]; omega)
    rw [whole.1.size_eq, List.take_of_length_le (Nat.le_of_eq List.length_drop)] at part
    rw [whole.1.size_eq]
    exact ofBundle_holds part (whole.2.mono fun item member => List.mem_of_mem_drop member)
  have collected := (ValueBuilder.empty_collects (F := F)).addValue valid
  have started := ((ValueBuilder.empty_collects (F := F)).addValue before.1).addValue valid
  rw [List.nil_append] at collected started
  rw [before.2] at started
  unfold spliceRope
  dsimp only
  -- Which of the parts are read item by item depends on their lengths; the items are the same.
  split
  · have front : (List.range i).filterMap rope.get? = rope.toList.take i := by
      have looked := Rope.filterMap_get? rope.toList 0 i
      rw [show rope.get? = fun k => rope.toList[k]? from funext whole.1.get?_eq]
      simpa only [Nat.zero_add, List.drop_zero] using looked
    have joined := (collected.foldl_addFront (rope.toList.take i).reverse).addValue after.1
    rw [List.reverse_reverse, after.2] at joined
    rw [front]
    exact joined.freeze_holds
  · split
    · have back : (List.range (rope.size - i)).filterMap (fun k => rope.get? (i + k)) =
          rope.toList.drop i := by
        have looked := Rope.filterMap_get? rope.toList i (rope.size - i)
        rw [whole.1.size_eq, List.take_of_length_le (Nat.le_of_eq List.length_drop)] at looked
        simpa only [whole.1.get?_eq, whole.1.size_eq] using looked
      rw [back]
      exact (started.addAll (rope.toList.drop i)).freeze_holds
    · have joined := started.addValue after.1
      rw [after.2] at joined
      exact joined.freeze_holds

theorem Valid.insertBefore_agrees {v w : ValueOf F} (first : v.Valid) (i : Nat) (second : w.Valid)
    (fits : w.items = [] → v.items.length ≤ maxSize) :
    Agrees (v.insertBefore i w) (ListEdit.insertBefore v.items i w.items) := by
  have sizes := first.size_eq
  unfold insertBefore ListEdit.insertBefore
  rw [sizes]
  split
  · rfl
  next inside =>
  -- Each of the ways to insert gives the same items: nothing, at one of the ends, or in between.
  have nothing : w.items = [] → Agrees (.ok v)
      (ListEdit.bounded (v.items.take i ++ w.items ++ v.items.drop i)) := by
    intro none
    rw [none, List.append_nil, List.take_append_drop]
    exact Holds.agrees_bounded ⟨first, rfl⟩ (fits none)
  have atFront : i = 0 → Agrees (w.append v).bounded
      (ListEdit.bounded (v.items.take i ++ w.items ++ v.items.drop i)) := by
    rintro rfl
    simpa using (second.append_holds first).bounded
  have atBack : i = v.items.length → Agrees (v.append w).bounded
      (ListEdit.bounded (v.items.take i ++ w.items ++ v.items.drop i)) := by
    rintro rfl
    simpa using (first.append_holds second).bounded
  split
  · next rope tag =>
      -- A rope is taken apart where the items go in.
      have spliced := (spliceRope_holds (i := i) first (by rw [← items_tree rope tag]; omega) second).bounded
      rw [← items_tree rope tag] at spliced
      split
      · exact nothing rfl
      · next item =>
          have inserted := first.insert_agrees i item
          rw [ListEdit.insert, if_neg inside] at inserted
          rw [insertIdx_eq_take_drop (Nat.le_of_not_lt inside)] at inserted
          rw [items, List.append_assoc]
          exact inserted
      · split
        · rw [if_pos rfl]
          split
          · next start => exact atFront start
          · split
            · next _ finish => exact atBack finish
            · exact spliced
        · exact spliced
  · split
    · next none => exact nothing (second.isEmpty_iff.1 none)
    · split
      · next start => exact atFront start
      · split
        · next _ finish => exact atBack finish
        · obtain ⟨v₁, front, before⟩ := first.slice_ok 0 i (by omega)
          obtain ⟨v₂, back, after⟩ := first.slice_ok i (v.items.length - i) (by omega)
          have joined := ((ValueBuilder.empty_collects.addValue before.1).addValue second).addValue after.1
          rw [before.2, after.2, List.drop_zero, List.take_of_length_le (Nat.le_of_eq List.length_drop),
            List.nil_append] at joined
          rw [front, back]
          exact joined.freeze_holds.bounded

theorem insertBefore_empty {v : ValueOf F} {i : Nat} (inside : i ≤ v.size) :
    v.insertBefore i empty = .ok v := by
  unfold insertBefore
  rw [if_neg (Nat.not_lt.2 inside)]
  cases v <;> rfl

end ValueOf

end QueryKernel
