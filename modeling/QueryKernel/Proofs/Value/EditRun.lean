import QueryKernel.Proofs.Value.Reachable
import QueryKernel.Proofs.Value.Walk

/-!
# Values behave as lists

Editing works on a store of values: each edit names its operands by their place in the store, and its
result is added at the end.  The same edits can be performed on plain lists.  Both runs refuse the same
edits for the same reasons, and afterwards each value holds the list at its place.
-/

namespace QueryKernel

variable {F : Type}

/-- An edit of a store.  Operands are given by their place; a place with nothing in it is empty. -/
inductive Edit (F : Type) where
  | ofItems (items : List (ItemOf F))
  | range (first last : Int64)
  | insert (operand i : Nat) (item : ItemOf F)
  | insertBefore (operand i added : Nat)
  | remove (operand i : Nat)
  | append (operand added : Nat)
  | slice (operand start count : Nat)
  | reverse (operand : Nat)

/-- Why an edit gives nothing: an error with a code, or a broken precondition. -/
inductive Refusal where
  | error (code : ExpandedName)
  | fault (fault : Fault)

namespace Edit

/-- The value that an edit of values gives. -/
def onValues (store : List (ValueOf F)) (e : Edit F) : Except Refusal (ValueOf F) :=
  let operand (place : Nat) : ValueOf F := store.getD place .empty
  match e with
  | .ofItems items => (ValueOf.ofItems items).bounded.mapError .fault
  | .range first last =>
      match ValueOf.range? first last with
      | some v => .ok v
      | none => .error (.error (Cause.rangeTooLong first last : Cause F).code)
  | .insert r i item => ((operand r).insert i item).mapError .fault
  | .insertBefore r i added => ((operand r).insertBefore i (operand added)).mapError .fault
  | .remove r i => ((operand r).remove i).mapError .fault
  | .append r added => ((operand r).append (operand added)).bounded.mapError .fault
  | .slice r start count => ((operand r).slice start count).mapError .fault
  | .reverse r => .ok (operand r).reverse

/-- The list that an edit of lists gives. -/
def onLists (store : List (List (ItemOf F))) (e : Edit F) : Except Refusal (List (ItemOf F)) :=
  let operand (place : Nat) : List (ItemOf F) := store.getD place []
  match e with
  | .ofItems items => (ListEdit.bounded items).mapError .fault
  | .range first last =>
      if (last.toInt - first.toInt + 1).toNat ≤ 9223372036854775808 then .ok (ValueOf.integersBetween first last)
      else .error (.error ErrorCode.XPDY0130.expandedName)
  | .insert r i item => (ListEdit.insert (operand r) i item).mapError .fault
  | .insertBefore r i added =>
      (ListEdit.insertBefore (operand r) i (operand added)).mapError .fault
  | .remove r i => (ListEdit.remove (operand r) i).mapError .fault
  | .append r added => (ListEdit.bounded (operand r ++ operand added)).mapError .fault
  | .slice r start count => (ListEdit.slice (operand r) start count).mapError .fault
  | .reverse r => .ok (operand r).reverse

/-- The store after an edit, and why the edit was refused if it was. -/
def step {S : Type} (perform : List S → Edit F → Except Refusal S) (store : List S) (e : Edit F) :
    List S × Option Refusal :=
  match perform store e with
  | .ok made => (store ++ [made], none)
  | .error refusal => (store, some refusal)

/-- The store after some edits, and what became of each. -/
def run {S : Type} (perform : List S → Edit F → Except Refusal S) :
    List S → List (Edit F) → List S × List (Option Refusal)
  | store, [] => (store, [])
  | store, e :: rest =>
      let (store, outcome) := step perform store e
      let (store, outcomes) := run perform store rest
      (store, outcome :: outcomes)

end Edit

namespace ValueOf

/-- Everything that can be seen of a value is as if it were the list: its size, the item at each
position or the refusal of the position, and what a walk from each position on gives. -/
structure BehavesAs (v : ValueOf F) (items : List (ItemOf F)) : Prop where
  items_eq : v.items = items
  size_eq : v.size = items.length
  itemAt_eq : ∀ i, v.itemAt i = ListEdit.itemAt items i
  walk_eq : ∀ start n, ((v.walkFrom start).take n).1 = (items.drop start).take n
  remaining_eq : ∀ start, (v.walkFrom start).remaining = (items.drop start).length

theorem Holds.behavesAs {v : ValueOf F} {items : List (ItemOf F)} (holds : v.Holds items) :
    v.BehavesAs items := by
  obtain ⟨valid, rfl⟩ := holds
  exact ⟨rfl, valid.size_eq, valid.itemAt_eq, fun start n => ((valid.walkFrom_reads start).take n).1,
    fun start => (valid.walkFrom_reads start).remaining_eq⟩

/-- All values of a store are valid and none is too long. -/
def Sound (store : List (ValueOf F)) : Prop := ∀ v ∈ store, v.Valid ∧ v.items.length ≤ maxSize

theorem Sound.operand {store : List (ValueOf F)} (sound : Sound store) (place : Nat) :
    (store.getD place empty).Valid ∧ (store.getD place empty).items.length ≤ maxSize := by
  rw [List.getD_eq_getElem?_getD]
  cases found : store[place]? with
  | none => exact ⟨trivial, Nat.zero_le _⟩
  | some v => exact sound v (List.mem_of_getElem? found)

theorem items_operand (store : List (ValueOf F)) (place : Nat) :
    (store.map items).getD place [] = (store.getD place empty).items := by
  rw [List.getD_eq_getElem?_getD, List.getD_eq_getElem?_getD, List.getElem?_map]
  cases store[place]? <;> rfl

theorem Agrees.mapError {E E' : Type} {result : Except E (ValueOf F)}
    {expected : Except E (List (ItemOf F))} (agrees : Agrees result expected) (wrap : E → E') :
    Agrees (result.mapError wrap) (expected.mapError wrap) := by
  cases result with
  | ok v =>
      cases expected with
      | ok items => exact agrees
      | error g => exact agrees.elim
  | error f =>
      cases expected with
      | ok items => exact agrees.elim
      | error g => exact congrArg wrap agrees

end ValueOf

namespace Edit

open ValueOf (Sound Agrees items_operand)

/-! ## One edit -/

theorem onValues_agrees {store : List (ValueOf F)} (sound : Sound store) (e : Edit F) :
    Agrees (e.onValues store) (e.onLists (store.map (·.items))) := by
  cases e with
  | ofItems items => exact (ValueOf.ofItems_holds items).bounded.mapError _
  | range first last =>
      have tooLong := ValueOf.range?_eq_none_iff (F := F) first last
      rw [ValueOf.integersBetween, length_integersFrom,
        show IntegerRange.maxLength = 9223372036854775808 from rfl] at tooLong
      simp only [onValues, onLists]
      -- Just the ranges that are too long have no value.
      cases made : (ValueOf.range? first last : Option (ValueOf F)) with
      | some v =>
          have fits : ¬9223372036854775808 < (last.toInt - first.toInt + 1).toNat := by
            intro long
            rw [tooLong.2 long] at made
            cases made
          rw [if_pos (Nat.le_of_not_lt fits)]
          exact ValueOf.range?_holds made
      | none =>
          rw [if_neg (Nat.not_le.2 (tooLong.1 made))]
          exact rfl
  | insert r i item =>
      simp only [onValues, onLists, items_operand]
      exact ((sound.operand r).1.insert_agrees i item).mapError _
  | insertBefore r i added =>
      simp only [onValues, onLists, items_operand]
      exact ((sound.operand r).1.insertBefore_agrees i (sound.operand added).1
        fun _ => (sound.operand r).2).mapError _
  | remove r i =>
      simp only [onValues, onLists, items_operand]
      exact ((sound.operand r).1.remove_agrees i).mapError _
  | append r added =>
      simp only [onValues, onLists, items_operand]
      exact ((sound.operand r).1.append_holds (sound.operand added).1).bounded.mapError _
  | slice r start count =>
      simp only [onValues, onLists, items_operand]
      exact ((sound.operand r).1.slice_agrees start count).mapError _
  | reverse r =>
      simp only [onValues, onLists, items_operand]
      exact (sound.operand r).1.reverse_holds

theorem bounded_length {items made : List (ItemOf F)} (bounded : ListEdit.bounded items = .ok made) :
    made.length ≤ maxSize := by
  unfold ListEdit.bounded at bounded
  split at bounded
  · next fits =>
      cases bounded
      exact fits
  · cases bounded

theorem mapError_eq_ok {E E' A : Type} {result : Except E A} {wrap : E → E'} {a : A}
    (mapped : result.mapError wrap = .ok a) : result = .ok a := by
  cases result with
  | ok b =>
      have same : (.ok b : Except E' A) = .ok a := mapped
      rw [Except.ok.inj same]
  | error f =>
      have differ : (.error (wrap f) : Except E' A) = .ok a := mapped
      cases differ

theorem onLists_length {store : List (ValueOf F)} (sound : Sound store) {e : Edit F}
    {made : List (ItemOf F)} (performed : e.onLists (store.map (·.items)) = .ok made) :
    made.length ≤ maxSize := by
  cases e with
  | ofItems items => exact bounded_length (mapError_eq_ok performed)
  | range first last =>
      simp only [onLists] at performed
      split at performed
      · next fits =>
          cases performed
          rw [ValueOf.integersBetween, length_integersFrom]
          exact Nat.le_trans fits (by decide)
      · cases performed
  | insert r i item =>
      have inserted := mapError_eq_ok performed
      unfold ListEdit.insert at inserted
      split at inserted
      · cases inserted
      · exact bounded_length inserted
  | insertBefore r i added =>
      have inserted := mapError_eq_ok performed
      unfold ListEdit.insertBefore at inserted
      split at inserted
      · cases inserted
      · exact bounded_length inserted
  | remove r i =>
      have removed := mapError_eq_ok performed
      simp only [items_operand] at removed
      unfold ListEdit.remove at removed
      split at removed
      · cases removed
      · cases removed
        exact Nat.le_trans (List.eraseIdx_sublist _ _).length_le (sound.operand r).2
  | append r added => exact bounded_length (mapError_eq_ok performed)
  | slice r start count =>
      have sliced := mapError_eq_ok performed
      simp only [items_operand] at sliced
      unfold ListEdit.slice at sliced
      split at sliced
      · cases sliced
      · cases sliced
        have fits := (sound.operand r).2
        simp only [List.length_take, List.length_drop]
        omega
  | reverse r =>
      simp only [onLists, items_operand] at performed
      cases performed
      rw [List.length_reverse]
      exact (sound.operand r).2

theorem step_sound {store : List (ValueOf F)} (sound : Sound store) (e : Edit F) :
    Sound (step onValues store e).1 ∧
      step onLists (store.map (·.items)) e =
        ((step onValues store e).1.map (·.items), (step onValues store e).2) := by
  have agrees := onValues_agrees sound e
  unfold step
  -- Both are refused alike, so that two of the four cases are impossible.
  cases made : e.onValues store with
  | ok v =>
      cases listed : e.onLists (store.map (·.items)) with
      | ok items =>
          rw [made, listed] at agrees
          obtain ⟨valid, rfl⟩ := agrees
          refine ⟨fun w member => ?_, by simp⟩
          rcases List.mem_append.1 member with old | new
          · exact sound w old
          · rw [List.mem_singleton.1 new]
            exact ⟨valid, onLists_length sound listed⟩
      | error g =>
          rw [made, listed] at agrees
          exact agrees.elim
  | error f =>
      cases listed : e.onLists (store.map (·.items)) with
      | ok items =>
          rw [made, listed] at agrees
          exact agrees.elim
      | error g =>
          rw [made, listed] at agrees
          have same : f = g := agrees
          exact ⟨sound, by rw [same]⟩

theorem step_grows (store : List (ValueOf F)) (e : Edit F) : store <+: (step onValues store e).1 := by
  unfold step
  split
  · exact List.prefix_append _ _
  · exact List.prefix_refl _

/-! ## Runs of edits -/

theorem run_sound {store : List (ValueOf F)} (sound : Sound store) (edits : List (Edit F)) :
    Sound (run onValues store edits).1 ∧ store <+: (run onValues store edits).1 ∧
      run onLists (store.map (·.items)) edits =
        ((run onValues store edits).1.map (·.items), (run onValues store edits).2) := by
  induction edits generalizing store with
  | nil => exact ⟨sound, List.prefix_refl _, rfl⟩
  | cons e rest rest_ih =>
      obtain ⟨stepped, same⟩ := step_sound sound e
      obtain ⟨final, grown, agree⟩ := rest_ih stepped
      refine ⟨final, (step_grows store e).trans grown, ?_⟩
      simp only [run, same, agree]

/-- From reachable values on, editing values and editing lists refuse the same edits for the same
reasons, the values there were before are still there, and each value behaves as the list at its place. -/
theorem edits_behave_as_lists {store : List (ValueOf F)}
    (start : ∀ v ∈ store, v.Reachable ∧ v.size ≤ maxSize) (edits : List (Edit F)) :
    let values := run onValues store edits
    let lists := run onLists (store.map (·.items)) edits
    values.2 = lists.2 ∧ values.1.length = lists.1.length ∧ store <+: values.1 ∧
      ∀ place, (values.1.getD place .empty).BehavesAs (lists.1.getD place []) := by
  have sound : Sound store := by
    intro v member
    obtain ⟨reachable, fits⟩ := start v member
    rw [reachable.valid.size_eq] at fits
    exact ⟨reachable.valid, fits⟩
  obtain ⟨final, grown, agree⟩ := run_sound sound edits
  intro values lists
  have listed : lists = (values.1.map (·.items), values.2) := agree
  rw [listed]
  refine ⟨rfl, (List.length_map _).symm, grown, fun place => ?_⟩
  rw [items_operand]
  exact ValueOf.Holds.behavesAs ⟨(final.operand place).1, rfl⟩

/-- A range joined with itself, an item inserted, a position out of bounds, and the whole reversed. -/
theorem edits_behave_as_lists_of_range :
    let edits : List (Edit Unit) :=
      [.range 1 9, .append 1 1, .insert 2 12 (.boolean true), .remove 3 40, .reverse 3]
    let values := run onValues [.empty] edits
    values.2 = (run onLists [[]] edits).2 ∧
      (values.1.getD 4 .empty).items =
        [9, 8, 7, 6, 5, 4].map .integer ++ .boolean true :: [3, 2, 1, 9, 8, 7, 6, 5, 4, 3, 2, 1].map .integer := by
  intro edits values
  have start : ∀ v ∈ ([.empty] : List (ValueOf Unit)), v.Reachable ∧ v.size ≤ maxSize := by
    intro v member
    rw [List.mem_singleton.1 member]
    exact ⟨.ofItems [], Nat.zero_le _⟩
  obtain ⟨refusals, -, -, behaves⟩ := edits_behave_as_lists start edits
  exact ⟨refusals, (behaves 4).items_eq.trans (by with_unfolding_all rfl)⟩

end Edit

end QueryKernel
