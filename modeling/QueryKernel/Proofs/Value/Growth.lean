import QueryKernel.Proofs.Sequence.Words
import QueryKernel.Proofs.Value.Additions
import QueryKernel.Proofs.Value.EditRun

/-!
# Sequences that grow

However sequences are put together, and however much they share, their sizes are what counting gives, and what
would have too many items for a size of 64 bits is refused.  So all sizes in the sequences that there are fit, and all
additions of words in them are exact.  But nothing keeps a sequence from being refused: it takes little more than
sixty steps to get there.

A run on numbers says all that there is to know of sizes: neither the items nor the shapes of the sequences
matter.

## Definitions

* `Growth` is a step that puts a sequence together; `Growth.onValues` takes it.
* `Growth.onCounts` counts only.
* `ValueOf.AddsExactly` says that all additions of words in a value are exact.
-/

namespace QueryKernel

variable {F : Type}

/-! ## Steps -/

/-- What is added to a builder: an item at either end or a value of the store. -/
inductive Part (F : Type) where
  | back (item : ItemOf F)
  | front (item : ItemOf F)
  | value (place : Nat)

/-- A step that puts a sequence together from those of a store.  Operands are given by their place; a place with
nothing in it is empty. -/
inductive Growth (F : Type) where
  | append (operand added : Nat)
  | insert (operand i : Nat) (item : ItemOf F)
  | insertBefore (operand i added : Nat)
  | push (operand : Nat) (front : Bool) (item : ItemOf F)
  | build (parts : List (Part F))

/-- What a part adds. -/
def Part.addition (store : List (ValueOf F)) : Part F → Addition F
  | back item => .back item
  | front item => .front item
  | value place => .value (store.getD place .empty)

/-- How much a part adds. -/
def Part.count (counts : List Nat) : Part F → Nat
  | back _ | front _ => 1
  | value place => counts.getD place 0

/-- A value with one more item at an end. -/
def ValueOf.push (v : ValueOf F) (front : Bool) (item : ItemOf F) : Except Fault (ValueOf F) :=
  match v, front with
  | tree rope tag, true => (tree (pushFront item (rope, tag)).1 (pushFront item (rope, tag)).2).bounded
  | tree rope tag, false => (tree (pushBack (rope, tag) item).1 (pushBack (rope, tag) item).2).bounded
  | v, true => v.insert 0 item
  | v, false => v.insert v.size item

namespace CountEdit

/-- A number of items that a size can count. -/
def bounded (n : Nat) : Except Fault Nat := if n ≤ maxSize then .ok n else .error .sizeOverflow

/-- The number of items when so many more are inserted at a position. -/
def insert (n i more : Nat) : Except Fault Nat :=
  if n < i then .error (.position i n) else bounded (n + more)

theorem insert_inside {n i : Nat} (inside : i ≤ n) (more : Nat) : insert n i more = bounded (n + more) :=
  if_neg (Nat.not_lt.2 inside)

end CountEdit

namespace Growth

/-- The value that a step gives. -/
def onValues (store : List (ValueOf F)) (g : Growth F) : Except Fault (ValueOf F) :=
  let operand (place : Nat) : ValueOf F := store.getD place .empty
  match g with
  | .append r added => ((operand r).append (operand added)).bounded
  | .insert r i item => (operand r).insert i item
  | .insertBefore r i added => (operand r).insertBefore i (operand added)
  | .push r front item => (operand r).push front item
  | .build parts =>
      ((parts.map (Part.addition store)).foldlM ValueBuilder.performBounded .empty).map ValueBuilder.freeze

/-- The number of items that a step gives. -/
def onCounts (counts : List Nat) (g : Growth F) : Except Fault Nat :=
  let operand (place : Nat) : Nat := counts.getD place 0
  match g with
  | .append r added => CountEdit.bounded (operand r + operand added)
  | .insert r i _ => CountEdit.insert (operand r) i 1
  | .insertBefore r i added => CountEdit.insert (operand r) i (operand added)
  | .push r _ _ => CountEdit.bounded (operand r + 1)
  | .build parts => CountEdit.bounded (sumOver (Part.count counts) parts)

/-- The store after some steps, and for each one why it was refused, if it was. -/
def run {S : Type} (perform : List S → Growth F → Except Fault S) :
    List S → List (Growth F) → List S × List (Option Fault)
  | store, [] => (store, [])
  | store, g :: rest =>
      match perform store g with
      | .ok made => let (store, refusals) := run perform (store ++ [made]) rest
          (store, none :: refusals)
      | .error refusal => let (store, refusals) := run perform store rest
          (store, some refusal :: refusals)

end Growth

/-- All additions of words in a value are exact. -/
def ValueOf.AddsExactly : ValueOf F → Prop
  | tree rope _ => rope.AddsExactly
  | _ => True

/-! ## One step -/

namespace ValueOf

/-- The size, or the refusal, is that of a number, and what is made is valid. -/
def CountsAs (result : Except Fault (ValueOf F)) (expected : Except Fault Nat) : Prop :=
  result.map size = expected ∧ ∀ v, result = .ok v → v.Valid

theorem Agrees.countsAs {result : Except Fault (ValueOf F)} {listed : Except Fault (List (ItemOf F))}
    {expected : Except Fault Nat} (agrees : Agrees result listed) (counted : listed.map List.length = expected) :
    CountsAs result expected := by
  subst counted
  cases result with
  | ok v =>
      cases listed with
      | ok items =>
          obtain ⟨valid, rfl⟩ := agrees
          refine ⟨congrArg Except.ok valid.size_eq, fun w same => ?_⟩
          cases same
          exact valid
      | error g => exact agrees.elim
  | error f =>
      cases listed with
      | ok items => exact agrees.elim
      | error g => exact ⟨congrArg Except.error agrees, fun w impossible => by cases impossible⟩

theorem length_bounded (items : List (ItemOf F)) :
    (ListEdit.bounded items).map List.length = CountEdit.bounded items.length := by
  unfold ListEdit.bounded CountEdit.bounded
  split <;> rfl

theorem Holds.countsAs {v : ValueOf F} {items : List (ItemOf F)} (holds : v.Holds items) :
    CountsAs v.bounded (CountEdit.bounded items.length) :=
  holds.bounded.countsAs (length_bounded items)

theorem Valid.insert_countsAs {v : ValueOf F} (valid : v.Valid) (i : Nat) (item : ItemOf F) :
    CountsAs (v.insert i item) (CountEdit.insert v.size i 1) := by
  refine (valid.insert_agrees i item).countsAs ?_
  unfold ListEdit.insert CountEdit.insert
  rw [valid.size_eq]
  split
  · rfl
  · next inside =>
      rw [length_bounded, List.length_insertIdx_of_le_length (Nat.le_of_not_lt inside)]

theorem Valid.insertBefore_countsAs {v w : ValueOf F} (first : v.Valid) (i : Nat) (second : w.Valid)
    (fits : v.items.length ≤ maxSize) : CountsAs (v.insertBefore i w) (CountEdit.insert v.size i w.size) := by
  refine (first.insertBefore_agrees i second fun _ => fits).countsAs ?_
  unfold ListEdit.insertBefore CountEdit.insert
  rw [first.size_eq, second.size_eq]
  split
  · rfl
  · next inside =>
      rw [length_bounded, List.length_append, List.length_append, List.length_take, List.length_drop]
      congr 1
      omega

theorem Valid.push_countsAs {v : ValueOf F} (valid : v.Valid) (front : Bool) (item : ItemOf F) :
    CountsAs (v.push front item) (CountEdit.bounded (v.size + 1)) := by
  have atFront := valid.insert_countsAs 0 item
  have atBack := valid.insert_countsAs v.size item
  rw [CountEdit.insert_inside (Nat.zero_le _)] at atFront
  rw [CountEdit.insert_inside (Nat.le_refl _)] at atBack
  cases v with
  | tree rope tag =>
      have sizes : (tree rope tag).size = rope.toList.length := by rw [valid.size_eq, items_tree]
      rw [sizes]
      cases front with
      | true =>
          have pushed : Tagged ((pushFront item (rope, tag)).1, (pushFront item (rope, tag)).2)
              (item :: rope.toList) := valid.tagged.pushFront item
          exact pushed.tree.countsAs
      | false =>
          have pushed : Tagged ((pushBack (rope, tag) item).1, (pushBack (rope, tag) item).2)
              (rope.toList ++ [item]) := valid.tagged.pushBack item
          have counted := pushed.tree.countsAs
          rwa [List.length_append, List.length_singleton] at counted
  | empty | one only | flat items tag | range r =>
      cases front with
      | true => exact atFront
      | false => exact atBack

end ValueOf

namespace Addition

/-- Additions of too many items are refused on the way, or in the end at the latest. -/
theorem performBounded_refused {additions : List (Addition F)} (valid : ∀ v, .value v ∈ additions → v.Valid)
    {b : ValueBuilder F} {items : List (ItemOf F)} (gathers : b.Gathers items) (begun : items.length ≤ maxSize)
    (beyond : maxSize < (extend additions items).length) :
    additions.foldlM ValueBuilder.performBounded b = .error .sizeOverflow := by
  induction additions generalizing b items with
  | nil =>
      rw [extend_nil] at beyond
      exact absurd begun (Nat.not_le.2 beyond)
  | cons addition rest rest_ih =>
      rw [extend_cons] at beyond
      have grown : (b.perform addition).Gathers (addition.before.reverse ++ items ++ addition.after) := by
        refine gathers_kept.perform ?_ gathers
        rintro v rfl
        exact (valid v List.mem_cons_self).shaped
      rw [List.foldlM_cons]
      by_cases small : (b.perform addition).size ≤ maxSize
      · have performed : b.performBounded addition = .ok (b.perform addition) := if_pos small
        rw [performed]
        rw [grown.size_eq] at small
        exact rest_ih (fun v member => valid v (List.mem_cons_of_mem _ member)) grown small beyond
      · have performed : b.performBounded addition = .error .sizeOverflow := if_neg small
        rw [performed]
        rfl

/-- What is built has as many items as are added, if a size can count them. -/
theorem build_countsAs {additions : List (Addition F)} (valid : ∀ v, .value v ∈ additions → v.Valid) :
    ValueOf.CountsAs ((additions.foldlM ValueBuilder.performBounded .empty).map ValueBuilder.freeze)
      (CountEdit.bounded (sumOver count additions)) := by
  have shaped := fun v member => (valid v member).shaped
  have counted : (extend additions []).length = sumOver count additions := by
    simpa using length_extend shaped []
  by_cases fits : sumOver count additions ≤ maxSize
  · have ran := performBounded_run shaped ValueBuilder.empty_gathers (counted ▸ fits)
    have holds := (collects_kept.run valid ValueBuilder.empty_collects).freeze_holds
    rw [ran, CountEdit.bounded, if_pos fits, ← counted]
    refine ⟨congrArg Except.ok ?_, fun v same => ?_⟩
    · rw [holds.1.size_eq, holds.2]
    · cases same
      exact holds.1
  · have refused := performBounded_refused valid ValueBuilder.empty_gathers (Nat.zero_le _)
      (counted ▸ Nat.lt_of_not_le fits)
    rw [refused, CountEdit.bounded, if_neg fits]
    exact ⟨rfl, fun v impossible => by cases impossible⟩

end Addition

namespace Growth

open ValueOf (Sound CountsAs)

variable {store : List (ValueOf F)}

theorem size_operand (store : List (ValueOf F)) (place : Nat) :
    (store.map (·.size)).getD place 0 = (store.getD place .empty).size := by
  rw [List.getD_eq_getElem?_getD, List.getD_eq_getElem?_getD, List.getElem?_map]
  cases store[place]? <;> rfl

theorem count_addition (store : List (ValueOf F)) (part : Part F) :
    (part.addition store).count = part.count (store.map (·.size)) := by
  cases part with
  | back item | front item => rfl
  | value place => exact (size_operand store place).symm

theorem sumOver_additions (store : List (ValueOf F)) (parts : List (Part F)) :
    sumOver Addition.count (parts.map (Part.addition store)) = sumOver (Part.count (store.map (·.size))) parts := by
  induction parts with
  | nil => rfl
  | cons part rest rest_ih => rw [List.map_cons, sumOver, sumOver, rest_ih, count_addition]

/-- A step gives as many items as counting does, or is refused for the same reason. -/
theorem onValues_countsAs (sound : Sound store) (g : Growth F) :
    CountsAs (g.onValues store) (g.onCounts (store.map (·.size))) := by
  cases g with
  | append r added =>
      simp only [onValues, onCounts, size_operand]
      have holds := (sound.operand r).1.append_holds (sound.operand added).1
      have counted := holds.countsAs
      rwa [List.length_append, ← (sound.operand r).1.size_eq, ← (sound.operand added).1.size_eq] at counted
  | insert r i item =>
      simp only [onValues, onCounts, size_operand]
      exact (sound.operand r).1.insert_countsAs i item
  | insertBefore r i added =>
      simp only [onValues, onCounts, size_operand]
      exact (sound.operand r).1.insertBefore_countsAs i (sound.operand added).1 (sound.operand r).2
  | push r front item =>
      simp only [onValues, onCounts, size_operand]
      exact (sound.operand r).1.push_countsAs front item
  | build parts =>
      simp only [onValues, onCounts]
      rw [← sumOver_additions]
      refine Addition.build_countsAs fun v member => ?_
      obtain ⟨part, -, made⟩ := List.mem_map.1 member
      cases part with
      | back item | front item => cases made
      | value place =>
          cases made
          exact (sound.operand place).1

/-- Counting gives nothing that a size cannot count. -/
theorem onCounts_fits {counts : List Nat} {g : Growth F} {n : Nat} (counted : g.onCounts counts = .ok n) :
    n ≤ maxSize := by
  have bounded : ∀ m, CountEdit.bounded m = .ok n → n ≤ maxSize := by
    intro m given
    unfold CountEdit.bounded at given
    split at given
    · next fits =>
        cases given
        exact fits
    · cases given
  have inserted : ∀ m i more, CountEdit.insert m i more = .ok n → n ≤ maxSize := by
    intro m i more given
    unfold CountEdit.insert at given
    split at given
    · cases given
    · exact bounded _ given
  cases g with
  | append r added => exact bounded _ counted
  | insert r i item => exact inserted _ _ _ counted
  | insertBefore r i added => exact inserted _ _ _ counted
  | push r front item => exact bounded _ counted
  | build parts => exact bounded _ counted

/-! ## Runs -/

/-- A run keeps the values sound, and counting has the same run on the sizes. -/
theorem run_sound (sound : Sound store) (steps : List (Growth F)) :
    Sound (run onValues store steps).1 ∧
      run onCounts (store.map (·.size)) steps =
        ((run onValues store steps).1.map (·.size), (run onValues store steps).2) := by
  induction steps generalizing store with
  | nil => exact ⟨sound, rfl⟩
  | cons g rest rest_ih =>
      obtain ⟨counted, valid⟩ := onValues_countsAs sound g
      cases made : g.onValues store with
      | ok v =>
          rw [made] at counted
          have count : g.onCounts (store.map (·.size)) = .ok v.size := counted.symm
          have whole := valid v made
          -- What has been counted fits, so that the store stays sound.
          have grown : Sound (store ++ [v]) := by
            refine List.forall_mem_append.2 ⟨sound, List.forall_mem_singleton.2 ⟨whole, ?_⟩⟩
            rw [← whole.size_eq]
            exact onCounts_fits count
          obtain ⟨final, same⟩ := rest_ih grown
          rw [List.map_append, List.map_singleton] at same
          simp only [run, made, count, same]
          exact ⟨final, trivial⟩
      | error refusal =>
          rw [made] at counted
          have count : g.onCounts (store.map (·.size)) = .error refusal := counted.symm
          obtain ⟨final, same⟩ := rest_ih sound
          simp only [run, made, count, same]
          exact ⟨final, trivial⟩

/-- However often values are put together, inserted into each other, added to at the ends and built from each other,
also from themselves: counting alone says how many items there are, and what is refused for having too many.  Of each
value that there is the size is the number of items, which 64 bits can count, and all additions of sizes in it are
exact. -/
theorem sizes_are_counted (start : ∀ v ∈ store, v.Valid ∧ v.size ≤ maxSize) (steps : List (Growth F)) :
    run onCounts (store.map (·.size)) steps =
        ((run onValues store steps).1.map (·.size), (run onValues store steps).2) ∧
      ∀ v ∈ (run onValues store steps).1, v.size = v.items.length ∧ v.size ≤ maxSize ∧ v.AddsExactly := by
  have sound : Sound store := fun v member => ⟨(start v member).1, (start v member).1.size_eq ▸ (start v member).2⟩
  obtain ⟨final, counted⟩ := run_sound sound steps
  refine ⟨counted, fun v member => ?_⟩
  obtain ⟨valid, fits⟩ := final v member
  rw [← valid.size_eq] at fits
  refine ⟨valid.size_eq, fits, ?_⟩
  cases v with
  | tree rope tag => exact valid.1.addsExactly_iff.2 fits
  | empty | one item | flat items tag | range r => trivial

/-- Eight items. -/
def eightItems : ValueOf Unit := .ofItems (List.replicate 8 (.boolean true))

theorem eightItems_valid : eightItems.Valid ∧ eightItems.size = 8 := by
  have holds := ValueOf.ofItems_holds (List.replicate 8 (.boolean true : ItemOf Unit))
  exact ⟨holds.1, holds.1.size_eq.trans (congrArg List.length holds.2)⟩

/-- Eight items twice, with one more in front, once in themselves, and all of these built with one item in front. -/
theorem sizes_are_counted_of_eightItems :
    let item : ItemOf Unit := .boolean true
    let steps : List (Growth Unit) := [.append 0 0, .push 1 true item, .insertBefore 2 9 1, .insert 0 9 item,
      .build [.value 1, .back item, .value 2, .front item, .value 3]]
    (run onValues [eightItems] steps).1.map (·.size) = [8, 16, 17, 33, 68] ∧
      (run onValues [eightItems] steps).2 = [none, none, none, some (.position 9 8), none] ∧
      ∀ v ∈ (run onValues [eightItems] steps).1, v.AddsExactly := by
  intro item steps
  have start : ∀ v ∈ [eightItems], v.Valid ∧ v.size ≤ maxSize := by
    refine List.forall_mem_singleton.2 ⟨eightItems_valid.1, ?_⟩
    rw [eightItems_valid.2]
    decide
  obtain ⟨counted, each⟩ := sizes_are_counted start steps
  rw [List.map_singleton, eightItems_valid.2] at counted
  obtain ⟨sizes, refusals⟩ := Prod.mk.inj counted
  exact ⟨sizes.symm, refusals.symm, fun v member => (each v member).2.2⟩

/-- Each value put together with itself, one after another. -/
def doublings (n : Nat) : List (Growth Unit) := (List.range n).map fun place => .append place place

/-- Eight items may be doubled sixty times, but no more. -/
theorem doublings_overflow :
    (run onValues [eightItems] (doublings 61)).2 = List.replicate 60 none ++ [some .sizeOverflow] := by
  have sound : Sound [eightItems] := by
    refine List.forall_mem_singleton.2 ⟨eightItems_valid.1, ?_⟩
    rw [← eightItems_valid.1.size_eq, eightItems_valid.2]
    decide
  have counted := (run_sound sound (doublings 61)).2
  rw [List.map_singleton, eightItems_valid.2] at counted
  have refusals : (run onCounts [8] (doublings 61)).2 = List.replicate 60 none ++ [some .sizeOverflow] := by
    with_unfolding_all rfl
  rw [counted] at refusals
  exact refusals

end Growth

end QueryKernel
