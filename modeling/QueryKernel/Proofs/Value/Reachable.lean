import QueryKernel.Proofs.Value.Edit
import QueryKernel.Value.Atoms

/-!
# Reachable values

The values that can be made by building, editing, atomizing and refining are all valid: their shape is
the one that their number of items asks for, ropes pass their own check, and type tags tell the truth.
-/

namespace QueryKernel

variable {F : Type}

/-- One step of collecting. -/
inductive Addition (F : Type) where
  | back (item : ItemOf F)
  | front (item : ItemOf F)
  | value (v : ValueOf F)

/-- The builder after a step. -/
def ValueBuilder.perform (b : ValueBuilder F) : Addition F → ValueBuilder F
  | .back item => b.addBack item
  | .front item => b.addFront item
  | .value v => b.addValue v

namespace Addition

/-- What a step adds before all items. -/
def before : Addition F → List (ItemOf F)
  | .front item => [item]
  | _ => []

/-- What a step adds after all items. -/
def after : Addition F → List (ItemOf F)
  | .back item => [item]
  | .front _ => []
  | .value v => v.items

/-- A list after some steps: what they add before it stands there in reverse order, and what they add after it
in order. -/
def extend (additions : List (Addition F)) (items : List (ItemOf F)) : List (ItemOf F) :=
  (additions.flatMap before).reverse ++ items ++ additions.flatMap after

theorem extend_nil (items : List (ItemOf F)) : extend [] items = items := by simp [extend]

theorem extend_cons (addition : Addition F) (rest : List (Addition F)) (items : List (ItemOf F)) :
    extend (addition :: rest) items = extend rest (addition.before.reverse ++ items ++ addition.after) := by
  simp [extend]

/-- A relation between builders and lists that each step keeps. -/
structure Kept (allowed : ValueOf F → Prop) (R : ValueBuilder F → List (ItemOf F) → Prop) : Prop where
  back : ∀ {b items}, R b items → ∀ item, R (b.addBack item) (items ++ [item])
  front : ∀ {b items}, R b items → ∀ item, R (b.addFront item) (item :: items)
  value : ∀ {b items v}, R b items → allowed v → R (b.addValue v) (items ++ v.items)

variable {allowed : ValueOf F → Prop} {R : ValueBuilder F → List (ItemOf F) → Prop}

theorem Kept.perform (kept : Kept allowed R) {addition : Addition F} (part : ∀ v, addition = .value v → allowed v)
    {b : ValueBuilder F} {items : List (ItemOf F)} (related : R b items) :
    R (b.perform addition) (addition.before.reverse ++ items ++ addition.after) := by
  cases addition with
  | back item => exact kept.back related item
  | front item => simpa [before, after, ValueBuilder.perform] using kept.front related item
  | value v => exact kept.value related (part v rfl)

theorem Kept.run (kept : Kept allowed R) {additions : List (Addition F)}
    (parts : ∀ v, .value v ∈ additions → allowed v) {b : ValueBuilder F} {items : List (ItemOf F)}
    (related : R b items) : R (additions.foldl ValueBuilder.perform b) (extend additions items) := by
  induction additions generalizing b items with
  | nil => rwa [extend_nil]
  | cons addition rest rest_ih =>
      rw [extend_cons]
      refine rest_ih (fun v member => parts v (List.mem_cons_of_mem _ member)) (kept.perform ?_ related)
      rintro v rfl
      exact parts v List.mem_cons_self

theorem collects_kept : Kept ValueOf.Valid (ValueBuilder.Collects (F := F)) where
  back := fun collects item => collects.addBack item
  front := fun collects item => collects.addFront item
  value := fun collects valid => collects.addValue valid

end Addition

namespace ValueOf

/-- The values that finitely many operations can make. -/
inductive Reachable : ValueOf F → Prop where
  | ofItems (items : List (ItemOf F)) : Reachable (ofItems items)
  | collected (additions : List (Addition F)) (parts : ∀ v, .value v ∈ additions → Reachable v) :
      Reachable (additions.foldl ValueBuilder.perform .empty).freeze
  | range {first last : Int64} {v : ValueOf F} (made : range? first last = some v) : Reachable v
  | inserted {v w : ValueOf F} (operand : Reachable v) {i : Nat} {item : ItemOf F}
      (made : v.insert i item = .ok w) : Reachable w
  | insertedBefore {v w u : ValueOf F} (operand : Reachable v) (added : Reachable w) {i : Nat}
      (made : v.insertBefore i w = .ok u) : Reachable u
  | removed {v w : ValueOf F} (operand : Reachable v) {i : Nat} (made : v.remove i = .ok w) :
      Reachable w
  | appended {v w : ValueOf F} (first : Reachable v) (second : Reachable w) : Reachable (v.append w)
  | sliced {v w : ValueOf F} (operand : Reachable v) {start count : Nat}
      (made : v.slice start count = .ok w) : Reachable w
  | reversed {v : ValueOf F} (operand : Reachable v) : Reachable v.reverse
  | atomized {v w : ValueOf F} (operand : Reachable v) (made : v.atomize = .ok w) : Reachable w
  | refined {v : ValueOf F} (operand : Reachable v) {type : ItemType}
      (known : ∀ item ∈ v.items, item.type.isSubtype type = true) : Reachable (v.refine type)

/-! ## Steps -/

theorem Agrees.holds {E : Type} {result : Except E (ValueOf F)} {expected : Except E (List (ItemOf F))}
    (agrees : Agrees result expected) {v : ValueOf F} (made : result = .ok v) :
    ∃ items, expected = .ok items ∧ v.Holds items := by
  rw [made] at agrees
  cases expected with
  | ok items => exact ⟨items, rfl, agrees⟩
  | error fault => exact agrees.elim

theorem collect_holds (items : List (ItemOf F)) : (collect items).Holds items :=
  (ValueBuilder.empty_collects.addAll items).freeze_holds

/-- Either the value is shared or the atoms are collected anew. -/
theorem Valid.atomize_valid {v w : ValueOf F} (valid : v.Valid) (made : v.atomize = .ok w) :
    w.Valid := by
  have collected : v.atoms.map (fun atoms => collect (atoms.map .atom)) = .ok w → w.Valid := by
    intro made
    cases found : v.atoms with
    | error cause => rw [found] at made; cases made
    | ok atoms =>
        rw [found] at made
        cases made
        exact (collect_holds _).1
  unfold atomize at made
  split at made
  · cases made; exact valid
  · cases made; exact valid
  · cases made; exact valid
  · split at made
    · cases made; exact valid
    · exact collected made
  · split at made
    · cases made; exact valid
    · exact collected made
  · exact collected made

theorem Valid.refine_holds {v : ValueOf F} (valid : v.Valid) {type : ItemType}
    (known : ∀ item ∈ v.items, item.type.isSubtype type = true) :
    (v.refine type).Holds v.items := by
  cases v with
  | empty | one item | range r => exact ⟨valid, rfl⟩
  | flat items tag => exact ⟨⟨valid.1, valid.2.1, valid.2.2.refine known⟩, rfl⟩
  | tree rope tag =>
      rw [items_tree] at known
      exact ⟨⟨valid.1, valid.2.refine known⟩, rfl⟩

theorem insertBefore_valid {v w u : ValueOf F} (first : v.Valid) (second : w.Valid) {i : Nat}
    (made : v.insertBefore i w = .ok u) : u.Valid := by
  by_cases nothing : w.isEmpty = true
  · have isEmpty : w = empty := by
      cases w <;> simp_all [ValueOf.isEmpty]
    by_cases inside : i ≤ v.size
    · rw [isEmpty, insertBefore_empty inside] at made
      cases made
      exact first
    · unfold insertBefore at made
      rw [if_pos (Nat.lt_of_not_le inside)] at made
      cases made
  · have agrees := first.insertBefore_agrees i second fun none => (nothing (second.isEmpty_iff.2 none)).elim
    obtain ⟨_, _, holds⟩ := agrees.holds made
    exact holds.1

/-- Every operation keeps values valid. -/
theorem Reachable.valid {v : ValueOf F} (reachable : v.Reachable) : v.Valid := by
  induction reachable with
  | ofItems items => exact (ofItems_holds items).1
  | collected additions _ parts_ih =>
      exact (Addition.collects_kept.run parts_ih ValueBuilder.empty_collects).freeze_holds.1
  | range made => exact (range?_holds made).1
  | inserted _ made operand_ih =>
      obtain ⟨_, _, holds⟩ := (operand_ih.insert_agrees _ _).holds made
      exact holds.1
  | insertedBefore _ _ made operand_ih added_ih => exact insertBefore_valid operand_ih added_ih made
  | removed _ made operand_ih =>
      obtain ⟨_, _, holds⟩ := (operand_ih.remove_agrees _).holds made
      exact holds.1
  | appended _ _ first_ih second_ih => exact (first_ih.append_holds second_ih).1
  | sliced _ made operand_ih =>
      obtain ⟨_, _, holds⟩ := (operand_ih.slice_agrees _ _).holds made
      exact holds.1
  | reversed _ operand_ih => exact operand_ih.reverse_holds.1
  | atomized _ made operand_ih => exact operand_ih.atomize_valid made
  | refined _ known operand_ih => exact (operand_ih.refine_holds known).1

/-! ## What is checked -/

theorem Valid.checkRope_eq {rope : Rope (ItemOf F)} {tag : TypeTag} (valid : (tree rope tag).Valid) :
    checkRope rope tag = .ok () := by
  have typed : ∀ items : List (ItemOf F), tag.Covers items →
      (items.forM fun item =>
        if !item.type.isSubtype tag.type then
          .error (item.type.text ++ " item in a " ++ tag.type.text ++ " sequence")
        else if tag.homogeneous ∧ item.type ≠ tag.type then
          .error (item.type.text ++ " item in a homogeneous " ++ tag.type.text ++ " sequence")
        else .ok ()) = (.ok () : Except String Unit) := by
    intro items covers
    induction items with
    | nil => rfl
    | cons item rest rest_ih =>
        have above := covers.above item List.mem_cons_self
        have exact := fun homogeneous => covers.exact homogeneous item List.mem_cons_self
        have others := rest_ih (covers.mono (List.subset_cons_self _ _))
        simp only [List.forM_eq_forM, List.forM_cons] at others ⊢
        rw [if_neg (by simp [above]), if_neg (by simpa using exact)]
        exact others
  unfold checkRope
  rw [valid.1.check_eq]
  exact typed _ (by rw [rope.items_eq_toList]; exact valid.2)

/-- The shape is the one for the number of items, and what is recorded is right. -/
structure Invariant (v : ValueOf F) : Prop where
  empty_iff : v = empty ↔ v.items = []
  one_iff : (∃ item, v = one item) ↔ v.items.length = 1
  flat_length : ∀ items tag, v = flat items tag → 2 ≤ items.length ∧ items.length ≤ 7
  range_length : ∀ r, v = range r → 2 ≤ v.items.length
  tree_length : ∀ rope tag, v = tree rope tag → 8 ≤ v.items.length
  tree_check : ∀ rope tag, v = tree rope tag → checkRope rope tag = .ok ()
  above : ∀ item ∈ v.items, item.type.isSubtype v.type = true
  exact : v.isHomogeneous = true → ∀ item ∈ v.items, item.type = v.type

theorem reachable_invariant {v : ValueOf F} (reachable : v.Reachable) : v.Invariant := by
  have valid := reachable.valid
  have covers := valid.covers
  have nothing := valid.isEmpty_iff
  have length : v.items.length = 1 → ∃ item, v = one item := by
    intro single
    have size := valid.size_eq
    rw [single] at size
    -- All other shapes have two items at least.
    cases v with
    | empty => simp [ValueOf.size] at size
    | one item => exact ⟨item, rfl⟩
    | flat items tag => have := valid.1; simp only [ValueOf.size] at size; omega
    | range r => have := IntegerRange.Valid.least valid; simp only [ValueOf.size] at size; omega
    | tree rope tag =>
        have := valid.1.length_ge
        have := valid.1.size_eq
        simp only [ValueOf.size] at size
        omega
  refine ⟨?_, ⟨?_, length⟩, ?_, ?_, ?_, ?_, covers.above, covers.exact⟩
  · rw [← nothing]
    cases v <;> simp [isEmpty]
  · rintro ⟨item, rfl⟩
    rfl
  · rintro items tag rfl
    exact ⟨valid.1, valid.2.1⟩
  · rintro r rfl
    rw [← valid.size_eq]
    exact IntegerRange.Valid.least valid
  · rintro rope tag rfl
    rw [items_tree]
    exact valid.1.length_ge
  · rintro rope tag rfl
    exact valid.checkRope_eq

/-- Two ropes joined and turned round. -/
theorem reachable_invariant_twenty :
    ((ofItems ((List.range 10).map fun _ => (.boolean true : ItemOf Unit))).append
      (ofItems ((List.range 10).map fun _ => .boolean false))).reverse.Invariant :=
  reachable_invariant (.reversed (.appended (.ofItems _) (.ofItems _)))

end ValueOf

end QueryKernel
