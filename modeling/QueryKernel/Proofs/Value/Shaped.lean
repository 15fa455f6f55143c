import QueryKernel.Proofs.Value.Edit
import QueryKernel.Proofs.Value.Walk

/-!
# Values in shape

A value whose shape is right while its tag may be wrong.  Narrowing a literal can leave such a value:
a sum of integers beyond 64 bits is a decimal, and still has the static type of an integer.

The work is in `retag`: a value in shape becomes valid under the tag that its items have, and nothing that reads
its items looks at the tag.
-/

namespace QueryKernel

variable {F : Type}

namespace ValueOf

/-- The shape is the one that the number of items asks for. -/
def Shaped : ValueOf F → Prop
  | empty => True
  | one _ => True
  | flat items _ => 2 ≤ items.length ∧ items.length ≤ maxFlat
  | range r => r.Valid
  | tree rope _ => rope.WellFormed

/-- The value with the tag that its items have. -/
def retag : ValueOf F → ValueOf F
  | flat items _ => flat items (.ofItems items)
  | tree rope _ => tree rope (.ofItems rope.toList)
  | v => v

theorem Valid.shaped {v : ValueOf F} (valid : v.Valid) : v.Shaped := by
  cases v with
  | empty => trivial
  | one item => trivial
  | flat items tag => exact ⟨valid.1, valid.2.1⟩
  | range r => exact valid
  | tree rope tag => exact valid.1

theorem Shaped.retag {v : ValueOf F} (shaped : v.Shaped) : v.retag.Valid := by
  cases v with
  | empty => trivial
  | one item => trivial
  | flat items tag => exact ⟨shaped.1, shaped.2, TypeTag.ofItems_covers items⟩
  | range r => exact shaped
  | tree rope tag => exact ⟨shaped, TypeTag.ofItems_covers _⟩

theorem items_retag (v : ValueOf F) : v.retag.items = v.items := by
  cases v <;> rfl

theorem Shaped.size_eq {v : ValueOf F} (shaped : v.Shaped) : v.size = v.items.length := by
  have size := shaped.retag.size_eq
  rw [items_retag] at size
  rw [← size]
  cases v <;> rfl

theorem Shaped.get?_eq {v : ValueOf F} (shaped : v.Shaped) (i : Nat) : v.get? i = v.items[i]? := by
  have found := shaped.retag.get?_eq i
  rw [items_retag] at found
  rw [← found]
  cases v <;> rfl

theorem Shaped.isEmpty_iff {v : ValueOf F} (shaped : v.Shaped) :
    v.isEmpty = true ↔ v.items = [] := by
  have none := shaped.retag.isEmpty_iff
  rw [items_retag] at none
  rw [← none]
  cases v <;> rfl

theorem Shaped.empty_of_size {v : ValueOf F} (shaped : v.Shaped) (none : v.size = 0) : v = .empty := by
  have nothing : v.isEmpty = true :=
    shaped.isEmpty_iff.2 (List.length_eq_zero_iff.1 (shaped.size_eq.symm.trans none))
  cases v <;> first | rfl | cases nothing

theorem Shaped.walkFrom_reads {v : ValueOf F} (shaped : v.Shaped) (start : Nat) :
    (v.walkFrom start).Reads (v.items.drop start) := by
  have reads := shaped.retag.walkFrom_reads start
  rw [items_retag] at reads
  have same : v.retag.walkFrom start = v.walkFrom start := by cases v <;> rfl
  rwa [same] at reads

theorem Shaped.walk_reads {v : ValueOf F} (shaped : v.Shaped) : v.walk.Reads v.items := by
  have reads := shaped.walkFrom_reads 0
  rwa [List.drop_zero] at reads

theorem shaped_ofBundle {bundle : Bundle (ItemOf F)} {items : List (ItemOf F)} (tag : TypeTag)
    (holds : bundle.Holds items) : (ofBundle tag bundle).Shaped ∧ (ofBundle tag bundle).items = items := by
  obtain ⟨valid, same⟩ := ofBundle_holds holds (TypeTag.ofItems_covers items)
  cases bundle with
  | flat few =>
      match few with
      | [] => exact ⟨trivial, same⟩
      | [item] => exact ⟨trivial, same⟩
      | first :: second :: rest => exact ⟨⟨valid.1, valid.2.1⟩, same⟩
  | rope r => exact ⟨valid.1, same⟩

theorem reverse_shaped (v : ValueOf F) :
    v.reverse.Shaped ∧ v.reverse.items = v.items.reverse := by
  cases v with
  | empty => exact ⟨trivial, rfl⟩
  | one item => exact ⟨trivial, rfl⟩
  | flat items tag => exact shaped_ofBundle _ (Bundle.ofList_holds _)
  | range r => exact shaped_ofBundle _ (Bundle.ofList_holds _)
  | tree rope tag =>
      rw [items_tree]
      exact shaped_ofBundle _ rope.reverse_holds

/-- The tag has no part in the rope. -/
theorem foldr_pushFront_fst (items : List (ItemOf F)) (rope : Rope (ItemOf F)) (tag other : TypeTag) :
    (items.foldr pushFront (rope, tag)).1 = (items.foldr pushFront (rope, other)).1 := by
  induction items with
  | nil => rfl
  | cons item rest rest_ih => simp only [List.foldr_cons, pushFront, rest_ih]

/-- A rope after a value in shape. -/
theorem Shaped.beforeRope? {v joined : ValueOf F} {rope : Rope (ItemOf F)} {tag : TypeTag}
    (shaped : v.Shaped) (wellFormed : rope.WellFormed)
    (made : v.beforeRope? rope tag = some joined) :
    joined.Shaped ∧ joined.items = v.items ++ rope.toList := by
  unfold ValueOf.beforeRope? at made
  split at made
  · cases made
    exact ⟨wellFormed, items_tree _ _⟩
  · next front frontTag =>
      cases made
      obtain ⟨whole, same⟩ := Rope.WellFormed.append_holds shaped wellFormed
      exact ⟨whole, by rw [items_tree, items_tree, same]⟩
  · split at made
    · cases made
      have tagged : Tagged (rope, (TypeTag.ofItems rope.toList)) rope.toList :=
        ⟨⟨wellFormed, rfl⟩, TypeTag.ofItems_covers _⟩
      obtain ⟨⟨whole, same⟩, _⟩ := tagged.foldr_pushFront v.items
      have rope_eq := foldr_pushFront_fst v.items rope (TypeTag.ofItems rope.toList) tag
      rw [rope_eq] at whole same
      exact ⟨whole, by rw [items_tree, same]⟩
    · cases made

end ValueOf

namespace ValueBuilder

/-- The builder has the given items. -/
structure Gathers (b : ValueBuilder F) (items : List (ItemOf F)) : Prop where
  buffer : b.buffer.WellFormed
  items_eq : b.items = items

theorem empty_gathers : (empty : ValueBuilder F).Gathers [] := ⟨trivial, rfl⟩

theorem Gathers.size_eq {b : ValueBuilder F} {items : List (ItemOf F)} (gathers : b.Gathers items) :
    b.size = items.length := by
  rw [← gathers.items_eq]
  exact gathers.buffer.size_eq

theorem Gathers.addBack {b : ValueBuilder F} {items : List (ItemOf F)} (gathers : b.Gathers items)
    (item : ItemOf F) : (b.addBack item).Gathers (items ++ [item]) := by
  obtain ⟨buffer, rfl⟩ := gathers
  exact ⟨buffer.addBack item, Buffer.addBack_toList _ _⟩

theorem Gathers.addFront {b : ValueBuilder F} {items : List (ItemOf F)} (gathers : b.Gathers items)
    (item : ItemOf F) : (b.addFront item).Gathers (item :: items) := by
  obtain ⟨buffer, rfl⟩ := gathers
  exact ⟨buffer.addFront item, Buffer.addFront_toList _ _⟩

theorem Gathers.addAll {b : ValueBuilder F} {items : List (ItemOf F)} (gathers : b.Gathers items)
    (more : List (ItemOf F)) : (b.addAll more).Gathers (items ++ more) := by
  unfold ValueBuilder.addAll
  induction more generalizing b items with
  | nil => simpa using gathers
  | cons item rest rest_ih =>
      have added := rest_ih (gathers.addBack item)
      rwa [List.append_assoc] at added

theorem Gathers.freeze {b : ValueBuilder F} {items : List (ItemOf F)} (gathers : b.Gathers items) :
    b.freeze.Shaped ∧ b.freeze.items = items := by
  have frozen := gathers.buffer.freeze_holds
  rw [show b.buffer.toList = items from gathers.items_eq] at frozen
  exact ValueOf.shaped_ofBundle _ frozen

theorem ofValue_gathers {v : ValueOf F} (shaped : v.Shaped) : (ofValue v).Gathers v.items := by
  have pushed := empty_gathers.addAll v.items
  cases v with
  | empty | one item | flat items tag | range r => exact pushed
  | tree rope tag =>
      rw [ValueOf.items_tree]
      exact ⟨Buffer.ofRope_wellFormed shaped, Buffer.ofRope_toList rope⟩

theorem Gathers.addValue {b : ValueBuilder F} {items : List (ItemOf F)} (gathers : b.Gathers items)
    {v : ValueOf F} (shaped : v.Shaped) : (b.addValue v).Gathers (items ++ v.items) := by
  cases v with
  | empty => simpa [ValueBuilder.addValue, ValueOf.items] using gathers
  | one item | flat items tag | range r => exact gathers.addAll _
  | tree rope tag =>
      simp only [ValueBuilder.addValue]
      obtain ⟨frozen, same⟩ := gathers.freeze
      cases joining : b.freeze.beforeRope? rope tag with
      | some joined =>
          obtain ⟨whole, all⟩ := frozen.beforeRope? shaped joining
          have continued := ofValue_gathers whole
          rwa [all, same, ← ValueOf.items_tree rope tag] at continued
      | none =>
          have copied := (empty_gathers.addAll b.items).addAll (ValueOf.tree rope tag).items
          rw [List.nil_append, gathers.items_eq] at copied
          simpa only [gathers.items_eq] using copied

theorem Gathers.addValueBounded {b grown : ValueBuilder F} {items : List (ItemOf F)} (gathers : b.Gathers items)
    {v : ValueOf F} (shaped : v.Shaped) (added : b.addValueBounded v = .ok grown) :
    grown.Gathers (items ++ v.items) := by
  unfold ValueBuilder.addValueBounded at added
  dsimp only at added
  split at added
  · cases added
    exact gathers.addValue shaped
  · cases added

end ValueBuilder

end QueryKernel
