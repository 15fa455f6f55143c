import QueryKernel.Proofs.Sequence.Buffer
import QueryKernel.Proofs.Value.Shape

/-!
# Builders collect items

A builder holds what was added to it, and the finished value is valid.  Adding a rope freezes what was
collected and joins the two, so the builder goes on from the joined value.
-/

namespace QueryKernel

variable {F : Type}

namespace ValueOf

/-! ## Items pushed one by one -/

/-- A rope with its tag that holds the given items. -/
def Tagged (r : Rope (ItemOf F) × TypeTag) (items : List (ItemOf F)) : Prop :=
  r.1.Holds items ∧ r.2.Covers items

theorem Tagged.tree {rope : Rope (ItemOf F)} {tag : TypeTag} {items : List (ItemOf F)}
    (tagged : Tagged (rope, tag) items) : (tree rope tag).Holds items := by
  obtain ⟨⟨wellFormed, rfl⟩, covers⟩ := tagged
  exact ⟨⟨wellFormed, covers⟩, items_tree _ _⟩

theorem Valid.tagged {rope : Rope (ItemOf F)} {tag : TypeTag} (valid : (tree rope tag).Valid) :
    Tagged (rope, tag) rope.toList := ⟨⟨valid.1, rfl⟩, valid.2⟩

theorem Tagged.pushBack {r : Rope (ItemOf F) × TypeTag} {items : List (ItemOf F)}
    (tagged : Tagged r items) (item : ItemOf F) : Tagged (ValueOf.pushBack r item) (items ++ [item]) := by
  obtain ⟨⟨wellFormed, rfl⟩, covers⟩ := tagged
  exact ⟨wellFormed.pushBack_holds item, covers.add item⟩

theorem Tagged.pushFront {r : Rope (ItemOf F) × TypeTag} {items : List (ItemOf F)}
    (tagged : Tagged r items) (item : ItemOf F) : Tagged (ValueOf.pushFront item r) (item :: items) := by
  obtain ⟨⟨wellFormed, rfl⟩, covers⟩ := tagged
  exact ⟨wellFormed.pushFront_holds item, covers.addFront item⟩

theorem Tagged.foldl_pushBack {r : Rope (ItemOf F) × TypeTag} {items : List (ItemOf F)}
    (tagged : Tagged r items) (more : List (ItemOf F)) :
    Tagged (more.foldl ValueOf.pushBack r) (items ++ more) := by
  induction more generalizing r items with
  | nil => simpa using tagged
  | cons item rest rest_ih =>
      have pushed := rest_ih (tagged.pushBack item)
      rwa [List.append_assoc] at pushed

theorem Tagged.foldr_pushFront {r : Rope (ItemOf F) × TypeTag} {items : List (ItemOf F)}
    (tagged : Tagged r items) (more : List (ItemOf F)) :
    Tagged (more.foldr ValueOf.pushFront r) (more ++ items) := by
  induction more with
  | nil => exact tagged
  | cons item rest rest_ih => exact rest_ih.pushFront item

theorem beforeRope?_holds {v joined : ValueOf F} {rope : Rope (ItemOf F)} {tag : TypeTag}
    (valid : v.Valid) (tagged : Tagged (rope, tag) rope.toList)
    (made : beforeRope? v rope tag = some joined) : joined.Holds (v.items ++ rope.toList) := by
  unfold beforeRope? at made
  split at made
  · cases made
    exact tagged.tree
  · next front frontTag =>
      cases made
      rw [items_tree]
      exact Tagged.tree ⟨valid.1.append_holds tagged.1.1, valid.2.merge tagged.2⟩
  · split at made
    · cases made
      exact (tagged.foldr_pushFront v.items).tree
    · cases made

theorem afterRope?_holds {v joined : ValueOf F} {rope : Rope (ItemOf F)} {tag : TypeTag}
    (tagged : Tagged (rope, tag) rope.toList) (valid : v.Valid)
    (made : afterRope? rope tag v = some joined) : joined.Holds (rope.toList ++ v.items) := by
  unfold afterRope? at made
  split at made
  · cases made
    simpa [items] using tagged.tree
  · next back backTag =>
      cases made
      rw [items_tree]
      exact Tagged.tree ⟨tagged.1.1.append_holds valid.1, tagged.2.merge valid.2⟩
  · split at made
    · cases made
      exact (tagged.foldl_pushBack v.items).tree
    · cases made

end ValueOf

namespace ValueBuilder

/-! ## Builders -/

/-- The tag of a builder covers what it holds; without a tag it holds nothing. -/
def Tracks (tag? : Option TypeTag) (items : List (ItemOf F)) : Prop :=
  match tag? with
  | none => items = []
  | some tag => tag.Covers items

theorem Tracks.track {tag? : Option TypeTag} {items : List (ItemOf F)} (tracks : Tracks tag? items)
    (item : ItemOf F) : Tracks (track tag? item.type) (items ++ [item]) := by
  cases tag? with
  | none =>
      have nothing : items = [] := tracks
      rw [nothing]
      exact TypeTag.covers_one item
  | some tag => exact TypeTag.Covers.add tracks item

theorem Tracks.trackFront {tag? : Option TypeTag} {items : List (ItemOf F)}
    (tracks : Tracks tag? items) (item : ItemOf F) :
    Tracks (ValueBuilder.track tag? item.type) (item :: items) := by
  cases tag? with
  | none =>
      have nothing : items = [] := tracks
      rw [nothing]
      exact TypeTag.covers_one item
  | some tag => exact TypeTag.Covers.addFront tracks item

/-- The builder has the given items and a tag for them, if there are any. -/
structure Collects (b : ValueBuilder F) (items : List (ItemOf F)) : Prop where
  buffer : b.buffer.WellFormed
  items_eq : b.items = items
  tracks : Tracks b.tag? items

theorem empty_collects : (empty : ValueBuilder F).Collects [] := ⟨trivial, rfl, rfl⟩

theorem Collects.size_eq {b : ValueBuilder F} {items : List (ItemOf F)} (collects : b.Collects items) :
    b.size = items.length := by
  rw [← collects.items_eq]
  exact collects.buffer.size_eq

theorem Collects.addBack {b : ValueBuilder F} {items : List (ItemOf F)} (collects : b.Collects items)
    (item : ItemOf F) : (b.addBack item).Collects (items ++ [item]) := by
  obtain ⟨buffer, rfl, tracks⟩ := collects
  exact ⟨buffer.addBack item, Buffer.addBack_toList _ _, tracks.track item⟩

theorem Collects.addFront {b : ValueBuilder F} {items : List (ItemOf F)} (collects : b.Collects items)
    (item : ItemOf F) : (b.addFront item).Collects (item :: items) := by
  obtain ⟨buffer, rfl, tracks⟩ := collects
  exact ⟨buffer.addFront item, Buffer.addFront_toList _ _, tracks.trackFront item⟩

theorem Collects.addAll {b : ValueBuilder F} {items : List (ItemOf F)} (collects : b.Collects items)
    (more : List (ItemOf F)) : (b.addAll more).Collects (items ++ more) := by
  unfold ValueBuilder.addAll
  induction more generalizing b items with
  | nil => simpa using collects
  | cons item rest rest_ih =>
      have added := rest_ih (collects.addBack item)
      rwa [List.append_assoc] at added

theorem Collects.foldl_addFront {b : ValueBuilder F} {items : List (ItemOf F)}
    (collects : b.Collects items) (more : List (ItemOf F)) :
    (more.foldl ValueBuilder.addFront b).Collects (more.reverse ++ items) := by
  induction more generalizing b items with
  | nil => exact collects
  | cons item rest rest_ih => simpa using rest_ih (collects.addFront item)

theorem Collects.freeze_holds {b : ValueBuilder F} {items : List (ItemOf F)}
    (collects : b.Collects items) : b.freeze.Holds items := by
  have frozen := collects.buffer.freeze_holds
  rw [show b.buffer.toList = items from collects.items_eq] at frozen
  refine ValueOf.ofBundle_holds frozen ?_
  have tracks := collects.tracks
  cases tag : b.tag? with
  | none =>
      rw [tag] at tracks
      rw [show items = [] from tracks]
      exact TypeTag.covers_nil _
  | some tag' =>
      rw [tag] at tracks
      exact tracks

theorem ofValue_collects {v : ValueOf F} (valid : v.Valid) : (ofValue v).Collects v.items := by
  have pushed := empty_collects.addAll v.items
  cases v with
  | empty | one item | flat items tag | range r => exact pushed
  | tree rope tag =>
      rw [ValueOf.items_tree]
      exact ⟨Buffer.ofRope_wellFormed valid.1, Buffer.ofRope_toList rope, valid.2⟩

theorem Collects.addValue {b : ValueBuilder F} {items : List (ItemOf F)} (collects : b.Collects items)
    {v : ValueOf F} (valid : v.Valid) : (b.addValue v).Collects (items ++ v.items) := by
  cases v with
  | empty => simpa [ValueBuilder.addValue, ValueOf.items] using collects
  | one item | flat items tag | range r => exact collects.addAll _
  | tree rope tag =>
      simp only [ValueBuilder.addValue]
      have frozen := collects.freeze_holds
      cases joining : b.freeze.beforeRope? rope tag with
      | some joined =>
          have whole := ValueOf.beforeRope?_holds frozen.1 valid.tagged joining
          have continued := ofValue_collects whole.1
          rwa [whole.2, frozen.2, ← ValueOf.items_tree rope tag] at continued
      | none =>
          have copied := (empty_collects.addAll b.items).addAll (ValueOf.tree rope tag).items
          rw [List.nil_append, collects.items_eq] at copied
          simpa only [collects.items_eq] using copied

end ValueBuilder

end QueryKernel
