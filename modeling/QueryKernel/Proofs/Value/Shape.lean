import QueryKernel.Proofs.ItemType
import QueryKernel.Proofs.Sequence.Edit
import QueryKernel.Value.Edit

/-!
# Valid values

A value is valid if its shape is the one that its number of items asks for, its rope is well formed,
its range stays within the integers, and its tag covers its items.
-/

namespace QueryKernel

variable {F : Type}

namespace TypeTag

/-- The recorded type is above the type of each item, and is that type if the tag says so. -/
structure Covers (tag : TypeTag) (items : List (ItemOf F)) : Prop where
  above : ∀ item ∈ items, item.type.isSubtype tag.type = true
  exact : tag.homogeneous = true → ∀ item ∈ items, item.type = tag.type

theorem Covers.mono {tag : TypeTag} {items fewer : List (ItemOf F)} (covers : tag.Covers items)
    (subset : fewer ⊆ items) : tag.Covers fewer :=
  ⟨fun item member => covers.above item (subset member),
    fun homogeneous item member => covers.exact homogeneous item (subset member)⟩

theorem covers_nil (tag : TypeTag) : tag.Covers ([] : List (ItemOf F)) :=
  ⟨fun _ member => by simp at member, fun _ _ member => by simp at member⟩

theorem covers_one (item : ItemOf F) : (⟨item.type, true⟩ : TypeTag).Covers [item] := by
  refine ⟨fun other member => ?_, fun _ other member => ?_⟩
  · rw [List.mem_singleton.1 member]
    exact ItemType.isSubtype_refl _
  · rw [List.mem_singleton.1 member]

theorem Covers.merge {tag tag' : TypeTag} {items items' : List (ItemOf F)} (first : tag.Covers items)
    (second : tag'.Covers items') : (tag.merge tag').Covers (items ++ items') := by
  constructor
  · intro item member
    rcases List.mem_append.1 member with inFirst | inSecond
    · exact ItemType.isSubtype_trans (first.above item inFirst) (ItemType.isSubtype_union_left _ _)
    · exact ItemType.isSubtype_trans (second.above item inSecond) (ItemType.isSubtype_union_right _ _)
  · intro homogeneous item member
    simp only [TypeTag.merge, Bool.and_eq_true, decide_eq_true_eq] at homogeneous ⊢
    obtain ⟨⟨exactFirst, same⟩, exactSecond⟩ := homogeneous
    rw [← same, ItemType.union_self]
    rcases List.mem_append.1 member with inFirst | inSecond
    · exact first.exact exactFirst item inFirst
    · exact (second.exact exactSecond item inSecond).trans same.symm

theorem add_eq_merge (tag : TypeTag) (type : ItemType) : tag.add type = tag.merge ⟨type, true⟩ := by
  simp [add, TypeTag.merge]

theorem Covers.add {tag : TypeTag} {items : List (ItemOf F)} (covers : tag.Covers items)
    (item : ItemOf F) : (tag.add item.type).Covers (items ++ [item]) := by
  rw [add_eq_merge]
  exact covers.merge (covers_one item)

theorem Covers.addFront {tag : TypeTag} {items : List (ItemOf F)} (covers : tag.Covers items)
    (item : ItemOf F) : (tag.add item.type).Covers (item :: items) :=
  (covers.add item).mono (by simp)

theorem Covers.refine {tag : TypeTag} {items : List (ItemOf F)} {type : ItemType}
    (covers : tag.Covers items) (known : ∀ item ∈ items, item.type.isSubtype type = true) :
    (tag.refine type).Covers items := by
  unfold TypeTag.refine
  split
  · exact covers
  · exact ⟨known, by simp⟩

theorem Covers.foldl_add {tag : TypeTag} {items : List (ItemOf F)} (covers : tag.Covers items)
    (more : List (ItemOf F)) : ((more.map (·.type)).foldl TypeTag.add tag).Covers (items ++ more) := by
  induction more generalizing tag items with
  | nil => simpa using covers
  | cons item rest rest_ih =>
      have added := rest_ih (covers.add item)
      rwa [List.append_assoc] at added

theorem ofItems_covers (items : List (ItemOf F)) : (TypeTag.ofItems items).Covers items := by
  cases items with
  | nil => exact covers_nil _
  | cons item rest => exact (covers_one item).foldl_add rest

end TypeTag

/-! ## Ranges -/

namespace IntegerRange

/-- All integers of the range exist, and there are at least two but not too many. -/
structure Valid (r : IntegerRange) : Prop where
  least : 2 ≤ r.length
  most : r.length ≤ maxLength
  inside : r.first.toInt + r.length - 1 ≤ Int64.maxValue.toInt

theorem toInt_ofInt_between (low high : Int64) {i : Int} (above : low.toInt ≤ i)
    (below : i ≤ high.toInt) : (Int64.ofInt i).toInt = i := by
  have := low.le_toInt
  have := high.toInt_lt
  rw [Int64.toInt_ofInt_of_le] <;> omega

theorem Valid.toInt_get {r : IntegerRange} (valid : r.Valid) {i : Nat} (inside : i < r.length) :
    (r.get i).toInt = r.first.toInt + i := by
  have := valid.inside
  exact toInt_ofInt_between r.first Int64.maxValue (by omega) (by omega)

theorem Valid.toInt_last {r : IntegerRange} (valid : r.Valid) :
    r.last.toInt = r.first.toInt + r.length - 1 := by
  have := valid.inside
  have := valid.least
  exact toInt_ofInt_between r.first Int64.maxValue (by omega) (by omega)

end IntegerRange

/-- The integers from `first` on, as many as asked for. -/
def integersFrom (first : Int64) (count : Nat) : List (ItemOf F) :=
  (List.range count).map fun (i : Nat) => .integer (Int64.ofInt (first.toInt + i))

theorem length_integersFrom (first : Int64) (count : Nat) :
    (integersFrom first count : List (ItemOf F)).length = count := by
  simp [integersFrom]

theorem getElem?_integersFrom (first : Int64) (count i : Nat) :
    (integersFrom first count : List (ItemOf F))[i]? =
      if i < count then some (.integer (Int64.ofInt (first.toInt + i))) else none := by
  simp only [integersFrom, List.getElem?_map]
  split
  · next inside => simp [inside]
  · next outside => simp [Nat.le_of_not_lt outside]

namespace ValueOf

/-- The shape is the one that the number of items asks for, and what is recorded is right. -/
def Valid : ValueOf F → Prop
  | empty => True
  | one _ => True
  | flat items tag => 2 ≤ items.length ∧ items.length ≤ maxFlat ∧ tag.Covers items
  | range r => r.Valid
  | tree rope tag => rope.WellFormed ∧ tag.Covers rope.toList

/-- A valid value of the given items. -/
def Holds (v : ValueOf F) (items : List (ItemOf F)) : Prop := v.Valid ∧ v.items = items

theorem items_range (r : IntegerRange) :
    (range r : ValueOf F).items = integersFrom r.first r.length := rfl

theorem items_tree (rope : Rope (ItemOf F)) (tag : TypeTag) :
    (tree rope tag).items = rope.toList := rope.items_eq_toList

theorem Valid.size_eq {v : ValueOf F} (valid : v.Valid) : v.size = v.items.length := by
  cases v with
  | empty => rfl
  | one item => rfl
  | flat items tag => rfl
  | range r => simp [size, items_range, length_integersFrom]
  | tree rope tag => rw [items_tree, ← valid.1.size_eq, size]

theorem Valid.get?_eq {v : ValueOf F} (valid : v.Valid) (i : Nat) : v.get? i = v.items[i]? := by
  cases v with
  | empty => rfl
  | one item => cases i <;> rfl
  | flat items tag => rfl
  | range r => rw [items_range, getElem?_integersFrom]; rfl
  | tree rope tag =>
      rw [items_tree, get?, valid.1.size_eq]
      split
      · exact valid.1.get?_eq i
      · next outside => rw [List.getElem?_eq_none (Nat.le_of_not_lt outside)]

theorem Valid.isEmpty_iff {v : ValueOf F} (valid : v.Valid) : v.isEmpty = true ↔ v.items = [] := by
  have size := valid.size_eq
  cases v with
  | empty => simp [isEmpty, items]
  | one item => simp [isEmpty, items]
  | flat items tag =>
      have := valid.1
      cases items <;> simp_all [isEmpty, ValueOf.items]
  | range r =>
      have := valid.least
      simp only [isEmpty, Bool.false_eq_true, false_iff]
      intro nothing
      rw [nothing] at size
      simp only [ValueOf.size, List.length_nil] at size
      omega
  | tree rope tag =>
      have := valid.1.length_ge
      rw [items_tree]
      simp only [isEmpty, Bool.false_eq_true, false_iff]
      intro nothing
      simp [nothing] at this

theorem holds_empty : (empty : ValueOf F).Holds [] := ⟨trivial, rfl⟩

theorem holds_one (item : ItemOf F) : (one item).Holds [item] := ⟨trivial, rfl⟩

theorem ofFew_holds {items : List (ItemOf F)} {tag : TypeTag} (few : items.length ≤ maxFlat)
    (covers : tag.Covers items) : (ofFew items tag).Holds items := by
  match items with
  | [] => exact holds_empty
  | [item] => exact holds_one item
  | _ :: _ :: _ => exact ⟨⟨by simp, few, covers⟩, rfl⟩

theorem ofBundle_holds {items : List (ItemOf F)} {tag : TypeTag} {bundle : Bundle (ItemOf F)}
    (holds : bundle.Holds items) (covers : tag.Covers items) : (ofBundle tag bundle).Holds items := by
  obtain ⟨shaped, rfl⟩ := holds
  cases bundle with
  | flat items => exact ofFew_holds shaped covers
  | rope r => exact ⟨⟨shaped, covers⟩, r.items_eq_toList⟩

theorem ofItems_holds (items : List (ItemOf F)) : (ofItems items).Holds items :=
  ofBundle_holds (Bundle.ofList_holds items) (TypeTag.ofItems_covers items)

/-- The integers between two bounds as a list. -/
def integersBetween (first last : Int64) : List (ItemOf F) :=
  integersFrom first (last.toInt - first.toInt + 1).toNat

theorem range?_eq_none_iff (first last : Int64) :
    (range? first last : Option (ValueOf F)) = none ↔
      IntegerRange.maxLength < (integersBetween first last : List (ItemOf F)).length := by
  have most : IntegerRange.maxLength = 9223372036854775808 := rfl
  rw [integersBetween, length_integersFrom, range?]
  split
  · next backwards => simp only [reduceCtorEq, false_iff]; omega
  · split
    · next many => simp only [true_iff]; omega
    · split <;> simp only [reduceCtorEq, false_iff] <;> omega

theorem range?_holds {first last : Int64} {v : ValueOf F} (made : range? first last = some v) :
    v.Holds (integersBetween first last) := by
  have most : IntegerRange.maxLength = 9223372036854775808 := rfl
  rw [range?] at made
  rw [integersBetween]
  split at made
  · next backwards =>
      cases made
      have nothing : (last.toInt - first.toInt + 1).toNat = 0 := by omega
      rw [nothing]
      exact holds_empty
  split at made
  · cases made
  split at made
  · next atOnce =>
      cases made
      have single : (last.toInt - first.toInt + 1).toNat = 1 := by omega
      rw [single]
      refine ⟨trivial, ?_⟩
      simp [items, integer, integersFrom, List.range_succ]
  · next forwards fits many =>
      cases made
      have below := last.toInt_le
      have length : (last.toInt - first.toInt).toNat + 1 = (last.toInt - first.toInt + 1).toNat := by
        omega
      refine ⟨⟨?_, ?_, ?_⟩, ?_⟩
      · dsimp only; omega
      · dsimp only; omega
      · dsimp only; omega
      · rw [items_range, ← length]

end ValueOf

end QueryKernel
