import QueryKernel.Proofs.Eval.Counts
import QueryKernel.Proofs.SequenceType

/-!
# Items that a static type describes

A static type describes some items if it allows their number and each is an instance of its item type.
Where types are put together, the new type describes what is put together from items that the old ones
describe.

The empty sequence is told apart.  The item type of an operand without items does not count, so an item says
more of the type of its operand than that it is an instance: that type is not the one of the empty sequence.
-/

namespace QueryKernel

/-- As many items as the type allows, exactly as many as it says if it says so, and each an instance of
the item type. -/
structure StaticType.Describes (t : StaticType) (items : List Item) : Prop where
  allows : t.Allows items.length
  instances : ∀ item ∈ items, item.type.isSubtype t.sequenceType.type = true

theorem StaticType.Allows.occupied {t : StaticType} {n : Nat} (allows : t.Allows (n + 1)) :
    t.sequenceType.isEmpty = false := by
  cases empty : t.sequenceType.isEmpty with
  | false => rfl
  | true => cases allows.eq_zero empty

namespace StaticType.Describes

variable {t : StaticType} {items others : List Item}

theorem nil (allows : t.Allows 0) : t.Describes [] := ⟨allows, fun _ member => by cases member⟩

theorem single {item : Item} (allows : t.Allows 1)
    (instance_ : item.type.isSubtype t.sequenceType.type = true) : t.Describes [item] := by
  refine ⟨allows, fun other member => ?_⟩
  rw [List.mem_singleton.1 member]
  exact instance_

/-- A type with items is not that of the empty sequence. -/
theorem occupied {item : Item} (describes : t.Describes items) (member : item ∈ items) :
    t.sequenceType.isEmpty = false := by
  cases items with
  | nil => cases member
  | cons first rest => exact describes.allows.occupied

theorem reverse (describes : t.Describes items) : t.Describes items.reverse :=
  ⟨by rw [List.length_reverse]; exact describes.allows,
    fun item member => describes.instances item (List.mem_reverse.1 member)⟩

theorem anything (items : List Item) : (StaticType.ofSequenceType .anything).Describes items :=
  ⟨.anything _, fun item _ => item.type.isSubtype_item⟩

end StaticType.Describes

/-! ## Sequence types put together -/

theorem Occurrence.add_eq_zero {a b : Occurrence} (none : a.add b = .zero) : a = .zero ∧ b = .zero := by
  cases a <;> cases b <;> first | exact ⟨rfl, rfl⟩ | cases none

theorem Occurrence.mul_ne_zero {a b : Occurrence} (left : a ≠ .zero) (right : b ≠ .zero) :
    a.mul b ≠ .zero := by
  cases a <;> cases b <;> first | exact absurd rfl left | exact absurd rfl right | decide

namespace Expr

/-- The static type of a literal describes its items. -/
theorem literal_describes {v : Value} (valid : v.Valid)
    (instances : ∀ item ∈ v.items, item.type.isSubtype v.type = true) :
    (literal v).staticType.Describes v.items := by
  refine ⟨?_, instances⟩
  rw [← valid.size_eq]
  exact .sized _ _

/-! ## Operands one after another -/

/-- The type of the operands so far, and one more. -/
def addType (s : SequenceType) (e : Expr) : SequenceType :=
  (s.union e.sequenceType).withOccurrence (s.occurrence.add e.sequenceType.occurrence)

theorem concatType_type (operands : List Expr) :
    (concatType operands).sequenceType.type = (operands.foldl addType .empty).type := by
  unfold concatType
  dsimp only
  split <;> rfl

theorem addType_occupied {s : SequenceType} {e : Expr}
    (either : s.isEmpty = false ∨ e.sequenceType.isEmpty = false) : (addType s e).isEmpty = false := by
  simp only [SequenceType.isEmpty_eq_false] at either ⊢
  exact fun none => either.elim (· (Occurrence.add_eq_zero none).1) (· (Occurrence.add_eq_zero none).2)

theorem le_foldl_addType (operands : List Expr) {s : SequenceType} (occupied : s.isEmpty = false) :
    s.type.isSubtype (operands.foldl addType s).type = true := by
  induction operands generalizing s with
  | nil => exact s.type.isSubtype_refl
  | cons e rest rest_ih =>
      exact ItemType.isSubtype_trans (SequenceType.type_le_union_left occupied)
        (rest_ih (addType_occupied (.inl occupied)))

/-- The items of operands one after another. -/
inductive Pieces : List Expr → List Item → Prop where
  | nil : Pieces [] []
  | cons {e : Expr} {rest : List Expr} {items others : List Item} (head : e.staticType.Describes items)
      (tail : Pieces rest others) : Pieces (e :: rest) (items ++ others)

variable {operands : List Expr} {items : List Item}

theorem Pieces.sizes (pieces : Pieces operands items) : Sizes operands items.length := by
  induction pieces with
  | nil => exact .nil
  | cons head _ tail_ih =>
      rw [List.length_append]
      exact .cons head.allows tail_ih

theorem Pieces.instances (pieces : Pieces operands items) (s : SequenceType) :
    ∀ item ∈ items, item.type.isSubtype (operands.foldl addType s).type = true := by
  induction pieces generalizing s with
  | nil => exact fun _ member => by cases member
  | @cons e rest items others head _ tail_ih =>
      intro item member
      rcases List.mem_append.1 member with here | later
      · have occupied := head.occupied here
        refine ItemType.isSubtype_trans (head.instances item here) ?_
        exact ItemType.isSubtype_trans (SequenceType.type_le_union_right occupied)
          (le_foldl_addType rest (addType_occupied (.inr occupied)))
      · exact tail_ih (addType s e) item later

theorem concatType_describes (pieces : Pieces operands items) : (concatType operands).Describes items := by
  refine ⟨concatType_allows pieces.sizes, ?_⟩
  rw [concatType_type]
  exact pieces.instances .empty

/-! ## Branches, selections and loops -/

theorem branchType_type (yes no : Expr) :
    (branchType yes no).sequenceType.type = (yes.sequenceType.union no.sequenceType).type := by
  unfold branchType
  dsimp only
  split
  · split <;> rfl
  · rfl

theorem branchType_describes {yes no : Expr}
    (either : yes.staticType.Describes items ∨ no.staticType.Describes items) :
    (branchType yes no).Describes items := by
  refine ⟨branchType_allows (either.imp (·.allows) (·.allows)), fun item member => ?_⟩
  rw [branchType_type]
  rcases either with describes | describes
  · exact ItemType.isSubtype_trans (describes.instances item member)
      (SequenceType.type_le_union_left (describes.occupied member))
  · exact ItemType.isSubtype_trans (describes.instances item member)
      (SequenceType.type_le_union_right (describes.occupied member))

theorem filterType_describes {base : Expr} {predicates : List Expr} {selected : List Item}
    (input : base.staticType.Describes items) (sublist : selected.Sublist items)
    (positional : predicates.any (·.position?.isSome) = true → selected.length ≤ 1) :
    (filterType base predicates).Describes selected :=
  ⟨filterType_allows input.allows sublist.length_le positional,
    fun item member => input.instances item (sublist.subset member)⟩

theorem sumsOf_flatten {P : Nat → Prop} {pieces : List (List Item)} (each : ∀ p ∈ pieces, P p.length) :
    SumsOf P pieces.length pieces.flatten.length := by
  induction pieces with
  | nil => rfl
  | cons piece rest rest_ih =>
      refine ⟨piece.length, rest.flatten.length, each piece List.mem_cons_self, ?_, by simp⟩
      exact rest_ih fun p member => each p (List.mem_cons_of_mem _ member)

theorem loopType_type {source body : Expr} (input : source.sequenceType.isEmpty = false)
    (result : body.sequenceType.isEmpty = false) :
    (loopType source body).sequenceType.type = body.sequenceType.type := by
  rw [SequenceType.isEmpty_eq_false] at input result
  unfold loopType
  dsimp only
  rw [if_neg (Occurrence.mul_ne_zero input result)]
  split <;> rfl

/-- A loop gives the items that its body gives for one item of the source after another. -/
theorem loopType_describes {source body : Expr} {pieces : List (List Item)}
    (input : source.staticType.Describes items) (length : pieces.length = items.length)
    (each : ∀ p ∈ pieces, body.staticType.Describes p) :
    (loopType source body).Describes pieces.flatten := by
  refine ⟨loopType_allows_sums (m := pieces.length) (by rw [length]; exact input.allows)
    (sumsOf_flatten fun p member => (each p member).allows), fun item member => ?_⟩
  obtain ⟨p, among, inside⟩ := List.mem_flatten.1 member
  have some : items ≠ [] := by
    rintro rfl
    rw [List.length_eq_zero_iff.1 length] at among
    cases among
  obtain ⟨first, isFirst⟩ := List.exists_mem_of_ne_nil items some
  rw [loopType_type (input.occupied isFirst) ((each p among).occupied inside)]
  exact (each p among).instances item inside

/-! ## Calls -/

theorem headType_type {first : Expr} (rest : List Expr) (occupied : first.sequenceType.isEmpty = false) :
    (BuiltIn.head.resultType (first :: rest)).sequenceType.type = first.sequenceType.type := by
  by_cases least : 0 < first.sequenceType.occurrence.least <;>
    simp [BuiltIn.resultType, occupied, least, StaticType.ofSequenceType, SequenceType.one,
      SequenceType.optional]

/-- What `head` finds: nothing, or an item of a type with items. -/
theorem headType_describes {first : Expr} {rest : List Expr} {found : Option Item}
    (none : found = none → first.staticType.Allows 0)
    (some : ∀ item, found = some item → first.sequenceType.isEmpty = false ∧
      item.type.isSubtype first.sequenceType.type = true) :
    (BuiltIn.head.resultType (first :: rest)).Describes found.toList := by
  cases found with
  | none => exact .nil (headType_allows (Nat.zero_le 1) (fun _ => none rfl) fun one => by cases one)
  | some item =>
      obtain ⟨occupied, type⟩ := some item rfl
      refine .single (headType_allows (Nat.le_refl 1) (fun zero => by cases zero) fun _ => occupied) ?_
      rw [headType_type rest occupied]
      exact type

end Expr

end QueryKernel
