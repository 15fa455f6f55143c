import QueryKernel.Compile.Replacement
import QueryKernel.Proofs.SequenceType

/-!
# What narrowing does

What a sequence type, a static type, a value and an expression become when they take over a type that is
known, one case for each way out of the definitions.

A type is narrowed by a subtype only.  It becomes that subtype, apart from the item type, which does not count
where the empty sequence is all there is.

## Definitions

* `StaticType.Formed` says that a static type was made by its constructors.
* `StaticType.Assigned` has the cases of `StaticType.assign`.
* `ValueOf.Narrowed` has the cases of `ValueOf.narrow`.
-/

namespace QueryKernel

variable {known found narrower : SequenceType}

/-! ## Sequence types -/

/-- A type is narrowed by another one that is strictly below, and becomes that one. -/
theorem narrowed?_ok (narrowed : narrowed? known found = some narrower) :
    known ≠ found ∧ known.isSubtype found = true ∧
      narrower = if known.isEmpty then .empty else known := by
  unfold narrowed? at narrowed
  split at narrowed
  · cases narrowed
  · next comparable =>
      obtain ⟨different, subtype⟩ := not_or.1 comparable
      simp only [Bool.not_eq_true, Bool.not_eq_false'] at subtype
      rw [SequenceType.intersect?_of_isSubtype subtype] at narrowed
      generalize (if known.isEmpty = true then SequenceType.empty else known) = met at narrowed ⊢
      dsimp only at narrowed
      split at narrowed
      · cases narrowed
      · exact ⟨different, subtype, (Option.some.inj narrowed).symm⟩

theorem occurrence_of_narrowed (narrowed : narrowed? known found = some narrower) :
    narrower.occurrence = known.occurrence := by
  obtain ⟨-, -, rfl⟩ := narrowed?_ok narrowed
  split
  · next empty => exact (beq_iff_eq.1 empty).symm
  · rfl

theorem isSubtype_of_narrowed (narrowed : narrowed? known found = some narrower) :
    narrower.isSubtype found = true := by
  obtain ⟨-, subtype, rfl⟩ := narrowed?_ok narrowed
  split
  · next empty =>
      rw [SequenceType.isSubtype, if_pos empty] at subtype
      exact SequenceType.empty_isSubtype_iff.2 (beq_iff_eq.1 subtype)
  · exact subtype

/-! ## Static types -/

namespace StaticType

variable {t : StaticType}

/-- What may become of a static type that takes over a sequence type.  Nothing is known to be nothing; a
known size stays with its own occurrence, if the other type allows it; an unknown size comes from the other
type. -/
inductive Assigned (t : StaticType) (narrower : SequenceType) : StaticType → Prop where
  | empty (none : t.size? = some 0 ∨ t.size? = none ∧ narrower.isEmpty = true) :
      Assigned t narrower ⟨.empty, some 0⟩
  | ignored {n : Nat} (size : t.size? = some n) (occupied : n ≠ 0)
      (misfit : narrower.occurrence.allows n = false) : Assigned t narrower t
  | sized {n : Nat} (size : t.size? = some n) (occupied : n ≠ 0) (fits : narrower.occurrence.allows n = true) :
      Assigned t narrower ⟨⟨narrower.type, t.sequenceType.occurrence⟩, some n⟩
  | adopted (unknown : t.size? = none) (occupied : narrower.isEmpty = false) :
      Assigned t narrower (.ofSequenceType narrower)

theorem ofSequenceType_size?_zero {s : SequenceType} : (ofSequenceType s).size? = some 0 ↔ s.isEmpty = true := by
  obtain ⟨type, occurrence⟩ := s
  cases occurrence <;> simp [ofSequenceType, SequenceType.isEmpty]

theorem assign_assigned (t : StaticType) (narrower : SequenceType) :
    t.Assigned narrower (t.assign narrower) := by
  unfold assign
  cases known : t.size? with
  | none =>
      dsimp only
      split
      · next none => exact .empty (.inr ⟨known, ofSequenceType_size?_zero.1 none⟩)
      · next some => exact .adopted known (Bool.eq_false_iff.2 (mt ofSequenceType_size?_zero.2 some))
  | some n =>
      dsimp only
      -- A size of nothing overrides whatever the other type says.
      by_cases none : n = 0
      · subst none
        have nothing : (if narrower.occurrence.allows 0 = true then
            (⟨narrower.withOccurrence t.sequenceType.occurrence, some 0⟩ : StaticType) else t).size? =
              some 0 := by
          split
          · rfl
          · exact known
        rw [if_pos nothing]
        exact .empty (.inl known)
      · split
        · next fits =>
            rw [if_neg (by simpa using none)]
            exact .sized known none fits
        · next misfit =>
            rw [if_neg (by simpa [known] using none)]
            exact .ignored known none (Bool.eq_false_iff.2 misfit)

/-- The static types that are made: of a sequence type, with an exact size, or narrowed. -/
inductive Formed : StaticType → Prop where
  | ofSequenceType (s : SequenceType) : Formed (.ofSequenceType s)
  | sized (type : ItemType) (n : Nat) : Formed (.sized type n)
  | assigned {t : StaticType} (formed : Formed t) (narrower : SequenceType) : Formed (t.assign narrower)

/-- A known size has the narrowest occurrence. -/
theorem Formed.occurrence_eq (formed : t.Formed) {n : Nat} (size : t.size? = some n) :
    t.sequenceType.occurrence = .ofSize n := by
  induction formed with
  | ofSequenceType s =>
      obtain ⟨type, occurrence⟩ := s
      cases occurrence <;> cases size <;> rfl
  | sized type m =>
      cases size
      rfl
  | @assigned t formed narrower formed_ih =>
      have made := t.assign_assigned narrower
      generalize t.assign narrower = t' at made size ⊢
      cases made with
      | empty =>
          cases size
          rfl
      | ignored => exact formed_ih size
      | sized known =>
          cases size
          exact formed_ih known
      | adopted =>
          obtain ⟨type, occurrence⟩ := narrower
          cases occurrence <;> cases size <;> rfl

end StaticType

/-! ## Values -/

namespace ValueOf

variable {F : Type}

@[simp] theorem items_refine (v : ValueOf F) (type : ItemType) : (v.refine type).items = v.items := by
  cases v <;> rfl

@[simp] theorem size_refine (v : ValueOf F) (type : ItemType) : (v.refine type).size = v.size := by
  cases v <;> rfl

/-- What may become of a value that takes over a type: a function, map or array gets another tag, and so
does a sequence of several items. -/
inductive Narrowed (known : SequenceType) (v : ValueOf F) : ValueOf F → Prop where
  | same : Narrowed known v v
  | item {item : ItemOf F} {narrower : SequenceType} (single : v = .one item)
      (function : item.isFunction = true) (narrowed : narrowed? known v.sequenceType = some narrower) :
      Narrowed known v (.one (item.refine narrower.type))
  | sequence (below : known.type.isSubtype v.type = true) (tagged : (v.refine known.type).type = known.type) :
      Narrowed known v (v.refine known.type)

theorem narrow_narrowed (v : ValueOf F) (known : SequenceType) : v.Narrowed known (v.narrow known) := by
  have refined : ∀ tag : TypeTag, (tag.refine known.type).type = known.type := by
    intro tag
    unfold TypeTag.refine
    split
    · assumption
    · rfl
  have common : ∀ type : ItemType, known.type.isSubtype type = true →
      known.type.intersect? type = some known.type := fun type below => if_pos below
  unfold narrow
  cases v with
  | empty | range r => exact .same
  | one item =>
      dsimp only
      split
      · next function =>
          split
          · next narrower narrowed => exact .item rfl function narrowed
          · exact .same
      · exact .same
  | flat items tag | tree rope tag =>
      dsimp only
      split
      · next known =>
          rw [common _ known.2]
          exact .sequence known.2 (refined tag)
      · exact .same

@[simp] theorem size_narrow (v : ValueOf F) (known : SequenceType) : (v.narrow known).size = v.size := by
  have made := v.narrow_narrowed known
  generalize v.narrow known = w at made ⊢
  cases made with
  | same => rfl
  | item single => rw [single]; rfl
  | sequence => exact v.size_refine _

end ValueOf

/-! ## Expressions -/

namespace Expr

variable {e : Expr}

/-- An expression that is not a literal stays, or takes over the narrower type. -/
theorem narrow_cases (known : SequenceType) (other : e.isLiteral = false) :
    e.narrow known = e ∨
      ∃ narrower, narrowed? known e.sequenceType = some narrower ∧ e.narrow known = e.assignType narrower := by
  cases e with
  | literal v => cases other
  | _ =>
      simp only [narrow]
      split
      · next narrower narrowed => exact .inr ⟨narrower, narrowed, rfl⟩
      · exact .inl rfl

end Expr

end QueryKernel
