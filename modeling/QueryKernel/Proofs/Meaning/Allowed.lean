import QueryKernel.Expr.Static
import QueryKernel.Proofs.Expr.Sizes
import QueryKernel.Proofs.SequenceType

/-!
# Sizes that a static type allows

Which numbers of items the static type of an expression allows, for every way in which types are put
together.

An exact size may be known beside the occurrence, so that a size has to be followed through sums and products
exactly, not only between bounds.
-/

namespace QueryKernel

namespace Occurrence

theorem allows_iff {o : Occurrence} {n : Nat} :
    o.allows n = true ↔ o.least ≤ n ∧ (o.most < 2 → n ≤ o.most) := by
  rw [allows, Bool.and_eq_true, decide_eq_true_iff]
  refine and_congr_right fun _ => ?_
  cases o <;> simp [greatest?, bounds]

theorem allows_zeroOrMore (n : Nat) : zeroOrMore.allows n = true :=
  allows_iff.2 ⟨Nat.zero_le n, fun few => absurd few (by decide)⟩

theorem allows_ofSize (n : Nat) : (ofSize n).allows n = true := by
  match n with
  | 0 => rfl
  | 1 => rfl
  | n + 2 => simp [allows_iff, ofSize, least, bounds]

theorem allows_union_left {a : Occurrence} (b : Occurrence) {n : Nat} (allowed : a.allows n = true) :
    (a.union b).allows n = true := by
  rw [allows_iff] at allowed ⊢
  cases a <;> cases b <;> simp [union, ofBounds?, least, bounds] at allowed ⊢ <;> omega

theorem allows_union_right (a : Occurrence) {b : Occurrence} {n : Nat} (allowed : b.allows n = true) :
    (a.union b).allows n = true := by
  rw [allows_iff] at allowed ⊢
  cases a <;> cases b <;> simp [union, ofBounds?, least, bounds] at allowed ⊢ <;> omega

theorem allows_intersect {a b o : Occurrence} (met : a.intersect? b = some o) {n : Nat} :
    o.allows n = true ↔ a.allows n = true ∧ b.allows n = true := by
  simp only [allows_iff]
  cases a <;> cases b <;> cases met <;> simp [least, bounds] <;> omega

theorem not_allows_of_disjoint {a b : Occurrence} {n : Nat} (disjoint : a.intersect? b = none)
    (first : a.allows n = true) : ¬ b.allows n = true := by
  simp only [allows_iff] at first ⊢
  -- One of the two allows the empty sequence only, the other one asks for an item.
  cases a <;> cases b <;> first | (cases disjoint; done) | (simp [least, bounds] at first ⊢; omega)

theorem allows_add {a b : Occurrence} {m n : Nat} (first : a.allows m = true)
    (second : b.allows n = true) : (a.add b).allows (m + n) = true := by
  rw [allows_iff] at first second ⊢
  cases a <;> cases b <;> simp [add, ofBounds?, least, bounds] at first second ⊢ <;> omega

/-- A number of items between the bounds that the size of the source and the type of the body leave. -/
theorem allows_mul {a b : Occurrence} {m n : Nat} (source : a.allows m = true) (none : m = 0 → n = 0)
    (lower : b.least * m ≤ n) (upper : b.most < 2 → n ≤ b.most * m) : (a.mul b).allows n = true := by
  rw [allows_iff] at source ⊢
  cases a <;> cases b <;>
    simp [mul, ofBounds?, least, bounds] at source lower upper ⊢ <;> omega

end Occurrence

namespace StaticType

/-- A number of items that the type allows. -/
structure Allows (t : StaticType) (n : Nat) : Prop where
  occurrence : t.sequenceType.occurrence.allows n = true
  exact : ∀ m, t.size? = some m → n = m

theorem Allows.ofSequenceType {s : SequenceType} {n : Nat} (allowed : s.occurrence.allows n = true) :
    (StaticType.ofSequenceType s).Allows n := by
  refine ⟨allowed, fun m known => ?_⟩
  obtain ⟨type, occurrence⟩ := s
  rw [Occurrence.allows_iff] at allowed
  cases occurrence <;> simp [StaticType.ofSequenceType, Occurrence.least, Occurrence.bounds]
    at known allowed <;> omega

theorem Allows.sized (type : ItemType) (n : Nat) : (StaticType.sized type n).Allows n :=
  ⟨Occurrence.allows_ofSize n, fun _ known => Option.some.inj known⟩

theorem Allows.anything (n : Nat) : (StaticType.ofSequenceType .anything).Allows n :=
  .ofSequenceType (Occurrence.allows_zeroOrMore n)

theorem Allows.many (type : ItemType) (n : Nat) : (StaticType.ofSequenceType (.many type)).Allows n :=
  .ofSequenceType (Occurrence.allows_zeroOrMore n)

theorem Allows.one (type : ItemType) : (StaticType.ofSequenceType (.one type)).Allows 1 :=
  .ofSequenceType rfl

theorem Allows.optional (type : ItemType) {n : Nat} (few : n ≤ 1) :
    (StaticType.ofSequenceType (.optional type)).Allows n :=
  .ofSequenceType (Occurrence.allows_iff.2 ⟨Nat.zero_le _, fun _ => few⟩)

theorem Allows.empty : (StaticType.ofSequenceType .empty).Allows 0 := .ofSequenceType rfl

theorem Allows.eq_zero {t : StaticType} {n : Nat} (allows : t.Allows n)
    (empty : t.sequenceType.isEmpty = true) : n = 0 := by
  have upper := (Occurrence.allows_iff.1 allows.occurrence).2
  rw [show t.sequenceType.occurrence.most = 0 from (SequenceType.isEmpty_iff _).1 empty] at upper
  exact Nat.le_zero.1 (upper (by decide))

theorem Allows.le_one {t : StaticType} {n : Nat} (allows : t.Allows n)
    (few : t.sequenceType.isAtMostOne = true) : n ≤ 1 := by
  have most : t.sequenceType.occurrence.most ≤ 1 := (SequenceType.isAtMostOne_iff _).1 few
  exact Nat.le_trans ((Occurrence.allows_iff.1 allows.occurrence).2 (by omega)) most

theorem Allows.eq_one {t : StaticType} {n : Nat} (allows : t.Allows n)
    (one : t.sequenceType.isOne = true) : n = 1 := by
  have exactly : t.sequenceType.occurrence = .exactlyOne := by simpa [SequenceType.isOne] using one
  have given := Occurrence.allows_iff.1 allows.occurrence
  rw [exactly] at given
  exact Nat.le_antisymm (given.2 (by decide)) given.1

end StaticType

namespace Expr

/-- The sum of sizes, one for each operand. -/
inductive Sizes : List Expr → Nat → Prop where
  | nil : Sizes [] 0
  | cons {e : Expr} {rest : List Expr} {m n : Nat} (head : e.staticType.Allows m) (tail : Sizes rest n) :
      Sizes (e :: rest) (m + n)

theorem Sizes.occurrence {operands : List Expr} {n : Nat} (sizes : Sizes operands n) {s : SequenceType}
    {m : Nat} (allowed : s.occurrence.allows m = true) :
    (operands.foldl (fun s e => (s.union e.sequenceType).withOccurrence
      (s.occurrence.add e.sequenceType.occurrence)) s).occurrence.allows (m + n) = true := by
  induction sizes generalizing s m with
  | nil => exact allowed
  | cons head _ tail_ih =>
      rw [List.foldl_cons, ← Nat.add_assoc]
      exact tail_ih (Occurrence.allows_add allowed head.occurrence)

theorem Sizes.exact {operands : List Expr} {n : Nat} (sizes : Sizes operands n)
    (known : ∀ e ∈ operands, e.size? = some (e.size?.getD 0)) :
    n = sumOver (·.size?.getD 0) operands := by
  induction sizes with
  | nil => rfl
  | @cons e rest m n head _ tail_ih =>
      rw [sumOver, tail_ih fun other member => known other (List.mem_cons_of_mem _ member)]
      rw [head.exact _ (known e List.mem_cons_self)]

/-- The type of operands put together allows the sum of sizes that their types allow. -/
theorem concatType_allows {operands : List Expr} {n : Nat} (sizes : Sizes operands n) :
    (concatType operands).Allows n := by
  unfold concatType
  dsimp only
  split
  · next size found =>
      obtain ⟨all, rfl, -⟩ := (foldl_sizes_eq_some_iff (Nat.zero_le _)).1 found
      rw [Nat.zero_add, sizes.exact fun e member => size?_eq_some (all e member)]
      exact .sized _ _
  · have allowed := sizes.occurrence (s := .empty) (m := 0) rfl
    rw [Nat.zero_add] at allowed
    exact .ofSequenceType allowed

theorem branchType_allows {yes no : Expr} {n : Nat}
    (either : yes.staticType.Allows n ∨ no.staticType.Allows n) : (branchType yes no).Allows n := by
  have occurrence : (yes.sequenceType.union no.sequenceType).occurrence.allows n = true := by
    rcases either with allows | allows
    · exact Occurrence.allows_union_left _ allows.occurrence
    · exact Occurrence.allows_union_right _ allows.occurrence
  unfold branchType
  dsimp only
  split
  · next m k knownYes knownNo =>
      split
      · next same =>
          have exact : n = m := by
            rcases either with allows | allows
            · exact allows.exact m knownYes
            · exact (allows.exact k knownNo).trans same.symm
          rw [exact]
          exact .sized _ m
      · exact .ofSequenceType occurrence
  · exact .ofSequenceType occurrence

theorem loopType_allows {source body : Expr} {m n : Nat} (input : source.staticType.Allows m)
    (none : m = 0 → n = 0) (exact : ∀ k, body.size? = some k → n = m * k)
    (lower : body.sequenceType.occurrence.least * m ≤ n)
    (upper : body.sequenceType.occurrence.most < 2 → n ≤ body.sequenceType.occurrence.most * m) :
    (loopType source body).Allows n := by
  have occurrence := Occurrence.allows_mul input.occurrence none lower upper
  unfold loopType
  dsimp only
  split
  · next zero =>
      refine .ofSequenceType ?_
      rw [show source.staticType.sequenceType.occurrence = source.sequenceType.occurrence from rfl,
        zero] at occurrence
      exact occurrence
  · split
    · next size sizes =>
        simp only [bind, Option.bind_eq_some_iff, knownSize_eq_some] at sizes
        obtain ⟨sourceSize, knownSource, k, knownBody, rfl, _⟩ := sizes
        have same := input.exact sourceSize knownSource
        rw [exact k knownBody, same]
        exact .sized _ _
    · exact .ofSequenceType occurrence

theorem arithmeticType_allows (op : Operator) {a b : Expr} {m n size : Nat}
    (left : a.staticType.Allows m) (right : b.staticType.Allows n) (few : size ≤ 1)
    (one : m = 1 → n = 1 → size = 1) : (arithmeticType op a b).Allows size := by
  unfold arithmeticType
  dsimp only
  split
  · next both =>
      rw [Bool.and_eq_true] at both
      rw [one (left.eq_one both.1) (right.eq_one both.2)]
      exact .one _
  · exact .optional _ few

theorem comparisonType_allows {a b : Expr} {m n size : Nat} (left : a.staticType.Allows m)
    (right : b.staticType.Allows n) (few : size ≤ 1) (one : m = 1 → n = 1 → size = 1) :
    (comparisonType a b).Allows size := by
  unfold comparisonType
  split
  · next both =>
      rw [Bool.and_eq_true] at both
      rw [one (left.eq_one both.1) (right.eq_one both.2)]
      exact .one _
  · exact .optional _ few

theorem filterType_allows {base : Expr} {predicates : List Expr} {m n : Nat}
    (input : base.staticType.Allows m) (fewer : n ≤ m)
    (positional : predicates.any (·.position?.isSome) = true → n ≤ 1) :
    (filterType base predicates).Allows n := by
  unfold filterType
  dsimp only
  refine .ofSequenceType ?_
  split
  · next empty =>
      rw [show n = 0 by have := input.eq_zero empty; omega]
      rfl
  · split
    · next few =>
        refine Occurrence.allows_iff.2 ⟨Nat.zero_le _, fun _ => ?_⟩
        rcases Bool.or_eq_true _ _ ▸ few with atMostOne | selected
        · exact Nat.le_trans fewer (input.le_one atMostOne)
        · exact positional selected
    · exact Occurrence.allows_zeroOrMore n

end Expr

/-! ## Declared types -/

namespace Variable

variable {var : Variable} {n : Nat}

/-- The declared type, if there is one, allows this number of items. -/
def Allows (var : Variable) (n : Nat) : Prop :=
  ∀ type, var.declared = some type → type.occurrence.allows n = true

/-- The declared type, if there is one, can be put together with any inferred type: it asks for an item, or it
leaves open what its items are.  An inferred type without items of the declared one would be taken to leave the
empty sequence only. -/
def MeetsAny (var : Variable) : Prop :=
  ∀ type, var.declared = some type → type.occurrence.allows 0 = true → type.type = .item

theorem allows_of_undeclared (undeclared : var.declared = none) : var.Allows n := fun type declared => by
  rw [undeclared] at declared
  cases declared

theorem meetsAny_of_undeclared (undeclared : var.declared = none) : var.MeetsAny := fun type declared => by
  rw [undeclared] at declared
  cases declared

theorem Allows.of_declared {var' : Variable} (allows : var.Allows n) (same : var'.declared = var.declared) :
    var'.Allows n := fun type declared => allows type (same ▸ declared)

theorem MeetsAny.of_declared {var' : Variable} (meets : var.MeetsAny) (same : var'.declared = var.declared) :
    var'.MeetsAny := fun type declared => meets type (same ▸ declared)

/-- What is recorded of a variable allows what its declared type and the inferred one allow. -/
theorem MeetsAny.allows (meets : var.MeetsAny) {inferred : SequenceType} (allowed : var.Allows n)
    (fits : inferred.occurrence.allows n = true) :
    ((var.declared.bind (·.intersect? inferred)).getD inferred).occurrence.allows n = true := by
  cases declared : var.declared with
  | none => exact fits
  | some type =>
      have own := allowed type declared
      have meet := SequenceType.intersect?_meet type inferred
      simp only [Option.bind_some]
      generalize type.intersect? inferred = met at meet ⊢
      cases meet with
      | noSize | noItem => exact fits
      | common sizes => exact (Occurrence.allows_intersect sizes).2 ⟨own, fits⟩
      | @onlyEmpty o sizes none least =>
          have both := (Occurrence.allows_intersect sizes (n := n)).2 ⟨own, fits⟩
          rcases none with rfl | apart
          · exact both
          · -- The item types are disjoint, though the declared one has all items.
            have zero := (Occurrence.allows_intersect sizes (n := 0)).1
              (Occurrence.allows_iff.2 ⟨Nat.le_of_eq least, fun _ => Nat.zero_le _⟩)
            rw [meets type declared zero.1, ItemType.intersect?] at apart
            split at apart
            · cases apart
            · rw [if_pos (ItemType.isSubtype_item _)] at apart
              cases apart

end Variable

end QueryKernel
