import QueryKernel.Proofs.Meaning.Allowed
import QueryKernel.Proofs.SequenceType
import QueryKernel.Proofs.Value.Edit

/-!
# Values that match a sequence type

A sequence type stands for the values of an allowed size whose items are all instances of its item type.
The operations on sequence types are those on such sets of values: a subtype is a subset, the
intersection is exact, the union is an upper bound, and occurrences are added and multiplied where values
are put together.

Whether the empty sequence matches does not depend on the item type, so that it is what two sequence types of
disjoint items may still have in common.
-/

namespace QueryKernel

variable {F : Type}

/-- The size of the value is allowed, and each item is an instance of the item type. -/
structure ValueOf.Matches (v : ValueOf F) (s : SequenceType) : Prop where
  allows : s.occurrence.allows v.size = true
  instances : ∀ item ∈ v.items, item.type.isSubtype s.type = true

namespace ValueOf

variable {v w : ValueOf F} {a b : SequenceType}

theorem matches_of_nil (valid : v.Valid) (nil : v.items = []) (s : SequenceType) :
    v.Matches s ↔ s.occurrence.least = 0 := by
  have size : v.size = 0 := by rw [valid.size_eq, nil, List.length_nil]
  constructor
  · intro fits
    have allowed := (Occurrence.allows_iff.1 fits.allows).1
    omega
  · intro least
    refine ⟨Occurrence.allows_iff.2 ⟨by omega, by omega⟩, ?_⟩
    simp [nil]

/-- The values of a type of the empty sequence. -/
theorem Matches.nil_of_isEmpty (valid : v.Valid) (fits : v.Matches a) (empty : a.isEmpty = true) :
    v.items = [] := by
  have zero : a.occurrence = .zero := beq_iff_eq.1 empty
  have allowed := fits.allows
  rw [zero] at allowed
  rw [← List.length_eq_zero_iff, ← valid.size_eq]
  exact Occurrence.size_of_allows_zero allowed

theorem matches_empty_iff (valid : v.Valid) : v.Matches .empty ↔ v.items = [] :=
  ⟨fun fits => fits.nil_of_isEmpty valid rfl, fun nil => (matches_of_nil valid nil .empty).2 rfl⟩

/-- A type with items is not that of the empty sequence. -/
theorem Matches.occupied (valid : v.Valid) (fits : v.Matches a) {item : ItemOf F} (member : item ∈ v.items) :
    a.isEmpty = false := by
  refine Bool.eq_false_iff.2 fun empty => ?_
  rw [fits.nil_of_isEmpty valid empty] at member
  cases member

/-- A value that matches a subtype matches the type. -/
theorem Matches.of_isSubtype (valid : v.Valid) (fits : v.Matches a) (subtype : a.isSubtype b = true) :
    v.Matches b := by
  obtain ⟨sizes, items⟩ := SequenceType.isSubtype_iff.1 subtype
  constructor
  · exact ((Occurrence.allows_intersect (Occurrence.intersect?_of_isWithin sizes)).1 fits.allows).2
  · intro item member
    exact ItemType.isSubtype_trans (fits.instances item member) (items (fits.occupied valid member))

/-! ## Intersections and unions -/

/-- Only the empty sequence matches two types of disjoint items. -/
theorem nil_of_disjoint (disjoint : a.type.intersect? b.type = none) (first : v.Matches a)
    (second : v.Matches b) : v.items = [] := by
  refine List.eq_nil_iff_forall_not_mem.2 fun item member => ?_
  exact ItemType.not_isSubtype_of_disjoint disjoint (first.instances item member)
    (second.instances item member)

/-- The intersection of two types has the values of both, and there is none only if there is no such
value. -/
theorem matches_intersect_iff (valid : v.Valid) (a b : SequenceType) :
    (∃ s, a.intersect? b = some s ∧ v.Matches s) ↔ v.Matches a ∧ v.Matches b := by
  -- Without items only the sizes count.
  have of_nil : ∀ o, a.occurrence.intersect? b.occurrence = some o → v.items = [] →
      (o.least = 0 ↔ v.Matches a ∧ v.Matches b) := by
    intro o sizes nil
    have both := Occurrence.allows_intersect sizes (n := 0)
    rw [matches_of_nil valid nil, matches_of_nil valid nil]
    simpa [Occurrence.allows_iff] using both
  have meet := SequenceType.intersect?_meet a b
  generalize a.intersect? b = met at meet ⊢
  cases meet with
  | noSize apart =>
      simp only [reduceCtorEq, false_and, exists_false, false_iff]
      rintro ⟨first, second⟩
      exact Occurrence.not_allows_of_disjoint apart first.allows second.allows
  | noItem sizes apart least =>
      simp only [reduceCtorEq, false_and, exists_false, false_iff]
      rintro ⟨first, second⟩
      exact least ((of_nil _ sizes (nil_of_disjoint apart first second)).2 ⟨first, second⟩)
  | onlyEmpty sizes none least =>
      simp only [Option.some.injEq, exists_eq_left', matches_empty_iff valid]
      refine ⟨fun nil => (of_nil _ sizes nil).1 least, fun ⟨first, second⟩ => ?_⟩
      rcases none with rfl | apart
      · have allowed := (Occurrence.allows_intersect sizes).2 ⟨first.allows, second.allows⟩
        rw [← List.length_eq_zero_iff, ← valid.size_eq]
        exact Occurrence.size_of_allows_zero allowed
      · exact nil_of_disjoint apart first second
  | common sizes items =>
      simp only [Option.some.injEq, exists_eq_left']
      constructor
      · intro fits
        have allowed := (Occurrence.allows_intersect sizes).1 fits.allows
        have instances := fun item member => (ItemType.isSubtype_intersect items).1 (fits.instances item member)
        exact ⟨⟨allowed.1, fun item member => (instances item member).1⟩,
          ⟨allowed.2, fun item member => (instances item member).2⟩⟩
      · rintro ⟨first, second⟩
        exact ⟨(Occurrence.allows_intersect sizes).2 ⟨first.allows, second.allows⟩, fun item member =>
          (ItemType.isSubtype_intersect items).2 ⟨first.instances item member, second.instances item member⟩⟩

theorem Matches.union_left (valid : v.Valid) (fits : v.Matches a) (b : SequenceType) :
    v.Matches (a.union b) := by
  refine ⟨Occurrence.allows_union_left _ fits.allows, fun item member => ?_⟩
  exact ItemType.isSubtype_trans (fits.instances item member)
    (SequenceType.type_le_union_left (fits.occupied valid member))

theorem Matches.union_right (valid : v.Valid) (a : SequenceType) (fits : v.Matches b) :
    v.Matches (a.union b) := by
  refine ⟨Occurrence.allows_union_right _ fits.allows, fun item member => ?_⟩
  exact ItemType.isSubtype_trans (fits.instances item member)
    (SequenceType.type_le_union_right (fits.occupied valid member))

/-! ## Values put together -/

theorem Matches.append (first : v.Valid) (second : w.Valid) {t : ItemType} {o o' : Occurrence}
    (fits : v.Matches ⟨t, o⟩) (fits' : w.Matches ⟨t, o'⟩) : (v.append w).Matches ⟨t, o.add o'⟩ := by
  obtain ⟨valid, items⟩ := first.append_holds second
  constructor
  · rw [valid.size_eq, items, List.length_append, ← first.size_eq, ← second.size_eq]
    exact Occurrence.allows_add fits.allows fits'.allows
  · intro item member
    rw [items, List.mem_append] at member
    exact member.elim (fits.instances item) (fits'.instances item)

/-- Values put together one after another. -/
def appendAll (parts : List (ValueOf F)) : ValueOf F := parts.foldl append .empty

theorem appendAll_holds {parts : List (ValueOf F)} (valid : ∀ part ∈ parts, part.Valid) :
    (appendAll parts).Holds (parts.map items).flatten := by
  have from_ : ∀ (v : ValueOf F), v.Valid → (parts.foldl append v).Holds (v.items ++ (parts.map items).flatten) := by
    induction parts with
    | nil => exact fun v start => ⟨start, by simp⟩
    | cons part rest rest_ih =>
        intro v start
        obtain ⟨grown, items_eq⟩ := start.append_holds (valid part List.mem_cons_self)
        have others := rest_ih (fun other member => valid other (List.mem_cons_of_mem _ member)) _ grown
        rw [items_eq, List.append_assoc] at others
        exact others
  exact from_ .empty trivial

theorem size_appendAll {parts : List (ValueOf F)} (valid : ∀ part ∈ parts, part.Valid) :
    (appendAll parts).size = sumOver size parts := by
  obtain ⟨together, items_eq⟩ := appendAll_holds valid
  rw [together.size_eq, items_eq]
  clear together items_eq
  induction parts with
  | nil => rfl
  | cons part rest rest_ih =>
      rw [List.map_cons, List.flatten_cons, List.length_append, sumOver,
        rest_ih fun other member => valid other (List.mem_cons_of_mem _ member),
        (valid part List.mem_cons_self).size_eq]

/-- The number of items of parts of allowed sizes, between the bounds that their number leaves. -/
theorem sum_sizes_bounds {parts : List (ValueOf F)} {o : Occurrence}
    (each : ∀ part ∈ parts, o.allows part.size = true) :
    o.least * parts.length ≤ sumOver size parts ∧
      (o.most < 2 → sumOver size parts ≤ o.most * parts.length) := by
  induction parts with
  | nil => simp [sumOver]
  | cons part rest rest_ih =>
      obtain ⟨lower, upper⟩ := rest_ih fun other member => each other (List.mem_cons_of_mem _ member)
      obtain ⟨least, most⟩ := Occurrence.allows_iff.1 (each part List.mem_cons_self)
      simp only [sumOver, List.length_cons, Nat.mul_add, Nat.mul_one]
      exact ⟨by omega, fun few => by have := upper few; have := most few; omega⟩

/-- One part for each item of a value, put together. -/
theorem matches_appendAll {parts : List (ValueOf F)} {t : ItemType} {o o' : Occurrence}
    (source : o.allows v.size = true) (length : parts.length = v.size)
    (each : ∀ part ∈ parts, part.Valid ∧ part.Matches ⟨t, o'⟩) : (appendAll parts).Matches ⟨t, o.mul o'⟩ := by
  have valid := fun part member => (each part member).1
  obtain ⟨-, items_eq⟩ := appendAll_holds valid
  obtain ⟨lower, upper⟩ := sum_sizes_bounds fun part member => (each part member).2.allows
  constructor
  · rw [size_appendAll valid]
    rw [← length] at source
    refine Occurrence.allows_mul source (fun none => ?_) lower upper
    rw [List.length_eq_zero_iff.1 none, sumOver]
  · intro item member
    rw [items_eq, List.mem_flatten] at member
    obtain ⟨_, isItems, inside⟩ := member
    obtain ⟨part, among, rfl⟩ := List.mem_map.1 isItems
    exact (each part among).2.instances item inside

/-! ## Types as sets of values -/

/-- A subtype is a subset, the intersection of two types has exactly the values of both, and is missing
only if there are none, and the union has the values of either.  Values put together match the item type that
both have with the sum of their occurrences, and parts put together, one for each item of another value, that
of the parts with the product. -/
theorem sequenceTypes_are_sets (first : v.Valid) (second : w.Valid) (a b : SequenceType) :
    (a.isSubtype b = true → v.Matches a → v.Matches b) ∧
      ((∃ s, a.intersect? b = some s ∧ v.Matches s) ↔ v.Matches a ∧ v.Matches b) ∧
      (v.Matches a ∨ v.Matches b → v.Matches (a.union b)) ∧
      (∀ (t : ItemType) (o o' : Occurrence),
        v.Matches ⟨t, o⟩ → w.Matches ⟨t, o'⟩ → (v.append w).Matches ⟨t, o.add o'⟩) ∧
      ∀ (t : ItemType) (o o' : Occurrence) (parts : List (ValueOf F)),
        o.allows v.size = true → parts.length = v.size →
          (∀ part ∈ parts, part.Valid ∧ part.Matches ⟨t, o'⟩) → (appendAll parts).Matches ⟨t, o.mul o'⟩ := by
  refine ⟨fun subtype fits => fits.of_isSubtype first subtype, matches_intersect_iff first a b, ?_, ?_, ?_⟩
  · rintro (fits | fits)
    · exact fits.union_left first b
    · exact fits.union_right first a
  · intro t o o' fits fits'
    exact fits.append first second fits'
  · intro t o o' parts source length each
    exact matches_appendAll source length each

/-- Integers are decimals: two of them, one after a range, and a range for each of them. -/
theorem sequenceTypes_are_sets_integers :
    let v : ValueOf Unit := ofItems [.integer 7, .integer 8]
    let w : ValueOf Unit := range ⟨1, 3⟩
    v.Valid ∧ w.Valid ∧ v.Matches ⟨.atomic .decimal, .zeroOrMore⟩ ∧ v.Matches ⟨.atomic .decimal, .oneOrMore⟩ ∧
      (v.append w).Matches ⟨.integer, .oneOrMore⟩ ∧ (appendAll [w, w]).Matches ⟨.integer, .oneOrMore⟩ := by
  intro v w
  have first : v.Valid := (ofItems_holds _).1
  have second : w.Valid := ⟨by decide, by decide, by decide⟩
  have integers : v.Matches ⟨.integer, .oneOrMore⟩ := ⟨by decide, by decide⟩
  have range : w.Matches ⟨.integer, .oneOrMore⟩ := ⟨by decide, by decide⟩
  obtain ⟨subset, -, -, sum, product⟩ :=
    sequenceTypes_are_sets first second ⟨.integer, .oneOrMore⟩ ⟨.atomic .decimal, .zeroOrMore⟩
  have decimals := subset (by decide) integers
  obtain ⟨-, intersection, -⟩ :=
    sequenceTypes_are_sets first second ⟨.atomic .decimal, .zeroOrMore⟩ ⟨.atomic .numeric, .oneOrMore⟩
  obtain ⟨s, met, both⟩ := intersection.2 ⟨decimals, integers.of_isSubtype first (by decide)⟩
  cases met
  refine ⟨first, second, decimals, both, sum _ _ _ integers range, ?_⟩
  exact product _ _ _ [w, w] integers.allows (by decide) fun part member => by
    obtain rfl : part = w := by simpa using member
    exact ⟨second, range⟩

end ValueOf

end QueryKernel
