import QueryKernel.Proofs.Eval.Typed
import QueryKernel.Proofs.Run.Sums

/-!
# The types of sums and means

A sum or a mean is described by the static type of its call, with two exceptions: a sum without addends,
which is the alternative or the integer zero whatever the type of the argument is, and the sum of a range
that leaves 64 bits.

Addition stays within the types of its addends.  Two numbers are first brought to one of their types, so a sum
has the type of one of the addends, and a mean that of the sum unless integers become decimals.

## Definitions

* `ItemType.totalType` and `ItemType.meanType` are the item types of sums and means.
* `ItemOf.AddsOnly` bounds the types of the addends that an item has, `PartialSum.Within` that of a sum.
* `Modes.Answers` has the items of a successful result, however it is asked for.
-/

namespace QueryKernel

/-! ## Item types -/

namespace ItemType

/-- A type above another one is above its parent. -/
theorem parent_le {t wider parent : ItemType} (le : t.isSubtype wider = true) (up : t.parent? = some parent)
    (other : wider ≠ t) : parent.isSubtype wider = true := by
  obtain ⟨p, parents, further⟩ := (isSubtype_iff_parent.1 le).resolve_left other
  cases up.symm.trans parents
  exact further

/-- The item type of the sum of items of a type. -/
def totalType (t : ItemType) : ItemType :=
  if t.isUntyped then double else if t.isAtomic then t else anyAtomic

/-- The item type of the mean for an item type of the sum. -/
def meanType (t : ItemType) : ItemType := if t.isSubtype integer then .atomic .decimal else t

end ItemType

theorem BuiltIn.sum_resultType (first : Expr) (rest : List Expr) :
    BuiltIn.sum.resultType (first :: rest) = .ofSequenceType
      (if rest = [] then .one first.sequenceType.type.totalType
        else .optional first.sequenceType.type.totalType) := by
  cases rest <;> rfl

theorem ItemType.meanType_totalType (t : ItemType) :
    (if t.isUntyped then double else if BuiltIn.avg = .avg ∧ t.isSubtype integer then .atomic .decimal
      else if t.isAtomic then t else anyAtomic) = t.totalType.meanType := by
  unfold meanType totalType
  cases t with
  | item | node => rfl
  | atomic a => cases a <;> rfl
  | function f => cases f <;> rfl

theorem BuiltIn.avg_resultType (first : Expr) (rest : List Expr) :
    BuiltIn.avg.resultType (first :: rest) =
      .ofSequenceType (.optional first.sequenceType.type.totalType.meanType) :=
  congrArg (fun t => StaticType.ofSequenceType (.optional t)) (ItemType.meanType_totalType _)

/-! ## Addends -/

theorem Atom.untypedToDouble_type {a b : Atom} (made : a.untypedToDouble = .ok b) :
    a.type = .untypedAtomic ∧ b.type = .double ∨ a.type ≠ .untypedAtomic ∧ b = a := by
  unfold Atom.untypedToDouble at made
  split at made
  · split at made
    · cases made
      exact .inl ⟨rfl, rfl⟩
    · cases made
  · next other =>
      cases made
      refine .inr ⟨fun untyped => ?_, rfl⟩
      cases a <;> first | exact other _ rfl | cases untyped

/-- Only addends of the type come from the atoms of the item. -/
def ItemOf.AddsOnly (t : ItemType) (item : Item) : Prop :=
  ∀ atoms, item.atoms = .ok atoms → ∀ a ∈ atoms, ∀ b, a.untypedToDouble = .ok b →
    (ItemType.atomic b.type).isSubtype t = true

/-- The type tags of functions, maps and arrays are types of such. -/
def ItemOf.IsTagged (item : Item) : Prop := item.isFunction = true → item.type.isFunction = true

/-- Only atoms and nodes are of atomic types and types of nodes; other types say nothing of the addends. -/
theorem ItemOf.plain_of_le {item : Item} {t : ItemType} (tagged : item.IsTagged)
    (le : item.type.isSubtype t = true) :
    t.totalType = .anyAtomic ∨ (∃ a y, item = .atom a ∧ t = .atomic y) ∨
      ∃ n m, item = .node n ∧ t = .node m := by
  -- Types above that of a function item are those of functions and that of all items.
  have function : item.type.isFunction = true → t.totalType = .anyAtomic := by
    intro function
    obtain rfl | ⟨_, _, same, _⟩ | ⟨_, _, same, _⟩ | ⟨_, _, _, rfl⟩ := ItemType.same_kind le
    · rfl
    · rw [same] at function
      cases function
    · rw [same] at function
      cases function
    · rfl
  cases item with
  | atom a =>
      obtain rfl | ⟨_, y, _, rfl⟩ | ⟨_, _, other, _⟩ | ⟨_, _, other, _⟩ := ItemType.same_kind le
      · exact .inl rfl
      · exact .inr (.inl ⟨a, y, rfl, rfl⟩)
      · cases other
      · cases other
  | node n =>
      obtain rfl | ⟨_, _, other, _⟩ | ⟨_, m, _, rfl⟩ | ⟨_, _, other, _⟩ := ItemType.same_kind le
      · exact .inl rfl
      · cases other
      · exact .inr (.inr ⟨n, m, rfl, rfl⟩)
      · cases other
  | function | map | array => exact .inl (function (tagged rfl))

theorem ItemOf.addsOnly_totalType {item : Item} {t : ItemType} (tagged : item.IsTagged)
    (le : item.type.isSubtype t = true) : item.AddsOnly t.totalType := by
  intro atoms found a member b made
  obtain any | ⟨x, y, rfl, rfl⟩ | ⟨n, m, rfl, rfl⟩ := plain_of_le tagged le
  · rw [any]
    exact ItemType.atomic_le_anyAtomic _
  · obtain ⟨_, read, atoms_eq⟩ := @atoms_of_plain (.atom x) trivial
    cases read
    rw [atoms_eq] at found
    cases found
    obtain rfl := List.mem_singleton.1 member
    change (ItemType.atomic a.type).isSubtype (.atomic y) = true at le
    -- Untyped atoms are added up as doubles, and the type of the total knows of that.
    obtain ⟨untyped, double⟩ | ⟨typed, rfl⟩ := Atom.untypedToDouble_type made
    · rw [untyped] at le
      rw [double]
      cases y <;> first | rfl | cases le
    · unfold ItemType.totalType
      split
      · next untyped =>
          have same : y = .untypedAtomic := by cases y <;> first | rfl | cases untyped
          rw [same] at le
          generalize b.type = x at le typed
          cases x <;> first | exact absurd rfl typed | cases le
      · exact le
  · obtain ⟨_, read, atoms_eq⟩ := @atoms_of_plain (.node n) trivial
    cases read
    rw [atoms_eq] at found
    cases found
    obtain rfl := List.mem_singleton.1 member
    obtain ⟨_, double⟩ | ⟨typed, _⟩ := Atom.untypedToDouble_type made
    · rw [double]
      rfl
    · exact absurd rfl typed

/-! ## Adding up -/

theorem SumClass.of?_eq (a : Atom) : of? a = match a.type with
    | .integer | .decimal | .double | .float => some number
    | .yearMonthDuration => some yearMonth
    | .dayTimeDuration => some dayTime
    | _ => none := by
  cases a <;> rfl

theorem SumClass.of?_congr {a b : Atom} (same : a.type = b.type) : of? a = of? b := by
  rw [of?_eq, of?_eq, same]

theorem SumClass.untypedToDouble_eq {a : Atom} {k : SumClass} (summable : of? a = some k) :
    a.untypedToDouble = .ok a := by
  cases a <;> first | rfl | cases summable

/-- The type of the numbers of a pair. -/
def NumberPair.type : NumberPair → AtomicType
  | integers .. => .integer
  | decimals .. => .decimal
  | floats .. => .float
  | doubles .. => .double

/-- The common type of two numbers is the type of one of them. -/
theorem NumberPair.of?_type {a b : Atom} {pair : NumberPair} (found : of? a b = some pair) :
    pair.type = a.type ∨ pair.type = b.type := by
  unfold of? at found
  split at found
  case h_10 | h_11 =>
    obtain ⟨x, _, rfl⟩ := Option.map_eq_some_iff.1 found
    first | exact .inl rfl | exact .inr rfl
  all_goals
    cases found
    try first | exact .inl rfl | exact .inr rfl

namespace Operator

variable {a b z : Atom}

theorem mapped_type {A : Type} {x : Except AtomError A} {f : A → Atom} {t : AtomicType}
    (made : x.map f = .ok z) (each : ∀ i, (f i).type = t) : z.type = t := by
  cases x with
  | error e => cases made
  | ok i =>
      cases made
      exact each i

theorem plus_onNumbers_type {pair : NumberPair} (made : plus.onNumbers pair = .ok z) : z.type = pair.type := by
  cases pair with
  | integers a b | decimals a b => exact mapped_type made fun _ => rfl
  | floats a b | doubles a b =>
      cases made
      rfl

/-- A sum has the type of one of the addends. -/
theorem plus_type {k : SumClass} (made : plus.apply a b = .ok z) (left : SumClass.of? a = some k)
    (right : SumClass.of? b = some k) : z.type = a.type ∨ z.type = b.type := by
  unfold apply at made
  rw [SumClass.untypedToDouble_eq left, SumClass.untypedToDouble_eq right] at made
  simp only [bind, Except.bind] at made
  split at made
  · next pair found =>
      rw [plus_onNumbers_type made]
      exact NumberPair.of?_type found
  · next none =>
      cases durations : plus.onDurations a b with
      | none =>
          rw [durations] at made
          cases made
      | some result =>
          rw [durations] at made
          unfold onDurations at durations
          split at durations
          case h_1 | h_3 =>
            cases durations
            exact .inl (mapped_type made fun _ => rfl)
          case h_6 => simp [onScaledDuration] at durations
          all_goals contradiction

theorem scaled_type {A : Type} {x : Except AtomError BinaryFloat} {g : BinaryFloat → Except AtomError A}
    {f : A → Atom} {t : AtomicType} (made : (do let scaled ← x; (g scaled).map f) = .ok z)
    (each : ∀ i, (f i).type = t) : z.type = t := by
  cases x with
  | error e => cases made
  | ok scaled => exact mapped_type made each

/-- A mean has the type of the sum, or is a decimal if the sum is an integer. -/
theorem divide_type {k : SumClass} {n : Int64} (made : divide.apply a (.integer n) = .ok z)
    (summable : SumClass.of? a = some k) :
    a.type = .integer ∧ z.type = .decimal ∨ a.type ≠ .integer ∧ z.type = a.type := by
  cases a with
  | integer i =>
      refine .inl ⟨rfl, ?_⟩
      change (if n.toInt = 0 then _ else _) = _ at made
      split at made
      · cases made
      · exact mapped_type made fun _ => rfl
  | decimal d =>
      refine .inr ⟨by simp [Atom.type], ?_⟩
      change (if (Decimal.ofInt n.toInt).isZero = true then _ else _) = _ at made
      split at made
      · cases made
      · exact mapped_type made fun _ => rfl
  | double x | float x =>
      cases made
      exact .inr ⟨by simp [Atom.type], rfl⟩
  | yearMonthDuration months | dayTimeDuration seconds =>
      exact .inr ⟨by simp [Atom.type], scaled_type made fun _ => rfl⟩
  | _ => cases summable

end Operator

/-- A sum whose type is a subtype of the given one, and whose class is that of its addends. -/
structure PartialSum.Within (t : ItemType) (s : PartialSum) : Prop where
  summable : SumClass.of? s.sum = some s.sumClass
  le : (ItemType.atomic s.sum.type).isSubtype t = true

variable {t : ItemType} {sum next : Option PartialSum}

theorem addToSum_within {a : Atom} (added : addToSum sum a = .ok next) (before : ∀ s, sum = some s → s.Within t)
    (addend : ∀ b, a.untypedToDouble = .ok b → (ItemType.atomic b.type).isSubtype t = true) :
    ∃ s, next = some s ∧ s.Within t := by
  unfold addToSum at added
  cases read : a.untypedToDouble with
  | error e =>
      rw [read] at added
      cases added
  | ok b =>
      rw [read] at added
      have le := addend b read
      simp only [Except.mapError, bind, Except.bind] at added
      split at added
      · split at added
        · next k class_ =>
            cases added
            exact ⟨_, rfl, class_, le⟩
        · cases added
      · next s =>
          split at added
          · next class_ =>
              have inside := before s rfl
              cases summed : Operator.plus.apply s.sum b with
              | error e =>
                  rw [summed] at added
                  cases added
              | ok z =>
                  rw [summed] at added
                  cases added
                  refine ⟨_, rfl, ?_⟩
                  -- The type of a sum is that of one of its operands.
                  obtain same | same := Operator.plus_type summed inside.summable class_
                  · exact ⟨(SumClass.of?_congr same).trans inside.summable, by rw [same]; exact inside.le⟩
                  · exact ⟨(SumClass.of?_congr same).trans class_, by rw [same]; exact le⟩
          · cases added

theorem foldAtoms_within {atoms : List Atom} (before : ∀ s, sum = some s → s.Within t)
    (addends : ∀ a ∈ atoms, ∀ b, a.untypedToDouble = .ok b → (ItemType.atomic b.type).isSubtype t = true)
    (added : atoms.foldlM addToSum sum = .ok next) :
    (∀ s, next = some s → s.Within t) ∧ (next = none → sum = none ∧ atoms = []) := by
  induction atoms generalizing sum with
  | nil =>
      cases added
      exact ⟨before, fun none => ⟨none, rfl⟩⟩
  | cons a rest rest_ih =>
      rw [List.foldlM_cons] at added
      cases first : addToSum sum a with
      | error cause =>
          rw [first] at added
          cases added
      | ok grown =>
          rw [first] at added
          obtain ⟨s, rfl, within⟩ := addToSum_within first before (addends a List.mem_cons_self)
          obtain ⟨sums, nothing⟩ := rest_ih (fun _ same => by cases same; exact within)
            (fun b member => addends b (List.mem_cons_of_mem _ member)) added
          exact ⟨sums, fun none => by cases (nothing none).1⟩

/-- A sum stays within the types of its addends, and there is one as soon as there is an addend. -/
theorem foldItems_within {items : List Item} (before : ∀ s, sum = some s → s.Within t)
    (only : ∀ item ∈ items, item.AddsOnly t)
    (added : items.foldlM (fun sum item => do (← item.atoms).foldlM addToSum sum) sum = .ok next) :
    (∀ s, next = some s → s.Within t) ∧ (next = none → sum = none ∧ ∀ item ∈ items, item.atoms = .ok []) := by
  induction items generalizing sum with
  | nil =>
      cases added
      exact ⟨before, fun none => ⟨none, fun _ member => by cases member⟩⟩
  | cons item rest rest_ih =>
      rw [List.foldlM_cons] at added
      cases found : item.atoms with
      | error cause =>
          rw [found] at added
          cases added
      | ok atoms =>
          rw [found] at added
          cases first : atoms.foldlM addToSum sum with
          | error cause =>
              simp only [bind, Except.bind, first] at added
              cases added
          | ok grown =>
              simp only [bind, Except.bind, first] at added
              obtain ⟨sums, nothing⟩ := foldAtoms_within before (only item List.mem_cons_self atoms found) first
              obtain ⟨all, none⟩ := rest_ih sums (fun other member => only other (List.mem_cons_of_mem _ member)) added
              refine ⟨all, fun missing => ?_⟩
              obtain ⟨rfl, others⟩ := none missing
              obtain ⟨start, rfl⟩ := nothing rfl
              exact ⟨start, List.forall_mem_cons.2 ⟨found, others⟩⟩

/-- What a value is added up to, without a change of the context. -/
theorem total_ok {v : Value} (shaped : v.Shaped) {c c' : Context} (ran : total v c = (.ok sum, c')) :
    foldTotal v.items = .ok sum ∧ c' = c := by
  unfold total at ran
  rw [Eval.foldValue, Eval.foldWalk_eq _ _ shaped.walk_reads, shaped.size_eq, List.take_length] at ran
  unfold foldTotal
  generalize (none : Option PartialSum) = start at ran ⊢
  generalize v.items = items at ran ⊢
  induction items generalizing start c with
  | nil =>
      cases ran
      exact ⟨rfl, rfl⟩
  | cons item rest rest_ih =>
      rw [Eval.foldList_cons] at ran
      obtain ⟨grown, c₁, first, others⟩ := Eval.bind_ok_iff.1 ran
      obtain ⟨_, c₂, checked, added⟩ := Eval.bind_ok_iff.1 first
      obtain ⟨_, rfl⟩ := Eval.checkStop_ok_iff.1 checked
      obtain ⟨found, rfl⟩ := Eval.ofExcept_ok_iff.1 added
      rw [List.foldlM_cons, found]
      exact rest_ih grown others

/-! ## Sums and means of a value -/

theorem rangeTotal_type {r : IntegerRange} {a : Atom} (made : rangeTotal r = .ok a) :
    (∃ i, a = .integer i) ∨ ∃ d, a = .decimal d := by
  unfold rangeTotal at made
  dsimp only at made
  split at made
  · cases made
    exact .inl ⟨_, rfl⟩
  · split at made
    · cases made
      exact .inr ⟨_, rfl⟩
    · cases made

/-- The integers of a range are among its items. -/
theorem IntegerRange.Valid.integer_mem {r : IntegerRange} (valid : r.Valid) :
    ∃ i, (ItemOf.integer i : Item) ∈ (ValueOf.range r : Value).items := by
  refine ⟨Int64.ofInt (r.first.toInt + (0 : Nat)), ?_⟩
  rw [ValueOf.items_range, integersFrom]
  have least := valid.least
  exact List.mem_map.2 ⟨0, List.mem_range.2 (by omega), rfl⟩

/-- The sum of integers that is no integer. -/
def ValueOf.LongRange (v : Value) (a : Atom) : Prop :=
  ∃ r d, v = .range r ∧ rangeTotal r = .ok (.decimal d) ∧ a = .decimal d

/-- The type is above that of the sum, or above that of the integers of a long range. -/
def ValueOf.Covers (t : ItemType) (v : Value) (a : Atom) : Prop :=
  (ItemType.atomic a.type).isSubtype t = true ∨ v.LongRange a ∧ ItemType.integer.isSubtype t = true

/-- The sum of the items of the value, if there is anything to add up, is covered. -/
structure ValueOf.SumCovered (t : ItemType) (v : Value) (sum : Option (Atom × Nat)) : Prop where
  nothing : sum = none → ∀ item ∈ v.items, item.atoms = .ok []
  covered : ∀ a n, sum = some (a, n) → (∃ k, SumClass.of? a = some k) ∧ v.Covers t a

variable {location : Option Location} {c c' : Context} {v : Value}

theorem sumAndCount_covered {sum : Option (Atom × Nat)} (shaped : v.Shaped)
    (instances : ∀ item ∈ v.items, item.type.isSubtype t = true) (tagged : ∀ item ∈ v.items, item.IsTagged)
    (ran : sumAndCount location v c = (.ok sum, c')) :
    c' = c ∧ v.SumCovered t.totalType sum := by
  have only : ∀ item ∈ v.items, item.AddsOnly t.totalType := fun item member =>
    ItemOf.addsOnly_totalType (tagged item member) (instances item member)
  have folded : ∀ {sum : Option (Atom × Nat)},
      (do let sum ← (total v).locate location; pure (sum.map fun s => (s.sum, s.count)) : Eval _) c =
        (.ok sum, c') → c' = c ∧ v.SumCovered t.totalType sum := by
    intro sum ran
    obtain ⟨found, c₁, added, made⟩ := Eval.bind_ok_iff.1 ran
    obtain ⟨rfl, rfl⟩ := Eval.pure_ok_iff.1 made
    obtain ⟨folded, rfl⟩ := total_ok shaped (Eval.locate_ok_iff.1 added)
    obtain ⟨sums, nothing⟩ := foldItems_within (fun s impossible => by cases impossible) only folded
    refine ⟨rfl, fun none => (nothing (Option.map_eq_none_iff.1 none)).2, fun a n same => ?_⟩
    obtain ⟨s, isSum, pair⟩ := Option.map_eq_some_iff.1 same
    cases pair
    exact ⟨⟨_, (sums s isSum).summable⟩, .inl (sums s isSum).le⟩
  -- Only a range is added up without its items.
  cases v with
  | range r =>
      obtain ⟨a, c₁, added, made⟩ := Eval.bind_ok_iff.1 ran
      obtain ⟨summed, rfl⟩ := Eval.ofExcept_ok_iff.1 added
      obtain ⟨rfl, rfl⟩ := Eval.pure_ok_iff.1 made
      refine ⟨rfl, fun none => (by cases none), fun b n same => ?_⟩
      cases same
      obtain ⟨i, member⟩ := IntegerRange.Valid.integer_mem (r := r) shaped
      obtain ⟨_, read, atoms⟩ := @atoms_of_plain (.integer i) trivial
      cases read
      have integer := only _ member _ atoms _ List.mem_cons_self _ rfl
      obtain ⟨j, rfl⟩ | ⟨d, rfl⟩ := rangeTotal_type summed
      · exact ⟨⟨_, rfl⟩, .inl integer⟩
      · exact ⟨⟨_, rfl⟩, .inr ⟨⟨r, d, rfl, summed, rfl⟩, integer⟩⟩
  | empty | one item | flat items tag | tree rope tag => exact folded ran

theorem mean_covered {a z : Atom} {n : Int64} {k : SumClass} (covers : v.Covers t a)
    (summable : SumClass.of? a = some k) (made : Operator.divide.apply a (.integer n) = .ok z) :
    (ItemType.atomic z.type).isSubtype t.meanType = true := by
  -- Decimals are above integers, and nothing lies between them.
  have decimal : ItemType.integer.isSubtype t = true →
      (ItemType.atomic .decimal).isSubtype t.meanType = true := by
    intro le
    unfold ItemType.meanType
    split
    · rfl
    · next other => exact ItemType.parent_le le rfl fun same => other (by rw [same]; rfl)
  obtain ⟨integer, divided⟩ | ⟨other, divided⟩ := Operator.divide_type made summable
  · rw [divided]
    refine decimal ?_
    obtain le | ⟨_, le⟩ := covers
    · rwa [integer] at le
    · exact le
  · rw [divided]
    obtain le | ⟨⟨_, d, _, _, rfl⟩, le⟩ := covers
    · unfold ItemType.meanType
      split
      · next integer =>
          have narrow := ItemType.isSubtype_trans le integer
          cases a <;> first | exact absurd rfl other | cases narrow
      · exact le
    · exact decimal le

section Functions

variable {value : Eval Value} {found : Option Item} {c₁ : Context} (argument : value c = (.ok v, c'))
  (shaped : v.Shaped) (instances : ∀ item ∈ v.items, item.type.isSubtype t = true)
  (tagged : ∀ item ∈ v.items, item.IsTagged)

include argument shaped instances tagged

/-- A sum has the type that covers its value, unless there is nothing to add up. -/
theorem sumOf_covered {alternative : Option (Eval (Option Item))}
    (ran : sumOf location value alternative c = (.ok found, c₁)) :
    (∃ a, found = some (.atom a) ∧ v.Covers t.totalType a) ∨
      (∀ item ∈ v.items, item.atoms = .ok []) ∧
        (alternative = none ∧ found = some (.integer 0) ∨
          ∃ other, alternative = some other ∧ other c' = (.ok found, c₁)) := by
  rw [sumOf_eq] at ran
  obtain ⟨_, _, valued, adding⟩ := Eval.bind_ok_iff.1 ran
  rw [argument] at valued
  cases valued
  obtain ⟨sum, _, added, finished⟩ := Eval.bind_ok_iff.1 adding
  obtain ⟨rfl, nothing, covered⟩ := sumAndCount_covered shaped instances tagged added
  cases sum with
  | some pair =>
      obtain ⟨a, n⟩ := pair
      obtain ⟨rfl, rfl⟩ := Eval.pure_ok_iff.1 finished
      exact .inl ⟨a, rfl, (covered a n rfl).2⟩
  | none =>
      refine .inr ⟨nothing rfl, ?_⟩
      cases alternative with
      | none =>
          obtain ⟨rfl, rfl⟩ := Eval.pure_ok_iff.1 finished
          exact .inl ⟨rfl, rfl⟩
      | some other => exact .inr ⟨other, rfl, finished⟩

theorem averageOf_covered (ran : averageOf location value c = (.ok found, c₁)) :
    ∀ item, found = some item → item.type.isSubtype t.totalType.meanType = true := by
  rw [averageOf_eq] at ran
  obtain ⟨_, _, valued, adding⟩ := Eval.bind_ok_iff.1 ran
  rw [argument] at valued
  cases valued
  obtain ⟨sum, _, added, finished⟩ := Eval.bind_ok_iff.1 adding
  obtain ⟨rfl, -, covered⟩ := sumAndCount_covered shaped instances tagged added
  unfold meanOrNothing at finished
  split at finished
  · obtain ⟨rfl, rfl⟩ := Eval.pure_ok_iff.1 finished
    exact fun item impossible => by cases impossible
  · next a n =>
      obtain ⟨⟨k, summable⟩, covers⟩ := covered a n rfl
      cases counted : long? n with
      | none =>
          rw [counted] at finished
          cases finished
      | some count =>
          rw [counted] at finished
          obtain ⟨mean, _, divided, made⟩ := Eval.bind_ok_iff.1 finished
          obtain ⟨quotient, rfl⟩ := Eval.ofExcept_ok_iff.1 divided
          obtain ⟨rfl, rfl⟩ := Eval.pure_ok_iff.1 made
          rintro _ ⟨⟩
          cases applied : Operator.divide.apply a (.integer count) with
          | error e =>
              rw [applied] at quotient
              cases quotient
          | ok z =>
              rw [applied] at quotient
              cases quotient
              exact mean_covered covers summable applied

end Functions

/-! ## Calls -/

namespace Modes

/-- The items are the result of one of the ways to evaluate in this context. -/
inductive Answers (m : Modes) (c : Context) : List Item → Prop where
  | value {v : Value} {c' : Context} (ran : m.value c = (.ok v, c')) : m.Answers c v.items
  | item {found : Option Item} {c' : Context} (ran : m.item c = (.ok found, c')) : m.Answers c found.toList
  | drain {items : List Item} {c' : Context} (ran : m.drain c = (.ok items, c')) : m.Answers c items

/-- A function that gives at most one item gives the same in all ways. -/
theorem Answers.ofItem {atMostOne : Bool} {item : Eval (Option Item)} {items : List Item}
    (answers : (Modes.ofValueAndItem location atMostOne (do return valueOfOption (← item)) item).Answers c items) :
    ∃ found c', item c = (.ok found, c') ∧ items = found.toList := by
  have value : ∀ {v c'}, (do return valueOfOption (← item) : Eval Value) c = (.ok v, c') →
      ∃ found, item c = (.ok found, c') ∧ v = valueOfOption found := by
    intro v c' ran
    obtain ⟨found, c₁, found_eq, made⟩ := Eval.bind_ok_iff.1 ran
    obtain ⟨rfl, rfl⟩ := Eval.pure_ok_iff.1 made
    exact ⟨found, found_eq, rfl⟩
  cases answers with
  | value valued =>
      obtain ⟨found, ran, rfl⟩ := value valued
      exact ⟨found, _, ran, items_valueOfOption found⟩
  | item ran => exact ⟨_, _, ran, rfl⟩
  | drain drained =>
      obtain ⟨s, c₁, started, drained⟩ := drainStream_ok_iff.1 drained
      obtain ⟨v, c₂, valued, made⟩ := Eval.bind_ok_iff.1 started
      obtain ⟨rfl, rfl⟩ := Eval.pure_ok_iff.1 made
      obtain ⟨found, ran, rfl⟩ := value valued
      rw [Stream.ofValue_drain (valueOfOption_valid found).shaped] at drained
      cases drained
      exact ⟨found, _, ran, items_valueOfOption found⟩

end Modes

namespace Expr

variable {calls : Calls} {first : Expr} {rest : List Expr} {items : List Item}

theorem sumType_type (first : Expr) (rest : List Expr) :
    (BuiltIn.sum.resultType (first :: rest)).sequenceType.type = first.sequenceType.type.totalType := by
  rw [BuiltIn.sum_resultType]
  cases rest <;> rfl

theorem sumType_allows (first : Expr) (rest : List Expr) {n : Nat} (few : n ≤ 1) (one : rest = [] → n = 1) :
    (BuiltIn.sum.resultType (first :: rest)).Allows n := by
  rw [BuiltIn.sum_resultType]
  cases rest with
  | nil =>
      rw [one rfl]
      exact .one _
  | cons other others => exact .optional _ few

/-- What a sum is where its static type need not describe it: that of a range if it is no integer, and
what stands for the sum if there is nothing to add up. -/
inductive SumBeyondType (calls : Calls) (v : Value) (rest : List Expr) (c : Context) : List Item → Prop where
  | range {a : Atom} (long : v.LongRange a) : SumBeyondType calls v rest c [.atom a]
  | zero (nothing : ∀ item ∈ v.items, item.atoms = .ok []) (alone : rest = []) :
      SumBeyondType calls v rest c [.integer 0]
  | alternative {other : Expr} {found : Option Item} {c' : Context}
      (nothing : ∀ item ∈ v.items, item.atoms = .ok []) (alone : rest = [other])
      (ran : (other.modes calls).item c = (.ok found, c')) : SumBeyondType calls v rest c found.toList

/-- However it is asked for, a mean is described by the static type of its call if the value of the argument is
described by that of the argument.  So is a sum, unless it is one that may be of another type; and as many
items as the type says there are in any case. -/
theorem totals_described {f : BuiltIn} (adds : f = .sum ∨ f = .avg) {e : Expr}
    (made : callOf f (first :: rest) location = .ok e)
    (argument : (first.modes calls).value c = (.ok v, c')) (shaped : v.Shaped)
    (conforms : first.staticType.Describes v.items) (tagged : ∀ item ∈ v.items, item.IsTagged)
    (answers : (e.modes calls).Answers c items) :
    e.staticType.Allows items.length ∧
      (e.staticType.Describes items ∨ f = .sum ∧ SumBeyondType calls v rest c' items) := by
  obtain ⟨takes, rfl⟩ := callOf_eq_ok made
  rw [modes_eq_modesOver] at answers
  change (StaticType.Allows (f.resultType (first :: rest)) _ ∧
    ((f.resultType (first :: rest)).Describes _ ∨ _))
  rcases adds with rfl | rfl
  · obtain ⟨found, c₁, ran, rfl⟩ := Modes.Answers.ofItem answers
    have type := sumType_type first rest
    obtain ⟨a, rfl, le | ⟨long, _⟩⟩ | ⟨nothing, ⟨alone, rfl⟩ | ⟨other, same, ran⟩⟩ :=
      sumOf_covered argument shaped conforms.instances tagged ran
    · have allows := sumType_allows first rest (Nat.le_refl 1) fun _ => rfl
      exact ⟨allows, .inl (.single allows (by rwa [type]))⟩
    · exact ⟨sumType_allows first _ (Nat.le_refl 1) fun _ => rfl, .inr ⟨rfl, .range long⟩⟩
    · cases rest with
      | nil => exact ⟨sumType_allows first _ (Nat.le_refl 1) fun _ => rfl, .inr ⟨rfl, .zero nothing rfl⟩⟩
      | cons other others => cases alone
    · cases rest with
      | nil => cases same
      | cons second others =>
          -- A sum takes two arguments at most.
          cases others with
          | cons third others => simp [BuiltIn.takes, BuiltIn.mostArguments] at takes
          | nil =>
              cases same
              refine ⟨sumType_allows first _ ?_ fun none => (by cases none), .inr ⟨rfl, .alternative nothing rfl ran⟩⟩
              cases found <;> simp
  · obtain ⟨found, c₁, ran, rfl⟩ := Modes.Answers.ofItem answers
    have le := averageOf_covered argument shaped conforms.instances tagged ran
    rw [BuiltIn.avg_resultType]
    cases found with
    | none => exact ⟨.optional _ (Nat.zero_le 1), .inl (.nil (.optional _ (Nat.zero_le 1)))⟩
    | some item =>
        exact ⟨.optional _ (Nat.le_refl 1), .inl (.single (.optional _ (Nat.le_refl 1)) (le item rfl))⟩

end Expr

/-- The mean of two integers is the decimal that its type announces. -/
theorem mean_of_integers_described :
    let numbers : Expr := .literal (.ofItems [.integer 1, .integer 2])
    ∃ e found, Expr.callOf .avg [numbers] none = .ok e ∧
      e.staticType = .ofSequenceType (.optional (.atomic .decimal)) ∧
      (e.run.item (.initial {})).1 = .ok (some found) ∧ e.staticType.Describes [found] := by
  intro numbers
  let mean : Expr := .call .avg [numbers] (BuiltIn.avg.resultType [numbers]) none
  obtain ⟨found, c, ran⟩ : ∃ found c, mean.run.item (.initial {}) = (.ok (some found), c) :=
    ⟨_, _, by with_unfolding_all rfl⟩
  have holds := ValueOf.ofItems_holds ([.integer 1, .integer 2] : List Item)
  have conforms := Expr.literal_describes holds.1 (by decide)
  have tagged : ∀ item ∈ (ValueOf.ofItems [.integer 1, .integer 2] : Value).items, item.IsTagged := by
    unfold ItemOf.IsTagged
    decide
  have made : Expr.callOf .avg [numbers] none = .ok mean := rfl
  have valued : (numbers.modes (callsWithin callDepth)).value (.initial {}) =
      (.ok (.ofItems [.integer 1, .integer 2]), .initial {}) := rfl
  obtain ⟨_, described | ⟨impossible, _⟩⟩ := Expr.totals_described (.inr rfl) made valued holds.1.shaped
    conforms tagged (.item ran)
  · exact ⟨mean, found, rfl, rfl, congrArg Prod.fst ran, described⟩
  · cases impossible

/-- The sum of no strings is an integer, although its type is the one of strings. -/
theorem sum_of_no_strings_not_described :
    let s : Variable := ⟨0, "s", some (.many (.atomic .string))⟩
    let c := (Context.initial {}).bind s .empty
    let strings : Expr := .varRefOf s none
    (strings.run.value c).1 = .ok .empty ∧ strings.staticType.Describes [] ∧
      ∃ e, Expr.callOf .sum [strings] none = .ok e ∧ (e.run.item c).1 = .ok (some (.integer 0)) ∧
        ¬e.staticType.Describes [.integer 0] := by
  intro s c strings
  refine ⟨by with_unfolding_all rfl, .nil (.many _ 0), _, rfl, by with_unfolding_all rfl, fun described => ?_⟩
  have integer := described.instances (.integer 0) List.mem_cons_self
  revert integer
  decide

/-- The sum of a range beyond 64 bits is a decimal, although its type is that of integers. -/
theorem sum_of_long_range_not_described :
    let numbers : Expr := .literal (.range ⟨1, 6000000000⟩)
    numbers.staticType.Describes (ValueOf.range ⟨1, 6000000000⟩ : Value).items ∧
      ∃ e d, Expr.callOf .sum [numbers] none = .ok e ∧ (e.run.item (.initial {})).1 = .ok (some (.atom (.decimal d))) ∧
        ¬e.staticType.Describes [.atom (.decimal d)] := by
  intro numbers
  have valid : (ValueOf.range ⟨1, 6000000000⟩ : Value).Valid := ⟨by decide, by decide, by decide⟩
  refine ⟨Expr.literal_describes valid ?_, _, _, rfl, by with_unfolding_all rfl, fun described => ?_⟩
  · intro item member
    obtain ⟨i, _, rfl⟩ := List.mem_map.1 member
    rfl
  · have integer := described.instances _ List.mem_cons_self
    revert integer
    decide

end QueryKernel
