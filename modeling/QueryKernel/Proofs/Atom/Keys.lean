import QueryKernel.Atom.Order
import QueryKernel.Proofs.Number.Decimal

/-!
# Keys of exact types

Among the keys that are not floating-point numbers, being the same key is having the same form: a number is
its exact value whatever its type, a text is its characters, binary data are their octets, and names, dates and
times leave out qualifier and offset.  So it is an equivalence.

Decimals are compared at the larger of two scales, which differs from pair to pair, while the form must not
depend on the other key.
-/

namespace QueryKernel

/-- What keys that are the same have in common. -/
inductive KeyForm where
  | number (value : Rat)
  | text (characters : String)
  | boolean (b : Bool)
  | yearMonth (months : Int32)
  | dayTime (seconds : Int64)
  | duration (months : Int32) (seconds : Int64)
  | dateTime (instant : Int) (nanosecond : Nat)
  | date (dayNumber : Int)
  | time (seconds nanosecond : Nat)
  | binary (octets : List UInt8)
  | name (namespaceUri : Option String) (localPart : String)
  deriving DecidableEq

/-- The class in which keys of a form are compared. -/
def KeyForm.comparisonClass : KeyForm → ComparisonClass
  | number _ => .number
  | text _ => .text
  | boolean _ => .boolean
  | yearMonth _ => .yearMonth
  | dayTime _ => .dayTime
  | duration .. => .duration
  | dateTime .. => .dateTime
  | date _ => .date
  | time .. => .time
  | binary _ => .binary
  | name .. => .name

theorem DateTime.compare_eq_iff (s t : DateTime) :
    s.compare t = .eq ↔ s.instant = t.instant ∧ s.time.nanosecond = t.time.nanosecond := by
  rw [DateTime.compare, Ordering.then_eq_eq, Std.compare_eq_iff_eq, Std.compare_eq_iff_eq]

theorem TimeOfDay.compare_eq_iff (s t : TimeOfDay) :
    s.compare t = .eq ↔ s.seconds = t.seconds ∧ s.nanosecond = t.nanosecond := by
  rw [TimeOfDay.compare, Ordering.then_eq_eq, Std.compare_eq_iff_eq, Std.compare_eq_iff_eq]

namespace Atom

/-- The key is no floating-point number.  A decimal has no more places than there may be. -/
def IsExact : Atom → Prop
  | double _ | float _ => False
  | decimal d => d.scale ≤ Decimal.maxScale
  | _ => True

/-- What a key has in common with those that are the same; nothing is said of floating-point numbers. -/
def keyForm? : Atom → Option KeyForm
  | integer i => some (.number i.toInt)
  | decimal d => some (.number d.toRat)
  | double _ | float _ => none
  | untyped s | string s | anyUri s => some (.text s)
  | boolean b => some (.boolean b)
  | yearMonthDuration months => some (.yearMonth months)
  | dayTimeDuration seconds => some (.dayTime seconds)
  | duration months seconds => some (.duration months seconds)
  | dateTime t => some (.dateTime t.instant t.time.nanosecond)
  | date d _ => some (.date d.dayNumber)
  | time t _ => some (.time t.seconds t.nanosecond)
  | base64Binary octets | hexBinary octets => some (.binary octets)
  | qName name => some (.name name.namespaceUri name.localPart)

theorem compareOctets_eq_iff (a b : List UInt8) : compareOctets a b = .eq ↔ a = b := by
  induction a generalizing b with
  | nil => cases b <;> simp [compareOctets]
  | cons x a a_ih =>
      cases b with
      | nil => simp [compareOctets]
      | cons y b =>
          rw [compareOctets, Ordering.then_eq_eq, Std.compare_eq_iff_eq, a_ih, UInt8.toNat_inj, List.cons.injEq]

/-- Numbers that are no floating-point numbers are compared as fractions. -/
theorem compareNumbers_eq_iff {a b : Atom} (exactA : a.IsExact) (exactB : b.IsExact)
    (numberA : a.comparisonClass = .number) (numberB : b.comparisonClass = .number) :
    compareNumbers a b = some .eq ↔ a.keyForm? = b.keyForm? := by
  cases a with
  | double x => exact exactA.elim
  | float x => exact exactA.elim
  | integer i =>
      cases b with
      | double x => exact exactB.elim
      | float x => exact exactB.elim
      | integer j =>
          simp only [compareNumbers, keyForm?, Option.some.injEq, Std.compare_eq_iff_eq, KeyForm.number.injEq,
            Rat.intCast_inj]
      | decimal e => simp [compareNumbers, keyForm?, Decimal.compare_eq_iff]
      | _ => cases numberB
  | decimal d =>
      cases b with
      | double x => exact exactB.elim
      | float x => exact exactB.elim
      | integer j => simp [compareNumbers, keyForm?, Decimal.compare_eq_iff]
      | decimal e => simp [compareNumbers, keyForm?, Decimal.compare_eq_iff]
      | _ => cases numberB
  | _ => cases numberA

theorem compareWithin_number {a : Atom} (b : Atom) (number : a.comparisonClass = .number) :
    compareWithin a b = compareNumbers a b := by
  cases a <;> first | rfl | cases number

theorem compareWithin_text {a : Atom} (b : Atom) (text : a.comparisonClass = .text) :
    compareWithin a b = some (compare a.text b.text) := by
  cases a <;> first | rfl | cases text

/-- Within a class, equal keys are those of one form. -/
theorem compareWithin_eq_iff {a b : Atom} (exactA : a.IsExact) (exactB : b.IsExact)
    (sameClass : a.comparisonClass = b.comparisonClass) :
    compareWithin a b = some .eq ↔ a.keyForm? = b.keyForm? := by
  cases a with
  | double x => exact exactA.elim
  | float x => exact exactA.elim
  | integer _ | decimal _ =>
      -- Numbers are compared across types, and so are texts below; all others with their own type only.
      rw [compareWithin_number b rfl]
      exact compareNumbers_eq_iff exactA exactB rfl sameClass.symm
  | untyped s | string s | anyUri s =>
      rw [compareWithin_text b rfl]
      cases b with
      | untyped t | string t | anyUri t => simp [text, keyForm?]
      | _ => cases sameClass
  | base64Binary s | hexBinary s =>
      cases b with
      | base64Binary t | hexBinary t => simp [compareWithin, keyForm?, compareOctets_eq_iff]
      | _ => cases sameClass
  | boolean s =>
      cases b with
      | boolean t => cases s <;> cases t <;> simp [compareWithin, keyForm?]
      | _ => cases sameClass
  | yearMonthDuration s =>
      cases b with
      | yearMonthDuration t => simp [compareWithin, keyForm?, Int32.toInt_inj]
      | _ => cases sameClass
  | dayTimeDuration s =>
      cases b with
      | dayTimeDuration t => simp [compareWithin, keyForm?, Int64.toInt_inj]
      | _ => cases sameClass
  | duration m s =>
      cases b with
      | duration n t => simp [compareWithin, keyForm?]
      | _ => cases sameClass
  | dateTime s =>
      cases b with
      | dateTime t => simp [compareWithin, keyForm?, DateTime.compare_eq_iff]
      | _ => cases sameClass
  | date s offset =>
      cases b with
      | date t offset' => simp [compareWithin, keyForm?, Date.compare]
      | _ => cases sameClass
  | time s offset =>
      cases b with
      | time t offset' => simp [compareWithin, keyForm?, TimeOfDay.compare_eq_iff]
      | _ => cases sameClass
  | qName s =>
      cases b with
      | qName t => simp [compareWithin, keyForm?]
      | _ => cases sameClass

/-- The class is that of the form. -/
theorem comparisonClass_of_keyForm? {a b : Atom} (exactA : a.IsExact) (exactB : b.IsExact)
    (form : a.keyForm? = b.keyForm?) : a.comparisonClass = b.comparisonClass := by
  have classOf : ∀ a : Atom, a.IsExact → a.keyForm?.map KeyForm.comparisonClass = some a.comparisonClass := by
    intro a exact
    cases a with
    | double x | float x => exact exact.elim
    | _ => rfl
  refine Option.some.inj ?_
  rw [← classOf a exactA, ← classOf b exactB, form]

theorem IsExact.not_nan {a : Atom} (exact : a.IsExact) : a.toFloat? ≠ some .nan := by
  cases a with
  | integer i => exact fun nan => (BinaryFloat.round_hasSign _ _).ne_nan (Option.some.inj nan)
  | decimal d => exact fun nan => Decimal.toFloat_ne_nan exact (Option.some.inj nan)
  | double x | float x => exact exact.elim
  | _ => exact nofun

/-- Two keys are the same exactly if they have the same form. -/
theorem sameKey_iff {a b : Atom} (exactA : a.IsExact) (exactB : b.IsExact) :
    a.sameKey b = true ↔ a.keyForm? = b.keyForm? := by
  have compared : a.sameKey b = true ↔ a.compare? b = .ok (some .eq) := by
    unfold sameKey
    split
    · next nan _ => exact (exactA.not_nan nan).elim
    · split <;> simp_all
  rw [compared, compare?]
  split
  · next sameClass =>
      rw [← compareWithin_eq_iff exactA exactB sameClass]
      exact ⟨Except.ok.inj, congrArg _⟩
  · next otherClass =>
      refine ⟨nofun, fun form => (otherClass ?_).elim⟩
      exact comparisonClass_of_keyForm? exactA exactB form

theorem sameKey_equivalence : Equivalence fun a b : { a : Atom // a.IsExact } => a.1.sameKey b.1 = true where
  refl a := (sameKey_iff a.2 a.2).2 rfl
  symm {a b} same := (sameKey_iff b.2 a.2).2 ((sameKey_iff a.2 b.2).1 same).symm
  trans {a b c} first second :=
    (sameKey_iff a.2 c.2).2 (((sameKey_iff a.2 b.2).1 first).trans ((sameKey_iff b.2 c.2).1 second))

theorem sameKey_comm {a b : Atom} (exactA : a.IsExact) (exactB : b.IsExact) : a.sameKey b = b.sameKey a := by
  rw [Bool.eq_iff_iff, sameKey_iff exactA exactB, sameKey_iff exactB exactA, eq_comm]

/-- Keys that are the same are the same as any other key alike. -/
theorem sameKey_congr {a b c : Atom} (exactA : a.IsExact) (exactB : b.IsExact) (exactC : c.IsExact)
    (same : a.sameKey b = true) : a.sameKey c = b.sameKey c := by
  rw [Bool.eq_iff_iff, sameKey_iff exactA exactC, sameKey_iff exactB exactC, (sameKey_iff exactA exactB).1 same]

end Atom

end QueryKernel
