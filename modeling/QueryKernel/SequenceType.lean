import QueryKernel.ItemType

/-!
# Sequence types

How many items a sequence may have, sequence types, and the static type of an expression together
with its exact size when that is known.

## Functions

* `Occurrence` is an interval of sizes: `allows` is membership, `isWithin` inclusion, `union` and
  `intersect?` bound and meet; `add` and `mul` describe concatenation and repetition.
* `SequenceType.isSubtype`, `union`, `intersect?` are the same on types of sequences.
* `StaticType.assign` narrows the type of an expression and keeps a known size.
-/

namespace QueryKernel

/-- How many items are allowed. -/
inductive Occurrence where
  | zero | zeroOrOne | exactlyOne | zeroOrMore | oneOrMore
  deriving DecidableEq

namespace Occurrence

/-- All occurrences. -/
def all : List Occurrence := [zero, zeroOrOne, exactlyOne, zeroOrMore, oneOrMore]

/-- The bounds of the allowed sizes, where an upper bound of two stands for any number. -/
def bounds : Occurrence → Nat × Nat
  | zero => (0, 0)
  | zeroOrOne => (0, 1)
  | exactlyOne => (1, 1)
  | zeroOrMore => (0, 2)
  | oneOrMore => (1, 2)

/-- The occurrence with the given bounds. -/
def ofBounds? : Nat → Nat → Option Occurrence
  | 0, 0 => some zero
  | 0, 1 => some zeroOrOne
  | 0, _ + 2 => some zeroOrMore
  | 1, 1 => some exactlyOne
  | 1, _ + 2 => some oneOrMore
  | _, _ => none

/-- The narrowest occurrence of sequences of exactly this size. -/
def ofSize : Nat → Occurrence
  | 0 => zero
  | 1 => exactlyOne
  | _ => oneOrMore

/-- The least allowed size. -/
def least (o : Occurrence) : Nat := o.bounds.1

/-- The largest allowed size, if there is one. -/
def greatest? (o : Occurrence) : Option Nat := if o.bounds.2 < 2 then some o.bounds.2 else none

/-- Whether sequences of this size are allowed. -/
def allows (o : Occurrence) (size : Nat) : Bool :=
  decide (o.least ≤ size) && (o.greatest?.all fun most => decide (size ≤ most))

/-- Whether all sizes allowed by the first are allowed by the second. -/
def isWithin (a b : Occurrence) : Bool :=
  decide (b.bounds.1 ≤ a.bounds.1) && decide (a.bounds.2 ≤ b.bounds.2)

/-- The narrowest occurrence that allows what either allows. -/
def union (a b : Occurrence) : Occurrence :=
  (ofBounds? (min a.bounds.1 b.bounds.1) (max a.bounds.2 b.bounds.2)).getD zeroOrMore

/-- What both allow, unless that is nothing. -/
def intersect? (a b : Occurrence) : Option Occurrence :=
  ofBounds? (max a.bounds.1 b.bounds.1) (min a.bounds.2 b.bounds.2)

/-- The occurrence of two sequences put together. -/
def add (a b : Occurrence) : Occurrence :=
  (ofBounds? (min (a.bounds.1 + b.bounds.1) 1) (min (a.bounds.2 + b.bounds.2) 2)).getD zeroOrMore

/-- The occurrence of a sequence put together from one part for each item of another. -/
def mul (a b : Occurrence) : Occurrence :=
  (ofBounds? (a.bounds.1 * b.bounds.1) (min (a.bounds.2 * b.bounds.2) 2)).getD zeroOrMore

/-- Whether no more than one item is allowed. -/
def atMostOne (o : Occurrence) : Bool := decide (o.bounds.2 ≤ 1)

/-- The indicator written after an item type. -/
def indicator : Occurrence → String
  | zero | exactlyOne => ""
  | zeroOrOne => "?"
  | zeroOrMore => "*"
  | oneOrMore => "+"

end Occurrence

/-- An item type with an occurrence. -/
structure SequenceType where
  type : ItemType
  occurrence : Occurrence
  deriving DecidableEq

namespace SequenceType

/-- `empty-sequence()`. -/
def empty : SequenceType := ⟨.item, .zero⟩

/-- `item()*`. -/
def anything : SequenceType := ⟨.item, .zeroOrMore⟩

/-- Exactly one item of a type. -/
def one (t : ItemType) : SequenceType := ⟨t, .exactlyOne⟩

/-- At most one item of a type. -/
def optional (t : ItemType) : SequenceType := ⟨t, .zeroOrOne⟩

/-- Any number of items of a type. -/
def many (t : ItemType) : SequenceType := ⟨t, .zeroOrMore⟩

/-- Whether only the empty sequence has the type. -/
def isEmpty (s : SequenceType) : Bool := s.occurrence == .zero

/-- Whether exactly one item is required. -/
def isOne (s : SequenceType) : Bool := s.occurrence == .exactlyOne

/-- Whether there is at most one item. -/
def isAtMostOne (s : SequenceType) : Bool := s.occurrence.atMostOne

/-- Whether an array may occur among the items. -/
def mayBeArray (s : SequenceType) : Bool := !s.isEmpty && (ItemType.function .array).isSubtype s.type

/-- The type with another occurrence. -/
def withOccurrence (s : SequenceType) (o : Occurrence) : SequenceType := ⟨s.type, o⟩

/-- Whether all sequences of the first type have the second. -/
def isSubtype (a b : SequenceType) : Bool :=
  if a.isEmpty then b.occurrence.least == 0
  else a.occurrence.isWithin b.occurrence && a.type.isSubtype b.type

/-- A type of all sequences that have either type.  The item type of the empty sequence does not
count. -/
def union (a b : SequenceType) : SequenceType :=
  let type := if a.isEmpty then b.type else if b.isEmpty then a.type else a.type.union b.type
  ⟨type, a.occurrence.union b.occurrence⟩

/-- The type of the sequences that have both types, unless there are none.  Disjoint item types leave
the empty sequence only. -/
def intersect? (a b : SequenceType) : Option SequenceType :=
  match a.occurrence.intersect? b.occurrence with
  | none => none
  | some .zero => some empty
  | some o =>
      match a.type.intersect? b.type with
      | some t => some ⟨t, o⟩
      | none => if o.least = 0 then some empty else none

/-- The type as written in a query. -/
def text (s : SequenceType) : String :=
  if s.isEmpty then "empty-sequence()" else s.type.text ++ s.occurrence.indicator

end SequenceType

/-- What is known of the results of an expression before evaluation. -/
structure StaticType where
  sequenceType : SequenceType
  size? : Option Nat
  deriving DecidableEq

namespace StaticType

/-- The exact size is known where the occurrence allows only one. -/
def ofSequenceType (s : SequenceType) : StaticType :=
  ⟨s, match s.occurrence with
    | .zero => some 0
    | .exactlyOne => some 1
    | _ => none⟩

/-- Exactly `size` items of a type. -/
def sized (t : ItemType) (size : Nat) : StaticType := ⟨⟨t, .ofSize size⟩, some size⟩

/-- Adopts a narrower sequence type.  A known size stays, and a sequence type that contradicts it is
ignored. -/
def assign (s : StaticType) (narrower : SequenceType) : StaticType :=
  let assigned : StaticType :=
    match s.size? with
    | some size =>
        if narrower.occurrence.allows size then
          ⟨narrower.withOccurrence s.sequenceType.occurrence, some size⟩
        else s
    | none => ofSequenceType narrower
  if assigned.size? = some 0 then ⟨.empty, some 0⟩ else assigned

end StaticType

end QueryKernel
