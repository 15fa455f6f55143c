import QueryKernel.Fault
import QueryKernel.Value

/-!
# Editing values

Building values item by item, putting them together and taking them apart.  The results stand for the
lists that the same operations on lists give.

## Functions

* `ValueBuilder` collects items and values at either end.
* `ValueOf.append` is concatenation.
* `insert`, `insertBefore`, `remove`, `slice` refuse positions outside the sequence; `reverse` takes
  every value.
* `Fault.boundSize` refuses sequences too long for a 64-bit size.
-/

namespace QueryKernel

variable {F : Type}

/-- A value with a size that fits 64 bits. -/
def ValueOf.bounded (v : ValueOf F) : Except Fault (ValueOf F) :=
  if v.size ≤ maxSize then .ok v else .error .sizeOverflow

namespace ValueOf

/-- Adds an item at the back of a rope and its tag. -/
def pushBack (r : Rope (ItemOf F) × TypeTag) (item : ItemOf F) : Rope (ItemOf F) × TypeTag :=
  (r.1.pushBack item, r.2.add item.type)

/-- Adds an item at the front of a rope and its tag. -/
def pushFront (item : ItemOf F) (r : Rope (ItemOf F) × TypeTag) : Rope (ItemOf F) × TypeTag :=
  (r.1.pushFront item, r.2.add item.type)

/-- The range made of two adjacent ones, unless it would be too long. -/
def joinRanges? (a b : IntegerRange) : Option IntegerRange :=
  if a.last.toInt + 1 = b.first.toInt ∧ a.length + b.length ≤ IntegerRange.maxLength then
    some ⟨a.first, a.length + b.length⟩
  else none

/-- A rope after a value: a few items are pushed one by one.  Other values are left to the builder. -/
def beforeRope? (v : ValueOf F) (rope : Rope (ItemOf F)) (tag : TypeTag) : Option (ValueOf F) :=
  match v with
  | empty => some (tree rope tag)
  | tree front frontTag => some (tree (front.append rope) (frontTag.merge tag))
  | _ =>
      if v.size ≤ maxFlat then
        let (rope, tag) := v.items.foldr pushFront (rope, tag)
        some (tree rope tag)
      else none

/-- A value after a rope: a few items are pushed one by one.  Other values are left to the builder. -/
def afterRope? (rope : Rope (ItemOf F)) (tag : TypeTag) (v : ValueOf F) : Option (ValueOf F) :=
  match v with
  | empty => some (tree rope tag)
  | tree back backTag => some (tree (rope.append back) (tag.merge backTag))
  | _ =>
      if v.size ≤ maxFlat then
        let (rope, tag) := v.items.foldl pushBack (rope, tag)
        some (tree rope tag)
      else none

end ValueOf

/-- A value under construction, with the tag of what it holds. -/
structure ValueBuilder (F : Type) where
  buffer : Buffer (ItemOf F)
  tag? : Option TypeTag

namespace ValueBuilder

/-- Nothing yet. -/
def empty : ValueBuilder F := ⟨.empty, none⟩

/-- The number of items. -/
def size (b : ValueBuilder F) : Nat := b.buffer.size

/-- The items. -/
def items (b : ValueBuilder F) : List (ItemOf F) := b.buffer.toList

/-- The tag after an item of a type. -/
def track (tag? : Option TypeTag) (type : ItemType) : Option TypeTag :=
  match tag? with
  | none => some ⟨type, true⟩
  | some tag => some (tag.add type)

/-- Adds an item after all others. -/
def addBack (b : ValueBuilder F) (item : ItemOf F) : ValueBuilder F :=
  ⟨b.buffer.addBack item, track b.tag? item.type⟩

/-- Adds an item before all others. -/
def addFront (b : ValueBuilder F) (item : ItemOf F) : ValueBuilder F :=
  ⟨b.buffer.addFront item, track b.tag? item.type⟩

/-- Adds items after all others. -/
def addAll (b : ValueBuilder F) (items : List (ItemOf F)) : ValueBuilder F := items.foldl addBack b

/-- The finished value. -/
def freeze (b : ValueBuilder F) : ValueOf F := .ofBundle (b.tag?.getD ⟨.item, true⟩) b.buffer.freeze

/-- A builder that continues a value. -/
def ofValue : ValueOf F → ValueBuilder F
  | .tree rope tag => ⟨.ofRope rope, some tag⟩
  | v => empty.addAll v.items

/-- Adds the items of a value after all others.  Ropes are joined, not copied. -/
def addValue (b : ValueBuilder F) (v : ValueOf F) : ValueBuilder F :=
  match v with
  | .empty => b
  | .tree rope tag =>
      match b.freeze.beforeRope? rope tag with
      | some joined => ofValue joined
      | none => (empty.addAll b.items).addAll v.items
  | _ => b.addAll v.items

/-- Adds a value, unless the sequence gets too long. -/
def addValueBounded (b : ValueBuilder F) (v : ValueOf F) : Except Fault (ValueBuilder F) :=
  let grown := b.addValue v
  if grown.size ≤ maxSize then .ok grown else .error .sizeOverflow

end ValueBuilder

namespace ValueOf

/-- A value collected item by item. -/
def collect (items : List (ItemOf F)) : ValueOf F := (ValueBuilder.empty.addAll items).freeze

/-- Two values put together by a builder. -/
def appendByBuilder (v w : ValueOf F) : ValueOf F :=
  ((ValueBuilder.empty.addValue v).addValue w).freeze

/-- Two values put together. -/
def append (v w : ValueOf F) : ValueOf F :=
  match v, w with
  | empty, _ => w
  | _, empty => v
  | range a, range b =>
      match joinRanges? a b with
      | some joined => range joined
      | none => appendByBuilder v w
  | tree rope tag, _ => (afterRope? rope tag w).getD (appendByBuilder v w)
  | _, tree rope tag => (beforeRope? v rope tag).getD (appendByBuilder v w)
  | _, _ => appendByBuilder v w

/-- The item at a position of the sequence. -/
def itemAt (v : ValueOf F) (i : Nat) : Except Fault (ItemOf F) :=
  match v.get? i with
  | some item => .ok item
  | none => .error (.position i v.size)

/-- `count` items from a position on. -/
def slice (v : ValueOf F) (start count : Nat) : Except Fault (ValueOf F) :=
  if v.size < start + count then .error (.slice start count v.size)
  else if count = v.size then .ok v
  else if count = 0 then .ok empty
  else match v with
    | range r => .ok ((range? (r.get start) (r.get (start + count - 1))).getD empty)
    | tree rope tag => .ok (ofBundle tag (rope.slice start count))
    | flat items tag => .ok (ofFew ((items.drop start).take count) tag)
    | _ => .ok empty

/-- The value with an item inserted at a position. -/
def insert (v : ValueOf F) (i : Nat) (item : ItemOf F) : Except Fault (ValueOf F) :=
  if v.size < i then .error (.position i v.size)
  else match v with
    | tree rope tag => (ofBundle (tag.add item.type) (rope.insert i item)).bounded
    | _ => .ok (ofItems (v.items.insertIdx i item))

/-- A rope with a value inserted in its midst: a short end is added item by item, and a long one
as a whole. -/
def spliceRope (rope : Rope (ItemOf F)) (tag : TypeTag) (i : Nat) (v : ValueOf F) : ValueOf F :=
  let before := ofBundle tag (rope.slice 0 i)
  let after := ofBundle tag (rope.slice i (rope.size - i))
  let builder : ValueBuilder F := .empty
  if i < maxFlat then
    let front := (List.range i).filterMap rope.get?
    ((front.reverse.foldl ValueBuilder.addFront (builder.addValue v)).addValue after).freeze
  else if rope.size - i < maxFlat then
    let back := (List.range (rope.size - i)).filterMap fun k => rope.get? (i + k)
    (((builder.addValue before).addValue v).addAll back).freeze
  else (((builder.addValue before).addValue v).addValue after).freeze

/-- The value with all items of another inserted before a position. -/
def insertBefore (v : ValueOf F) (i : Nat) (w : ValueOf F) : Except Fault (ValueOf F) :=
  if v.size < i then .error (.position i v.size)
  else match v with
    | tree rope tag =>
        match w with
        | empty => .ok v
        | one item => v.insert i item
        | _ =>
            if w matches tree .. then
              if i = 0 then (w.append v).bounded
              else if i = v.size then (v.append w).bounded
              else (spliceRope rope tag i w).bounded
            else (spliceRope rope tag i w).bounded
    | _ =>
        if w.isEmpty then .ok v
        else if i = 0 then (w.append v).bounded
        else if i = v.size then (v.append w).bounded
        else do
          let before ← v.slice 0 i
          let after ← v.slice i (v.size - i)
          (((ValueBuilder.empty.addValue before).addValue w).addValue after).freeze.bounded

/-- The value without the item at a position. -/
def remove (v : ValueOf F) (i : Nat) : Except Fault (ValueOf F) :=
  if v.size ≤ i then .error (.position i v.size)
  else match v with
    | tree rope tag => .ok (ofBundle tag (rope.remove i))
    | flat items tag => .ok (ofFew (items.eraseIdx i) tag)
    | range r =>
        if i = 0 then .ok ((range? (r.get 1) r.last).getD empty)
        else if i = r.length - 1 then .ok ((range? r.first (r.get (r.length - 2))).getD empty)
        else .ok (ofItems (v.items.eraseIdx i))
    | _ => .ok (ofItems (v.items.eraseIdx i))

/-- The items in reverse order. -/
def reverse (v : ValueOf F) : ValueOf F :=
  match v with
  | empty => empty
  | one item => one item
  | tree rope tag => ofBundle tag rope.reverse
  | _ => ofBundle ⟨v.type, v.isHomogeneous⟩ (.ofList v.items.reverse)

/-- Whether the shape of a rope, the cached sizes and the type tag are right. -/
def checkRope (rope : Rope (ItemOf F)) (tag : TypeTag) : Except String Unit := do
  rope.check
  rope.items.forM fun item =>
    if !item.type.isSubtype tag.type then
      .error (item.type.text ++ " item in a " ++ tag.type.text ++ " sequence")
    else if tag.homogeneous ∧ item.type ≠ tag.type then
      .error (item.type.text ++ " item in a homogeneous " ++ tag.type.text ++ " sequence")
    else .ok ()

end ValueOf

end QueryKernel
