import QueryKernel.Atom.Arithmetic
import QueryKernel.Error
import QueryKernel.Value.Edit

/-!
# Atomization

The atoms of items and values: an atom is its own, a node gives its text, an array the atoms of its
members, and functions and maps give none but an error.

## Functions

* `ItemOf.atomize` adds the atoms of an item to those found before; atoms found before an error stay.
* `ValueOf.atomize` is the value of the atoms, and shares a value that is known to be atomic.
* `atomCount` predicts how many there are.
* `ItemOf.booleanValue` and `ItemOf.stringValue` read a single item.
-/

namespace QueryKernel

variable {F : Type}

/-- Atoms found so far, in reverse order, and the item that could not be atomized. -/
structure AtomsFound (F : Type) where
  reversed : List Atom
  refused : Option (ItemOf F)

namespace AtomsFound

/-- Nothing found yet. -/
def empty : AtomsFound F := ⟨[], none⟩

/-- The atoms in order. -/
def atoms (a : AtomsFound F) : List Atom := a.reversed.reverse

/-- The atoms, if no item was refused. -/
def result (a : AtomsFound F) : Except (Cause F) (List Atom) :=
  match a.refused with
  | none => .ok a.atoms
  | some item => .error (.notAtomizable item)

/-- Goes on only if no item was refused. -/
def andThen (a : AtomsFound F) (more : AtomsFound F → AtomsFound F) : AtomsFound F :=
  match a.refused with
  | none => more a
  | some _ => a

end AtomsFound

theorem ValueOf.sizeOf_lt_of_mem_items {v : ValueOf F} {item : ItemOf F} (notRange : ∀ r, v ≠ .range r)
    (member : item ∈ v.items) : sizeOf item < sizeOf v := by
  cases v with
  | empty => simp [ValueOf.items] at member
  | one i =>
      simp only [ValueOf.items, List.mem_singleton] at member
      subst member
      simp only [ValueOf.one.sizeOf_spec]
      omega
  | flat items tag =>
      have : sizeOf item < sizeOf items := List.sizeOf_lt_of_mem member
      simp only [ValueOf.flat.sizeOf_spec]
      omega
  | range r => exact absurd rfl (notRange r)
  | tree rope tag =>
      simp only [ValueOf.items, Rope.items_eq_toList] at member
      have := Rope.sizeOf_lt_of_mem member
      simp only [ValueOf.tree.sizeOf_spec]
      omega

mutual

/-- Adds the atoms of an item to those found before. -/
def ItemOf.atomize (found : AtomsFound F) : ItemOf F → AtomsFound F
  | .atom a => { found with reversed := a :: found.reversed }
  | .node n => { found with reversed := .untyped n.stringValue :: found.reversed }
  | .array _ members _ =>
      members.attach.foldl (fun found ⟨member, _⟩ => found.andThen (member.addAtoms ·)) found
  | .function f => { found with refused := some (.function f) }
  | .map identity entries type => { found with refused := some (.map identity entries type) }
termination_by i => sizeOf i
decreasing_by
  rename_i inMembers _
  have := List.sizeOf_lt_of_mem inMembers
  simp only [ItemOf.array.sizeOf_spec]
  omega

/-- Adds the atoms of all items of a value to those found before. -/
def ValueOf.addAtoms (found : AtomsFound F) : ValueOf F → AtomsFound F
  | .empty => found
  | .range r =>
      { found with
        reversed := ((List.range r.length).map fun i => Atom.integer (r.get i)).reverse ++ found.reversed }
  | .one item => item.atomize found
  | .flat items _ => items.attach.foldl (fun found ⟨item, _⟩ => found.andThen (item.atomize ·)) found
  | .tree rope _ =>
      rope.items.attach.foldl (fun found ⟨item, _⟩ => found.andThen (item.atomize ·)) found
termination_by v => sizeOf v
decreasing_by
  · simp only [ValueOf.one.sizeOf_spec]
    omega
  · rename_i member _
    have := List.sizeOf_lt_of_mem member
    simp only [ValueOf.flat.sizeOf_spec]
    omega
  · rename_i member _
    rw [Rope.items_eq_toList] at member
    have := Rope.sizeOf_lt_of_mem member
    simp only [ValueOf.tree.sizeOf_spec]
    omega

end

mutual

/-- The number of atoms of an item, counting one for a function or a map. -/
def ItemOf.atomCount : ItemOf F → Nat
  | .array _ members _ => (members.attach.map fun ⟨member, _⟩ => member.atomTotal).foldr (· + ·) 0
  | _ => 1
termination_by i => sizeOf i
decreasing_by
  rename_i inMembers
  have := List.sizeOf_lt_of_mem inMembers
  simp only [ItemOf.array.sizeOf_spec]
  omega

/-- The number of atoms of all items of a value. -/
def ValueOf.atomTotal : ValueOf F → Nat
  | .empty => 0
  | .range r => r.length
  | .one item => item.atomCount
  | .flat items _ => (items.attach.map fun ⟨item, _⟩ => item.atomCount).foldr (· + ·) 0
  | .tree rope _ => (rope.items.attach.map fun ⟨item, _⟩ => item.atomCount).foldr (· + ·) 0
termination_by v => sizeOf v
decreasing_by
  · simp only [ValueOf.one.sizeOf_spec]
    omega
  · rename_i member
    have := List.sizeOf_lt_of_mem member
    simp only [ValueOf.flat.sizeOf_spec]
    omega
  · rename_i member
    rw [Rope.items_eq_toList] at member
    have := Rope.sizeOf_lt_of_mem member
    simp only [ValueOf.tree.sizeOf_spec]
    omega

end

namespace ItemOf

/-- The atoms of one item. -/
def atoms (i : ItemOf F) : Except (Cause F) (List Atom) := (i.atomize .empty).result

/-- The boolean value of a single item: nodes are true. -/
def booleanValue (i : ItemOf F) : Except (Cause F) Bool :=
  match i with
  | node _ => .ok true
  | atom a => a.boolean?.mapError .ofAtomError
  | _ => .error (.noBoolean i.type)

/-- The text of a single item. -/
def stringValue (i : ItemOf F) : Except (Cause F) String :=
  match i with
  | atom a => .ok a.text
  | node n => .ok n.stringValue
  | _ => .error (.notAtomizable i)

end ItemOf

namespace ValueOf

/-- The atoms of a value. -/
def atoms (v : ValueOf F) : Except (Cause F) (List Atom) := (v.addAtoms .empty).result

/-- The atoms of a value, as a value.  A value known to be atomic is its own. -/
def atomize (v : ValueOf F) : Except (Cause F) (ValueOf F) :=
  match v with
  | empty | range _ | one (.atom _) => .ok v
  | flat _ tag | tree _ tag =>
      if tag.type.isAtomic then .ok v else v.atoms.map fun atoms => collect (atoms.map .atom)
  | one _ => v.atoms.map fun atoms => collect (atoms.map .atom)

/-- The number of atoms of a value.  It is the size for ropes of atoms or nodes. -/
def atomCount (v : ValueOf F) : Nat :=
  match v with
  | tree rope tag => if tag.type.isAtomic || tag.type.isNode then rope.size else v.atomTotal
  | range r => r.length
  | _ => v.atomTotal

end ValueOf

end QueryKernel
