import QueryKernel.Proofs.Value.Reachable

/-!
# Atoms of nested arrays

The atoms of items from left to right, where an array stands for the items of its members at any depth, and
what going through a value finds of them.

The walk through a value, and that through the members of an array, is one fold over a list of items
(`addAtoms_eq`, `atomize_array`).  It joins the mutual recursion on items and values to an induction on
derivations.  The other direction needs an induction on the depth of arrays, in which the integers of a range
count as atoms, since they are not below the range in size.
-/

namespace QueryKernel

variable {F : Type}

/-- The atoms of items from left to right. -/
inductive Flattens : List (ItemOf F) → List Atom → Prop where
  | nil : Flattens [] []
  | atom (a : Atom) {rest : List (ItemOf F)} {atoms : List Atom} (others : Flattens rest atoms) :
      Flattens (.atom a :: rest) (a :: atoms)
  | node (n : Node) {rest : List (ItemOf F)} {atoms : List Atom} (others : Flattens rest atoms) :
      Flattens (.node n :: rest) (.untyped n.stringValue :: atoms)
  | array {identity : Nat} {members : List (ValueOf F)} {type : ItemType} {rest : List (ItemOf F)}
      {inner atoms : List Atom} (inside : Flattens (members.flatMap (·.items)) inner)
      (others : Flattens rest atoms) : Flattens (.array identity members type :: rest) (inner ++ atoms)

/-- A function or a map, or an array with one of them at any depth. -/
inductive ItemOf.HoldsFunction : ItemOf F → Prop where
  | function (f : FunctionItem F) : HoldsFunction (.function f)
  | map (identity : Nat) (entries : List (Atom × ValueOf F)) (type : ItemType) :
      HoldsFunction (.map identity entries type)
  | array {identity : Nat} {members : List (ValueOf F)} {type : ItemType} {item : ItemOf F}
      (inside : item ∈ members.flatMap (·.items)) (holds : HoldsFunction item) :
      HoldsFunction (.array identity members type)

/-- Induction on the depth of arrays.  The integers of a range are not below it in size, but they are atoms. -/
theorem ItemOf.induction_nested {motive : ItemOf F → Prop} (atom : ∀ a, motive (.atom a))
    (node : ∀ n, motive (.node n)) (function : ∀ f, motive (.function f))
    (map : ∀ identity entries type, motive (.map identity entries type))
    (array : ∀ identity members type, (∀ item ∈ members.flatMap (·.items), motive item) →
      motive (.array identity members type)) (item : ItemOf F) : motive item := by
  generalize size : sizeOf item = n
  induction n using Nat.strongRecOn generalizing item with
  | ind n smaller_ih =>
      subst size
      cases item with
      | atom a => exact atom a
      | node n => exact node n
      | function f => exact function f
      | map identity entries type => exact map identity entries type
      | array identity members type =>
          refine array identity members type fun item inside => ?_
          obtain ⟨member, inMembers, inMember⟩ := List.mem_flatMap.1 inside
          -- Integers of a range are no parts of it, but they are atoms.
          by_cases range : ∃ r, member = .range r
          · obtain ⟨r, rfl⟩ := range
            obtain ⟨i, _, rfl⟩ := List.mem_map.1 inMember
            exact atom _
          · have below := ValueOf.sizeOf_lt_of_mem_items (fun r same => range ⟨r, same⟩) inMember
            have above := List.sizeOf_lt_of_mem inMembers
            refine smaller_ih _ ?_ item rfl
            simp only [ItemOf.array.sizeOf_spec]
            omega

/-! ## One fold over the items -/

namespace AtomsFound

/-- The atoms found so far and more of them. -/
def push (found : AtomsFound F) (atoms : List Atom) : AtomsFound F :=
  { found with reversed := atoms.reverse ++ found.reversed }

/-- Adds the atoms of all items, up to the first one that is refused. -/
def addAll (found : AtomsFound F) (items : List (ItemOf F)) : AtomsFound F :=
  items.foldl (fun found item => found.andThen (item.atomize ·)) found

variable {found : AtomsFound F}

@[simp]
theorem push_push (found : AtomsFound F) (atoms more : List Atom) :
    (found.push atoms).push more = found.push (atoms ++ more) := by
  simp [push]

theorem andThen_of_none (more : AtomsFound F → AtomsFound F) (goesOn : found.refused = none) :
    found.andThen more = more found := by
  rw [andThen, goesOn]

theorem andThen_of_some {item : ItemOf F} (more : AtomsFound F → AtomsFound F)
    (refused : found.refused = some item) : found.andThen more = found := by
  rw [andThen, refused]

theorem addAll_of_some {item : ItemOf F} (items : List (ItemOf F)) (refused : found.refused = some item) :
    found.addAll items = found := by
  induction items with
  | nil => rfl
  | cons other rest rest_ih => rw [addAll, List.foldl_cons, andThen_of_some _ refused]; exact rest_ih

theorem addAll_cons (item : ItemOf F) (rest : List (ItemOf F)) (goesOn : found.refused = none) :
    found.addAll (item :: rest) = (item.atomize found).addAll rest := by
  rw [addAll, List.foldl_cons, andThen_of_none _ goesOn]
  rfl

end AtomsFound

open AtomsFound

theorem ItemOf.atomize_atom (a : Atom) (found : AtomsFound F) : (atom a).atomize found = found.push [a] := by
  rw [atomize]
  rfl

theorem ItemOf.atomize_node (n : Node) (found : AtomsFound F) :
    (node n).atomize found = found.push [.untyped n.stringValue] := by
  rw [atomize]
  rfl

theorem AtomsFound.addAll_atoms (atoms : List Atom) (found : AtomsFound F) (goesOn : found.refused = none) :
    found.addAll (atoms.map .atom) = found.push atoms := by
  induction atoms generalizing found with
  | nil => rfl
  | cons a rest rest_ih =>
      rw [List.map_cons, addAll_cons _ _ goesOn, ItemOf.atomize_atom, rest_ih (found.push [a]) goesOn, push_push]
      rfl

theorem ValueOf.addAtoms_eq (v : ValueOf F) {found : AtomsFound F} (goesOn : found.refused = none) :
    v.addAtoms found = found.addAll v.items := by
  cases v with
  | empty => rw [addAtoms]; rfl
  | one item => rw [addAtoms, ValueOf.items, addAll_cons _ _ goesOn]; rfl
  | flat items tag | tree rope tag =>
      rw [addAtoms]
      exact List.foldl_attach (f := fun (found : AtomsFound F) item => found.andThen (ItemOf.atomize · item))
  | range r =>
      have integers : (range r : ValueOf F).items =
          ((List.range r.length).map fun i => Atom.integer (r.get i)).map .atom := by
        rw [List.map_map]
        rfl
      rw [addAtoms, integers, addAll_atoms _ _ goesOn]
      rfl

theorem ItemOf.atomize_array (identity : Nat) (members : List (ValueOf F)) (type : ItemType)
    (found : AtomsFound F) :
    (array identity members type).atomize found = found.addAll (members.flatMap (·.items)) := by
  have step : ∀ (found : AtomsFound F) (member : ValueOf F),
      found.andThen (ValueOf.addAtoms · member) = found.addAll member.items := by
    intro found member
    cases refused : found.refused with
    | none => rw [andThen_of_none _ refused, member.addAtoms_eq refused]
    | some item => rw [andThen_of_some _ refused, addAll_of_some _ refused]
  have walk : (array identity members type).atomize found =
      members.foldl (fun found member => found.andThen (ValueOf.addAtoms · member)) found := by
    rw [atomize]
    exact List.foldl_attach (f := fun (found : AtomsFound F) member => found.andThen (ValueOf.addAtoms · member))
  simp only [walk, step, addAll, List.foldl_flatMap]

/-! ## Derivations and the fold -/

theorem Flattens.append {items items' : List (ItemOf F)} {atoms atoms' : List Atom}
    (first : Flattens items atoms) (second : Flattens items' atoms') :
    Flattens (items ++ items') (atoms ++ atoms') := by
  induction first with
  | nil => exact second
  | atom a _ others_ih => exact .atom a others_ih
  | node n _ others_ih => exact .node n others_ih
  | array inside _ _ others_ih =>
      rw [List.append_assoc]
      exact .array inside others_ih

theorem flattens_atoms (atoms : List Atom) : Flattens (atoms.map .atom : List (ItemOf F)) atoms := by
  induction atoms with
  | nil => exact .nil
  | cons a _ rest_ih => exact .atom a rest_ih

/-- The fold finds what is derived. -/
theorem Flattens.addAll_eq {items : List (ItemOf F)} {atoms : List Atom} (flattens : Flattens items atoms)
    (found : AtomsFound F) (goesOn : found.refused = none) :
    found.addAll items = found.push atoms := by
  induction flattens generalizing found with
  | nil => rfl
  | atom a _ others_ih =>
      rw [addAll_cons _ _ goesOn, ItemOf.atomize_atom, others_ih (found.push [a]) goesOn, push_push]
      rfl
  | node n _ others_ih =>
      rw [addAll_cons _ _ goesOn, ItemOf.atomize_node, others_ih (found.push _) goesOn, push_push]
      rfl
  | array _ _ inside_ih others_ih =>
      rw [addAll_cons _ _ goesOn, ItemOf.atomize_array, inside_ih found goesOn, others_ih (found.push _) goesOn,
        push_push]

theorem flattens_of_forall {items : List (ItemOf F)}
    (each : ∀ item ∈ items, ∃ atoms, Flattens [item] atoms) : ∃ atoms, Flattens items atoms := by
  induction items with
  | nil => exact ⟨[], .nil⟩
  | cons item rest rest_ih =>
      obtain ⟨first, flattens⟩ := each item List.mem_cons_self
      obtain ⟨others, continues⟩ := rest_ih fun other member => each other (List.mem_cons_of_mem _ member)
      exact ⟨first ++ others, flattens.append continues⟩

/-- What holds no function has atoms. -/
theorem ItemOf.flattens_of_not_holdsFunction (item : ItemOf F) (none : ¬ item.HoldsFunction) :
    ∃ atoms, Flattens [item] atoms := by
  induction item using ItemOf.induction_nested with
  | atom a => exact ⟨_, .atom a .nil⟩
  | node n => exact ⟨_, .node n .nil⟩
  | function f => exact (none (.function f)).elim
  | map identity entries type => exact (none (.map identity entries type)).elim
  | array identity members type inside_ih =>
      obtain ⟨inner, inside⟩ := flattens_of_forall fun item member =>
        inside_ih item member fun holds => none (.array member holds)
      exact ⟨_, .array inside .nil⟩

/-- A refused item among others ends the fold. -/
theorem addAll_refuses {items : List (ItemOf F)} {item : ItemOf F} (member : item ∈ items)
    (refuses : ∀ found : AtomsFound F, found.refused = none → (item.atomize found).refused ≠ none)
    {found : AtomsFound F} : (found.addAll items).refused ≠ none := by
  induction items generalizing found with
  | nil => cases member
  | cons first rest rest_ih =>
      cases before : found.refused with
      | some other => rw [addAll_of_some _ before, before]; exact Option.some_ne_none other
      | none =>
          rw [addAll_cons _ _ before]
          rcases List.mem_cons.1 member with rfl | later
          · obtain ⟨other, refused⟩ := Option.ne_none_iff_exists'.1 (refuses found before)
            rw [addAll_of_some _ refused, refused]
            exact Option.some_ne_none other
          · exact rest_ih later

theorem ItemOf.HoldsFunction.refused {item : ItemOf F} (holds : item.HoldsFunction) (found : AtomsFound F) :
    (item.atomize found).refused ≠ none := by
  induction holds generalizing found with
  | function f => rw [ItemOf.atomize]; exact Option.some_ne_none _
  | map identity entries type => rw [ItemOf.atomize]; exact Option.some_ne_none _
  | array inside _ holds_ih =>
      rw [ItemOf.atomize_array]
      exact addAll_refuses inside fun found _ => holds_ih found

namespace ValueOf

variable {v w : ValueOf F} {atoms : List Atom}

theorem atoms_of_flattens (flattens : Flattens v.items atoms) : v.atoms = .ok atoms := by
  rw [ValueOf.atoms, v.addAtoms_eq rfl, flattens.addAll_eq _ rfl]
  simp [AtomsFound.result, AtomsFound.atoms, AtomsFound.empty, push]

theorem not_holdsFunction_of_atoms (found : v.atoms = .ok atoms) : ∀ item ∈ v.items, ¬ item.HoldsFunction := by
  intro item member holds
  have refuses : (AtomsFound.empty.addAll v.items).refused ≠ none :=
    addAll_refuses member fun found _ => holds.refused found
  obtain ⟨other, refused⟩ := Option.ne_none_iff_exists'.1 refuses
  rw [ValueOf.atoms, v.addAtoms_eq rfl, AtomsFound.result, refused] at found
  cases found

/-- The atoms that a value gives are those that are derived for its items. -/
theorem atoms_eq_ok_iff : v.atoms = .ok atoms ↔ Flattens v.items atoms := by
  refine ⟨fun found => ?_, atoms_of_flattens⟩
  obtain ⟨derived, flattens⟩ := flattens_of_forall fun item member =>
    item.flattens_of_not_holdsFunction (not_holdsFunction_of_atoms found item member)
  cases found.symm.trans (atoms_of_flattens flattens)
  exact flattens

theorem exists_atoms_iff : (∃ atoms, Flattens v.items atoms) ↔ ∀ item ∈ v.items, ¬ item.HoldsFunction :=
  ⟨fun ⟨_, flattens⟩ => not_holdsFunction_of_atoms (atoms_of_flattens flattens), fun none =>
    flattens_of_forall fun item member => item.flattens_of_not_holdsFunction (none item member)⟩

end ValueOf

/-- An item has the atoms that it has as a value of its own. -/
theorem ItemOf.atoms_of_flattens {item : ItemOf F} {atoms : List Atom} (flattens : Flattens [item] atoms) :
    item.atoms = .ok atoms := by
  have found : (ValueOf.one item).atoms = .ok atoms := ValueOf.atoms_of_flattens flattens
  rwa [ValueOf.atoms, ValueOf.addAtoms] at found

end QueryKernel
