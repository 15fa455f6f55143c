import Mathlib.Data.List.Forall2
import QueryKernel.Proofs.Value.Flatten

/-!
# Atomized values

The atoms of a value depend on its items alone: not on the shape in which it keeps them, nor on its tag, which
decides whether the value is shared, whether its items are counted without a look at them, or whether they are
gone through.

Each of these shortcuts is justified by the kinds of types.  What is below an atomic type is an atom as long as
functions are tagged as functions, and the types of collected atoms have an atomic type above all of them, so a
second atomization shares what the first one collected.
-/

namespace QueryKernel

variable {F : Type}

namespace ItemType

theorem isAtomic_of_isSubtype {t wider : ItemType} (le : t.isSubtype wider = true)
    (atomic : wider.isAtomic = true) : t.isAtomic = true := by
  obtain rfl | ⟨_, _, rfl, _⟩ | ⟨_, _, _, rfl⟩ | ⟨_, _, _, rfl⟩ := same_kind le <;> first | rfl | cases atomic

theorem isNode_of_isSubtype {t wider : ItemType} (le : t.isSubtype wider = true)
    (node : wider.isNode = true) : t.isNode = true := by
  obtain rfl | ⟨_, _, _, rfl⟩ | ⟨_, _, rfl, _⟩ | ⟨_, _, _, rfl⟩ := same_kind le <;> first | rfl | cases node

theorem isFunction_of_kind {t : ItemType} (function : t.isFunction = true) :
    t.isAtomic = false ∧ t.isNode = false := by
  cases t <;> first | exact ⟨rfl, rfl⟩ | cases function

end ItemType

/-! ## Collected tags -/

/-- The tag of collected items stays below every type that is above all of them. -/
theorem ValueBuilder.addAll_tag_below {bound : ItemType} {items : List (ItemOf F)}
    (below : ∀ item ∈ items, item.type.isSubtype bound = true) (b : ValueBuilder F)
    (before : ∀ tag, b.tag? = some tag → tag.type.isSubtype bound = true) :
    ∀ tag, (b.addAll items).tag? = some tag → tag.type.isSubtype bound = true := by
  unfold addAll
  induction items generalizing b with
  | nil => exact before
  | cons item rest rest_ih =>
      have first := below item List.mem_cons_self
      refine rest_ih (fun other member => below other (List.mem_cons_of_mem _ member)) (b.addBack item)
        fun tag tracked => ?_
      rw [addBack] at tracked
      cases known : b.tag? with
      | none =>
          rw [known] at tracked
          cases tracked
          exact first
      | some old =>
          rw [known] at tracked
          cases tracked
          exact ItemType.union_isSubtype (before old known) first

namespace ValueOf

theorem collect_below {bound : ItemType} {items : List (ItemOf F)}
    (below : ∀ item ∈ items, item.type.isSubtype bound = true) (inhabited : items ≠ []) :
    (collect items).type.isSubtype bound = true := by
  have collects := ValueBuilder.empty_collects.addAll items
  have tagged := ValueBuilder.addAll_tag_below below .empty fun _ none => by cases none
  obtain ⟨-, same⟩ := collects.buffer.freeze_holds
  replace same := same.trans collects.items_eq
  rw [collect, ValueBuilder.freeze]
  cases known : (ValueBuilder.empty.addAll items).tag? with
  | none =>
      have tracks := collects.tracks
      rw [known] at tracks
      exact (inhabited tracks).elim
  | some tag =>
      have belowTag := tagged tag known
      cases bundle : (ValueBuilder.empty.addAll items).buffer.freeze with
      | rope r => exact belowTag
      | flat few =>
          rw [bundle] at same
          obtain rfl : few = items := same
          match few with
          | [] => exact (inhabited rfl).elim
          | [item] => exact below item List.mem_cons_self
          | _ :: _ :: _ => exact belowTag

end ValueOf

/-! ## Items by their tags -/

namespace ItemOf

/-- A function, map or array carries a type of functions. -/
def Tagged (item : ItemOf F) : Prop := item.isFunction = true → item.type.isFunction = true

variable {item : ItemOf F}

theorem Tagged.kind (tagged : item.Tagged) :
    (∃ a, item = .atom a) ∨ (∃ n, item = .node n) ∨ item.type.isAtomic = false ∧ item.type.isNode = false := by
  cases item with
  | atom a => exact .inl ⟨a, rfl⟩
  | node n => exact .inr (.inl ⟨n, rfl⟩)
  | function f | map identity entries type | array identity members type =>
      exact .inr (.inr (ItemType.isFunction_of_kind (tagged rfl)))

theorem Tagged.eq_atom (tagged : item.Tagged) (atomic : item.type.isAtomic = true) : ∃ a, item = .atom a := by
  obtain atom | ⟨n, rfl⟩ | ⟨other, -⟩ := tagged.kind
  · exact atom
  · cases atomic
  · cases other.symm.trans atomic

theorem Tagged.eq_node (tagged : item.Tagged) (node : item.type.isNode = true) : ∃ n, item = .node n := by
  obtain ⟨a, rfl⟩ | isNode | ⟨-, other⟩ := tagged.kind
  · cases node
  · exact isNode
  · cases other.symm.trans node

end ItemOf

/-- Items of atomic types are their own atoms. -/
theorem exists_atoms_of_isAtomic {items : List (ItemOf F)} (tagged : ∀ item ∈ items, item.Tagged)
    (atomic : ∀ item ∈ items, item.type.isAtomic = true) : ∃ atoms : List Atom, items = atoms.map .atom := by
  induction items with
  | nil => exact ⟨[], rfl⟩
  | cons item rest rest_ih =>
      obtain ⟨others, rfl⟩ := rest_ih (fun other member => tagged other (List.mem_cons_of_mem _ member))
        fun other member => atomic other (List.mem_cons_of_mem _ member)
      obtain ⟨a, rfl⟩ := (tagged item List.mem_cons_self).eq_atom (atomic item List.mem_cons_self)
      exact ⟨a :: others, rfl⟩

/-! ## How many atoms -/

/-- The number of atoms of items, counting one for a function or a map. -/
def atomCounts : List (ItemOf F) → Nat
  | [] => 0
  | item :: rest => item.atomCount + atomCounts rest

theorem atomCounts_append (items items' : List (ItemOf F)) :
    atomCounts (items ++ items') = atomCounts items + atomCounts items' := by
  induction items with
  | nil => simp [atomCounts]
  | cons item rest rest_ih => simp only [List.cons_append, atomCounts, rest_ih, Nat.add_assoc]

theorem atomCounts_of_each_one {items : List (ItemOf F)} (one : ∀ item ∈ items, item.atomCount = 1) :
    atomCounts items = items.length := by
  induction items with
  | nil => rfl
  | cons item rest rest_ih =>
      rw [atomCounts, one item List.mem_cons_self,
        rest_ih fun other member => one other (List.mem_cons_of_mem _ member), List.length_cons, Nat.add_comm]

theorem atomCounts_eq_foldr (items : List (ItemOf F)) :
    (items.map ItemOf.atomCount).foldr (· + ·) 0 = atomCounts items := by
  induction items with
  | nil => rfl
  | cons item rest rest_ih => exact congrArg _ rest_ih

theorem ItemOf.atomCount_atom (a : Atom) : (atom a : ItemOf F).atomCount = 1 := by
  rw [atomCount]
  rintro _ _ _ ⟨⟩

theorem ItemOf.atomCount_node (n : Node) : (node n : ItemOf F).atomCount = 1 := by
  rw [atomCount]
  rintro _ _ _ ⟨⟩

theorem ValueOf.atomTotal_eq (v : ValueOf F) : v.atomTotal = atomCounts v.items := by
  cases v with
  | empty => rw [atomTotal]; rfl
  | one item => rw [atomTotal]; rfl
  | flat items tag | tree rope tag =>
      rw [atomTotal, ← atomCounts_eq_foldr]
      exact congrArg (List.foldr (· + ·) 0) (List.attach_map_val (f := ItemOf.atomCount))
  | range r =>
      rw [atomTotal, items_range, atomCounts_of_each_one, length_integersFrom]
      intro item member
      obtain ⟨i, _, rfl⟩ := List.mem_map.1 member
      exact ItemOf.atomCount_atom _

theorem ItemOf.atomCount_array (identity : Nat) (members : List (ValueOf F)) (type : ItemType) :
    (array identity members type).atomCount = atomCounts (members.flatMap (·.items)) := by
  have counted : (array identity members type).atomCount =
      (members.map ValueOf.atomTotal).foldr (· + ·) 0 := by
    rw [atomCount]
    exact congrArg (List.foldr (· + ·) 0) (List.attach_map_val (f := ValueOf.atomTotal))
  rw [counted]
  clear counted
  induction members with
  | nil => rfl
  | cons member rest rest_ih =>
      rw [List.map_cons, List.foldr_cons, List.flatMap_cons, atomCounts_append, rest_ih, member.atomTotal_eq]

/-- As many atoms are predicted as there are. -/
theorem Flattens.length_eq {items : List (ItemOf F)} {atoms : List Atom} (flattens : Flattens items atoms) :
    atomCounts items = atoms.length := by
  induction flattens with
  | nil => rfl
  | atom a _ others_ih => rw [atomCounts, ItemOf.atomCount_atom, others_ih, List.length_cons, Nat.add_comm]
  | node n _ others_ih => rw [atomCounts, ItemOf.atomCount_node, others_ih, List.length_cons, Nat.add_comm]
  | array _ _ inside_ih others_ih =>
      rw [atomCounts, ItemOf.atomCount_array, inside_ih, others_ih, List.length_append]

namespace ValueOf

variable {v w : ValueOf F} {atoms : List Atom}

/-- The shortcut for ropes counts what the walk through the items counts. -/
theorem Valid.atomCount_eq (valid : v.Valid) (tagged : ∀ item ∈ v.items, item.Tagged) :
    v.atomCount = atomCounts v.items := by
  cases v with
  | empty | one item | flat items tag => exact atomTotal_eq _
  | range r =>
      rw [← atomTotal_eq, atomTotal]
      rfl
  | tree rope tag =>
      rw [atomCount]
      split
      · next shortcut =>
          rw [← size, valid.size_eq, atomCounts_of_each_one]
          intro item member
          have below := valid.covers.above item member
          rcases Bool.or_eq_true _ _ ▸ shortcut with atomic | node
          · obtain ⟨a, rfl⟩ := (tagged item member).eq_atom (ItemType.isAtomic_of_isSubtype below atomic)
            exact ItemOf.atomCount_atom a
          · obtain ⟨n, rfl⟩ := (tagged item member).eq_node (ItemType.isNode_of_isSubtype below node)
            exact ItemOf.atomCount_node n
      · exact atomTotal_eq _

/-! ## The atomized value -/

/-- A value of atoms with an atomic type is its own. -/
theorem Valid.atomize_self (valid : v.Valid) (items : v.items = atoms.map .atom)
    (atomic : v.items ≠ [] → v.type.isAtomic = true) : v.atomize = .ok v := by
  cases v with
  | empty | range r => rfl
  | one item =>
      cases atoms with
      | nil => cases items
      | cons a rest =>
          obtain rfl := (List.cons.inj items).1
          rfl
  | flat items tag | tree rope tag =>
      exact if_pos (atomic fun none => by cases valid.isEmpty_iff.2 none)

/-- The value is shared where its items are atoms, or its atoms are collected. -/
theorem Valid.atomize_cases (valid : v.Valid) (tagged : ∀ item ∈ v.items, item.Tagged) :
    (v.atomize = .ok v ∧ (v.items ≠ [] → v.type.isAtomic = true) ∧ ∃ atoms : List Atom, v.items = atoms.map .atom) ∨
      v.atomize = v.atoms.map fun atoms => collect (atoms.map .atom) := by
  have shared : v.type.isAtomic = true → ∃ atoms : List Atom, v.items = atoms.map .atom := fun atomic =>
    exists_atoms_of_isAtomic tagged fun item member =>
      ItemType.isAtomic_of_isSubtype (valid.covers.above item member) atomic
  cases v with
  | empty => exact .inl ⟨rfl, fun inhabited => (inhabited rfl).elim, [], rfl⟩
  | range r => exact .inl ⟨rfl, fun _ => rfl, shared rfl⟩
  | one item =>
      cases item with
      | atom a => exact .inl ⟨rfl, fun _ => rfl, [a], rfl⟩
      | node n | function f | map identity entries type | array identity members type => exact .inr rfl
  | flat items tag | tree rope tag =>
      cases atomic : tag.type.isAtomic with
      | true => exact .inl ⟨if_pos atomic, fun _ => atomic, shared atomic⟩
      | false => exact .inr (if_neg (by simp [atomic]))

/-- What atomization gives holds the atoms, under an atomic type. -/
theorem Valid.atomize_holds (valid : v.Valid) (tagged : ∀ item ∈ v.items, item.Tagged) (made : v.atomize = .ok w) :
    ∃ atoms, Flattens v.items atoms ∧ w.Holds (atoms.map .atom) ∧ (w.items ≠ [] → w.type.isAtomic = true) := by
  obtain ⟨shared, atomic, atoms, items⟩ | collected := valid.atomize_cases tagged
  · cases shared.symm.trans made
    exact ⟨atoms, items ▸ flattens_atoms atoms, ⟨valid, items⟩, atomic⟩
  · rw [collected] at made
    cases found : v.atoms with
    | error cause => rw [found] at made; cases made
    | ok atoms =>
        rw [found] at made
        cases made
        have holds := collect_holds (atoms.map .atom : List (ItemOf F))
        refine ⟨atoms, atoms_eq_ok_iff.1 found, holds, fun inhabited => ?_⟩
        have below : ∀ item ∈ (atoms.map .atom : List (ItemOf F)), item.type.isSubtype .anyAtomic = true := by
          intro item member
          obtain ⟨a, _, rfl⟩ := List.mem_map.1 member
          exact ItemType.atomic_le_anyAtomic _
        exact ItemType.isAtomic_of_isSubtype (collect_below below (holds.2 ▸ inhabited)) rfl

theorem Valid.exists_atomize (valid : v.Valid) (tagged : ∀ item ∈ v.items, item.Tagged)
    (flattens : Flattens v.items atoms) : ∃ w, v.atomize = .ok w := by
  obtain ⟨shared, -⟩ | collected := valid.atomize_cases tagged
  · exact ⟨v, shared⟩
  · rw [collected, atoms_of_flattens flattens]
    exact ⟨_, rfl⟩

end ValueOf

/-! ## Equal items -/

/-- What handles of one item have in common, whatever their type tags are. -/
def ItemOf.SameContent : ItemOf F → ItemOf F → Prop
  | node m, node n => m.stringValue = n.stringValue
  | array _ members _, array _ members' _ => members = members'
  | _, _ => True

/-- The items are the same, pair by pair.  Not-a-number is not the same as itself, but it is equal. -/
def ValueOf.Equal (v w : ValueOf F) : Prop :=
  List.Forall₂ (fun i j => i = j ∨ i.same j = true) v.items w.items

namespace ItemOf

theorem eq_atom_of_same {a : Atom} {j : ItemOf F} (equal : atom a = j ∨ (atom a).same j = true) :
    ∃ b, j = atom b ∧ (a = b ∨ a.identical b = true) := by
  obtain rfl | same := equal
  · exact ⟨a, rfl, .inl rfl⟩
  · cases j with
    | atom b => exact ⟨b, rfl, .inr same⟩
    | _ => cases same

theorem eq_node_of_same {n : Node} {j : ItemOf F} (equal : node n = j ∨ (node n).same j = true)
    (content : (node n).same j = true → (node n).SameContent j) :
    ∃ m, j = node m ∧ n.stringValue = m.stringValue := by
  obtain rfl | same := equal
  · exact ⟨n, rfl, rfl⟩
  · cases j with
    | node m => exact ⟨m, rfl, content same⟩
    | _ => cases same

theorem eq_array_of_same {identity : Nat} {members : List (ValueOf F)} {type : ItemType} {j : ItemOf F}
    (equal : array identity members type = j ∨ (array identity members type).same j = true)
    (content : (array identity members type).same j = true → (array identity members type).SameContent j) :
    ∃ identity' type', j = array identity' members type' := by
  obtain rfl | same := equal
  · exact ⟨identity, type, rfl⟩
  · cases j with
    | array identity' members' type' =>
        obtain rfl : members = members' := content same
        exact ⟨identity', type', rfl⟩
    | _ => cases same

end ItemOf

/-- Equal items have equal atoms. -/
theorem Flattens.of_equal {items items' : List (ItemOf F)} {atoms : List Atom} (flattens : Flattens items atoms)
    (equal : List.Forall₂ (fun i j => i = j ∨ i.same j = true) items items')
    (contents : ∀ i ∈ items, ∀ j ∈ items', i.same j = true → i.SameContent j) :
    ∃ atoms', Flattens items' atoms' ∧ List.Forall₂ (fun a b => a = b ∨ a.identical b = true) atoms atoms' := by
  have remaining {i j : ItemOf F} {rest rest' : List (ItemOf F)}
      (contents : ∀ i' ∈ i :: rest, ∀ j' ∈ j :: rest', i'.same j' = true → i'.SameContent j') :
      ∀ i' ∈ rest, ∀ j' ∈ rest', i'.same j' = true → i'.SameContent j' := fun _ inFirst _ inSecond =>
    contents _ (List.mem_cons_of_mem _ inFirst) _ (List.mem_cons_of_mem _ inSecond)
  induction flattens generalizing items' with
  | nil =>
      cases equal
      exact ⟨[], .nil, .nil⟩
  | atom a _ others_ih =>
      cases equal with
      | cons first rest =>
          obtain ⟨atoms', others, pairs⟩ := others_ih rest (remaining contents)
          obtain ⟨b, rfl, same⟩ := ItemOf.eq_atom_of_same first
          exact ⟨_, .atom b others, .cons same pairs⟩
  | node n _ others_ih =>
      cases equal with
      | cons first rest =>
          obtain ⟨atoms', others, pairs⟩ := others_ih rest (remaining contents)
          obtain ⟨m, rfl, text⟩ :=
            ItemOf.eq_node_of_same first (contents _ List.mem_cons_self _ List.mem_cons_self)
          exact ⟨_, .node m others, .cons (.inl (congrArg Atom.untyped text)) pairs⟩
  | array inside _ _ others_ih =>
      cases equal with
      | cons first rest =>
          obtain ⟨atoms', others, pairs⟩ := others_ih rest (remaining contents)
          -- Arrays with the same content have the same atoms inside.
          obtain ⟨identity, type, rfl⟩ :=
            ItemOf.eq_array_of_same first (contents _ List.mem_cons_self _ List.mem_cons_self)
          exact ⟨_, .array inside others, List.rel_append (List.forall₂_same.2 fun _ _ => .inl rfl) pairs⟩

namespace ValueOf

variable {v : ValueOf F}

/-- A value can be atomized exactly if no function or map is in it or in its arrays at any depth.  What it gives
are the atoms from left to right, nothing but atoms, and as many as predicted; another atomization changes
nothing; and a value with equal items gives equal atoms, whatever its shape and its tag. -/
theorem atomize_flattens (valid : v.Valid) (tagged : ∀ item ∈ v.items, item.Tagged) :
    ((∃ w, v.atomize = .ok w) ↔ ∀ item ∈ v.items, ¬ item.HoldsFunction) ∧
      ∀ w, v.atomize = .ok w →
        (∃ atoms : List Atom, w.items = atoms.map .atom) ∧
        (∀ atoms, Flattens v.items atoms ↔ w.items = atoms.map .atom) ∧
        w.items.length = v.atomCount ∧
        w.atomize = .ok w ∧
        ∀ v' : ValueOf F, v'.Valid → (∀ item ∈ v'.items, item.Tagged) → v.Equal v' →
          (∀ i ∈ v.items, ∀ j ∈ v'.items, i.same j = true → i.SameContent j) →
          ∃ w', v'.atomize = .ok w' ∧ w.Equal w' := by
  constructor
  · constructor
    · rintro ⟨w, made⟩
      obtain ⟨atoms, flattens, -⟩ := valid.atomize_holds tagged made
      exact exists_atoms_iff.1 ⟨atoms, flattens⟩
    · intro none
      obtain ⟨atoms, flattens⟩ := exists_atoms_iff.2 none
      exact valid.exists_atomize tagged flattens
  intro w made
  obtain ⟨atoms, flattens, ⟨validAtoms, items⟩, atomic⟩ := valid.atomize_holds tagged made
  refine ⟨⟨atoms, items⟩, fun others => ?_, ?_, validAtoms.atomize_self items atomic, ?_⟩
  · -- Both what is derived and what is collected are the atoms found.
    rw [← atoms_eq_ok_iff, atoms_of_flattens flattens, items, Except.ok.injEq]
    exact ⟨fun same => same ▸ rfl, fun same => List.map_injective_iff.2 (fun _ _ => ItemOf.atom.inj) same⟩
  · rw [valid.atomCount_eq tagged, flattens.length_eq, items, List.length_map]
  · intro v' valid' tagged' equal contents
    obtain ⟨atoms', flattens', pairs⟩ := flattens.of_equal equal contents
    obtain ⟨w', made'⟩ := valid'.exists_atomize tagged' flattens'
    obtain ⟨found, derived, ⟨-, items'⟩, -⟩ := valid'.atomize_holds tagged' made'
    obtain rfl : found = atoms' :=
      Except.ok.inj ((atoms_of_flattens derived).symm.trans (atoms_of_flattens flattens'))
    refine ⟨w', made', ?_⟩
    rw [Equal, items, items', List.forall₂_map_left_iff, List.forall₂_map_right_iff]
    exact pairs.imp fun a b same => same.imp (congrArg ItemOf.atom) id

/-- A range in an array in an array, then a string. -/
theorem atomize_flattens_nested :
    let inner : ItemOf Unit := .array 1 [.range ⟨1, 3⟩, .empty] (.function .array)
    let v : ValueOf Unit := .flat [.array 0 [.empty, .one inner] (.function .array), .atom (.string "x")] ⟨.item, false⟩
    v.Valid ∧ (∀ item ∈ v.items, item.Tagged) ∧
      ∃ w, v.atomize = .ok w ∧ w.items = [.integer 1, .integer 2, .integer 3, .atom (.string "x")] ∧
        w.items.length = v.atomCount ∧ w.atomize = .ok w := by
  intro inner v
  have valid : v.Valid :=
    ⟨by decide, by decide, ⟨fun item _ => ItemType.isSubtype_item _, fun exact => by cases exact⟩⟩
  have tagged : ∀ item ∈ v.items, item.Tagged := by
    simp [v, ValueOf.items, ItemOf.Tagged, ItemOf.isFunction, ItemOf.type, ItemType.isFunction]
  have integers : Flattens ([.range ⟨1, 3⟩, .empty].flatMap fun member : ValueOf Unit => member.items)
      [.integer 1, .integer 2, .integer 3] :=
    flattens_atoms [.integer 1, .integer 2, .integer 3]
  have inside : Flattens ([.empty, .one inner].flatMap fun member : ValueOf Unit => member.items)
      [.integer 1, .integer 2, .integer 3] :=
    .array integers .nil
  have flattens : Flattens v.items [.integer 1, .integer 2, .integer 3, .string "x"] :=
    .array inside (.atom (.string "x") .nil)
  obtain ⟨succeeds, results⟩ := atomize_flattens valid tagged
  obtain ⟨w, made⟩ := succeeds.2 (exists_atoms_iff.1 ⟨_, flattens⟩)
  obtain ⟨-, found, count, again, -⟩ := results w made
  exact ⟨valid, tagged, w, made, (found _).1 flattens, count, again⟩

end ValueOf

end QueryKernel
