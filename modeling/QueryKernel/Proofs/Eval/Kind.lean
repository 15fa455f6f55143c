import QueryKernel.Proofs.Eval.Always
import QueryKernel.Proofs.Value.Shaped

/-!
# Kinds of items and values

What evaluation does with values, as closure properties: a kind says which items, which values and
which builders belong to it, and a lawful kind has the values that are read from its values or put
together from its items.

Three things are wanted of results which have little in common: items of a class in values of the right shape,
nothing at all, and anything.  All that evaluation asks of them is below.
-/

namespace QueryKernel

/-- Some items, the values made of them, and the builders for such values. -/
structure Kind where
  item : Item → Prop
  value : Value → Prop
  builder : ValueBuilder Expr → Prop

namespace Kind

/-- Reading values of the kind gives items of the kind, and putting together items and values of the
kind gives values of the kind. -/
structure Lawful (k : Kind) : Prop where
  items : ∀ {v}, k.value v → ∀ item ∈ v.items, k.item item
  get? : ∀ {v i item}, k.value v → v.get? i = some item → k.item item
  walk : ∀ {v}, k.value v → ∀ n, v.walk.Gives k.item n
  empty : k.value .empty
  one : ∀ {item}, k.item item → k.value (.one item)
  range : ∀ {a b v}, (∀ n, k.item (.integer n)) → ValueOf.range? a b = some v → k.value v
  ofItems : ∀ {items}, (∀ item ∈ items, k.item item) → k.value (.ofItems items)
  reverse : ∀ {v}, k.value v → k.value v.reverse
  start : k.builder .empty
  addBack : ∀ {b item}, k.builder b → k.item item → k.builder (b.addBack item)
  addValue : ∀ {b v grown}, k.builder b → k.value v → b.addValueBounded v = .ok grown → k.builder grown
  freeze : ∀ {b}, k.builder b → k.value b.freeze

variable {k : Kind}

theorem Lawful.addAll (lawful : k.Lawful) {items : List Item} (all : ∀ item ∈ items, k.item item)
    {b : ValueBuilder Expr} (started : k.builder b) : k.builder (b.addAll items) := by
  unfold ValueBuilder.addAll
  induction items generalizing b with
  | nil => exact started
  | cons item rest rest_ih =>
      exact rest_ih (fun other member => all other (List.mem_cons_of_mem _ member))
        (lawful.addBack started (all item List.mem_cons_self))

theorem Lawful.collect (lawful : k.Lawful) {items : List Item} (all : ∀ item ∈ items, k.item item) :
    k.value (.collect items) := lawful.freeze (lawful.addAll all lawful.start)

theorem Lawful.valueOfOption (lawful : k.Lawful) {found : Option Item}
    (holds : ∀ item, found = some item → k.item item) : k.value (valueOfOption found) := by
  cases found with
  | none => exact lawful.empty
  | some item => exact lawful.one (holds item rfl)

/-! ## Values in shape -/

/-- Values in shape with items of a class. -/
def shaped (good : Item → Prop) : Kind where
  item := good
  value v := v.Shaped ∧ ∀ item ∈ v.items, good item
  builder b := ∃ items, b.Gathers items ∧ ∀ item ∈ items, good item

theorem shaped_addValue {good : Item → Prop} {b grown : ValueBuilder Expr} {v : Value}
    (started : (shaped good).builder b) (given : (shaped good).value v)
    (added : b.addValueBounded v = .ok grown) : (shaped good).builder grown := by
  obtain ⟨items, gathers, all⟩ := started
  refine ⟨_, gathers.addValueBounded given.1 added, fun item member => ?_⟩
  rcases List.mem_append.1 member with old | new
  · exact all item old
  · exact given.2 item new

theorem shaped_lawful (good : Item → Prop) : (shaped good).Lawful where
  items := fun given => given.2
  get? := by
    intro v i item given found
    rw [given.1.get?_eq] at found
    exact given.2 item (List.mem_of_getElem? found)
  walk := fun given n => given.1.walk_reads.gives given.2 n
  empty := ⟨trivial, fun _ member => by cases member⟩
  one := by
    intro item holds
    refine ⟨trivial, fun other member => ?_⟩
    rw [List.mem_singleton.1 member]
    exact holds
  range := by
    intro a b v integers made
    obtain ⟨valid, same⟩ := ValueOf.range?_holds made
    refine ⟨valid.shaped, fun item member => ?_⟩
    rw [same] at member
    obtain ⟨i, _, rfl⟩ := List.mem_map.1 member
    exact integers _
  ofItems := by
    intro items all
    obtain ⟨valid, same⟩ := ValueOf.ofItems_holds items
    exact ⟨valid.shaped, by rwa [same]⟩
  reverse := by
    intro v given
    obtain ⟨shaped, same⟩ := ValueOf.reverse_shaped v
    refine ⟨shaped, fun item member => given.2 item ?_⟩
    rw [same] at member
    exact List.mem_reverse.1 member
  start := ⟨[], ValueBuilder.empty_gathers, fun _ member => by cases member⟩
  addBack := by
    rintro b item ⟨items, gathers, all⟩ holds
    refine ⟨_, gathers.addBack item, fun other member => ?_⟩
    rcases List.mem_append.1 member with old | new
    · exact all other old
    · rw [List.mem_singleton.1 new]
      exact holds
  addValue := shaped_addValue
  freeze := by
    rintro b ⟨items, gathers, all⟩
    obtain ⟨shaped, same⟩ := gathers.freeze
    exact ⟨shaped, by rwa [same]⟩

/-! ## No items -/

/-- The empty sequence alone. -/
def nothing : Kind where
  item := fun _ => False
  value := (· = .empty)
  builder := (· = .empty)

theorem nothing_lawful : nothing.Lawful where
  items := by
    rintro v rfl item member
    cases member
  get? := by
    rintro v i item rfl found
    cases found
  walk := by
    rintro v rfl n
    cases n <;> trivial
  empty := rfl
  one := fun impossible => impossible.elim
  range := fun impossible _ => (impossible 0).elim
  ofItems := by
    intro items none
    cases items with
    | nil => rfl
    | cons item rest => exact (none item List.mem_cons_self).elim
  reverse := by
    rintro v rfl
    rfl
  start := rfl
  addBack := fun _ impossible => impossible.elim
  addValue := by
    rintro b v grown rfl rfl added
    cases added
    rfl
  freeze := by
    rintro b rfl
    rfl

/-! ## Anything -/

/-- All values. -/
def any : Kind := ⟨fun _ => True, fun _ => True, fun _ => True⟩

theorem any_lawful : any.Lawful where
  items := fun _ _ _ => trivial
  get? := fun _ _ => trivial
  walk := by
    intro v _ n
    generalize v.walk = w
    induction n generalizing w with
    | zero => trivial
    | succ n n_ih =>
        simp only [Walk.Gives]
        split
        · trivial
        · exact ⟨trivial, n_ih _⟩
  empty := trivial
  one := fun _ => trivial
  range := fun _ _ => trivial
  ofItems := fun _ => trivial
  reverse := fun _ => trivial
  start := trivial
  addBack := fun _ _ => trivial
  addValue := fun _ _ _ => trivial
  freeze := fun _ => trivial

end Kind

end QueryKernel
