import QueryKernel.Proofs.Eval.Sound

/-!
# Operations keep contexts sound

One lemma for each operation that the meanings of expressions are put together from, other than calls
of function items.
-/

namespace QueryKernel

variable {declared : Declarations} {good : Item → Prop}

open Modes (KeepsSound)

namespace Modes

variable {m : Modes} {location : Option Location}

/-! ## Coercions -/

theorem longOf_keeps (a : Atom) : KeepsSound declared good (fun _ => True) (m.longOf a) := by
  unfold longOf
  split
  · exact .pure trivial
  · split
    · exact .pure trivial
    · exact .raise
  · exact .raise

theorem Sound.toLong? (sound : m.Sound declared good) :
    KeepsSound declared good (fun _ => True) m.toLong? := by
  refine sound.atomItem.bind fun found _ => ?_
  cases found with
  | none => exact .pure trivial
  | some a => exact (longOf_keeps a).bind fun _ _ => .pure trivial

theorem Sound.toText (sound : m.Sound declared good) :
    KeepsSound declared good (fun _ => True) m.toText := by
  have expected : KeepsSound declared good (fun _ => True) (m.expectAtom (.atomic .string)) :=
    sound.atomItem.bind fun _ _ => present_keeps fun _ _ => trivial
  refine expected.bind fun a _ => ?_
  split
  · exact .pure trivial
  · exact .pure trivial
  · exact .pure trivial
  · exact .raise

theorem Sound.toCallee (sound : m.Sound declared good) :
    KeepsSound declared good good m.toCallee := by
  refine sound.item.bind fun found holds => (present_keeps holds).bind fun item given => ?_
  split
  · exact .pure given
  · exact .raise

end Modes

/-! ## Atoms and ranges -/

theorem onAtoms_keeps (closed : ItemClass good) {a b : Modes} {location : Option Location}
    {operation : Atom → Atom → Except AtomError Item} (left : a.Sound declared good)
    (right : b.Sound declared good)
    (atomic : ∀ x y item, operation x y = .ok item → ∃ z, item = .atom z) :
    KeepsSound declared good (fun found => ∀ item, found = some item → good item)
      (onAtoms a b location operation) := by
  refine left.atomItem.bind fun x _ => ?_
  cases x with
  | none => exact .pure fun _ none => by cases none
  | some x =>
      refine right.atomItem.bind fun y _ => ?_
      cases y with
      | none => exact .pure fun _ none => by cases none
      | some y =>
          refine .map (P := good) (.ofExcept fun item made => ?_) fun item holds other same => ?_
          · cases result : operation x y with
            | ok made' =>
                rw [result] at made
                cases made
                obtain ⟨z, rfl⟩ := atomic x y item result
                exact closed.atom z
            | error e =>
                rw [result] at made
                cases made
          · cases same
            exact holds

theorem good_integers (closed : ItemClass good) (first : Int64) (count : Nat) :
    ∀ item ∈ (integersFrom first count : List Item), good item := by
  intro item member
  obtain ⟨i, _, rfl⟩ := List.mem_map.1 member
  exact closed.atom _

theorem rangeValue_keeps (closed : ItemClass good) {first last : Modes}
    {location : Option Location} (low : first.Sound declared good) (high : last.Sound declared good) :
    KeepsSound declared good (ValueOf.Good good) (rangeValue first last location) := by
  refine low.toLong?.bind fun a _ => ?_
  cases a with
  | none => exact .pure ValueOf.good_empty
  | some a =>
      refine high.toLong?.bind fun b _ => ?_
      cases b with
      | none => exact .pure ValueOf.good_empty
      | some b =>
          dsimp only
          split
          · next v made =>
              exact .pure ((ValueOf.range?_holds made).allGood (good_integers closed _ _))
          · exact .raise

/-! ## Lists and filters -/

theorem addValueBounded_collects {b grown : ValueBuilder Expr} {items : List Item} {v : Value}
    (collects : b.Collects items) (valid : v.Valid) (added : b.addValueBounded v = .ok grown) :
    grown.Collects (items ++ v.items) ∧ (items ++ v.items).length ≤ maxSize := by
  have joined := collects.addValue valid
  simp only [ValueBuilder.addValueBounded] at added
  split at added
  · next fits =>
      cases added
      rw [joined.size_eq] at fits
      exact ⟨joined, fits⟩
  · cases added

/-- A builder that holds items of the class. -/
def ValueBuilder.Good (good : Item → Prop) (b : ValueBuilder Expr) : Prop :=
  ∃ items, b.Collects items ∧ ∀ item ∈ items, good item

theorem ValueBuilder.good_empty : ValueBuilder.Good good .empty :=
  ⟨[], empty_collects, fun _ member => by cases member⟩

theorem ValueBuilder.Good.freeze {b : ValueBuilder Expr} (holds : b.Good good) :
    b.freeze.Good good := by
  obtain ⟨items, collects, all⟩ := holds
  exact collects.freeze_holds.allGood all

theorem listValue_keeps {operands : List Modes} (sound : ∀ m ∈ operands, m.Sound declared good) :
    KeepsSound declared good (ValueOf.Good good) (listValue operands) := by
  refine .bind (P := ValueBuilder.Good good) (.foldList ValueBuilder.good_empty ?_)
    fun b holds => .pure holds.freeze
  rintro b ⟨items, collects, all⟩ m member
  refine Eval.Keeps.checkStop.bind fun _ _ => (sound m member).value.bind fun v given => ?_
  refine .ofFaulty fun grown added => ?_
  refine ⟨_, (addValueBounded_collects collects given.1 added).1, fun item inBoth => ?_⟩
  rcases List.mem_append.1 inBoth with old | new
  · exact all item old
  · exact given.2 item new

theorem itemAt_eq_ok {v : Value} {i : Nat} {item : Item} (found : v.itemAt i = .ok item) :
    v.get? i = some item := by
  unfold ValueOf.itemAt at found
  split at found
  · next looked =>
      cases found
      exact looked
  · cases found

theorem ok_of_ite {E A : Type} {p : Prop} [Decidable p] {yes no : Except E A} {a : A}
    (made : (if p then yes else no) = .ok a) : yes = .ok a ∨ no = .ok a := by
  split at made
  · exact .inl made
  · exact .inr made

/-- A selected position gives an item of the value or nothing. -/
theorem selectPosition_spec {v w : Value} {position : BinaryFloat}
    (selected : selectPosition v position = .ok w) :
    w = .empty ∨ ∃ i item, v.get? i = some item ∧ w = .one item := by
  rcases ok_of_ite selected with inside | outside
  · generalize min (position.toInt?.getD 0).toNat maxSize - 1 = i at inside
    cases found : v.itemAt i with
    | error fault =>
        rw [found] at inside
        cases inside
    | ok item =>
        rw [found] at inside
        cases inside
        exact .inr ⟨i, item, itemAt_eq_ok found, rfl⟩
  · cases outside
    exact .inl rfl

/-- Some items of a value, in the same order. -/
def ValueOf.Selects (v w : Value) : Prop := w.Valid ∧ w.items.Sublist v.items

theorem ValueOf.Selects.keepsGood {v w : Value} (selects : v.Selects w) (holds : v.Good good) :
    w.Good good :=
  ⟨selects.1, fun item member => holds.2 item (selects.2.subset member)⟩

/-- A selected position gives at most one item. -/
theorem selectPosition_selects {v w : Value} {position : BinaryFloat} (valid : v.Valid)
    (selected : selectPosition v position = .ok w) : v.Selects w ∧ w.items.length ≤ 1 := by
  rcases selectPosition_spec selected with rfl | ⟨i, item, found, rfl⟩
  · exact ⟨⟨trivial, List.nil_sublist _⟩, Nat.zero_le _⟩
  · rw [valid.get?_eq] at found
    exact ⟨⟨trivial, List.singleton_sublist.2 (List.mem_of_getElem? found)⟩, Nat.le_refl 1⟩

/-- The items that pass a predicate are added to those chosen before. -/
theorem selectFrom_keeps {predicate : Modes} (sound : predicate.Sound declared good) (size : Nat)
    {rest : List Item} (all : ∀ item ∈ rest, good item) (chosen : List Item)
    (builder : ValueBuilder Expr) (position : Nat) (collects : builder.Collects chosen) :
    KeepsSound declared good
      (fun state => ∃ items, state.1.Collects items ∧ items.Sublist (chosen ++ rest))
      (Eval.foldList (fun (state : ValueBuilder Expr × Nat) item => do
        let (builder, position) := state
        Eval.checkStop
        Eval.change fun c => { c with focus := ⟨some (.one item), position, size⟩ }
        let held ← predicate.test
        pure (if held.isSome then builder.addBack item else builder, position + 1))
        (builder, position) rest) := by
  induction rest generalizing chosen builder position with
  | nil => exact .pure ⟨chosen, collects, List.sublist_append_left chosen []⟩
  | cons item rest rest_ih =>
      rw [Eval.foldList_cons]
      have others := rest_ih fun other member => all other (List.mem_cons_of_mem _ member)
      -- After one item the builder holds what it held before, with or without the item.
      refine .bind (P := fun state => state.2 = position + 1 ∧
        (state.1.Collects chosen ∨ state.1.Collects (chosen ++ [item]))) ?_ ?_
      · refine Eval.Keeps.checkStop.bind fun _ _ => ?_
        refine .bind (P := fun _ => True) (.change (fun c inv => inv.withFocus ?_) trivial) fun _ _ => ?_
        · rintro w same
          cases same
          exact ValueOf.good_one (all item List.mem_cons_self)
        · refine sound.test.bind fun held _ => .pure ⟨rfl, ?_⟩
          dsimp only
          split
          · exact .inr (collects.addBack item)
          · exact .inl collects
      · rintro ⟨builder, next⟩ ⟨same, skipped | added⟩
        · cases same
          refine (others _ _ _ skipped).mono ?_
          rintro state ⟨items, gathered, part⟩
          exact ⟨items, gathered, part.trans ((List.sublist_cons_self item rest).append_left chosen)⟩
        · cases same
          refine (others _ _ _ added).mono ?_
          rintro state ⟨items, gathered, part⟩
          rw [List.append_assoc] at part
          exact ⟨items, gathered, part⟩

theorem selectWhere_keeps {v : Value} {predicate : Modes} (holds : v.Good good)
    (sound : predicate.Sound declared good) :
    KeepsSound declared good v.Selects (selectWhere v predicate) := by
  unfold selectWhere
  rw [Eval.foldValue_eq _ holds.1]
  refine (selectFrom_keeps sound v.size holds.2 _ _ 1 ValueBuilder.empty_collects).bind ?_
  rintro state ⟨items, collects, part⟩
  obtain ⟨valid, same⟩ := collects.freeze_holds
  exact .pure ⟨valid, by rwa [same]⟩

/-- The items of a value that pass some predicates, one after another. -/
def passAll (predicates : List (Option BinaryFloat × Modes)) (v : Value) : Eval Value :=
  Eval.foldList (fun v (position, predicate) => match position with
    | some p => Eval.ofFaulty (selectPosition v p)
    | none => selectWhere v predicate) v predicates

section Predicates

variable {predicates : List (Option BinaryFloat × Modes)}
  (conditions : ∀ p ∈ predicates, p.2.Sound declared good)

include conditions

theorem passAll_keeps {v : Value} (holds : v.Good good) :
    KeepsSound declared good v.Selects (passAll predicates v) := by
  refine .foldList ⟨holds.1, List.Sublist.refl _⟩ ?_
  rintro w selects ⟨position, predicate⟩ member
  cases position with
  | none =>
      refine (selectWhere_keeps (selects.keepsGood holds) (conditions _ member)).mono fun u given => ?_
      exact ⟨given.1, given.2.trans selects.2⟩
  | some p =>
      refine .ofFaulty fun u selected => ?_
      obtain ⟨given, _⟩ := selectPosition_selects selects.1 selected
      exact ⟨given.1, given.2.trans selects.2⟩

/-- One position among the predicates leaves at most one item. -/
theorem passAll_positional {v : Value} (holds : v.Good good)
    (few : v.items.length ≤ 1 ∨ ∃ p ∈ predicates, p.1.isSome = true) :
    KeepsSound declared good (fun w => w.items.length ≤ 1) (passAll predicates v) := by
  induction predicates generalizing v with
  | nil =>
      rcases few with short | ⟨p, impossible, _⟩
      · exact .pure short
      · cases impossible
  | cons first rest rest_ih =>
      obtain ⟨position, predicate⟩ := first
      have others := fun {w : Value} =>
        rest_ih (fun p member => conditions p (List.mem_cons_of_mem _ member)) (v := w)
      cases position with
      | none =>
          refine (selectWhere_keeps holds (conditions _ List.mem_cons_self)).bind fun w selects => ?_
          refine others (selects.keepsGood holds) ?_
          rcases few with short | ⟨p, member, positional⟩
          · exact .inl (Nat.le_trans selects.2.length_le short)
          · rcases List.mem_cons.1 member with rfl | later
            · cases positional
            · exact .inr ⟨p, later, positional⟩
      | some p =>
          -- A number selects one item at most, and later predicates only take items away.
          refine .bind (P := fun w => v.Selects w ∧ w.items.length ≤ 1)
            (.ofFaulty fun w selected => selectPosition_selects holds.1 selected) fun w selected => ?_
          exact others (selected.1.keepsGood holds) (.inl selected.2)

omit conditions in
/-- What the predicates make of a base holds of the whole; the focus is restored. -/
theorem filterValue_keeps {P Q : Value → Prop} {base : Modes}
    (input : KeepsSound declared good P base.value)
    (filtered : ∀ v, P v → KeepsSound declared good Q (passAll predicates v)) :
    KeepsSound declared good Q (filterValue base predicates) := by
  refine input.bind fun v holds => Eval.Keeps.context.bind fun saved inv => ?_
  intro c w c' inv' ran
  change ((passAll predicates v c).1, { (passAll predicates v c).2 with focus := saved.focus }) =
    (.ok w, c') at ran
  cases ended : passAll predicates v c with
  | mk result c₁ =>
      rw [ended] at ran
      cases ran
      obtain ⟨inv₁, given⟩ := filtered v holds c w c₁ inv' ended
      exact ⟨inv₁.withFocus inv.focus, given⟩

end Predicates

/-! ## Focus, variables and updates -/

theorem contextValue_keeps {description : String} {location : Option Location} :
    KeepsSound declared good (ValueOf.Good good) (contextValue description location) := by
  refine Eval.Keeps.context.bind fun c inv => ?_
  split
  · next v found => exact .pure (inv.focus v found)
  · exact .raise

theorem rootValue_keeps (closed : ItemClass good) {location : Option Location} :
    KeepsSound declared good (ValueOf.Good good) (rootValue location) := by
  refine contextValue_keeps.bind fun v _ => Eval.Keeps.context.bind fun c _ => ?_
  split
  · next roots _ =>
      refine .pure ((ValueOf.ofItems_holds _).allGood fun item member => ?_)
      obtain ⟨n, _, rfl⟩ := List.mem_map.1 member
      exact closed.node n
  · exact .raise

theorem variableValue_keeps {var : Variable} {location : Option Location} :
    KeepsSound declared good (fun v => v.Good good ∧
      ∀ type, declared var.id = some type → type.occurrence.allows v.size = true)
      (variableValue var location) := by
  refine Eval.Keeps.context.bind fun c inv => ?_
  split
  · next v found => exact .pure ⟨inv.value _ v found, inv.fits _ v found⟩
  · exact .raise

/-- A value that passes the check of a declaration has an allowed size. -/
theorem checkDeclared_allows {var : Variable} {v : Value} (passed : checkDeclared var v = .ok ())
    {type : SequenceType} (found : var.declared = some type) :
    type.occurrence.allows v.size = true := by
  unfold checkDeclared at passed
  rw [found] at passed
  dsimp only at passed
  split at passed
  · cases passed
  · next allowed => simpa using allowed

theorem bindVariable_keeps {var : Variable} (agrees : var.Agrees declared) {v : Value}
    (holds : v.Good good) {location : Option Location} :
    KeepsSound declared good (fun _ => True) (bindVariable var location v) := by
  refine .bind (P := fun _ => checkDeclared var v = .ok ()) (.ofExcept fun _ passed => passed)
    fun _ passed => .change (fun c inv => inv.bind holds fun type found => ?_) trivial
  exact checkDeclared_allows passed (agrees.trans found)

theorem deleteAll_keeps {target : Modes} (sound : target.Sound declared good)
    {location : Option Location} :
    KeepsSound declared good (fun v => v = .empty) (deleteAll target location) := by
  refine sound.stream.bind fun s pulls => ?_
  refine .bind (P := fun _ => True) (fun c u c' inv ran => ?_) fun _ _ => .pure rfl
  refine Step.Sound.fold (Q := fun _ => True) (pulls c inv) trivial (fun _ _ item _ => ?_) ran
  refine Eval.Keeps.checkStop.bind fun _ _ => ?_
  split
  · exact .change (fun c inv => inv.withUpdates _) trivial
  · exact .raise

/-! ## Aggregates -/

theorem countOf_keeps (closed : ItemClass good) {size? : Option Nat} {stream : Eval Stream}
    (keeps : KeepsSound declared good (Stream.Sound (Context.Sound declared good) good) stream) :
    KeepsSound declared good good (countOf size? stream) := by
  have counted : ∀ n, KeepsSound declared good good (Eval.ofExcept none (countItem n)) := by
    refine fun n => .ofExcept fun item made => ?_
    unfold countItem at made
    split at made
    · cases made
      exact closed.atom _
    · cases made
  unfold countOf
  split
  · exact counted _
  · refine keeps.bind fun s pulls => ?_
    split
    · exact counted _
    · refine .bind (P := fun _ => True) (fun c n c' inv ran => ?_) fun _ _ => .pure (closed.atom _)
      refine Step.Sound.fold (Q := fun _ => True) (pulls c inv) trivial (fun n _ item _ => ?_) ran
      exact Eval.Keeps.checkStop.bind fun _ _ => .pure trivial

theorem total_keeps {v : Value} (valid : v.Valid) :
    KeepsSound declared good (fun _ => True) (total v) := by
  unfold total
  rw [Eval.foldValue_eq _ valid]
  refine .foldList trivial fun sum _ item _ => ?_
  exact Eval.Keeps.checkStop.bind fun _ _ => .ofExcept fun _ _ => trivial

/-- The sum, or what stands for it where there are no atoms. -/
theorem sumOrAlternative_keeps (closed : ItemClass good) (sum : Option Atom)
    (alternative : Option (Eval (Option Item))) :
    (∀ other, alternative = some other →
      KeepsSound declared good (fun found => ∀ item, found = some item → good item) other) →
    KeepsSound declared good (fun found => ∀ item, found = some item → good item)
      (match sum, alternative with
        | some a, _ => pure (some (.atom a))
        | none, some other => other
        | none, none => pure (some (.integer 0))) := by
  have atomic : ∀ a, KeepsSound declared good (fun found => ∀ item, found = some item → good item)
      (pure (some (.atom a))) := by
    refine fun a => .pure fun item same => ?_
    cases same
    exact closed.atom a
  intro others
  match sum, alternative with
  | some a, _ => exact atomic a
  | none, some other => exact others other rfl
  | none, none => exact atomic _

theorem sumOf_keeps (closed : ItemClass good) {location : Option Location}
    {value : Eval Value} {alternative : Option (Eval (Option Item))}
    (keeps : KeepsSound declared good (ValueOf.Good good) value)
    (others : ∀ other, alternative = some other →
      KeepsSound declared good (fun found => ∀ item, found = some item → good item) other) :
    KeepsSound declared good (fun found => ∀ item, found = some item → good item)
      (sumOf location value alternative) := by
  refine keeps.bind fun v holds => ?_
  dsimp only
  split
  · refine .bind (P := fun _ => True) (.map (P := fun _ => True) (.ofExcept fun _ _ => trivial)
      fun _ _ => trivial) fun sum _ => sumOrAlternative_keeps closed sum alternative others
  · refine .bind (P := fun _ => True) (total_keeps holds.1).locate fun sum _ => ?_
    exact .bind (P := fun _ => True) (.pure trivial)
      fun sum _ => sumOrAlternative_keeps closed sum alternative others

/-- The mean, from the sum and the number of the atoms. -/
theorem meanOrNothing_keeps (closed : ItemClass good) {location : Option Location}
    (sum : Option (Atom × Nat)) :
    KeepsSound declared good (fun found => ∀ item, found = some item → good item)
      (match sum with
        | none => pure none
        | some (sum, count) =>
            match long? count with
            | none => Eval.raise .overflow none
            | some n => do
                let mean ← Eval.ofExcept location
                  ((Operator.divide.apply sum (.integer n)).mapError .ofAtomError)
                pure (some (.atom mean))) := by
  split
  · exact .pure fun _ none => by cases none
  · split
    · exact .raise
    · refine .bind (P := fun _ => True) (.ofExcept fun _ _ => trivial) fun mean _ => .pure ?_
      intro item same
      cases same
      exact closed.atom _

theorem averageOf_keeps (closed : ItemClass good) {location : Option Location}
    {value : Eval Value} (keeps : KeepsSound declared good (ValueOf.Good good) value) :
    KeepsSound declared good (fun found => ∀ item, found = some item → good item)
      (averageOf location value) := by
  refine keeps.bind fun v holds => ?_
  dsimp only
  split
  · refine .bind (P := fun _ => True) (.ofExcept fun _ _ => trivial) fun sum _ => ?_
    exact .bind (P := fun _ => True) (.pure trivial) fun sum _ => meanOrNothing_keeps closed sum
  · refine .bind (P := fun _ => True) (total_keeps holds.1).locate fun sum _ => ?_
    exact .bind (P := fun _ => True) (.pure trivial) fun sum _ => meanOrNothing_keeps closed sum

section RaisedError

variable {arguments : List Modes} (sound : ∀ m ∈ arguments, m.Sound declared good)
  {location : Option Location}

include sound

/-- The error once its message is known. -/
theorem raisedItems_keeps (code : Option ExpandedName) (message : String) :
    KeepsSound declared good (fun _ => True) (do
      let items ← match arguments[2]? with
        | none => pure []
        | some m => ValueOf.items <$> m.value
      pure (⟨.raised (code.getD ErrorCode.FOER0000.expandedName) message items, location⟩ : Error)) := by
  dsimp only
  split
  · exact .bind (P := fun _ => True) (.pure trivial) fun _ _ => .pure trivial
  · next m found =>
      have argument := sound m (List.mem_of_getElem? found)
      exact .bind (P := fun _ => True) (argument.value.map fun _ _ => trivial) fun _ _ => .pure trivial

/-- The error once its code is known. -/
theorem raisedMessage_keeps (code : Option ExpandedName) :
    KeepsSound declared good (fun _ => True) (do
      let message ← match arguments[1]? with
        | none => pure "Halted on error()."
        | some m => m.toText
      let items ← match arguments[2]? with
        | none => pure []
        | some m => ValueOf.items <$> m.value
      pure (⟨.raised (code.getD ErrorCode.FOER0000.expandedName) message items, location⟩ : Error)) := by
  dsimp only
  split
  · exact .bind (P := fun _ => True) (.pure trivial) fun message _ => raisedItems_keeps sound code message
  · next m found =>
      have argument := sound m (List.mem_of_getElem? found)
      exact argument.toText.bind fun message _ => raisedItems_keeps sound code message

theorem raisedError_keeps :
    KeepsSound declared good (fun _ => True) (raisedError location arguments) := by
  unfold raisedError
  dsimp only
  split
  · exact .bind (P := fun _ => True) (.pure trivial) fun code _ => raisedMessage_keeps sound code
  · next m found =>
      have argument := sound m (List.mem_of_getElem? found)
      refine argument.atomItem.bind fun found _ => ?_
      split
      · exact .bind (P := fun _ => True) (.pure trivial) fun code _ => raisedMessage_keeps sound code
      · exact .bind (P := fun _ => True) (.pure trivial) fun code _ => raisedMessage_keeps sound code
      · exact .bind (P := fun _ => True) .raise fun code _ => raisedMessage_keeps sound code

end RaisedError

end QueryKernel
