import QueryKernel.Proofs.Eval.Kind
import QueryKernel.Proofs.Eval.Preserve

/-!
# Results of a kind

What each operation of evaluation does to a condition on the context, whether it succeeds or fails, and of
what kind its results are.

A filter sets the focus for each of its items and puts it back, also after a failure, so the condition is stated
apart from the focus: `At R focus` asks for both, and only the predicates of a filter run under another focus
than the filter itself.
-/

namespace QueryKernel

variable {Inv R : Context → Prop} {k r : Kind}

/-- The condition holds and the focus is the given one. -/
structure At (R : Context → Prop) (focus : Focus) (c : Context) : Prop where
  focus_eq : c.focus = focus
  rest : R c

namespace Modes

/-- Each way keeps the condition and gives items and values of the kind. -/
structure Always (Inv : Context → Prop) (k : Kind) (m : Modes) : Prop where
  stream : m.stream.Always Inv (Stream.Always Inv k.item)
  item : m.item.Always Inv fun found => ∀ item, found = some item → k.item item
  value : m.value.Always Inv k.value
  booleanItem : m.booleanItem.Always Inv fun _ => True

section Derived

variable {location : Option Location} {atMostOne : Bool} {stream : Eval Stream}
  {item : Eval (Option Item)} {value : Eval Value}

theorem singleOfStream_always (always : stream.Always Inv (Stream.Always Inv k.item)) :
    (singleOfStream location stream).Always Inv fun found => ∀ item, found = some item → k.item item := by
  refine always.bind fun s pulls => (Stream.next_always pulls).bind fun found given => ?_
  cases found with
  | none => exact .pure fun _ none => by cases none
  | some pair =>
      obtain ⟨first, s₁⟩ := pair
      obtain ⟨holds, pulls₁⟩ := given first s₁ rfl
      refine (Stream.next_always pulls₁).bind fun found given₁ => ?_
      cases found with
      | none =>
          refine .pure fun item same => ?_
          cases same
          exact holds
      | some pair => exact (Stream.next_always (given₁ pair.1 pair.2 rfl).2).bind fun _ _ => .raise

theorem booleanItemOfStream_always (always : stream.Always Inv (Stream.Always Inv k.item)) :
    (booleanItemOfStream location stream).Always Inv fun _ => True := by
  refine always.bind fun s pulls => (Stream.next_always pulls).bind fun found given => ?_
  cases found with
  | none => exact .pure trivial
  | some pair =>
      obtain ⟨first, s₁⟩ := pair
      dsimp only
      split
      · exact .pure trivial
      · refine (Stream.next_always (given first s₁ rfl).2).bind fun found given₁ => ?_
        cases found with
        | none => exact .pure trivial
        | some pair => exact (Stream.next_always (given₁ pair.1 pair.2 rfl).2).bind fun _ _ => .raise

theorem collectStream_always (lawful : k.Lawful)
    (always : stream.Always Inv (Stream.Always Inv k.item)) :
    (collectStream stream).Always Inv k.value := by
  refine always.bind fun s pulls => .bind (P := k.builder) (pulls.fold lawful.start ?_)
    fun b built => .pure (lawful.freeze built)
  exact fun b built item holds => Eval.Always.checkStop.bind fun _ _ =>
    .pure (lawful.addBack built holds)

theorem singleOfValue_always (lawful : k.Lawful) {v : Value} (given : k.value v) :
    (singleOfValue location v).Always Inv fun found => ∀ item, found = some item → k.item item := by
  unfold singleOfValue
  split
  · exact .raise
  · exact .pure fun item found => lawful.get? given found

theorem Always.ofStreamAndItem (lawful : k.Lawful)
    (streams : stream.Always Inv (Stream.Always Inv k.item))
    (single : item.Always Inv fun found => ∀ item, found = some item → k.item item) :
    (Modes.ofStreamAndItem location atMostOne stream item).Always Inv k := by
  refine ⟨streams, single, ?_, ?_⟩
  · simp only [Modes.ofStreamAndItem]
    split
    · exact single.bind fun found holds => .pure (lawful.valueOfOption holds)
    · exact collectStream_always lawful streams
  · simp only [Modes.ofStreamAndItem]
    split
    · exact single.bind fun _ _ => .pure trivial
    · exact booleanItemOfStream_always streams

theorem Always.ofStream (lawful : k.Lawful)
    (streams : stream.Always Inv (Stream.Always Inv k.item)) :
    (Modes.ofStream location atMostOne stream).Always Inv k :=
  .ofStreamAndItem lawful streams (singleOfStream_always streams)

theorem Always.withValue {m : Modes} (always : m.Always Inv k) (values : value.Always Inv k.value) :
    ({ m with value := value } : Modes).Always Inv k :=
  ⟨always.stream, always.item, values, always.booleanItem⟩

theorem ofValue_always (lawful : k.Lawful) {v : Value} (given : k.value v) :
    (Stream.ofValue v).Always Inv k.item :=
  fun _ inv => Stream.ofWalk_always (lawful.walk given v.size) inv

theorem streamOfValue_always (lawful : k.Lawful) (values : value.Always Inv k.value) :
    Eval.Always Inv (Stream.Always Inv k.item) (do return .ofValue (← value)) :=
  values.bind fun _ given => .pure (ofValue_always lawful given)

theorem Always.ofValue (lawful : k.Lawful) (values : value.Always Inv k.value) :
    (Modes.ofValue location atMostOne value).Always Inv k :=
  (Always.ofStream lawful (streamOfValue_always lawful values)).withValue values

theorem Always.ofValueAndItem (lawful : k.Lawful) (values : value.Always Inv k.value)
    (single : item.Always Inv fun found => ∀ item, found = some item → k.item item) :
    (Modes.ofValueAndItem location atMostOne value item).Always Inv k :=
  (Always.ofStreamAndItem lawful (streamOfValue_always lawful values) single).withValue values

theorem Always.ofValueAndSingle (lawful : k.Lawful) (values : value.Always Inv k.value) :
    (Modes.ofValueAndItem location atMostOne value
      (do singleOfValue location (← value))).Always Inv k :=
  .ofValueAndItem lawful values (values.bind fun _ given => singleOfValue_always lawful given)

theorem Always.ofItemAndValue (lawful : k.Lawful)
    (single : item.Always Inv fun found => ∀ item, found = some item → k.item item) :
    (Modes.ofValueAndItem location atMostOne (do return valueOfOption (← item)) item).Always Inv k :=
  .ofValueAndItem lawful (single.bind fun _ holds => .pure (lawful.valueOfOption holds)) single

theorem Always.ofItem (lawful : k.Lawful)
    (single : item.Always Inv fun found => ∀ item, found = some item → k.item item) :
    (Modes.ofItem location atMostOne item).Always Inv k :=
  .ofStreamAndItem lawful
    (single.bind fun _ holds => .pure (ofValue_always lawful (lawful.valueOfOption holds))) single

theorem Always.ofLiteral (lawful : k.Lawful) {v : Value} (given : k.value v) :
    (Modes.ofLiteral v).Always Inv k := by
  refine ⟨.pure (ofValue_always lawful given), singleOfValue_always lawful given, .pure given, ?_⟩
  unfold Modes.ofLiteral
  dsimp only
  split
  · exact .pure trivial
  · exact .pure trivial
  · split
    · exact .pure trivial
    · exact .raise

end Derived

/-! ## Coercions -/

variable {m : Modes}

theorem Always.boolean (always : m.Always Inv k) : m.boolean.Always Inv fun _ => True :=
  always.booleanItem.bind fun _ _ => .ofExcept fun _ _ => trivial

theorem Always.test (always : m.Always Inv k) : m.test.Always Inv fun _ => True := by
  unfold Modes.test
  refine always.booleanItem.bind fun item _ => ?_
  have decided : Eval.Always Inv (fun _ => True) (do
      let held ← Eval.ofExcept m.location item.booleanValue
      pure (if held then some item else none)) :=
    .bind (P := fun _ => True) (.ofExcept fun _ _ => trivial) fun _ _ => .pure trivial
  dsimp only
  split
  · split
    · refine Eval.Always.context.bind fun _ _ => ?_
      exact .bind (P := fun _ => True) (.pure trivial) fun _ _ => .pure trivial
    · exact decided
  · exact decided

theorem Always.atomItem (always : m.Always Inv k) : m.atomItem.Always Inv fun _ => True := by
  refine always.item.bind fun found _ => ?_
  cases found with
  | none => exact .pure trivial
  | some item =>
      refine .bind (P := fun _ => True) (.ofExcept fun _ _ => trivial) fun atoms _ => ?_
      match atoms with
      | [] => exact .pure trivial
      | [atom] => exact .pure trivial
      | first :: second :: rest => exact .raise

theorem present_always {A : Type} {P : A → Prop} {expected : Option ItemType} {found : Option A}
    (holds : ∀ a, found = some a → P a) : (m.present expected found).Always Inv P := by
  cases found with
  | none => exact .raise
  | some a => exact .pure (holds a rfl)

theorem longOf_always (a : Atom) : (m.longOf a).Always Inv fun _ => True := by
  unfold longOf
  split
  · exact .pure trivial
  · split
    · exact .pure trivial
    · exact .raise
  · exact .raise

theorem Always.toLong? (always : m.Always Inv k) : m.toLong?.Always Inv fun _ => True := by
  refine always.atomItem.bind fun found _ => ?_
  cases found with
  | none => exact .pure trivial
  | some a => exact (longOf_always a).bind fun _ _ => .pure trivial

theorem Always.toText (always : m.Always Inv k) : m.toText.Always Inv fun _ => True := by
  have expected : (m.expectAtom (.atomic .string)).Always Inv fun _ => True :=
    always.atomItem.bind fun _ _ => present_always fun _ _ => trivial
  refine expected.bind fun a _ => ?_
  split
  · exact .pure trivial
  · exact .pure trivial
  · exact .pure trivial
  · exact .raise

theorem Always.toCallee (always : m.Always Inv k) : m.toCallee.Always Inv k.item := by
  refine always.item.bind fun found holds => (present_always holds).bind fun item given => ?_
  split
  · exact .pure given
  · exact .raise

end Modes

/-! ## Atoms, ranges and lists -/

theorem onAtoms_always (atoms : ∀ a, r.item (.atom a)) {a b : Modes} {location : Option Location}
    {operation : Atom → Atom → Except AtomError Item} (left : a.Always Inv k) (right : b.Always Inv k)
    (atomic : ∀ x y item, operation x y = .ok item → ∃ z, item = .atom z) :
    (onAtoms a b location operation).Always Inv fun found => ∀ item, found = some item → r.item item := by
  refine left.atomItem.bind fun x _ => ?_
  cases x with
  | none => exact .pure fun _ none => by cases none
  | some x =>
      refine right.atomItem.bind fun y _ => ?_
      cases y with
      | none => exact .pure fun _ none => by cases none
      | some y =>
          refine .map (P := r.item) (.ofExcept fun item made => ?_) fun item holds other same => ?_
          · cases result : operation x y with
            | ok made' =>
                rw [result] at made
                cases made
                obtain ⟨z, rfl⟩ := atomic x y item result
                exact atoms z
            | error e =>
                rw [result] at made
                cases made
          · cases same
            exact holds

theorem rangeValue_always (lawful : r.Lawful) (atoms : ∀ a, r.item (.atom a)) {first last : Modes}
    {location : Option Location} (low : first.Always Inv k) (high : last.Always Inv k) :
    (rangeValue first last location).Always Inv r.value := by
  refine low.toLong?.bind fun a _ => ?_
  cases a with
  | none => exact .pure lawful.empty
  | some a =>
      refine high.toLong?.bind fun b _ => ?_
      cases b with
      | none => exact .pure lawful.empty
      | some b =>
          dsimp only
          split
          · next v made => exact .pure (lawful.range (fun n => atoms _) made)
          · exact .raise

theorem listValue_always (lawful : k.Lawful) {operands : List Modes}
    (values : ∀ m ∈ operands, m.value.Always Inv k.value) : (listValue operands).Always Inv k.value := by
  refine .bind (P := k.builder) (.foldList lawful.start ?_) fun b built => .pure (lawful.freeze built)
  intro b built m member
  refine Eval.Always.checkStop.bind fun _ _ => (values m member).bind fun v given => ?_
  exact .ofFaulty fun grown added => lawful.addValue built given added

/-! ## Filters -/

theorem selectPosition_of_kind (lawful : k.Lawful) {v w : Value} {position : BinaryFloat}
    (given : k.value v) (selected : selectPosition v position = .ok w) : k.value w := by
  rcases selectPosition_spec selected with rfl | ⟨i, item, found, rfl⟩
  · exact lawful.empty
  · exact lawful.one (lawful.get? given found)

section Filter

variable (setFocus : ∀ c focus, R c → R { c with focus })

include setFocus

/-- A computation under a focus of its own. -/
theorem focused_always {A : Type} {P : A → Prop} {focus : Focus} {x : Eval A}
    (always : x.Always (At R focus) P) :
    Eval.Always R P (do
      Eval.change fun c => { c with focus }
      x) := by
  intro c inv
  obtain ⟨kept, holds⟩ := always { c with focus } ⟨rfl, setFocus c focus inv⟩
  exact ⟨kept.rest, holds⟩

theorem selectWhere_always (lawful : k.Lawful) {v : Value} (given : k.value v) {predicate : Modes}
    (condition : ∀ item position size, k.item item →
      predicate.Always (At R ⟨some (.one item), position, size⟩) r) :
    (selectWhere v predicate).Always R k.value := by
  unfold selectWhere Eval.foldValue
  refine .bind (P := fun state => k.builder state.1)
    (.foldWalk (lawful.walk given v.size) lawful.start ?_) fun state built => .pure (lawful.freeze built)
  rintro ⟨builder, position⟩ built item holds
  refine Eval.Always.checkStop.bind fun _ _ => focused_always setFocus ?_
  refine (condition item position v.size holds).test.bind fun held _ => .pure ?_
  dsimp only
  split
  · exact lawful.addBack built holds
  · exact built

theorem passAll_always (lawful : k.Lawful) {predicates : List (Option BinaryFloat × Modes)}
    (conditions : ∀ p ∈ predicates, ∀ item position size, k.item item →
      p.2.Always (At R ⟨some (.one item), position, size⟩) r) {v : Value} (given : k.value v) :
    (passAll predicates v).Always R k.value := by
  refine .foldList given ?_
  rintro w reached ⟨position, predicate⟩ member
  cases position with
  | some p => exact .ofFaulty fun u selected => selectPosition_of_kind lawful reached selected
  | none => exact selectWhere_always setFocus lawful reached (conditions _ member)

/-- The focus of a filter is put back whatever comes of it. -/
theorem filterValue_always (lawful : k.Lawful) {focus : Focus} {base : Modes}
    {predicates : List (Option BinaryFloat × Modes)} (input : base.value.Always (At R focus) k.value)
    (conditions : ∀ p ∈ predicates, ∀ item position size, k.item item →
      p.2.Always (At R ⟨some (.one item), position, size⟩) r) :
    (filterValue base predicates).Always (At R focus) k.value := by
  refine input.bind fun v given => Eval.Always.context.bind fun saved inv => ?_
  intro c inv'
  obtain ⟨kept, holds⟩ := passAll_always setFocus lawful conditions given c inv'.rest
  exact ⟨⟨inv.focus_eq, setFocus _ _ kept⟩, holds⟩

end Filter

/-! ## Focus, variables and updates -/

theorem contextValue_always {focus : Focus} (held : ∀ v, focus.value = some v → k.value v)
    {description : String} {location : Option Location} :
    (contextValue description location).Always (At R focus) k.value := by
  refine Eval.Always.context.bind fun c inv => ?_
  split
  · next v found =>
      rw [inv.focus_eq] at found
      exact .pure (held v found)
  · exact .raise

theorem rootValue_always (lawful : k.Lawful) (nodes : ∀ n, k.item (.node n))
    {location : Option Location} : (rootValue location).Always Inv k.value := by
  have started : (contextValue "root" location).Always Inv fun _ => True := by
    refine Eval.Always.context.bind fun c _ => ?_
    split
    · exact .pure trivial
    · exact .raise
  refine started.bind fun v _ => Eval.Always.context.bind fun c _ => ?_
  split
  · next roots _ =>
      refine .pure (lawful.ofItems fun item member => ?_)
      obtain ⟨n, _, rfl⟩ := List.mem_map.1 member
      exact nodes n
  · exact .raise

theorem documents_always (lawful : k.Lawful) (nodes : ∀ n, k.item (.node n)) (source : DataSource) :
    Eval.Always Inv k.value (do
      Eval.checkStop
      pure (.collect (source.documents.map .node))) := by
  refine Eval.Always.checkStop.bind fun _ _ => .pure (lawful.collect fun item member => ?_)
  obtain ⟨n, _, rfl⟩ := List.mem_map.1 member
  exact nodes n

theorem variableValue_always {var : Variable}
    (held : ∀ c v, Inv c → c.bindings.lookup var.id = some v → k.value v)
    {location : Option Location} : (variableValue var location).Always Inv k.value := by
  refine Eval.Always.context.bind fun c inv => ?_
  split
  · next v found => exact .pure (held c v inv found)
  · exact .raise

theorem bindVariable_always {var : Variable} {v : Value} (binds : ∀ c, Inv c → Inv (c.bind var v))
    {location : Option Location} : (bindVariable var location v).Always Inv fun _ => True :=
  .bind (P := fun _ => True) (.ofExcept fun _ _ => trivial) fun _ _ => .change binds trivial

theorem deleteAll_always
    (records : ∀ c n, Inv c → Inv { c with updates := c.updates.push (.delete n) }) {target : Modes}
    (input : target.Always Inv k) {location : Option Location} :
    (deleteAll target location).Always Inv fun v => v = .empty := by
  refine input.stream.bind fun s pulls => .bind (P := fun _ => True) (pulls.fold trivial ?_)
    fun _ _ => .pure rfl
  rintro _ _ item -
  refine Eval.Always.checkStop.bind fun _ _ => ?_
  split
  · next n => exact .change (fun c => records c n) trivial
  · exact .raise

/-! ## Aggregates -/

theorem countItem_atom {n : Nat} {item : Item} (made : countItem n = .ok item) : ∃ a, item = .atom a := by
  unfold countItem at made
  split at made
  · cases made
    exact ⟨_, rfl⟩
  · cases made

theorem countOf_always {size? : Option Nat} {stream : Eval Stream}
    (always : stream.Always Inv (Stream.Always Inv k.item)) :
    (countOf size? stream).Always Inv fun item => ∃ a, item = .atom a := by
  unfold countOf
  split
  · exact .ofExcept fun item made => countItem_atom made
  · refine always.bind fun s pulls => ?_
    split
    · exact .ofExcept fun item made => countItem_atom made
    · refine .bind (P := fun _ => True) (pulls.fold trivial ?_) fun _ _ => .pure ⟨_, rfl⟩
      exact fun _ _ _ _ => Eval.Always.checkStop.bind fun _ _ => .pure trivial

theorem total_always (v : Value) : (total v).Always Inv fun _ => True := by
  refine .foldWalk (Kind.any_lawful.walk trivial v.size) trivial fun sum _ item _ => ?_
  exact Eval.Always.checkStop.bind fun _ _ => .ofExcept fun _ _ => trivial

theorem sumOrAlternative_always (atoms : ∀ a, r.item (.atom a)) (sum : Option Atom)
    (alternative : Option (Eval (Option Item))) :
    (∀ other, alternative = some other →
      other.Always Inv fun found => ∀ item, found = some item → r.item item) →
    Eval.Always Inv (fun found => ∀ item, found = some item → r.item item)
      (match sum, alternative with
        | some a, _ => pure (some (.atom a))
        | none, some other => other
        | none, none => pure (some (.integer 0))) := by
  have atomic : ∀ a, Eval.Always Inv (fun found => ∀ item, found = some item → r.item item)
      (pure (some (.atom a))) := by
    refine fun a => .pure fun item same => ?_
    cases same
    exact atoms a
  intro others
  match sum, alternative with
  | some a, _ => exact atomic a
  | none, some other => exact others other rfl
  | none, none => exact atomic _

theorem sumOf_always (atoms : ∀ a, r.item (.atom a)) {location : Option Location} {value : Eval Value}
    {alternative : Option (Eval (Option Item))} (values : value.Always Inv k.value)
    (others : ∀ other, alternative = some other →
      other.Always Inv fun found => ∀ item, found = some item → r.item item) :
    (sumOf location value alternative).Always Inv fun found => ∀ item, found = some item → r.item item := by
  refine values.bind fun v _ => ?_
  dsimp only
  split
  · exact .bind (P := fun _ => True) (.map (P := fun _ => True) (.ofExcept fun _ _ => trivial)
      fun _ _ => trivial) fun sum _ => sumOrAlternative_always atoms sum alternative others
  · refine .bind (P := fun _ => True) (total_always v).locate fun sum _ => ?_
    exact .bind (P := fun _ => True) (.pure trivial)
      fun sum _ => sumOrAlternative_always atoms sum alternative others

theorem mean_always (atoms : ∀ a, r.item (.atom a)) {location : Option Location}
    (sum : Option (Atom × Nat)) :
    Eval.Always Inv (fun found => ∀ item, found = some item → r.item item)
      (match sum with
        | none => pure none
        | some (sum, count) =>
            match long? count with
            | none => Eval.raise .overflow none
            | some n => do
                let mean ← Eval.ofExcept location
                  ((Operator.divide.apply sum (.integer n)).mapError .ofAtomError)
                pure (some (.atom mean))) := by
  split
  · exact .pure fun _ none => by cases none
  · split
    · exact .raise
    · refine .bind (P := fun _ => True) (.ofExcept fun _ _ => trivial) fun mean _ => .pure ?_
      intro item same
      cases same
      exact atoms _

theorem averageOf_always (atoms : ∀ a, r.item (.atom a)) {location : Option Location}
    {value : Eval Value} (values : value.Always Inv k.value) :
    (averageOf location value).Always Inv fun found => ∀ item, found = some item → r.item item := by
  refine values.bind fun v _ => ?_
  dsimp only
  split
  · refine .bind (P := fun _ => True) (.ofExcept fun _ _ => trivial) fun sum _ => ?_
    exact .bind (P := fun _ => True) (.pure trivial) fun sum _ => mean_always atoms sum
  · refine .bind (P := fun _ => True) (total_always v).locate fun sum _ => ?_
    exact .bind (P := fun _ => True) (.pure trivial) fun sum _ => mean_always atoms sum

section RaisedError

variable {arguments : List Modes} (parts : ∀ m ∈ arguments, m.Always Inv k)
  {location : Option Location}

include parts

theorem raisedItems_always (code : Option ExpandedName) (message : String) :
    Eval.Always Inv (fun _ => True) (do
      let items ← match arguments[2]? with
        | none => pure []
        | some m => ValueOf.items <$> m.value
      pure (⟨.raised (code.getD ErrorCode.FOER0000.expandedName) message items, location⟩ : Error)) := by
  dsimp only
  split
  · exact .bind (P := fun _ => True) (.pure trivial) fun _ _ => .pure trivial
  · next m found =>
      have argument := parts m (List.mem_of_getElem? found)
      exact .bind (P := fun _ => True) (argument.value.map fun _ _ => trivial) fun _ _ => .pure trivial

theorem raisedMessage_always (code : Option ExpandedName) :
    Eval.Always Inv (fun _ => True) (do
      let message ← match arguments[1]? with
        | none => pure "Halted on error()."
        | some m => m.toText
      let items ← match arguments[2]? with
        | none => pure []
        | some m => ValueOf.items <$> m.value
      pure (⟨.raised (code.getD ErrorCode.FOER0000.expandedName) message items, location⟩ : Error)) := by
  dsimp only
  split
  · exact .bind (P := fun _ => True) (.pure trivial) fun message _ => raisedItems_always parts code message
  · next m found =>
      have argument := parts m (List.mem_of_getElem? found)
      exact argument.toText.bind fun message _ => raisedItems_always parts code message

theorem raisedError_always : (raisedError location arguments).Always Inv fun _ => True := by
  unfold raisedError
  dsimp only
  split
  · exact .bind (P := fun _ => True) (.pure trivial) fun code _ => raisedMessage_always parts code
  · next m found =>
      have argument := parts m (List.mem_of_getElem? found)
      refine argument.atomItem.bind fun found _ => ?_
      split
      · exact .bind (P := fun _ => True) (.pure trivial) fun code _ => raisedMessage_always parts code
      · exact .bind (P := fun _ => True) (.pure trivial) fun code _ => raisedMessage_always parts code
      · exact .bind (P := fun _ => True) .raise fun code _ => raisedMessage_always parts code

end RaisedError

/-! ## Folding and sorting -/

/-- Calls of an item with two items or values of a kind. -/
def Calls.PairAlways (calls : Calls) (Inv : Context → Prop) (k : Kind) (callee : Item) : Prop :=
  ∀ a b, k.value a → k.value b → (invoke calls callee [a, b]).Always Inv k.value

theorem foldLeft1_always (lawful : k.Lawful) {calls : Calls} {callee : Item}
    (pairs : calls.PairAlways Inv k callee) {location : Option Location} {v : Value} (given : k.value v) :
    (foldLeft1 calls location v callee).Always Inv k.value := by
  have gives := lawful.walk given (v.size + 1)
  unfold foldLeft1
  simp only [Walk.Gives] at gives
  split
  · exact .raise
  · next first rest moved =>
      rw [moved] at gives
      refine .foldWalk gives.2 (lawful.one gives.1) fun total reached item holds => ?_
      exact Eval.Always.checkStop.bind fun _ _ => (pairs total _ reached (lawful.one holds)).locate

section Sorting

variable {P : Item → Prop} {less : Item → Item → Eval Bool}
  (compares : ∀ a b, P a → P b → (less a b).Always Inv fun _ => True)

include compares

theorem takeLess_always {a : Item} (first : P a) {merged others : List Item} (before : ∀ b ∈ merged, P b)
    (all : ∀ b ∈ others, P b) :
    (takeLess less a merged others).Always Inv
      fun taken => (∀ b ∈ taken.1, P b) ∧ ∀ b ∈ taken.2, P b := by
  induction others generalizing merged with
  | nil => exact .pure (a := (merged, [])) ⟨before, all⟩
  | cons b rest rest_ih =>
      rw [takeLess_cons]
      refine (compares b a (all b List.mem_cons_self) first).bind fun smaller _ => ?_
      split
      · refine rest_ih (fun other member => ?_) fun other member => all other (List.mem_cons_of_mem _ member)
        rcases List.mem_cons.1 member with rfl | old
        · exact all _ List.mem_cons_self
        · exact before other old
      · exact .pure ⟨before, all⟩

theorem mergeSorted_always {merged left right : List Item} (before : ∀ b ∈ merged, P b)
    (allLeft : ∀ b ∈ left, P b) (allRight : ∀ b ∈ right, P b) :
    (mergeSorted less merged left right).Always Inv fun sorted => ∀ b ∈ sorted, P b := by
  induction left generalizing merged right with
  | nil =>
      refine .pure (a := merged.reverse ++ right) fun b member => ?_
      rcases List.mem_append.1 member with old | new
      · exact before b (List.mem_reverse.1 old)
      · exact allRight b new
  | cons a left left_ih =>
      rw [mergeSorted_cons]
      have first : P a := allLeft a List.mem_cons_self
      refine (takeLess_always compares first before allRight).bind fun taken both => ?_
      refine left_ih (fun b member => ?_) (fun b member => allLeft b (List.mem_cons_of_mem _ member)) both.2
      rcases List.mem_cons.1 member with rfl | old
      · exact first
      · exact both.1 b old

theorem mergeSortWithin_always {most : Nat} {items : List Item} (all : ∀ b ∈ items, P b) :
    (mergeSortWithin less most items).Always Inv fun sorted => ∀ b ∈ sorted, P b := by
  induction most generalizing items with
  | zero => exact .pure all
  | succ most most_ih =>
      simp only [mergeSortWithin]
      split
      · exact .pure all
      · refine (most_ih fun b member => all b (List.mem_of_mem_take member)).bind fun left allLeft => ?_
        refine (most_ih fun b member => all b (List.mem_of_mem_drop member)).bind fun right allRight => ?_
        exact mergeSorted_always compares (fun b member => by cases member) allLeft allRight

end Sorting

theorem sortWith_always (lawful : k.Lawful) (verdicts : r.Lawful) {calls : Calls} {callee : Item}
    (pairs : ∀ a b, k.item a → k.item b → (invoke calls callee [.one a, .one b]).Always Inv r.value)
    {location : Option Location} {v : Value} (given : k.value v) :
    (sortWith calls location v callee).Always Inv k.value := by
  have compares : ∀ a b, k.item a → k.item b → (comesBefore calls callee a b).Always Inv fun _ => True :=
    fun a b left right => Eval.Always.checkStop.bind fun _ _ => (pairs a b left right).bind
      fun w holds => (Modes.Always.ofLiteral verdicts holds).boolean
  exact (mergeSortWithin_always compares (lawful.items given)).locate.bind
    fun sorted all => .pure (lawful.ofItems all)

end QueryKernel
