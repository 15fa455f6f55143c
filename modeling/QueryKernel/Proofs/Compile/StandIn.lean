import QueryKernel.Proofs.Compile.Focused
import QueryKernel.Proofs.Compile.Succeed
import QueryKernel.Proofs.Compile.Tidy
import QueryKernel.Proofs.Eval.Described
import QueryKernel.Query

/-!
# Items in place of others

While a predicate is compiled, one item stands for all those that it will be tested on, and the context value
gets the type of the one.

It matters which item that is.  It is taken from the value of the base if that is known, and else made for the
static type of the base; both have a type above those of the items, unless an element is made for nodes of other
kinds.
-/

namespace QueryKernel

/-- `element()` -/
def ItemType.element : ItemType := .node .element

/-- The value of the focus. -/
theorem contextValue_ok {description : String} {location : Option Location} {c c' : Context} {v : Value}
    (given : contextValue description location c = (.ok v, c')) : c.focus.value = some v ∧ c' = c := by
  obtain ⟨_, _, same, given⟩ := Eval.bind_ok_iff.1 given
  cases same
  cases focus : c.focus.value with
  | none =>
      rw [focus] at given
      cases given
  | some w =>
      rw [focus] at given
      cases given
      exact ⟨rfl, rfl⟩

theorem AtomicType.placeholder?_type {a : AtomicType} {x : Atom} (made : a.placeholder? = some x) :
    x.type = a := by
  cases a <;> first | (cases made; rfl) | cases made

namespace Compile

variable {type : ItemType} {found : Option Item} {c c₁ : CompileContext}

/-- An item of the type, if there is one, or of a wider one, or an element. -/
def StandsFor (type : ItemType) (found : Option Item) : Prop :=
  ∀ s, found = some s → type.isSubtype s.type = true ∨ s.type = .element

/-- A stand-in has the type it is made for or a wider one, or is an element. -/
theorem placeholder?_standsFor (type : ItemType) (known : Option Value) (source : Option DataSource) :
    (placeholder? type known source).Gives (StandsFor type) := by
  have node : ∀ build : Forest → Node × Forest, (∀ f, ItemType.isSubtype type (.node (build f).1.type) = true ∨
      ItemType.node (build f).1.type = .element) → (newNode build).Gives (StandsFor type) := by
    intro build stands c _
    refine ⟨trivial, fun found same s is => ?_, fun _ impossible => by cases impossible⟩
    cases same
    cases is
    exact stands _
  have item : ∀ make : Nat → Item, (∀ n, type.isSubtype (make n).type = true) →
      (newItem make).Gives (StandsFor type) := by
    intro make stands c _
    refine ⟨trivial, fun found same s is => ?_, fun _ impossible => by cases impossible⟩
    cases same
    cases is
    exact .inl (stands _)
  unfold placeholder?
  -- Where an item may miss the type, it is an element.
  split
  · next first found =>
      refine .pure fun s is => ?_
      cases is
      obtain ⟨_, same⟩ := Option.filter_eq_some_iff.1 found
      exact .inl (by rw [of_decide_eq_true same]; exact ItemType.isSubtype_refl _)
  · refine .pure fun s is => ?_
    cases is
    exact .inr rfl
  · split
    · next a _ =>
        refine .pure fun s is => .inl ?_
        obtain ⟨x, made, rfl⟩ := Option.map_eq_some_iff.1 is
        change (ItemType.atomic a).isSubtype (.atomic x.type) = true
        rw [AtomicType.placeholder?_type made]
        exact ItemType.isSubtype_refl _
    · exact node _ fun _ => .inl rfl
    · exact node _ fun _ => .inl rfl
    · exact node _ fun _ => .inr rfl
    · exact item _ fun _ => rfl
    · exact item _ fun _ => rfl
    · exact .pure fun _ impossible => by cases impossible

theorem StandsFor.mono {narrower : ItemType} (stands : StandsFor type found)
    (le : narrower.isSubtype type = true) : StandsFor narrower found :=
  fun s is => (stands s is).imp_left (ItemType.isSubtype_trans le)

variable {calls : Calls} {base : Expr} {v : Value} {context : Context}

/-- The value that the focus would have is the value of the base, or an item that stands for those of its
static type. -/
theorem contextValue?_known {value : Option Value}
    (valued : (base.modes calls).value c.context = (.ok v, context))
    (asked : contextValue? (some base) c = (.ok value, c₁)) :
    value = some v ∨ ∃ s, value = s.map .one ∧ StandsFor base.sequenceType.type s := by
  obtain ⟨_, _, same, asked⟩ := bind_ok_iff.1 asked
  cases same
  -- For three kinds of expressions the value is known; for the others an item stands in.
  cases base with
  | literal w =>
      cases valued
      cases asked
      exact .inl rfl
  | contextValue type location =>
      cases asked
      exact .inl (contextValue_ok valued).1
  | root location =>
      cases asked
      obtain ⟨w, _, given, rooted⟩ := Eval.bind_ok_iff.1 valued
      obtain ⟨focus, rfl⟩ := contextValue_ok given
      obtain ⟨_, _, same, rooted⟩ := Eval.bind_ok_iff.1 rooted
      obtain ⟨rfl, rfl⟩ := Eval.context_ok_iff.1 same
      rw [focus]
      cases roots : distinctRoots c.context.forest w with
      | ok nodes =>
          rw [roots] at rooted
          cases rooted
          exact .inl (by simp only [Option.map_some, roots])
      | error item =>
          rw [roots] at rooted
          cases rooted
  | _ =>
      obtain ⟨s, _, made, same⟩ := bind_ok_iff.1 asked
      cases same
      exact .inr ⟨s, rfl, (placeholder?_standsFor _ _ _).given made⟩

/-- What stands for the base stands for each item of its value. -/
theorem contextItem?_standsFor (valued : (base.modes calls).value c.context = (.ok v, context))
    (valid : v.Valid) (conforms : base.staticType.Describes v.items)
    (ran : contextItem? (some base) c = (.ok found, c₁)) : ∀ item ∈ v.items, StandsFor item.type found := by
  obtain ⟨value, c₂, asked, picked⟩ := bind_ok_iff.1 ran
  intro item member
  obtain rfl | ⟨s, rfl, stands⟩ := contextValue?_known valued asked
  · cases v with
    | empty => cases member
    | one other =>
        cases picked
        intro s is
        cases is
        rw [List.mem_singleton.1 member]
        exact .inl (ItemType.isSubtype_refl _)
    | _ => exact ((placeholder?_standsFor _ _ _).given picked).mono (valid.covers.above item member)
  · cases s with
    | none =>
        cases picked
        exact fun _ impossible => by cases impossible
    | some s =>
        cases picked
        exact stands.mono (conforms.instances item member)

/-- Under a stand-in the context value is one item of its type. -/
theorem reduceContextValue_standIn (type : StaticType) (location : Option Location)
    (top : c.topFocus? = some (.ofValue (found.map .one))) :
    reduceContextValue type location c =
      (.ok (.contextValue (found.elim type fun s => .sized s.type 1) location), c) := by
  refine bind_ok_iff.2 ⟨c, c, rfl, ?_⟩
  rw [top]
  cases found <;> rfl

end Compile

/-- The item is no element, although an element stands for it. -/
def ItemOf.MissedBy (item : Item) (found : Option Item) : Prop :=
  ∃ s, found = some s ∧ s.type = .element ∧ item.type.isSubtype .element = false

namespace Expr

open Compile

/-- Simplifying a filter simplifies its base to the given one, finds a stand-in for that, and comes to a tree
in the predicates, in the given state, without entering the predicates of a filter inside. -/
inductive Tests (calls : Calls) (again : Expr → Compile Expr) :
    Expr → CompileContext → Expr → CompileContext → Option Item →
    Expr → CompileContext → Prop where
  | intro {base base' p t : Expr} {predicates before others rest : List Expr} {type : StaticType}
      {location : Option Location} {found : Option Item} {c c₁ c₂ c₃ c' : CompileContext}
      (simplified : base.optimizeWith calls again c = (.ok base', c₁))
      (standIn : contextItem? (some base') c₁ = (.ok found, c₂)) (parts : predicates = before ++ p :: rest)
      (done : optimizeAllWith calls again before (c₂.pushFocus (found.map .one)) = (.ok others, c₃))
      (inside : Visits calls again p c₃ t c') :
      Tests calls again (.filter base predicates type location) c base' c₁ found t c'

variable {calls : Calls} {again : Expr → Compile Expr} {e base t : Expr} {c c₁ c' : CompileContext}
variable {found : Option Item}

theorem Tests.focus (keep : calls.KeepFocus) (simplifies : ∀ e, (again e).KeepsFocus)
    (tests : Tests calls again e c base c₁ found t c') :
    c'.topFocus? = some (.ofValue (found.map .one)) := by
  cases tests with
  | intro _ _ _ done inside =>
      have each := fun e => optimizeWith_keepsFocus keep simplifies e
      rw [inside.focus keep simplifies, (optimizeAllWith_keepsFocus fun e _ => each e).topFocus?_eq done]
      rfl

/-- The type that compilation gives to a context value in a predicate describes each item that the predicate
is tested on, unless an element stands for the items of the base and the item is no element; then it does
not.  Function items and what unrolled loops are simplified by have to leave the focus alone, as
`callsWithin_keepFocus` and `optimizeWithin_keepsFocus` say. -/
theorem contextValue_typed_as_tested (keep : calls.KeepFocus) (simplifies : ∀ e, (again e).KeepsFocus)
    {location : Option Location} (tests : Tests calls again e c base c₁ found (contextValueOf location) c')
    {calls' : Calls} {v : Value} {context : Context}
    (valued : (base.modes calls').value c₁.context = (.ok v, context)) (valid : v.Valid)
    (conforms : base.staticType.Describes v.items) :
    ∃ type, (contextValueOf location).optimizeWith calls again c' = (.ok (.contextValue type location), c') ∧
      ∀ item ∈ v.items, type.Describes [item] ↔ ¬item.MissedBy found := by
  have stands : ∀ item ∈ v.items, StandsFor item.type found := by
    cases tests with
    | intro _ standIn _ _ _ => exact contextItem?_standsFor valued valid conforms standIn
  refine ⟨_, reduceContextValue_standIn _ location (tests.focus keep simplifies), fun item member => ?_⟩
  cases found with
  | none =>
      refine ⟨fun _ missed => ?_, fun _ => .anything _⟩
      obtain ⟨s, impossible, _⟩ := missed
      cases impossible
  | some s =>
      -- The type misses an item only if an element stands in for one that is none.
      constructor
      · rintro describes ⟨_, same, element, other⟩
        cases same
        have le := describes.instances item List.mem_cons_self
        change item.type.isSubtype s.type = true at le
        rw [element, other] at le
        cases le
      · intro held
        refine .single (.sized _ _) ?_
        change item.type.isSubtype s.type = true
        obtain le | element := stands item member s rfl
        · exact le
        · rw [element]
          cases other : item.type.isSubtype .element with
          | true => rfl
          | false => exact absurd ⟨s, rfl, element, other⟩ held

end Expr

/-- `. eq 1` -/
def equalsOne : Expr := .comparisonOf .eq (.contextValueOf none) (.literal (.integer 1)) none

/-- In `(1, 2)[. eq 1]` an integer stands for the integers. -/
theorem equalsOne_typed_as_tested :
    let numbers : Expr := .literal (.ofItems [.integer 1, .integer 2])
    let calls := callsWithin callDepth
    ∃ c₁ found c', Expr.Tests calls (Expr.optimizeWithin calls 0) (.filterOf numbers [equalsOne] none)
      (.start (.initial {})) numbers c₁ found (.contextValueOf none) c' ∧
      ∃ type, (Expr.contextValueOf none).optimizeWith calls (Expr.optimizeWithin calls 0) c' =
        (.ok (.contextValue type none), c') ∧
        type.Describes [.integer 1] ∧ type.Describes [.integer 2] := by
  intro numbers calls
  have keep : calls.KeepFocus := callsWithin_keepFocus callDepth
  have tests : Expr.Tests calls (Expr.optimizeWithin calls 0) (.filterOf numbers [equalsOne] none)
      (.start (.initial {})) numbers (.start (.initial {})) (some (.integer 1)) (.contextValueOf none)
      ((CompileContext.start (.initial {})).pushFocus (some (.one (.integer 1)))) :=
    .intro rfl rfl (List.nil_append _).symm rfl (.first rfl .here)
  have holds := ValueOf.ofItems_holds ([.integer 1, .integer 2] : List Item)
  have valued : (numbers.modes calls).value (.initial {}) =
      (.ok (.ofItems [.integer 1, .integer 2]), .initial {}) := rfl
  obtain ⟨type, typed, covers⟩ := Expr.contextValue_typed_as_tested keep (Expr.optimizeWithin_keepsFocus keep 0) tests
    valued holds.1 (Expr.literal_describes holds.1 (by decide))
  have hit : ∀ item : Item, ¬item.MissedBy (some (.integer 1)) := by
    rintro item ⟨_, same, element, _⟩
    cases same
    cases element
  rw [holds.2] at covers
  exact ⟨_, _, _, tests, type, typed, (covers _ (by simp)).2 (hit _), (covers _ (by simp)).2 (hit _)⟩

/-- A document of a data source. -/
def storedDocument : Node := .mk (.built 0) .document none none [] [] none

/-- The documents of the data source are tested as elements. -/
theorem storedDocument_tested_as_element :
    let documents : Expr := .documents (.mk 0 "s" [storedDocument]) none
    let calls := callsWithin callDepth
    let again := Expr.optimizeWithin calls 0
    (documents.run.value (.initial {})).1 = .ok (.one (.node storedDocument)) ∧
      documents.staticType.Describes [.node storedDocument] ∧
      ∃ c₁ found c', Expr.Tests calls again (.filterOf documents [equalsOne] none) (.start (.initial {})) documents
        c₁ found (.contextValueOf none) c' ∧
        ∃ type, (Expr.contextValueOf none).optimizeWith calls again c' = (.ok (.contextValue type none), c') ∧
          ¬type.Describes [.node storedDocument] := by
  intro documents calls again
  refine ⟨by with_unfolding_all rfl, .single (.many _ 1) rfl, _, _, _,
    .intro rfl rfl (List.nil_append _).symm rfl (.first rfl .here), _, rfl, fun described => ?_⟩
  have element := described.instances _ List.mem_cons_self
  revert element
  decide

/-- `[(let $x as document-node()? := .[$t] return count($x)) eq 1]` over the documents of the data source -/
def countedDocuments : Expr :=
  let x : Variable := ⟨1, "x", some (.optional (.node .document))⟩
  let itself : Expr := .filterOf (.contextValueOf none) [.varRefOf ⟨0, "t", some (.one .boolean)⟩ none] none
  let counted : Expr := .letIn x itself
    (.call .count [.varRefOf x none] (BuiltIn.count.resultType [.varRefOf x none]) none) none
  .filterOf (.documents (.mk 0 "s" [storedDocument]) none)
    [.comparisonOf .eq counted (.literal (.integer 1)) none] none

/-- The declared type and that of an element have no item in common, so that compilation takes the variable
for empty: as it is written the filter gives the document, and compiled it gives nothing. -/
theorem countedDocuments_lost :
    let c := (Context.initial {}).bind ⟨0, "t", some (.one .boolean)⟩ (.one (.boolean true))
    (countedDocuments.run.value c).1 = .ok (.one (.node storedDocument)) ∧
      ∃ e, (countedDocuments.compile c).1 = .ok e ∧
        (e.evaluate (countedDocuments.compile c).2).1 = .ok .empty := by
  intro c
  exact ⟨by with_unfolding_all rfl, _, by with_unfolding_all rfl, by with_unfolding_all rfl⟩

end QueryKernel
