import QueryKernel.Proofs.Eval.Checked
import QueryKernel.Proofs.Eval.Described
import QueryKernel.Proofs.Eval.Faithful

/-!
# Static types are right

A successful result of an expression made by a constructor is described by its static type, if the results of
its operands are described by theirs.

This is said of one evaluation, not of all: the operands may well give other results in other contexts.  So the
constructors are looked at over operands that conform always, and checked operands do, whatever the operands
themselves give.
-/

namespace QueryKernel

variable {D : List Item → Prop} {part : Expr → Modes} {calls : Calls}

/-! ## Operands one after another -/

section Operands

variable {operands : List Expr} (each : ∀ e ∈ operands, (part e).Meets e.staticType.Describes)

include each

theorem pullAll_meets (c : Context) :
    (Stream.pullAll ((operands.map part).map (·.stream)) c).Meets (Expr.Pieces operands) := by
  induction operands generalizing c with
  | nil => exact .nil
  | cons e rest rest_ih =>
      have others := rest_ih fun other member => each other (List.mem_cons_of_mem _ member)
      simp only [List.map_cons, Stream.pullAll]
      cases started : (part e).stream c with
      | mk result c₁ =>
          cases result with
          | error e => trivial
          | ok s =>
              have first := (each e List.mem_cons_self).stream.of started c₁
              refine (first.andThen others).mono ?_
              rintro _ ⟨front, back, now, later, rfl⟩
              exact .cons now later

theorem addOperands_returns {b : ValueBuilder Expr} {before : List Item} (gathers : b.Gathers before) :
    (Eval.foldList Modes.addOperand b (operands.map part)).Returns
      fun b' => ∃ items, Expr.Pieces operands items ∧ b'.Gathers (before ++ items) := by
  induction operands generalizing b before with
  | nil => exact .pure ⟨[], .nil, by rwa [List.append_nil]⟩
  | cons e rest rest_ih =>
      rw [List.map_cons, Eval.foldList_cons]
      refine .bind (P := fun b₁ => ∃ items, e.staticType.Describes items ∧ b₁.Gathers (before ++ items))
        ?_ ?_
      · unfold Modes.addOperand
        refine Eval.Keeps.checkStop.bind fun _ _ => (each e List.mem_cons_self).value.bind fun v given => ?_
        exact .ofFaulty fun grown added => ⟨v.items, given.2, gathers.addValueBounded given.1 added⟩
      · rintro b₁ ⟨items, described, gathered⟩
        have others := rest_ih (fun other member => each other (List.mem_cons_of_mem _ member)) gathered
        refine Eval.Keeps.mono others ?_
        rintro b' ⟨more, pieces, all⟩
        rw [List.append_assoc] at all
        exact ⟨items ++ more, .cons described pieces, all⟩

theorem listValue_returns :
    (listValue (operands.map part)).Returns fun v => v.Shaped ∧ Expr.Pieces operands v.items := by
  refine .bind (addOperands_returns each ValueBuilder.empty_gathers) ?_
  rintro b ⟨items, pieces, gathers⟩
  obtain ⟨shaped, same⟩ := gathers.freeze
  rw [List.nil_append] at same
  exact .pure ⟨shaped, by rwa [same]⟩

end Operands

/-! ## Ranges and branches -/

theorem rangeValue_returns (first last : Modes) (location : Option Location) :
    (rangeValue first last location).Returns fun v =>
      v.Shaped ∧ (StaticType.ofSequenceType (.many .integer)).Describes v.items := by
  refine .bind first.toLong?.returns_any fun a _ => ?_
  cases a with
  | none => exact .pure ⟨trivial, .nil (.many _ _)⟩
  | some a =>
      refine .bind last.toLong?.returns_any fun b _ => ?_
      cases b with
      | none => exact .pure ⟨trivial, .nil (.many _ _)⟩
      | some b =>
          dsimp only
          split
          · next v made =>
              obtain ⟨valid, same⟩ := ValueOf.range?_holds made
              refine .pure ⟨valid.shaped, .many _ _, fun item member => ?_⟩
              rw [same] at member
              obtain ⟨i, _, rfl⟩ := List.mem_map.1 member
              exact ItemType.isSubtype_refl _
          · exact .raise

theorem choose_returns {A : Type} {P : A → Prop} {test : Modes} {yes no : Eval A} (positive : yes.Returns P)
    (negative : no.Returns P) : (choose test yes no).Returns P := by
  refine .bind test.boolean.returns_any fun held _ => ?_
  cases held with
  | true => exact positive
  | false => exact negative

/-! ## Filters -/

/-- The items that pass a predicate are added to those chosen before. -/
theorem selectFrom_sublist (predicate : Modes) (size : Nat) {rest chosen : List Item}
    {builder : ValueBuilder Expr} {position : Nat} (gathers : builder.Gathers chosen) :
    Eval.Returns (fun state => ∃ items, state.1.Gathers items ∧ items.Sublist (chosen ++ rest))
      (Eval.foldList (fun (state : ValueBuilder Expr × Nat) item => do
        let (builder, position) := state
        Eval.checkStop
        Eval.change fun c => { c with focus := ⟨some (.one item), position, size⟩ }
        let held ← predicate.test
        pure (if held.isSome then builder.addBack item else builder, position + 1))
        (builder, position) rest) := by
  induction rest generalizing chosen builder position with
  | nil => exact .pure ⟨chosen, gathers, List.sublist_append_left chosen []⟩
  | cons item rest rest_ih =>
      rw [Eval.foldList_cons]
      -- After one item the builder holds what it held before, with or without the item.
      refine .bind (P := fun state => state.1.Gathers chosen ∨ state.1.Gathers (chosen ++ [item])) ?_ ?_
      · refine Eval.Keeps.checkStop.bind fun _ _ => ?_
        refine (Eval.returns_any _).bind fun _ _ => predicate.test.returns_any.bind fun held _ => .pure ?_
        dsimp only
        split
        · exact .inr (gathers.addBack item)
        · exact .inl gathers
      · rintro ⟨builder, next⟩ (skipped | added)
        · refine Eval.Keeps.mono (rest_ih skipped) ?_
          rintro state ⟨items, gathered, selected⟩
          exact ⟨items, gathered, selected.trans ((List.sublist_cons_self item rest).append_left chosen)⟩
        · refine Eval.Keeps.mono (rest_ih added) ?_
          rintro state ⟨items, gathered, selected⟩
          rw [List.append_assoc] at selected
          exact ⟨items, gathered, selected⟩

theorem selectWhere_sublist {v : Value} (shaped : v.Shaped) (predicate : Modes) :
    (selectWhere v predicate).Returns fun w => w.Shaped ∧ w.items.Sublist v.items := by
  unfold selectWhere
  rw [Eval.foldValue, Eval.foldWalk_eq _ _ shaped.walk_reads, shaped.size_eq, List.take_length]
  refine Eval.Keeps.bind (selectFrom_sublist predicate _ ValueBuilder.empty_gathers) ?_
  rintro state ⟨items, gathers, selected⟩
  obtain ⟨frozen, same⟩ := gathers.freeze
  exact .pure ⟨frozen, by rwa [same]⟩

/-- Predicates leave some of the items, and a position among them leaves at most one. -/
theorem passAll_sublist {predicates : List (Option BinaryFloat × Modes)} {v : Value} (shaped : v.Shaped) :
    (passAll predicates v).Returns fun w => (w.Shaped ∧ w.items.Sublist v.items) ∧
      ((∃ p ∈ predicates, p.1.isSome = true) → w.items.length ≤ 1) := by
  induction predicates generalizing v with
  | nil => exact .pure ⟨⟨shaped, List.Sublist.refl _⟩, fun ⟨p, impossible, _⟩ => by cases impossible⟩
  | cons first rest rest_ih =>
      obtain ⟨position, predicate⟩ := first
      refine .bind (P := fun w => (w.Shaped ∧ w.items.Sublist v.items) ∧
        (position.isSome = true → w.items.length ≤ 1)) ?_ ?_
      · cases position with
        | none => exact Eval.Keeps.mono (selectWhere_sublist shaped predicate) fun w given =>
            ⟨given, fun impossible => by cases impossible⟩
        | some p =>
            refine .ofFaulty fun w selected => ?_
            rcases selectPosition_spec selected with rfl | ⟨i, item, found, rfl⟩
            · exact ⟨⟨trivial, List.nil_sublist _⟩, fun _ => Nat.zero_le 1⟩
            · rw [shaped.get?_eq] at found
              exact ⟨⟨trivial, List.singleton_sublist.2 (List.mem_of_getElem? found)⟩,
                fun _ => Nat.le_refl 1⟩
      · rintro w ⟨⟨whole, selected⟩, single⟩
        refine Eval.Keeps.mono (rest_ih whole) ?_
        rintro u ⟨⟨last, fewer⟩, few⟩
        refine ⟨⟨last, fewer.trans selected⟩, ?_⟩
        rintro ⟨p, member, positional⟩
        rcases List.mem_cons.1 member with rfl | later
        · exact Nat.le_trans fewer.length_le (single positional)
        · exact few ⟨p, later, positional⟩

theorem filterValue_sublist {base : Modes} {predicates : List (Option BinaryFloat × Modes)}
    (input : base.value.Returns fun v => v.Shaped ∧ D v.items) :
    (filterValue base predicates).Returns fun w => w.Shaped ∧ ∃ items, D items ∧ w.items.Sublist items ∧
      ((∃ p ∈ predicates, p.1.isSome = true) → w.items.length ≤ 1) := by
  refine .bind input fun v given => Eval.Keeps.bind Eval.context.returns_any fun saved _ => ?_
  intro c w c' _ ran
  change ((passAll predicates v c).1, { (passAll predicates v c).2 with focus := saved.focus }) =
    (.ok w, c') at ran
  cases ended : passAll predicates v c with
  | mk result c₁ =>
      rw [ended] at ran
      cases ran
      obtain ⟨⟨shaped, selected⟩, few⟩ := (passAll_sublist given.1).of ended
      exact ⟨trivial, shaped, v.items, given.2, selected, few⟩

/-! ## Expressions made by constructors -/

namespace Expr

/-- The expressions whose static type is put together from the types of their operands, as made by their
constructors. -/
inductive Combined : Expr → Prop where
  | list (operands : List Expr) (location : Option Location) : Combined (.listOf operands location)
  | conditional (test yes no : Expr) (location : Option Location) :
      Combined (.conditionalOf test yes no location)
  | loop (var : Variable) (source body : Expr) (location : Option Location) :
      Combined (.forOf var source body location)
  | filter (base : Expr) (predicates : List Expr) (location : Option Location) :
      Combined (.filterOf base predicates location)
  | letIn (var : Variable) (bound body : Expr) (location : Option Location) :
      Combined (.letIn var bound body location)
  | range (first last : Expr) (location : Option Location) : Combined (.rangeOf first last location)
  | call {f : BuiltIn} {arguments : List Expr} {location : Option Location} {e : Expr}
      (selects : f = .head ∨ f = .count ∨ f = .reverse) (made : callOf f arguments location = .ok e) :
      Combined e

theorem callOf_eq_ok {f : BuiltIn} {arguments : List Expr} {location : Option Location} {e : Expr}
    (made : callOf f arguments location = .ok e) :
    f.takes arguments.length = true ∧ e = .call f arguments (f.resultType arguments) location := by
  unfold callOf at made
  split at made
  · next takes =>
      cases made
      exact ⟨takes, rfl⟩
  · cases made

/-- The first item of a stream that conforms, if there is one. -/
theorem head_returns {m : Modes} {first : Expr} {rest : List Expr}
    (conforms : m.Conforms first.staticType.Describes) :
    Eval.Returns (fun found => (BuiltIn.head.resultType (first :: rest)).Describes found.toList) (do
      let s ← m.stream
      return (← s.next).map Prod.fst) := by
  intro c found c' _ ran
  obtain ⟨s, c₁, started, asking⟩ := Eval.bind_ok_iff.1 ran
  obtain ⟨answer, c₂, asked, made⟩ := Eval.bind_ok_iff.1 asking
  obtain ⟨rfl, rfl⟩ := Eval.pure_ok_iff.1 made
  have pulled := conforms.stream.of started c₁
  -- Without a head the stream is empty; otherwise the head is its first item.
  refine ⟨trivial, headType_describes (fun none => ?_) fun item some => ?_⟩
  · cases answer with
    | none => exact (pulled.meets.drain (Stream.drain_of_next_none asked)).allows
    | some pair => cases none
  · cases answer with
    | none => cases some
    | some pair =>
        obtain ⟨first, others⟩ := pair
        cases some
        rw [Stream.next_apply] at asked
        cases stepped : s.pull c₁ with
        | done c₃ =>
            rw [stepped] at asked
            cases asked
        | failed c₃ e =>
            rw [stepped] at asked
            cases asked
        | yield c₃ item left more =>
            rw [stepped] at asked pulled
            cases asked
            obtain ⟨⟨later, describes⟩, _⟩ := pulled
            exact ⟨describes.allows.occupied, describes.instances _ List.mem_cons_self⟩

theorem countItem_integer {n : Nat} {item : Item} (made : countItem n = .ok item) : ∃ i, item = .integer i := by
  unfold countItem at made
  split at made
  · cases made
    exact ⟨_, rfl⟩
  · cases made

theorem countOf_returns (size? : Option Nat) (stream : Eval Stream) :
    (countOf size? stream).Returns fun item => ∃ i, item = .integer i := by
  unfold countOf
  split
  · exact .ofExcept fun item made => countItem_integer made
  · refine .bind stream.returns_any fun s _ => ?_
    split
    · exact .ofExcept fun item made => countItem_integer made
    · exact .bind (Eval.returns_any _) fun n _ => .pure ⟨_, rfl⟩

/-- Over operands whose results are described by their types, the result is described by the type that
the constructor has put together. -/
theorem combined_meets {e : Expr} (combined : e.Combined)
    (conforms : ∀ s ∈ e.parts, (part s).Conforms s.staticType.Describes) :
    (e.modesOver calls part).Meets e.staticType.Describes := by
  have meets := fun s member => (conforms s member).meets
  cases combined with
  | list operands location =>
      refine (Modes.Meets.ofStream (.pure fun c => ?_)).withValue ?_
      · exact (pullAll_meets meets c).mono fun items pieces => concatType_describes pieces
      · exact Eval.Keeps.mono (listValue_returns meets) fun v given =>
          ⟨given.1, concatType_describes given.2⟩
  | conditional test yes no location =>
      have positive := meets yes (by simp [conditionalOf, parts])
      have negative := meets no (by simp [conditionalOf, parts])
      have left : ∀ items, yes.staticType.Describes items → (branchType yes no).Describes items :=
        fun items describes => branchType_describes (.inl describes)
      have right : ∀ items, no.staticType.Describes items → (branchType yes no).Describes items :=
        fun items describes => branchType_describes (.inr describes)
      exact ⟨choose_returns (Eval.Keeps.mono positive.stream fun _ steps c => (steps c).mono left)
          (Eval.Keeps.mono negative.stream fun _ steps c => (steps c).mono right),
        choose_returns (Eval.Keeps.mono positive.item fun _ => left _)
          (Eval.Keeps.mono negative.item fun _ => right _),
        choose_returns (Eval.Keeps.mono positive.value fun _ given => ⟨given.1, left _ given.2⟩)
          (Eval.Keeps.mono negative.value fun _ given => ⟨given.1, right _ given.2⟩)⟩
  | loop var source body location =>
      have input := meets source (by simp [forOf, parts])
      have result := meets body (by simp [forOf, parts])
      have enters : ∀ item, (enterLoop var location (part body) item).Returns
          (Stream.Meets body.staticType.Describes) := fun item =>
        Eval.Keeps.checkStop.bind fun _ _ => (Eval.returns_any _).bind fun _ _ => result.stream
      refine .ofStream (.bind input.stream fun s steps => .pure fun c => ?_)
      refine ((steps c).forEach enters).mono ?_
      rintro _ ⟨items, pieces, given, length, each, rfl⟩
      exact loopType_describes given length each
  | filter base predicates location =>
      have input := meets base (by simp [filterOf, parts])
      refine .ofValue (Eval.Keeps.mono (filterValue_sublist input.value) ?_)
      rintro w ⟨shaped, items, given, selected, few⟩
      refine ⟨shaped, filterType_describes given selected fun positional => few ?_⟩
      obtain ⟨s, member, found⟩ := List.any_eq_true.1 positional
      refine ⟨(s.position?, part s), ?_, found⟩
      rw [List.zip_map', List.mem_map]
      exact ⟨s, member, rfl⟩
  | letIn var bound body location =>
      have result := meets body (by simp [parts])
      refine (Modes.Meets.ofStreamAndItem ?_ ?_).withValue ?_
      · exact (Eval.returns_any _).bind fun _ _ => result.stream
      · exact (Eval.returns_any _).bind fun _ _ => result.item
      · exact (Eval.returns_any _).bind fun _ _ => result.value
  | range first last location => exact .ofValue (rangeValue_returns _ _ location)
  | @call f arguments location _ selects made =>
      obtain ⟨takes, rfl⟩ := callOf_eq_ok made
      have needed : 0 < f.leastArguments := by rcases selects with rfl | rfl | rfl <;> decide
      obtain ⟨first, rest, rfl⟩ := onePart takes needed
      have argument := conforms first List.mem_cons_self
      rcases selects with rfl | rfl | rfl
      · exact .ofItem (head_returns argument)
      · refine .ofItem (Eval.Keeps.map (countOf_returns _ _) ?_)
        rintro item ⟨i, rfl⟩
        exact .single (.one _) (ItemType.isSubtype_refl _)
      · refine .ofWhole (Eval.Keeps.bind argument.value fun v given => .pure ?_)
        obtain ⟨shaped, same⟩ := v.reverse_shaped
        exact ⟨shaped, by rw [same]; exact given.2.reverse⟩

/-! ## One evaluation -/

/-- The ways to evaluate an expression in which every result of an operand is checked: its items have to be
described by the static type of the operand. -/
noncomputable def checkedModes (calls : Calls) (e : Expr) : Modes :=
  e.modesOver calls fun s => (s.modes calls).checked s.staticType.Describes

/-- In this evaluation, started in this context, the results of all operands are described by their static
types, so that checking them changes nothing. -/
def OperandsConform {A : Type} (e : Expr) (calls : Calls) (way : Modes → Eval A) (c : Context) : Prop :=
  way (e.checkedModes calls) c = way (e.modes calls) c

/-- Nothing is refused where the operands conform in all contexts. -/
theorem operandsConform_of_conforms {e : Expr}
    (conforms : ∀ s ∈ e.parts, (s.modes calls).Conforms s.staticType.Describes) {A : Type}
    (way : Modes → Eval A) (c : Context) : e.OperandsConform calls way c := by
  have same : e.checkedModes calls = e.modes calls := by
    rw [modes_eq_modesOver]
    exact modesOver_congr fun s member => (conforms s member).checked_eq
  unfold OperandsConform
  rw [same]

/-- A result is described by the static type that the constructor has put together from those of the
operands: it has as many items as that allows, exactly as many as it says if it says so, and all are
instances of the item type.  So it is in all evaluations in which the results of the operands are
described by their types, however the result is asked for. -/
theorem combined_results_described {e : Expr} (combined : e.Combined) (calls : Calls) (c : Context) :
    (e.OperandsConform calls (·.value) c → ∀ v, ((e.modes calls).value c).1 = .ok v →
      e.staticType.Describes v.items ∧ e.staticType.Allows v.size) ∧
    (e.OperandsConform calls (·.item) c → ∀ found, ((e.modes calls).item c).1 = .ok found →
      e.staticType.Describes found.toList) ∧
    (e.OperandsConform calls (·.drain) c → ∀ items, ((e.modes calls).drain c).1 = .ok items →
      e.staticType.Describes items) := by
  have meets : (e.checkedModes calls).Meets e.staticType.Describes :=
    combined_meets combined fun s _ => Modes.checked_conforms _ _
  have result : ∀ {A : Type} {P : A → Prop} (way : Modes → Eval A), (way (e.checkedModes calls)).Returns P →
      e.OperandsConform calls way c → ∀ a, (way (e.modes calls) c).1 = .ok a → P a := by
    intro A P way holds conform a given
    rw [← conform] at given
    exact holds.of (Prod.ext given rfl)
  refine ⟨fun conform v given => ?_, result (·.item) meets.item, result (·.drain) ?_⟩
  · obtain ⟨shaped, describes⟩ := result (·.value) meets.value conform v given
    exact ⟨describes, by rw [shaped.size_eq]; exact describes.allows⟩
  · exact Modes.drainStream_returns meets.stream

/-- A literal conforms to its static type. -/
theorem literal_conforms {v : Value} (valid : v.Valid)
    (instances : ∀ item ∈ v.items, item.type.isSubtype v.type = true) :
    ((literal v).modes calls).Conforms (literal v).staticType.Describes :=
  Modes.ofLiteral_conforms valid.shaped (literal_describes valid instances)

end Expr

/-- `for $x in (1, 2) return ("a", "b")` -/
def repeatTexts : Expr :=
  .forOf ⟨0, "x", none⟩ (.literal (.ofItems [.integer 1, .integer 2]))
    (.literal (.ofItems [.atom (.string "a"), .atom (.string "b")])) none

/-- The loop over two numbers gives the four strings that its type announces. -/
theorem repeatTexts_described :
    repeatTexts.staticType = .sized (.atomic .string) 4 ∧
      ∃ v, (repeatTexts.run.value (.initial {})).1 = .ok v ∧ repeatTexts.staticType.Describes v.items := by
  have conforms : ∀ s ∈ repeatTexts.parts, (s.modes (callsWithin callDepth)).Conforms
      s.staticType.Describes := by
    refine Expr.forall_pair ?_ ?_
    · exact Expr.literal_conforms (ValueOf.ofItems_holds _).1 (by decide)
    · exact Expr.literal_conforms (ValueOf.ofItems_holds _).1 (by decide)
  obtain ⟨v, given⟩ : ∃ v, (repeatTexts.run.value (.initial {})).1 = .ok v :=
    ⟨_, by with_unfolding_all rfl⟩
  refine ⟨by decide, v, given, ?_⟩
  exact ((Expr.combined_results_described (.loop _ _ _ _) (callsWithin callDepth) (.initial {})).1
    (Expr.operandsConform_of_conforms conforms _ _) v given).1

end QueryKernel
