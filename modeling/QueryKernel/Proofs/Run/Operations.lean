import QueryKernel.Proofs.Eval.Operations
import QueryKernel.Proofs.Meaning.Fits
import QueryKernel.Proofs.Run.Modes

/-!
# Operations that follow an outcome

The operations on results, from reading an atom to adding up a sequence, give what the meaning says if
their operands do.

The sum of a range is known in closed form, whereas the meaning adds integers up exactly, and elsewhere they are
added one by one; where the last succeeds, all three agree.
-/

namespace QueryKernel

variable {keep : Visible} {mine : List Nat} {c : Context} {s : Sequence} {updates : List PendingUpdate}

/-! ## Boolean values -/

namespace Modes

variable {m : Modes}

theorem Follows.mono {wide : Visible} {more : List Nat} (follows : m.Follows keep mine c s updates)
    (within : ∀ reference, keep reference → wide reference) (subset : mine ⊆ more) :
    m.Follows wide more c s updates := by
  refine ⟨fun given c' started => ?_, follows.item.mono subset fun _ => id,
    follows.value.mono subset fun _ => id, fun none => (follows.booleanItem none).mono subset fun _ => id⟩
  obtain ⟨now, later, all, led, goesOn⟩ := follows.stream given c' started
  exact ⟨now, later, all, led.mono subset, goesOn.left, fun c₁ alike =>
    (goesOn.pull c₁ (alike.fewer within)).mono within subset⟩

/-- The item that decides has the boolean value of the sequence. -/
theorem truth_of_deciding {items : List Item} {item : Item} {held : Bool}
    (same : (deciding items).getD (.boolean false) = item) (read : item.booleanValue = .ok held) :
    truth items = held := by
  unfold truth
  cases decided : deciding items with
  | none =>
      rw [decided] at same
      subst same
      cases read
      rfl
  | some other =>
      rw [decided, Option.getD_some] at same
      subst same
      rw [Option.map_some, Option.getD_some, ItemOf.truth, read]
      rfl

theorem Follows.boolean (follows : m.Follows keep mine c s []) :
    m.boolean.Gives mine c [] fun held => truth s.items = held :=
  (follows.booleanItem rfl).andThen fun _ _ _ same _ => .ofExcept fun _ read => truth_of_deciding same read

/-- Without a number that decides, a predicate holds where the boolean value does. -/
theorem truth_of_mayHold {numbers : Numbers} {items : List Item} {position : Nat} {held : Bool}
    (notNumber : ∀ a, deciding items = some (.atom a) → a.isNumeric = false)
    (may : MayHold numbers items position held) : truth items = held := by
  unfold MayHold at may
  unfold truth
  split at may
  · next a found =>
      rw [if_neg (by rw [notNumber a found]; simp)] at may
      rw [found, may]
      rfl
  · next found =>
      rw [found, may]
      rfl
  · next found =>
      rw [found, may]
      rfl

/-- A number that decides is left to the meaning. -/
theorem numbers_of_mayHold {numbers : Numbers} {items : List Item} {position : Nat} {held : Bool} {a : Atom}
    (same : (deciding items).getD (.boolean false) = .atom a) (numeric : a.isNumeric = true)
    (may : MayHold numbers items position held) : numbers a position held := by
  have found : deciding items = some (.atom a) := by
    cases decided : deciding items with
    | none =>
        rw [decided] at same
        cases same
        cases numeric
    | some other => rw [← same, decided, Option.getD_some]
  unfold MayHold at may
  rw [found] at may
  dsimp only at may
  rwa [if_pos numeric] at may

theorem isSome_passed (held : Bool) (item : Item) : (if held then some item else none).isSome = held := by
  cases held <;> rfl

/-- A predicate holds where its result says so.  How numbers may be decided is left to the meaning, as
long as that does not contradict evaluation. -/
theorem Follows.test {numbers : Numbers} (follows : m.Follows keep mine c s [])
    (decided : ∀ a c', m.booleanItem c = (.ok (.atom a), c') → a.isNumeric = true →
      ∀ held, numbers a c.focus.position held → held = numberHolds a c.focus.position) :
    m.test.Gives mine c [] fun found =>
      ∀ held, MayHold numbers s.items c.focus.position held → found.isSome = held := by
  refine (follows.booleanItem rfl).andThen fun item c₁ ran same led => ?_
  -- Without a number that decides, the boolean value does.
  have read : (∀ a, item = .atom a → a.isNumeric = false) → Eval.Gives mine c₁ [] (fun found : Option Item =>
      ∀ held, MayHold numbers s.items c.focus.position held → found.isSome = held) (do
        let held ← Eval.ofExcept m.location item.booleanValue
        pure (if held then some item else none)) := by
    intro notNumber
    have other : ∀ a, deciding s.items = some (.atom a) → a.isNumeric = false := by
      intro a found
      rw [found] at same
      exact notNumber a same.symm
    refine .andThen (P := fun held => truth s.items = held)
      (.ofExcept fun _ read => truth_of_deciding same read) fun held _ _ holds _ => .pure fun held' may => ?_
    rw [isSome_passed, ← holds, truth_of_mayHold other may]
  dsimp only
  split
  · next a =>
      split
      · next numeric =>
          refine .andThen (P := fun seen => seen = c₁) (fun seen c' asked => ?_) fun seen _ _ same₁ _ => ?_
          · obtain ⟨rfl, rfl⟩ := Eval.context_ok_iff.1 asked
            exact ⟨rfl, Context.leads_refl _ _⟩
          · subst same₁
            refine .andThen (P := fun held => held = numberHolds a c.focus.position) (.pure ?_)
              fun held _ _ holds _ => .pure fun held' may => ?_
            · rw [led.focus]
              rfl
            · rw [isSome_passed, holds, decided a _ ran numeric held' (numbers_of_mayHold same numeric may)]
      · next other =>
          refine read fun b same => ?_
          cases same
          exact Bool.eq_false_iff.2 other
  · next notAtom => exact read fun a same => (notAtom a same).elim

end Modes

/-! ## Atoms -/

/-- At most one atom, that of the only item. -/
inductive AtomOf : List Item → Option Atom → Prop where
  | none : AtomOf [] none
  | some {item : Item} {a : Atom} (read : item.atom? = some a) : AtomOf [item] (some a)

/-- At most one integer, that of the only item. -/
inductive LongOf : List Item → Option Int64 → Prop where
  | none : LongOf [] none
  | some {item : Item} {a : Atom} {n : Int64} (read : item.atom? = some a) (long : a.toLong? = some n) :
      LongOf [item] (some n)

namespace Modes

variable {m : Modes}

theorem Follows.atomItem (follows : m.Follows keep mine c s updates) (plain : AllPlain s.items) :
    m.atomItem.Gives mine c updates (AtomOf s.items) := by
  refine follows.item.followed fun found c₁ _ same _ => ?_
  cases found with
  | none =>
      rw [same]
      exact .pure .none
  | some item =>
      rw [same] at plain ⊢
      obtain ⟨a, read, atoms⟩ := atoms_of_plain (plain item List.mem_cons_self)
      dsimp only
      rw [atoms]
      exact .andThen (P := fun given => given = [a]) (.pure rfl) fun _ _ _ same _ => by
        subst same
        exact .pure (.some read)

theorem longOf_gives (a : Atom) : (m.longOf a).Gives mine c [] fun n => a.toLong? = some n := by
  cases a with
  | integer i => exact .pure rfl
  | untyped text =>
      unfold Modes.longOf
      dsimp only
      split
      · next i read => exact .pure read
      · exact .raise
  | _ => exact .raise

theorem Follows.toLong? (follows : m.Follows keep mine c s []) (plain : AllPlain s.items) :
    m.toLong?.Gives mine c [] (LongOf s.items) := by
  refine (follows.atomItem plain).andThen fun found c₁ _ given _ => ?_
  cases found with
  | none =>
      generalize s.items = items at given
      cases given
      exact .pure .none
  | some a =>
      generalize s.items = items at given
      cases given with
      | some read => exact (longOf_gives a).finish fun n long => .some read long

end Modes

/-! ## Operations on two operands -/

section Operands

variable {a b : Modes} {x y : Sequence} {location : Option Location}
  (left : a.Follows keep mine c x []) (leftPlain : AllPlain x.items)
  (right : ∀ c', c.Leads mine c' [] → b.Follows keep mine c' y []) (rightPlain : AllPlain y.items)

include left leftPlain right rightPlain

theorem onAtoms_gives {operation : Atom → Atom → Except AtomError Item} :
    (onAtoms a b location operation).Gives mine c [] fun found =>
      operate operation x.items y.items = found.toList := by
  refine (left.atomItem leftPlain).andThen fun first c₁ _ givenFirst led => ?_
  generalize x.items = items at givenFirst leftPlain
  cases givenFirst with
  | none => exact .pure rfl
  | @some item first readFirst =>
      refine ((right c₁ led).atomItem rightPlain).andThen fun second c₂ _ givenSecond _ => ?_
      generalize y.items = others at givenSecond rightPlain
      cases givenSecond with
      | none => exact .pure rfl
      | @some other second readSecond =>
          have applied : ∀ made, (operation first second).mapError (Cause.ofAtomError (F := Expr)) = .ok made →
              operate operation [item] [other] = [made] := by
            intro made result
            cases found : operation first second with
            | ok given =>
                rw [found] at result
                cases result
                simp [operate, operateAtoms, readFirst, readSecond, found, Except.toOption]
            | error e =>
                rw [found] at result
                cases result
          exact (Eval.Gives.ofExcept applied).finish fun made same => same

theorem rangeValue_gives (same : s.From (rangeItems x.items y.items)
    (decide (2 ≤ (rangeItems x.items y.items).length))) :
    (rangeValue a b location).Gives mine c [] (·.Is s) := by
  refine (left.toLong? leftPlain).andThen fun first c₁ _ givenFirst led => ?_
  generalize x.items = items at givenFirst leftPlain same
  cases givenFirst with
  | none => exact .pure (ValueOf.Shaped.isSequence trivial rfl same.items_eq)
  | @some item atom first readFirst longFirst =>
      refine ((right c₁ led).toLong? rightPlain).andThen fun last c₂ _ givenLast _ => ?_
      generalize y.items = others at givenLast rightPlain same
      cases givenLast with
      | none => exact .pure (ValueOf.Shaped.isSequence trivial rfl same.items_eq)
      | @some other atom last readLast longLast =>
          have bounded : rangeItems [item] [other] = boundedRange first last := by
            simp [rangeItems, readFirst, longFirst, readLast, longLast]
          rw [bounded] at same
          dsimp only
          split
          · next v made =>
              obtain ⟨valid, items⟩ := ValueOf.range?_holds made
              have few : ¬ IntegerRange.maxLength < (ValueOf.integersBetween first last : List Item).length := by
                intro many
                rw [(ValueOf.range?_eq_none_iff first last).2 many] at made
                cases made
              have all : boundedRange first last = v.items := by
                rw [items, boundedRange]
                exact if_pos (Nat.le_of_not_lt few)
              rw [all] at same
              refine .pure ⟨valid.shaped, same.weaken fun range => ?_⟩
              cases v with
              | range r =>
                  rw [← valid.size_eq]
                  exact decide_eq_true (IntegerRange.Valid.least valid)
              | empty | one item | flat items tag | tree rope tag => cases range
          · exact .raise

end Operands

/-! ## Selection -/

/-- Up to the focus nothing but own variables has changed. -/
def Context.Inside (mine : List Nat) (c d : Context) : Prop := c.Leads mine { d with focus := c.focus } []

theorem Context.inside_refl (mine : List Nat) (c : Context) : c.Inside mine c := leads_refl mine c

theorem Context.Inside.leads {d d' : Context} (inside : c.Inside mine d) (led : d.Leads mine d' []) :
    c.Inside mine d' := by
  refine ⟨rfl, led.forest.trans inside.forest, fun id foreign => ?_, ?_⟩
  · exact (led.bindings id foreign).trans (inside.bindings id foreign)
  · exact led.updates.trans (by rw [List.append_nil]; exact inside.updates)

theorem Context.Inside.focus {d : Context} (inside : c.Inside mine d) (focus : Focus) :
    c.Inside mine { d with focus := focus } := ⟨rfl, inside.forest, inside.bindings, inside.updates⟩

theorem selectPosition_eq (v : Value) (position : BinaryFloat) :
    selectPosition v position = if isPositionIn position v.size then
      (v.itemAt (positionIndex position)).map .one else .ok .empty := by
  have both : ∀ whole low high : Bool, whole = true ∧ low = true ∧ high = true ↔ (whole && low && high) = true := by
    decide
  exact if_congr (both _ _ _) rfl rfl

theorem selectPosition_is {v w : Value} {position : BinaryFloat} (shaped : v.Shaped)
    (selected : selectPosition v position = .ok w) : w.Is ⟨selectAt v.items position, false⟩ := by
  rw [selectPosition_eq, shaped.size_eq] at selected
  unfold selectAt
  split at selected
  · next inside =>
      rw [if_pos inside]
      cases found : v.itemAt (positionIndex position) with
      | error fault =>
          rw [found] at selected
          cases selected
      | ok item =>
          rw [found] at selected
          cases selected
          rw [← shaped.get?_eq, itemAt_eq_ok found]
          exact ValueOf.Shaped.isSequence trivial rfl rfl
  · next outside =>
      cases selected
      rw [if_neg outside]
      exact ValueOf.Shaped.isSequence trivial rfl rfl

section Selection

variable {predicate : Modes} {holds : Item → Nat → Bool → Prop} {all : List Item} {size : Nat}
  (each : ∀ k item held, all[k]? = some item → holds item (k + 1) held → ∀ d, c.Inside mine d →
    predicate.test.Gives mine { d with focus := ⟨some (.one item), k + 1, size⟩ } [] (·.isSome = held))

include each

/-- The invariant of the selection: the builder has what was chosen from the items before. -/
theorem selectFrom_gives {rest : List Item} {k : Nat} (behind : all.drop k = rest)
    {builder : ValueBuilder Expr} {chosen others : List Item} (gathers : builder.Gathers chosen)
    (selects : Selects holds rest (k + 1) others) {d d' : Context} (inside : c.Inside mine d)
    {state : ValueBuilder Expr × Nat}
    (ran : Eval.foldList (fun (state : ValueBuilder Expr × Nat) item => do
      let (builder, position) := state
      Eval.checkStop
      Eval.change fun c => { c with focus := ⟨some (.one item), position, size⟩ }
      let held ← predicate.test
      pure (if held.isSome then builder.addBack item else builder, position + 1))
      (builder, k + 1) rest d = (.ok state, d')) :
    state.1.Gathers (chosen ++ others) ∧ c.Inside mine d' := by
  induction rest generalizing k builder chosen others d with
  | nil =>
      cases ran
      rw [show others = [] from selects, List.append_nil]
      exact ⟨gathers, inside⟩
  | cons item rest rest_ih =>
      rw [Eval.foldList_cons] at ran
      obtain ⟨next, d₁, stepped, goingOn⟩ := Eval.bind_ok_iff.1 ran
      obtain ⟨_, d₂, checked, asked⟩ := Eval.bind_ok_iff.1 stepped
      obtain ⟨-, rfl⟩ := Eval.checkStop_ok_iff.1 checked
      obtain ⟨_, d₃, changed, tried⟩ := Eval.bind_ok_iff.1 asked
      obtain rfl := Eval.change_ok_iff.1 changed
      obtain ⟨held, d₄, tested, decided⟩ := Eval.bind_ok_iff.1 tried
      obtain ⟨rfl, rfl⟩ := Eval.pure_ok_iff.1 decided
      obtain ⟨holding, later, first, remaining, rfl⟩ := selects
      have found : all[k]? = some item := by
        rw [← List.head?_drop, behind]
        rfl
      -- The position in the list is that of the item among all items, as nothing has been skipped.
      obtain ⟨same, led⟩ := each k item holding found first d₂ inside held d₄ tested
      have after := (inside.focus _).leads led
      have others : all.drop (k + 1) = rest := by
        rw [← List.tail_drop, behind]
        rfl
      dsimp only at goingOn
      rw [same] at goingOn
      cases holding with
      | true =>
          have added := rest_ih others (gathers.addBack item) remaining after goingOn
          rwa [List.append_assoc] at added
      | false => exact rest_ih others gathers remaining after goingOn

theorem selectWhere_gives {v w : Value} (shaped : v.Shaped) (items : v.items = all) (sized : v.size = size)
    {chosen : List Item} (selects : Selects holds all 1 chosen) {d d' : Context}
    (inside : c.Inside mine d) (ran : selectWhere v predicate d = (.ok w, d')) :
    w.Is ⟨chosen, false⟩ ∧ c.Inside mine d' := by
  subst items sized
  unfold selectWhere at ran
  rw [Eval.foldValue, Eval.foldWalk_eq _ _ shaped.walk_reads, shaped.size_eq, List.take_length] at ran
  obtain ⟨state, d₁, folded, frozen⟩ := Eval.bind_ok_iff.1 ran
  obtain ⟨rfl, rfl⟩ := Eval.pure_ok_iff.1 frozen
  rw [← shaped.size_eq] at folded
  obtain ⟨gathered, after⟩ := selectFrom_gives each (k := 0) rfl ValueBuilder.empty_gathers selects inside folded
  exact ⟨gathered.is rfl, after⟩

end Selection

/-! ## Nodes -/

theorem distinctRoots_onWalk {forest : Forest} {w : Walk Expr} {items : List Item} (reads : w.Reads items)
    {n : Nat} (enough : items.length ≤ n) {found roots : List Node}
    (made : distinctRoots.onWalk forest n found w = .ok roots) :
    rootsOf forest.root found items = some roots := by
  induction n generalizing w items found with
  | zero =>
      rw [List.length_eq_zero_iff.1 (Nat.le_zero.1 enough)]
      cases made
      rfl
  | succ n n_ih =>
      obtain ⟨item, rest⟩ := reads.next
      generalize moved : w.next = step at item rest
      obtain ⟨given, w'⟩ := step
      simp only [distinctRoots.onWalk, moved] at made
      cases items with
      | nil =>
          simp only [List.head?_nil] at item
          subst item
          cases made
          rfl
      | cons first others =>
          simp only [List.head?_cons] at item
          subst item
          cases first with
          | node node => exact n_ih rest (Nat.le_of_succ_le_succ enough) made
          | atom a => cases made
          | function f => cases made
          | map identity entries type => cases made
          | array identity members type => cases made

theorem distinctRoots_eq {forest : Forest} {v : Value} (shaped : v.Shaped) {roots : List Node}
    (made : distinctRoots forest v = .ok roots) : rootsOf forest.root [] v.items = some roots :=
  distinctRoots_onWalk shaped.walk_reads (Nat.le_of_eq shaped.size_eq.symm) made

theorem ofItems_is {items : List Item} (same : s.items = items) : (ValueOf.ofItems items).Is s := by
  obtain ⟨valid, all⟩ := ValueOf.ofItems_holds items
  exact valid.shaped.isSequence (isRange_ofBundle _ _) (same.trans all.symm)

theorem deletions_append (items others : List Item) :
    deletions (items ++ others) = deletions items ++ deletions others := by
  induction items with
  | nil => rfl
  | cons item rest rest_ih => cases item <;> simp [deletions, rest_ih]

theorem deleteAll_gives {target : Modes} {t : Sequence} {location : Option Location}
    (input : target.Follows keep mine c t []) (same : s.items = []) :
    (deleteAll target location).Gives mine c (deletions t.items) (·.Is s) := by
  intro v c' ran
  obtain ⟨given, c₁, started, recording⟩ := Eval.bind_ok_iff.1 ran
  obtain ⟨led, follows⟩ := input.stream.quiet started
  obtain ⟨_, c₂, folded, ended⟩ := Eval.bind_ok_iff.1 recording
  obtain ⟨rfl, rfl⟩ := Eval.pure_ok_iff.1 ended
  -- The updates recorded so far are the deletions of the nodes read so far.
  have recorded : ∃ more, more = deletions t.items ∧ c₁.Leads mine c₂ more := by
    have begun : ([] : List PendingUpdate) = deletions [] := rfl
    refine (follows.pull c₁ (Context.alike_refl _ _)).foldRecording
      (P := fun _ items updates => updates = deletions items) ?_ begun folded
    rintro _ done undone rfl item d _ d' stepped
    obtain ⟨_, d₁, checked, asked⟩ := Eval.bind_ok_iff.1 stepped
    obtain ⟨-, rfl⟩ := Eval.checkStop_ok_iff.1 checked
    cases item with
    | node n =>
        obtain rfl := Eval.change_ok_iff.1 asked
        refine ⟨⟨fun _ => rfl, fun _ => rfl, fun _ _ => rfl⟩, [.delete n], ?_, ?_⟩
        · rw [deletions_append]
          rfl
        · exact ⟨rfl, rfl, fun _ _ => rfl, Array.toList_push⟩
    | atom a => exact (Eval.raise_ok_iff.1 asked).elim
    | function f => exact (Eval.raise_ok_iff.1 asked).elim
    | map identity entries type => exact (Eval.raise_ok_iff.1 asked).elim
    | array identity members type => exact (Eval.raise_ok_iff.1 asked).elim
  obtain ⟨more, rfl, out⟩ := recorded
  exact ⟨ValueOf.Shaped.isSequence trivial rfl same, led.quiet out⟩

/-! ## Items and their number -/

theorem head_gives {stream : Eval Stream} {items : List Item} (starts : stream.Starts keep mine c items []) :
    Eval.Gives mine c [] (fun found => items.take 1 = found.toList) (do
      let s ← stream
      return (← s.next).map Prod.fst) := by
  intro answer c' ran
  obtain ⟨given, c₁, started, reading⟩ := Eval.bind_ok_iff.1 ran
  obtain ⟨led, follows⟩ := starts.quiet started
  obtain ⟨found, c₂, asked, ended⟩ := Eval.bind_ok_iff.1 reading
  obtain ⟨rfl, rfl⟩ := Eval.pure_ok_iff.1 ended
  cases found with
  | none =>
      obtain ⟨rfl, out⟩ := follows.next_none (Context.alike_refl _ _) asked
      exact ⟨rfl, led.quiet out⟩
  | some pair =>
      obtain ⟨others, now, later, rfl, none, out, _⟩ := follows.next_some (Context.alike_refl _ _) asked
      obtain ⟨rfl, rfl⟩ := List.append_eq_nil_iff.1 none.symm
      exact ⟨rfl, led.quiet out⟩

theorem countItem_eq {n : Nat} {item : Item} (made : countItem n = .ok item) : item = countItems n := by
  unfold countItem long? at made
  split at made
  · next i found =>
      split at found
      · cases found
        cases made
        rfl
      · cases found
  · cases made

theorem countOf_gives {size? : Option Nat} {stream : Eval Stream} {items : List Item}
    (known : ∀ n, size? = some n → n = items.length) (starts : stream.Starts keep mine c items []) :
    (countOf size? stream).Gives mine c [] (· = countItems items.length) := by
  unfold countOf
  split
  · next n =>
      rw [← known n rfl]
      exact .ofExcept fun item => countItem_eq
  · intro answer c' ran
    obtain ⟨given, c₁, started, counting⟩ := Eval.bind_ok_iff.1 ran
    obtain ⟨led, follows⟩ := starts.quiet started
    cases left : given.left with
    | some n =>
        rw [left] at counting
        obtain ⟨made, rfl⟩ := Eval.ofExcept_ok_iff.1 counting
        rw [← follows.left n left]
        exact ⟨countItem_eq made, led⟩
    | none =>
        rw [left] at counting
        obtain ⟨n, c₂, folded, ended⟩ := Eval.bind_ok_iff.1 counting
        obtain ⟨rfl, rfl⟩ := Eval.pure_ok_iff.1 ended
        obtain ⟨rfl, out⟩ := (follows.pull c₁ (Context.alike_refl _ _)).fold (g := fun n _ => n + 1) (by
          intro n item d m d' stepped
          obtain ⟨_, _, checked, counted⟩ := Eval.bind_ok_iff.1 stepped
          obtain ⟨-, rfl⟩ := Eval.checkStop_ok_iff.1 checked
          obtain ⟨rfl, rfl⟩ := Eval.pure_ok_iff.1 counted
          exact ⟨rfl, rfl⟩) folded
        rw [List.foldl_add_const, Nat.zero_add, Nat.one_mul]
        exact ⟨rfl, led.quiet out⟩

end QueryKernel
