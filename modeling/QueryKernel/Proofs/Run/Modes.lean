import QueryKernel.Proofs.Run.Follow

/-!
# Ways to evaluate that follow an outcome

What it means that all ways to evaluate an expression agree with one outcome, and that every way of
deriving the others from a stream, a value or an item preserves this.

Nothing is asked of a failure: each statement is about a success, so that a computation follows an outcome also
where evaluation would stop with an error.

## Definitions

* `Eval.Gives` is about the result and the updates of a successful computation.
* `Eval.Starts` says that a computation gives a stream which yields the items of an outcome.
* `Modes.Follows` is about all ways to evaluate.
-/

namespace QueryKernel

namespace Eval

variable {A B : Type} {mine more : List Nat} {c : Context} {updates now later : List PendingUpdate}
  {P Q : A → Prop} {R : B → Prop}

/-- A success has a result that satisfies the condition, and has recorded the updates. -/
def Gives (mine : List Nat) (c : Context) (updates : List PendingUpdate) (P : A → Prop) (x : Eval A) :
    Prop := ∀ a c', x c = (.ok a, c') → P a ∧ c.Leads mine c' updates

theorem Gives.mono {x : Eval A} (gives : x.Gives mine c updates P) (subset : mine ⊆ more)
    (implies : ∀ a, P a → Q a) : x.Gives more c updates Q := by
  intro a c' ran
  obtain ⟨holds, led⟩ := gives a c' ran
  exact ⟨implies a holds, led.mono subset⟩

theorem Gives.weaken {x : Eval A} (gives : x.Gives mine c updates P) (implies : ∀ a, P a → Q a) :
    x.Gives mine c updates Q := gives.mono (List.Subset.refl _) implies

theorem Gives.pure {a : A} (holds : P a) : Gives mine c [] P (pure a) := by
  intro b c' ran
  obtain ⟨rfl, rfl⟩ := pure_ok_iff.1 ran
  exact ⟨holds, Context.leads_refl _ _⟩

theorem Gives.fail {e : Failure} : Gives mine c updates P (fail e) :=
  fun _ _ ran => (fail_ok_iff.1 ran).elim

theorem Gives.raise {cause : Cause Expr} {location : Option Location} :
    Gives mine c updates P (raise cause location) := Gives.fail

theorem Gives.ofExcept {location : Option Location} {x : Except (Cause Expr) A}
    (holds : ∀ a, x = .ok a → P a) : Gives mine c [] P (ofExcept location x) := by
  intro a c' ran
  obtain ⟨made, rfl⟩ := ofExcept_ok_iff.1 ran
  exact ⟨holds a made, Context.leads_refl _ _⟩

theorem Gives.ofFaulty {x : Except Fault A} (holds : ∀ a, x = .ok a → P a) :
    Gives mine c [] P (ofFaulty x) := by
  intro a c' ran
  obtain ⟨made, rfl⟩ := ofFaulty_ok_iff.1 ran
  exact ⟨holds a made, Context.leads_refl _ _⟩

theorem Gives.locate {location : Option Location} {x : Eval A} (gives : x.Gives mine c updates P) :
    (x.locate location).Gives mine c updates P :=
  fun a c' ran => gives a c' (locate_ok_iff.1 ran)

theorem Gives.bind {x : Eval A} {f : A → Eval B} (first : x.Gives mine c now P)
    (second : ∀ a c', x c = (.ok a, c') → P a → c.Leads mine c' now → (f a).Gives mine c' later R) :
    (x >>= f).Gives mine c (now ++ later) R := by
  intro b c' ran
  obtain ⟨a, c₁, ran₁, ran₂⟩ := bind_ok_iff.1 ran
  obtain ⟨given, led⟩ := first a c₁ ran₁
  obtain ⟨holds, out⟩ := second a c₁ ran₁ given led b c' ran₂
  exact ⟨holds, led.trans out⟩

/-- A computation that records nothing before another. -/
theorem Gives.andThen {x : Eval A} {f : A → Eval B} (first : x.Gives mine c [] P)
    (second : ∀ a c', x c = (.ok a, c') → P a → c.Leads mine c' [] → (f a).Gives mine c' updates R) :
    (x >>= f).Gives mine c updates R := first.bind second

/-- A computation that records nothing after another. -/
theorem Gives.followed {x : Eval A} {f : A → Eval B} (first : x.Gives mine c updates P)
    (second : ∀ a c', x c = (.ok a, c') → P a → c.Leads mine c' updates → (f a).Gives mine c' [] R) :
    (x >>= f).Gives mine c updates R := by
  have both := first.bind second
  rwa [List.append_nil] at both

/-- A pure step behind a computation. -/
theorem Gives.finish {x : Eval A} {f : A → B} (first : x.Gives mine c updates P)
    (holds : ∀ a, P a → R (f a)) : Gives mine c updates R (x >>= fun a => Pure.pure (f a)) := by
  intro b c' ran
  obtain ⟨a, c₁, ran₁, ran₂⟩ := bind_ok_iff.1 ran
  obtain ⟨rfl, rfl⟩ := pure_ok_iff.1 ran₂
  obtain ⟨given, led⟩ := first a c₁ ran₁
  exact ⟨holds a given, led⟩

theorem Gives.checkStop : Gives mine c [] (fun _ => True) checkStop := by
  intro u c' ran
  rw [(checkStop_ok_iff.1 ran).2]
  exact ⟨trivial, Context.leads_refl _ _⟩

/-- A success gives a stream of the items.  Updates are recorded at once or with the items. -/
def Starts (keep : Visible) (mine : List Nat) (c : Context) (items : List Item)
    (updates : List PendingUpdate) (x : Eval Stream) : Prop :=
  ∀ s c', x c = (.ok s, c') → ∃ now later, updates = now ++ later ∧ c.Leads mine c' now ∧
    s.Follows keep mine c' items later

/-- Where nothing is recorded, nothing is recorded before the stream or by it. -/
theorem Starts.quiet {keep : Visible} {items : List Item} {x : Eval Stream} {s : Stream} {c' : Context}
    (starts : x.Starts keep mine c items []) (started : x c = (.ok s, c')) :
    c.Leads mine c' [] ∧ s.Follows keep mine c' items [] := by
  obtain ⟨now, later, none, led, follows⟩ := starts s c' started
  obtain ⟨rfl, rfl⟩ := List.append_eq_nil_iff.1 none.symm
  exact ⟨led, follows⟩

/-- A computation that records nothing before the stream. -/
theorem Starts.after {keep : Visible} {items : List Item} {x : Eval A} {f : A → Eval Stream}
    (first : x.Gives mine c [] P)
    (second : ∀ a c', x c = (.ok a, c') → P a → c.Leads mine c' [] →
      (f a).Starts keep mine c' items updates) : (x >>= f).Starts keep mine c items updates := by
  intro s c' ran
  obtain ⟨a, c₁, ran₁, ran₂⟩ := bind_ok_iff.1 ran
  obtain ⟨given, led⟩ := first a c₁ ran₁
  obtain ⟨now, later, rfl, out, follows⟩ := second a c₁ ran₁ given led s c' ran₂
  exact ⟨now, later, rfl, led.quiet out, follows⟩

end Eval

/-! ## Values and streams -/

/-- The value is in shape, and a sequence has its items and is added up in the same way. -/
structure ValueOf.Is (v : Value) (s : Sequence) : Prop where
  shaped : v.Shaped
  holds : s.From v.items v.isRange

theorem ValueOf.Is.items_eq {v : Value} {s : Sequence} (same : v.Is s) : s.items = v.items :=
  same.holds.items_eq

/-- Only ranges are added up in a way of their own. -/
theorem ValueOf.Shaped.isSequence {v : Value} {s : Sequence} (shaped : v.Shaped)
    (notRange : v.isRange = false) (items : s.items = v.items) : v.Is s := by
  refine ⟨shaped, items, fun range => ?_⟩
  rw [notRange] at range
  cases range

theorem isRange_ofBundle (tag : TypeTag) (bundle : Bundle Item) :
    (ValueOf.ofBundle tag bundle : Value).isRange = false := by
  cases bundle with
  | flat few =>
      match few with
      | [] => rfl
      | [item] => rfl
      | first :: second :: rest => rfl
  | rope r => rfl

theorem ValueBuilder.Gathers.is {b : ValueBuilder Expr} {items : List Item} (gathers : b.Gathers items)
    {s : Sequence} (same : s.items = items) : b.freeze.Is s := by
  obtain ⟨shaped, all⟩ := gathers.freeze
  exact shaped.isSequence (isRange_ofBundle _ _) (same.trans all.symm)

theorem is_valueOfOption {found : Option Item} {s : Sequence} (same : s.items = found.toList) :
    (valueOfOption found).Is s := by
  cases found with
  | none => exact ValueOf.Shaped.isSequence trivial rfl same
  | some item => exact ValueOf.Shaped.isSequence trivial rfl same

namespace Stream

variable {keep : Visible} {mine : List Nat} {c c₁ c₂ : Context} {items : List Item}
  {updates : List PendingUpdate}

theorem ofWalk_follows {w : Walk Expr} {items : List Item} (reads : w.Reads items) {n : Nat}
    (enough : items.length ≤ n) (c : Context) : (ofWalk n w c).Follows keep mine c items [] := by
  induction n generalizing w items c with
  | zero =>
      rw [List.length_eq_zero_iff.1 (Nat.le_zero.1 enough)]
      exact ⟨rfl, Context.leads_refl _ _⟩
  | succ n n_ih =>
      obtain ⟨item, rest⟩ := reads.next
      generalize moved : w.next = step at item rest
      obtain ⟨found, w'⟩ := step
      cases items with
      | nil =>
          simp only [List.head?_nil] at item
          subst item
          simp only [ofWalk, moved]
          exact ⟨rfl, Context.leads_refl _ _⟩
      | cons first others =>
          simp only [List.head?_cons] at item
          subst item
          simp only [ofWalk, moved]
          refine ⟨others, [], [], rfl, rfl, Context.leads_refl _ _, fun m known => ?_, fun c' _ => ?_⟩
          · cases known
            exact rest.remaining_eq
          · exact n_ih rest (Nat.le_of_succ_le_succ enough) c'

theorem ofValue_follows {v : Value} (shaped : v.Shaped) (c : Context) :
    (ofValue v).Follows keep mine c v.items [] := by
  refine ⟨fun n known => ?_, fun c' _ => ?_⟩
  · cases known
    exact shaped.walk_reads.remaining_eq
  · exact ofWalk_follows shaped.walk_reads (Nat.le_of_eq shaped.size_eq.symm) c'

theorem Follows.next_none {s : Stream} (follows : s.Follows keep mine c items updates)
    (alike : c.Alike keep c₁) (asked : s.next c₁ = (.ok none, c₂)) :
    items = [] ∧ c₁.Leads mine c₂ updates := by
  have pulled := follows.pull c₁ alike
  rw [Stream.next_apply] at asked
  cases pull : s.pull c₁ with
  | done c₃ =>
      rw [pull] at asked pulled
      cases asked
      exact pulled
  | failed c₃ e =>
      rw [pull] at asked
      cases asked
  | yield c₃ item left rest =>
      rw [pull] at asked
      cases asked

theorem Follows.next_some {s s' : Stream} {item : Item} (follows : s.Follows keep mine c items updates)
    (alike : c.Alike keep c₁) (asked : s.next c₁ = (.ok (some (item, s')), c₂)) :
    ∃ others now later, items = item :: others ∧ updates = now ++ later ∧ c₁.Leads mine c₂ now ∧
      s'.Follows keep mine c₂ others later := by
  have pulled := follows.pull c₁ alike
  rw [Stream.next_apply] at asked
  cases pull : s.pull c₁ with
  | done c₃ =>
      rw [pull] at asked
      cases asked
  | failed c₃ e =>
      rw [pull] at asked
      cases asked
  | yield c₃ first left rest =>
      rw [pull] at asked pulled
      cases asked
      obtain ⟨others, now, later, same, all, led, sizes, next⟩ := pulled
      exact ⟨others, now, later, same, all, led, ⟨sizes, next⟩⟩

end Stream

/-! ## All ways to evaluate -/

/-- Each way that succeeds gives the sequence and records the updates.  The item that decides is asked for
only where there are no updates, as it may not be the last item. -/
structure Modes.Follows (keep : Visible) (mine : List Nat) (c : Context) (s : Sequence)
    (updates : List PendingUpdate) (m : Modes) : Prop where
  stream : m.stream.Starts keep mine c s.items updates
  item : m.item.Gives mine c updates fun found => s.items = found.toList
  value : m.value.Gives mine c updates (·.Is s)
  booleanItem : updates = [] → m.booleanItem.Gives mine c [] fun item =>
    (deciding s.items).getD (.boolean false) = item

namespace Modes

variable {keep : Visible} {mine : List Nat} {c : Context} {s : Sequence} {updates : List PendingUpdate}
  {location : Option Location} {atMostOne : Bool} {stream : Eval Stream} {item : Eval (Option Item)}
  {value : Eval Value}

theorem singleOfStream_gives (starts : stream.Starts keep mine c s.items updates) :
    (singleOfStream location stream).Gives mine c updates fun found => s.items = found.toList := by
  intro answer c' ran
  unfold singleOfStream at ran
  obtain ⟨given, c₁, started, ran⟩ := Eval.bind_ok_iff.1 ran
  obtain ⟨now, later, rfl, led, follows⟩ := starts given c₁ started
  obtain ⟨found, c₂, asked, ran⟩ := Eval.bind_ok_iff.1 ran
  cases found with
  | none =>
      obtain ⟨rfl, rfl⟩ := Eval.pure_ok_iff.1 ran
      obtain ⟨none, out⟩ := follows.next_none (Context.alike_refl _ _) asked
      exact ⟨none, led.trans out⟩
  | some pair =>
      obtain ⟨first, others⟩ := pair
      obtain ⟨behind, now₁, later₁, same, rfl, led₁, follows₁⟩ :=
        follows.next_some (Context.alike_refl _ _) asked
      obtain ⟨found, c₃, asked₁, ran⟩ := Eval.bind_ok_iff.1 ran
      cases found with
      | none =>
          obtain ⟨rfl, rfl⟩ := Eval.pure_ok_iff.1 ran
          obtain ⟨rfl, out⟩ := follows₁.next_none (Context.alike_refl _ _) asked₁
          exact ⟨same, led.trans (led₁.trans out)⟩
      | some second =>
          obtain ⟨_, _, _, ran⟩ := Eval.bind_ok_iff.1 ran
          exact (Eval.raise_ok_iff.1 ran).elim

theorem booleanItemOfStream_gives (starts : stream.Starts keep mine c s.items []) :
    (booleanItemOfStream location stream).Gives mine c [] fun item =>
      (deciding s.items).getD (.boolean false) = item := by
  intro answer c' ran
  unfold booleanItemOfStream at ran
  obtain ⟨given, c₁, started, ran⟩ := Eval.bind_ok_iff.1 ran
  obtain ⟨led, follows⟩ := starts.quiet started
  obtain ⟨found, c₂, asked, ran⟩ := Eval.bind_ok_iff.1 ran
  cases found with
  | none =>
      obtain ⟨rfl, rfl⟩ := Eval.pure_ok_iff.1 ran
      obtain ⟨none, out⟩ := follows.next_none (Context.alike_refl _ _) asked
      rw [none]
      exact ⟨rfl, led.quiet out⟩
  | some pair =>
      obtain ⟨first, others⟩ := pair
      obtain ⟨behind, now₁, later₁, same, none₁, led₁, follows₁⟩ :=
        follows.next_some (Context.alike_refl _ _) asked
      obtain ⟨rfl, rfl⟩ := List.append_eq_nil_iff.1 none₁.symm
      rw [same]
      dsimp only at ran
      -- A node decides at once; otherwise a second item is one too many.
      split at ran
      · next node =>
          obtain ⟨rfl, rfl⟩ := Eval.pure_ok_iff.1 ran
          refine ⟨?_, led.quiet led₁⟩
          cases behind with
          | nil => rfl
          | cons second rest => rw [deciding, if_pos node, Option.getD_some]
      · obtain ⟨found, c₃, asked₁, ran⟩ := Eval.bind_ok_iff.1 ran
        cases found with
        | none =>
            obtain ⟨rfl, rfl⟩ := Eval.pure_ok_iff.1 ran
            obtain ⟨rfl, out⟩ := follows₁.next_none (Context.alike_refl _ _) asked₁
            exact ⟨rfl, led.quiet (led₁.quiet out)⟩
        | some second =>
            obtain ⟨_, _, _, ran⟩ := Eval.bind_ok_iff.1 ran
            exact (Eval.raise_ok_iff.1 ran).elim

theorem collectStream_gives (starts : stream.Starts keep mine c s.items updates) :
    (collectStream stream).Gives mine c updates (·.Is s) := by
  intro v c' ran
  obtain ⟨given, c₁, started, ran⟩ := Eval.bind_ok_iff.1 ran
  obtain ⟨now, later, rfl, led, follows⟩ := starts given c₁ started
  obtain ⟨builder, c₂, folded, ran⟩ := Eval.bind_ok_iff.1 ran
  obtain ⟨rfl, rfl⟩ := Eval.pure_ok_iff.1 ran
  obtain ⟨rfl, out⟩ := (follows.pull c₁ (Context.alike_refl _ _)).fold (g := ValueBuilder.addBack) (by
    intro b item c b' c' stepped
    obtain ⟨_, _, checked, added⟩ := Eval.bind_ok_iff.1 stepped
    obtain ⟨-, rfl⟩ := Eval.checkStop_ok_iff.1 checked
    obtain ⟨rfl, rfl⟩ := Eval.pure_ok_iff.1 added
    exact ⟨rfl, rfl⟩) folded
  have gathered := ValueBuilder.empty_gathers.addAll s.items
  exact ⟨gathered.is rfl, led.trans out⟩

theorem singleOfValue_gives {v : Value} (same : v.Is s) :
    (singleOfValue location v).Gives mine c [] fun found => s.items = found.toList := by
  have found := same.shaped.get?_eq
  rw [← same.items_eq] at found
  unfold singleOfValue
  split
  · exact .raise
  · next first second some =>
      refine .pure ?_
      rw [found, found] at some
      rw [found]
      match all : s.items with
      | [] => rfl
      | [item] => rfl
      | first :: second :: rest =>
          rw [all] at some
          exact (some first second rfl rfl).elim

/-! ## From a stream, a value or an item -/

theorem Follows.ofStreamAndItem (starts : stream.Starts keep mine c s.items updates)
    (single : item.Gives mine c updates fun found => s.items = found.toList) :
    (Modes.ofStreamAndItem location atMostOne stream item).Follows keep mine c s updates := by
  refine ⟨starts, single, ?_, fun none => ?_⟩
  · simp only [Modes.ofStreamAndItem]
    split
    · exact single.finish fun _ same => is_valueOfOption same
    · exact collectStream_gives starts
  · subst none
    simp only [Modes.ofStreamAndItem]
    split
    · refine single.finish fun found same => ?_
      rw [same]
      cases found <;> rfl
    · exact booleanItemOfStream_gives starts

theorem Follows.ofStream (starts : stream.Starts keep mine c s.items updates) :
    (Modes.ofStream location atMostOne stream).Follows keep mine c s updates :=
  .ofStreamAndItem starts (singleOfStream_gives starts)

theorem Follows.withValue {m : Modes} (follows : m.Follows keep mine c s updates)
    (gives : value.Gives mine c updates (·.Is s)) :
    ({ m with value := value } : Modes).Follows keep mine c s updates :=
  ⟨follows.stream, follows.item, gives, follows.booleanItem⟩

theorem streamOfValue_starts (gives : value.Gives mine c updates (·.Is s)) :
    Eval.Starts keep mine c s.items updates (do return .ofValue (← value)) := by
  intro given c' ran
  obtain ⟨v, c₁, valued, ran⟩ := Eval.bind_ok_iff.1 ran
  obtain ⟨rfl, rfl⟩ := Eval.pure_ok_iff.1 ran
  obtain ⟨same, led⟩ := gives v c₁ valued
  rw [same.items_eq]
  exact ⟨updates, [], (List.append_nil _).symm, led, Stream.ofValue_follows same.shaped c₁⟩

theorem Follows.ofValue (gives : value.Gives mine c updates (·.Is s)) :
    (Modes.ofValue location atMostOne value).Follows keep mine c s updates :=
  (Follows.ofStream (streamOfValue_starts gives)).withValue gives

theorem Follows.ofValueAndItem (gives : value.Gives mine c updates (·.Is s))
    (single : item.Gives mine c updates fun found => s.items = found.toList) :
    (Modes.ofValueAndItem location atMostOne value item).Follows keep mine c s updates :=
  (Follows.ofStreamAndItem (streamOfValue_starts gives) single).withValue gives

/-- The item of a value follows from the value. -/
theorem Follows.ofValueAndSingle (gives : value.Gives mine c updates (·.Is s)) :
    (Modes.ofValueAndItem location atMostOne value (do singleOfValue location (← value))).Follows
      keep mine c s updates := by
  exact .ofValueAndItem gives (gives.followed fun _ _ _ same _ => singleOfValue_gives same)

/-- The value of an item follows from the item. -/
theorem Follows.ofItemAndValue (single : item.Gives mine c updates fun found => s.items = found.toList) :
    (Modes.ofValueAndItem location atMostOne (do return valueOfOption (← item)) item).Follows
      keep mine c s updates :=
  .ofValueAndItem (single.finish fun _ same => is_valueOfOption same) single

theorem Follows.ofItem (single : item.Gives mine c updates fun found => s.items = found.toList) :
    (Modes.ofItem location atMostOne item).Follows keep mine c s updates := by
  have value := single.finish (R := (·.Is s)) (f := valueOfOption) fun _ same => is_valueOfOption same
  refine .ofStreamAndItem ?_ single
  have starts : Eval.Starts keep mine c s.items updates _ := streamOfValue_starts value
  rwa [Eval.bind_assoc] at starts

theorem Follows.ofLiteral {v : Value} (same : v.Is s) :
    (Modes.ofLiteral v).Follows keep mine c s [] := by
  have found := same.shaped.get?_eq
  rw [← same.items_eq] at found
  refine ⟨?_, singleOfValue_gives same, .pure same, fun _ => ?_⟩
  · intro given c' ran
    obtain ⟨rfl, rfl⟩ := Eval.pure_ok_iff.1 ran
    rw [same.items_eq]
    exact ⟨[], [], rfl, Context.leads_refl _ _, Stream.ofValue_follows same.shaped c⟩
  · unfold Modes.ofLiteral
    dsimp only
    rw [found, found]
    match s.items with
    | [] => exact .pure rfl
    | [item] => exact .pure rfl
    | first :: second :: rest =>
        simp only [List.getElem?_cons_zero, List.getElem?_cons_succ]
        split
        · next node =>
            refine .pure ?_
            rw [deciding, if_pos node, Option.getD_some]
        · exact .raise

end Modes

end QueryKernel
