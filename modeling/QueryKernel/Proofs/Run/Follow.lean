import QueryKernel.Proofs.Eval.Sound
import QueryKernel.Proofs.Meaning.Placed

/-!
# Streams that follow an outcome

How evaluation may change a context, and what it means that a lazy stream yields the items of an outcome
and records its updates on the way.

The non-trivial ingredient is `Context.Alike`: between two items the consumer of a stream may have bound its own
variables and recorded its own updates, and the stream goes on all the same as long as what it refers to has
stayed as it was.

## Definitions

* `Context.Alike` says that two contexts agree on what is visible.
* `Context.Leads` says that a computation has bound only some variables, and which updates it recorded.
* `Step.Follows` and `Stream.Follows` say that a stream gives the items and updates of an outcome.
-/

namespace QueryKernel

/-- Some variables in addition. -/
def Visible.including (visible : Visible) (ids : List Nat) : Visible :=
  fun reference => visible reference ∨ ∃ id ∈ ids, reference = .variable id

/-- None of some variables is visible. -/
def Visible.Apart (visible : Visible) (ids : List Nat) : Prop := ∀ id ∈ ids, ¬ visible (.variable id)

namespace Context

/-- The contexts agree on what is visible. -/
structure Alike (visible : Visible) (c c' : Context) : Prop where
  focus : visible .focus → c'.focus = c.focus
  forest : visible .forest → c'.forest = c.forest
  bindings : ∀ id, visible (.variable id) → c'.bindings.lookup id = c.bindings.lookup id

/-- A computation has bound no other variables than its own, and recorded the updates. -/
structure Leads (mine : List Nat) (c c' : Context) (updates : List PendingUpdate) : Prop where
  focus : c'.focus = c.focus
  forest : c'.forest = c.forest
  bindings : ∀ id, id ∉ mine → c'.bindings.lookup id = c.bindings.lookup id
  updates : c'.updates.toList = c.updates.toList ++ updates

variable {visible : Visible} {mine more : List Nat} {c c₁ c₂ : Context}
  {updates updates' : List PendingUpdate}

theorem alike_refl (visible : Visible) (c : Context) : c.Alike visible c :=
  ⟨fun _ => rfl, fun _ => rfl, fun _ _ => rfl⟩

theorem Alike.trans (first : c.Alike visible c₁) (second : c₁.Alike visible c₂) : c.Alike visible c₂ :=
  ⟨fun seen => (second.focus seen).trans (first.focus seen),
    fun seen => (second.forest seen).trans (first.forest seen),
    fun id seen => (second.bindings id seen).trans (first.bindings id seen)⟩

theorem Alike.fewer {wider : Visible} (alike : c.Alike wider c₁)
    (within : ∀ reference, visible reference → wider reference) : c.Alike visible c₁ :=
  ⟨fun seen => alike.focus (within _ seen), fun seen => alike.forest (within _ seen),
    fun id seen => alike.bindings id (within _ seen)⟩

theorem leads_refl (mine : List Nat) (c : Context) : c.Leads mine c [] :=
  ⟨rfl, rfl, fun _ _ => rfl, (List.append_nil _).symm⟩

theorem Leads.trans (first : c.Leads mine c₁ updates) (second : c₁.Leads mine c₂ updates') :
    c.Leads mine c₂ (updates ++ updates') := by
  refine ⟨second.focus.trans first.focus, second.forest.trans first.forest, fun id foreign => ?_, ?_⟩
  · exact (second.bindings id foreign).trans (first.bindings id foreign)
  · rw [second.updates, first.updates, List.append_assoc]

theorem Leads.quiet (first : c.Leads mine c₁ []) (second : c₁.Leads mine c₂ updates) :
    c.Leads mine c₂ updates := first.trans second

theorem Leads.mono (leads : c.Leads mine c₁ updates) (subset : mine ⊆ more) : c.Leads more c₁ updates :=
  ⟨leads.focus, leads.forest, fun id foreign => leads.bindings id fun inside => foreign (subset inside),
    leads.updates⟩

theorem Leads.alike (leads : c.Leads mine c₁ updates) (apart : visible.Apart mine) :
    c.Alike visible c₁ :=
  ⟨fun _ => leads.focus, fun _ => leads.forest,
    fun id seen => leads.bindings id fun inside => apart id inside seen⟩

theorem leads_bind (c : Context) (var : Variable) (v : Value) : c.Leads [var.id] (c.bind var v) [] := by
  refine ⟨rfl, rfl, fun id foreign => ?_, (List.append_nil _).symm⟩
  rw [Context.bind, Bindings.lookup_set, if_neg fun same => foreign (List.mem_singleton.2 same)]

end Context

namespace Step

/-- The steps from a context on yield some items and record some updates, if they do not fail. -/
def Follows (keep : Visible) (mine : List Nat) (start : Context) :
    Step → List Item → List PendingUpdate → Prop
  | done c, items, updates => items = [] ∧ start.Leads mine c updates
  | failed _ _, _, _ => True
  | yield c item left rest, items, updates =>
      ∃ others now later, items = item :: others ∧ updates = now ++ later ∧ start.Leads mine c now ∧
        (∀ n, left = some n → n = others.length) ∧
        ∀ c', c.Alike keep c' → (rest c').Follows keep mine c' others later

end Step

/-- The stream yields some items and records some updates wherever it is read. -/
structure Stream.Follows (keep : Visible) (mine : List Nat) (c : Context) (s : Stream)
    (items : List Item) (updates : List PendingUpdate) : Prop where
  left : ∀ n, s.left = some n → n = items.length
  pull : ∀ c', c.Alike keep c' → (s.pull c').Follows keep mine c' items updates

namespace Step

variable {keep wide : Visible} {mine more : List Nat} {start c₀ : Context} {s : Step}
  {items others : List Item} {updates now later : List PendingUpdate}

theorem Follows.after {c : Context} (leads : start.Leads mine c now)
    (follows : s.Follows keep mine c items later) : s.Follows keep mine start items (now ++ later) := by
  cases s with
  | done c₁ => exact ⟨follows.1, leads.trans follows.2⟩
  | failed c₁ e => trivial
  | yield c₁ item left rest =>
      obtain ⟨others, first, second, same, rfl, led, sizes, next⟩ := follows
      exact ⟨others, now ++ first, second, same, (List.append_assoc _ _ _).symm, leads.trans led, sizes, next⟩

theorem Follows.mono (follows : s.Follows keep mine start items updates)
    (within : ∀ reference, keep reference → wide reference) (subset : mine ⊆ more) :
    s.Follows wide more start items updates := by
  induction s generalizing start items updates with
  | done c => exact ⟨follows.1, follows.2.mono subset⟩
  | failed c e => trivial
  | yield c item left rest rest_ih =>
      obtain ⟨others, now, later, same, all, led, sizes, next⟩ := follows
      exact ⟨others, now, later, same, all, led.mono subset, sizes,
        fun c' alike => rest_ih c' (next c' (alike.fewer within))⟩

/-! ## One stream after another -/

/-- The second stream is started where the first has ended.  By then nothing has changed that the base
of both can see. -/
theorem Follows.andThen {base : Visible} {following : Context → Step}
    (first : s.Follows keep mine start items now) (near : c₀.Alike base start)
    (within : ∀ reference, keep reference → wide reference)
    (baseWithin : ∀ reference, base reference → wide reference) (subset : mine ⊆ more)
    (apart : base.Apart mine)
    (second : ∀ c, c₀.Alike base c → (following c).Follows wide more c others later) :
    (s.andThen following).Follows wide more start (items ++ others) (now ++ later) := by
  induction s generalizing start items now with
  | done c =>
      obtain ⟨rfl, led⟩ := first
      exact (second c (near.trans (led.alike apart))).after (led.mono subset)
  | failed c e => trivial
  | yield c item left rest rest_ih =>
      -- The consumer takes over after each item, so that the context to go on from is any that is alike.
      obtain ⟨behind, first, second, rfl, rfl, led, _, next⟩ := first
      refine ⟨behind ++ others, first, second ++ later, rfl, List.append_assoc _ _ _, led.mono subset,
        fun n none => (by cases none), fun c' alike => ?_⟩
      exact rest_ih c' (next c' (alike.fewer within))
        ((near.trans (led.alike apart)).trans (alike.fewer baseWithin))

/-! ## A stream for each item -/

/-- The item is yielded, whatever the consumer does in between that the stream does not see. -/
def Yields (keep : Visible) (item : Item) : Step → Prop
  | done _ => False
  | failed _ _ => False
  | yield c first _ rest => item = first ∨ ∃ c', c.Alike keep c' ∧ (rest c').Yields keep item

theorem Follows.mem_of_yields {item : Item} (follows : s.Follows keep mine start items updates)
    (yields : s.Yields keep item) : item ∈ items := by
  induction s generalizing start items updates with
  | done c => exact yields.elim
  | failed c e => exact yields.elim
  | yield c first left rest rest_ih =>
      obtain ⟨others, now, later, rfl, _, _, _, next⟩ := follows
      rcases yields with rfl | ⟨c', alike, after⟩
      · exact List.mem_cons_self
      · exact List.mem_cons_of_mem _ (rest_ih c' (next c' alike) after)

/-- The streams for the items are read between the items.  The source goes on where they have ended. -/
theorem Follows.forEach {outcome : Item → List Item → List PendingUpdate → Prop} {base : Visible}
    {own inner : List Nat} {body : Item → Eval Stream} {source : List Item}
    (follows : s.Follows keep own start source []) (near : c₀.Alike base start)
    (within : ∀ reference, keep reference → wide reference)
    (baseWithin : ∀ reference, base reference → keep reference) (subset : own ⊆ more)
    (innerSubset : inner ⊆ more) (apart : base.Apart own) (innerApart : keep.Apart inner)
    (entered : ∀ item, s.Yields keep item → ∀ c stream c', c₀.Alike base c →
      body item c = (.ok stream, c') → ∀ items updates, outcome item items updates →
        ∃ now later, updates = now ++ later ∧ c.Leads inner c' now ∧
          stream.Follows wide inner c' items later)
    (each : Outcomes.forEach outcome source items updates) :
    (s.forEach body).Follows wide more start items updates := by
  induction s generalizing start source items updates with
  | done c =>
      obtain ⟨rfl, led⟩ := follows
      obtain ⟨rfl, rfl⟩ := each
      exact ⟨rfl, led.mono subset⟩
  | failed c e => trivial
  | yield c item left rest rest_ih =>
      obtain ⟨behind, first, second, rfl, none, led, _, next⟩ := follows
      obtain ⟨rfl, rfl⟩ := List.append_eq_nil_iff.1 none.symm
      obtain ⟨front, frontUpdates, back, backUpdates, produced, remaining, rfl, rfl⟩ := each
      have nearItem := near.trans (led.alike apart)
      -- What is left of the source may be read wherever the streams for this item have led.
      have others : ∀ c', c.Alike keep c' →
          ((rest c').forEach body).Follows wide more c' back backUpdates := by
        intro c' alike
        refine rest_ih c' (next c' alike) (nearItem.trans (alike.fewer baseWithin)) ?_ remaining
        intro other yields
        exact entered other (.inr ⟨c', alike, yields⟩)
      simp only [Step.forEach]
      cases started : body item c with
      | mk result c₁ =>
          cases result with
          | error e => trivial
          | ok stream =>
              obtain ⟨now, later, rfl, into, inside⟩ :=
                entered item (.inl rfl) c stream c₁ nearItem started front frontUpdates produced
              have pulled := inside.pull c₁ (Context.alike_refl wide c₁)
              have reached := (led.mono subset).quiet (into.mono innerSubset)
              dsimp only
              cases first : stream.pull c₁ with
              | done c₂ =>
                  rw [first] at pulled
                  obtain ⟨rfl, out⟩ := pulled
                  have alike := (into.trans out).alike innerApart
                  exact (others c₂ alike).after (reached.trans (out.mono innerSubset))
              | failed c₂ e => trivial
              | yield c₂ item₂ left₂ rest₂ =>
                  rw [first] at pulled
                  obtain ⟨behind₂, now₂, later₂, rfl, rfl, led₂, _, next₂⟩ := pulled
                  have alike := (into.trans led₂).alike innerApart
                  refine ⟨behind₂ ++ back, now ++ now₂, later₂ ++ backUpdates, rfl, ?_,
                    reached.trans (led₂.mono innerSubset), fun n none => (by cases none), ?_⟩
                  · simp only [List.append_assoc]
                  · intro c₃ resumed
                    exact (next₂ c₃ resumed).andThen (alike.trans (resumed.fewer within))
                      (fun _ seen => seen) within innerSubset innerApart others

/-! ## Reading a stream -/

/-- Folding goes through all items, if nothing else is done to them. -/
theorem Follows.fold {β : Type} {f : β → Item → Eval β} {g : β → Item → β}
    (follows : s.Follows keep mine start items updates)
    (steps : ∀ b item c b' c', f b item c = (.ok b', c') → b' = g b item ∧ c' = c)
    {b b' : β} {c' : Context} (ran : s.fold f b = (.ok b', c')) :
    b' = items.foldl g b ∧ start.Leads mine c' updates := by
  induction s generalizing start items updates b with
  | done c =>
      cases ran
      obtain ⟨rfl, led⟩ := follows
      exact ⟨rfl, led⟩
  | failed c e => cases ran
  | yield c item left rest rest_ih =>
      obtain ⟨others, now, later, rfl, rfl, led, _, next⟩ := follows
      simp only [Step.fold] at ran
      cases stepped : f b item c with
      | mk result c₁ =>
          rw [stepped] at ran
          cases result with
          | error e => cases ran
          | ok b₁ =>
              obtain ⟨rfl, rfl⟩ := steps b item c b₁ c₁ stepped
              obtain ⟨final, out⟩ := rest_ih c₁ (next c₁ (Context.alike_refl _ _)) ran
              exact ⟨final, led.trans out⟩

/-- Folding goes through all items of a stream without updates, if what is done to them does not change
the context in a way that the stream can see. -/
theorem Follows.foldRecording {β : Type} {f : β → Item → Eval β} {P : β → List Item → List PendingUpdate → Prop}
    (follows : s.Follows keep mine start items [])
    (steps : ∀ b done undone, P b done undone → ∀ item c b' c', f b item c = (.ok b', c') →
      c.Alike keep c' ∧ ∃ more, P b' (done ++ [item]) (undone ++ more) ∧ c.Leads [] c' more)
    {b b' : β} {c' : Context} {done : List Item} {undone : List PendingUpdate} (holds : P b done undone)
    (ran : s.fold f b = (.ok b', c')) :
    ∃ more, P b' (done ++ items) (undone ++ more) ∧ start.Leads mine c' more := by
  induction s generalizing start items b done undone with
  | done c =>
      cases ran
      obtain ⟨rfl, led⟩ := follows
      exact ⟨[], by rwa [List.append_nil, List.append_nil], led⟩
  | failed c e => cases ran
  | yield c item left rest rest_ih =>
      obtain ⟨others, now, later, rfl, all, led, _, next⟩ := follows
      -- What the stream itself records adds nothing here.
      obtain ⟨rfl, rfl⟩ := List.append_eq_nil_iff.1 all.symm
      simp only [Step.fold] at ran
      cases stepped : f b item c with
      | mk result c₁ =>
          rw [stepped] at ran
          cases result with
          | error e => cases ran
          | ok b₁ =>
              obtain ⟨alike, more, given, into⟩ := steps b done undone holds item c b₁ c₁ stepped
              obtain ⟨rest, final, out⟩ := rest_ih c₁ (next c₁ alike) given ran
              refine ⟨more ++ rest, ?_, led.quiet ((into.mono (List.nil_subset _)).trans out)⟩
              rwa [List.append_assoc, List.append_assoc] at final

end Step

end QueryKernel
