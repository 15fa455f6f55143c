import QueryKernel.Proofs.Eval.Preserve
import QueryKernel.Proofs.Eval.Sorting

/-!
# The same unless given up

Two ways to evaluate an expression, of which the first may give up: either it does so, or both give the same, by
the same steps.

A stream may give up only when an item is asked for.  So the two are compared step by step, and at every step
for all contexts from which the consumer of a stream may go on.
-/

namespace QueryKernel

/-- What counts as giving up, whatever place is attached to the failure and whatever the focus is afterwards. -/
structure Excuse where
  holds : Failure → Context → Prop
  located : ∀ {error : Error} {c : Context} (location : Option Location),
    holds (.error error) c → holds (.error (error.locate location)) c
  focused : ∀ {e : Failure} {c : Context} (focus : Focus), holds e c → holds e { c with focus }

variable {excuse : Excuse} {A B : Type}

/-- Whatever fails is given up. -/
def Excuse.anything : Excuse where
  holds _ _ := True
  located := fun _ _ => trivial
  focused := fun _ _ => trivial

/-- Errors with one place count as errors with another: it is the same place, or all failures are excused. -/
def Excuse.Places (excuse : Excuse) (location location' : Option Location) : Prop :=
  location = location' ∨ ∀ e c, excuse.holds e c

/-- An outcome against another: it has been given up, or they are the same. -/
inductive Excused (excuse : Excuse) (R : A → A → Prop) :
    Except Failure A × Context → Except Failure A × Context → Prop where
  | excused {e : Failure} {c : Context} (given : excuse.holds e c) (other : Except Failure A × Context) :
      Excused excuse R (.error e, c) other
  | failed (e : Failure) (c : Context) : Excused excuse R (.error e, c) (.error e, c)
  | done {a b : A} (related : R a b) (c : Context) : Excused excuse R (.ok a, c) (.ok b, c)

/-- A computation that may give up against one that does not. -/
def Eval.SameUnless (excuse : Excuse) (R : A → A → Prop) (x y : Eval A) : Prop := ∀ c, Excused excuse R (x c) (y c)

/-! ## Computations -/

namespace Eval

variable {R : A → A → Prop} {S : B → B → Prop} {x y : Eval A}

theorem SameUnless.pure {a b : A} (related : R a b) : SameUnless excuse R (pure a) (pure b) :=
  fun c => .done related c

theorem SameUnless.refl (x : Eval A) : x.SameUnless excuse Eq x := by
  intro c
  cases x c with
  | mk result c₁ =>
      cases result with
      | ok a => exact .done rfl c₁
      | error e => exact .failed e c₁

theorem SameUnless.trans {z : Eval A} (first : x.SameUnless excuse Eq y)
    (second : y.SameUnless excuse Eq z) : x.SameUnless excuse Eq z := by
  intro c
  have before := first c
  have after := second c
  generalize x c = left at before ⊢
  generalize y c = mid at before after
  cases before with
  | excused given => exact .excused given _
  | failed e c₁ => exact after
  | done related c₁ => exact related ▸ after

theorem SameUnless.raise {location location' : Option Location} (places : excuse.Places location location')
    (cause : Cause Expr) : (Eval.raise cause location).SameUnless excuse R (Eval.raise cause location') := by
  obtain rfl | all := places
  · exact fun c => .failed _ c
  · exact fun c => .excused (all _ c) _

theorem SameUnless.ofExcept {location location' : Option Location} (places : excuse.Places location location')
    (x : Except (Cause Expr) A) :
    (Eval.ofExcept location x).SameUnless excuse Eq (Eval.ofExcept location' x) := by
  cases x with
  | ok a => exact fun c => .done rfl c
  | error cause => exact .raise places cause

theorem SameUnless.bind {f g : A → Eval B} (first : x.SameUnless excuse R y)
    (second : ∀ a b, R a b → (f a).SameUnless excuse S (g b)) :
    (x >>= f).SameUnless excuse S (y >>= g) := by
  intro c
  have compared := first c
  rw [bind_apply, bind_apply]
  generalize x c = left at compared
  generalize y c = right at compared
  cases compared with
  | excused given other => exact .excused given _
  | failed e c₁ => exact .failed e c₁
  | done related c₁ => exact second _ _ related c₁

/-- The same result leads on. -/
theorem SameUnless.followed {f g : A → Eval B} (first : x.SameUnless excuse Eq y)
    (second : ∀ a, (f a).SameUnless excuse S (g a)) : (x >>= f).SameUnless excuse S (y >>= g) :=
  first.bind fun a _ same => same ▸ second a

/-- What follows is the same. -/
theorem SameUnless.andThen {f : A → Eval B} (first : x.SameUnless excuse Eq y) :
    (x >>= f).SameUnless excuse Eq (y >>= f) := first.followed fun a => .refl (f a)

theorem SameUnless.map {f : A → B} (first : x.SameUnless excuse Eq y) :
    (f <$> x).SameUnless excuse Eq (f <$> y) := first.andThen

theorem SameUnless.locate {location : Option Location} (same : x.SameUnless excuse Eq y) :
    (x.locate location).SameUnless excuse Eq (y.locate location) := by
  intro c
  have compared := same c
  unfold Eval.locate
  generalize x c = left at compared
  generalize y c = right at compared
  cases compared with
  | @excused e c₁ given other =>
      cases e with
      | error error => exact .excused (excuse.located location given) _
      | fault | callsTooDeep => exact .excused given _
  | failed e c₁ => split <;> exact .failed _ _
  | done related c₁ => exact .done related c₁

/-- Afterwards the focus is set, whatever has come of it. -/
theorem SameUnless.refocused (same : x.SameUnless excuse Eq y) (focus : Focus) :
    SameUnless excuse Eq (fun c => ((x c).1, { (x c).2 with focus })) fun c => ((y c).1, { (y c).2 with focus }) := by
  intro c
  have compared := same c
  dsimp only
  generalize x c = left at compared
  generalize y c = right at compared
  cases compared with
  | excused given other => exact .excused (excuse.focused focus given) _
  | failed e c₁ => exact .failed e _
  | done related c₁ => exact .done related _

theorem SameUnless.foldList {I : Type} {f g : B → A → Eval B} {p q : I → A} {is : List I}
    (step : ∀ b, ∀ i ∈ is, (f b (p i)).SameUnless excuse Eq (g b (q i))) (b : B) :
    (Eval.foldList f b (is.map p)).SameUnless excuse Eq (Eval.foldList g b (is.map q)) := by
  induction is generalizing b with
  | nil => exact .pure rfl
  | cons i rest rest_ih =>
      simp only [List.map_cons, foldList_cons]
      refine .bind (step b i List.mem_cons_self) fun d _ same => same ▸ rest_ih (fun b j member => ?_) d
      exact step b j (List.mem_cons_of_mem _ member)

theorem SameUnless.foldWalk {f g : B → Item → Eval B} (step : ∀ b item, (f b item).SameUnless excuse Eq (g b item))
    (n : Nat) (b : B) (w : Walk Expr) : (Eval.foldWalk f n b w).SameUnless excuse Eq (Eval.foldWalk g n b w) := by
  induction n generalizing b w with
  | zero => exact .pure rfl
  | succ n n_ih =>
      simp only [Eval.foldWalk]
      split
      · exact .pure rfl
      · exact .bind (step b _) fun d _ same => same ▸ n_ih d _

end Eval

/-! ## Streams -/

namespace Step

/-- A stream from a step on against one without some checks. -/
def SameUnless (excuse : Excuse) : Step → Step → Prop
  | done c, t => t = done c
  | failed c e, t => excuse.holds e c ∨ t = failed c e
  | yield c item left rest, t =>
      ∃ rest', t = yield c item left rest' ∧ ∀ d, (rest d).SameUnless excuse (rest' d)

variable {s t : Step}

theorem SameUnless.refl (s : Step) : s.SameUnless excuse s := by
  induction s with
  | done c => rfl
  | failed c e => exact .inr rfl
  | yield c item left rest rest_ih => exact ⟨rest, rfl, rest_ih⟩

theorem SameUnless.andThen {more more' : Context → Step} (first : s.SameUnless excuse t)
    (second : ∀ c, (more c).SameUnless excuse (more' c)) :
    (s.andThen more).SameUnless excuse (t.andThen more') := by
  induction s generalizing t with
  | done c =>
      cases first
      exact second c
  | failed c e =>
      rcases first with given | rfl
      · exact .inl given
      · exact .inr rfl
  | yield c item left rest rest_ih =>
      obtain ⟨rest', rfl, further⟩ := first
      exact ⟨_, rfl, fun d => rest_ih d (further d)⟩

theorem SameUnless.fold {f : B → Item → Eval B} (same : s.SameUnless excuse t) (b : B) :
    Excused excuse Eq (s.fold f b) (t.fold f b) := by
  induction s generalizing t b with
  | done c =>
      cases same
      exact .done rfl c
  | failed c e =>
      rcases same with given | rfl
      · exact .excused given _
      · exact .failed e c
  | yield c item left rest rest_ih =>
      obtain ⟨rest', rfl, further⟩ := same
      simp only [Step.fold]
      split
      · exact rest_ih _ (further _) _
      · exact .failed _ _

end Step

/-- A stream against one without some checks. -/
structure Stream.SameUnless (excuse : Excuse) (s t : Stream) : Prop where
  left : s.left = t.left
  pull : ∀ c, (s.pull c).SameUnless excuse (t.pull c)

namespace Stream

variable {s t : Stream}

theorem SameUnless.refl (s : Stream) : s.SameUnless excuse s := ⟨rfl, fun _ => .refl _⟩

theorem SameUnless.ofPulls {pull pull' : Context → Step} (pulls : ∀ c, (pull c).SameUnless excuse (pull' c)) :
    SameUnless excuse ⟨none, pull⟩ ⟨none, pull'⟩ := ⟨rfl, pulls⟩

theorem SameUnless.fold {f : B → Item → Eval B} (same : s.SameUnless excuse t) (b : B) :
    (s.fold f b).SameUnless excuse Eq (t.fold f b) := fun c => (same.pull c).fold b

/-- The next item is the same, and so is what follows as long as it treats the rest of the streams alike. -/
theorem SameUnless.ask {S : B → B → Prop} {f g : Option (Item × Stream) → Eval B}
    (same : s.SameUnless excuse t) (last : (f none).SameUnless excuse S (g none))
    (more : ∀ item s' t', s'.SameUnless excuse t' →
      (f (some (item, s'))).SameUnless excuse S (g (some (item, t')))) :
    (s.next >>= f).SameUnless excuse S (t.next >>= g) := by
  intro c
  have compared := same.pull c
  rw [Eval.bind_apply, Eval.bind_apply]
  unfold Stream.next
  generalize s.pull c = step at compared
  generalize t.pull c = step' at compared
  cases step with
  | done c₁ =>
      cases compared
      exact last c₁
  | failed c₁ e =>
      rcases compared with given | rfl
      · exact .excused given _
      · exact .failed e c₁
  | yield c₁ item left rest =>
      obtain ⟨rest', rfl, further⟩ := compared
      exact more item ⟨left, rest⟩ ⟨left, rest'⟩ ⟨rfl, further⟩ c₁

theorem pullAll_sameUnless {I : Type} {p q : I → Eval Stream} {is : List I}
    (each : ∀ i ∈ is, (p i).SameUnless excuse (SameUnless excuse) (q i)) (c : Context) :
    (pullAll (is.map p) c).SameUnless excuse (pullAll (is.map q) c) := by
  induction is generalizing c with
  | nil => rfl
  | cons i rest rest_ih =>
      have compared := each i List.mem_cons_self c
      have others := rest_ih fun j member => each j (List.mem_cons_of_mem _ member)
      simp only [List.map_cons, pullAll]
      generalize p i c = left at compared
      generalize q i c = right at compared
      cases compared with
      | excused given other => exact .inl given
      | failed e c₁ => exact .inr rfl
      | done related c₁ => exact (related.pull c₁).andThen others

/-- A loop without the checks that are made for each item. -/
theorem forEach_sameUnless {body body' : Item → Eval Stream} {s t : Step} (same : s.SameUnless excuse t)
    (each : ∀ item, (body item).SameUnless excuse (SameUnless excuse) (body' item)) :
    (s.forEach body).SameUnless excuse (t.forEach body') := by
  induction s generalizing t with
  | done c =>
      cases same
      rfl
  | failed c e =>
      rcases same with given | rfl
      · exact .inl given
      · exact .inr rfl
  | yield c item left rest rest_ih =>
      obtain ⟨rest', rfl, further⟩ := same
      have compared := each item c
      simp only [Step.forEach]
      generalize body item c = left at compared
      generalize body' item c = right at compared
      cases compared with
      | excused given other => exact .inl given
      | failed e c₁ => exact .inr rfl
      | @done inner inner' related c₁ =>
          have pulled := related.pull c₁
          dsimp only
          generalize inner.pull c₁ = step at pulled
          generalize inner'.pull c₁ = step' at pulled
          cases step with
          | done c₂ =>
              cases pulled
              exact rest_ih c₂ (further c₂)
          | failed c₂ e =>
              rcases pulled with given | rfl
              · exact .inl given
              · exact .inr rfl
          -- After the first item of the inner stream the rest of it comes before the rest of the source.
          | yield c₂ first left more =>
              obtain ⟨more', rfl, next⟩ := pulled
              exact ⟨_, rfl, fun d => (next d).andThen fun d => rest_ih d (further d)⟩

end Stream

/-! ## Ways to evaluate -/

/-- All ways to evaluate against those without some checks. -/
structure Modes.SameUnless (excuse : Excuse) (m n : Modes) : Prop where
  location : excuse.Places m.location n.location
  stream : m.stream.SameUnless excuse (Stream.SameUnless excuse) n.stream
  item : m.item.SameUnless excuse Eq n.item
  value : m.value.SameUnless excuse Eq n.value
  booleanItem : m.booleanItem.SameUnless excuse Eq n.booleanItem

section Places

variable {location location' : Option Location} (places : excuse.Places location location')

include places

theorem singleOfStream_sameUnless {x y : Eval Stream}
    (stream : x.SameUnless excuse (Stream.SameUnless excuse) y) :
    (singleOfStream location x).SameUnless excuse Eq (singleOfStream location' y) := by
  refine stream.bind fun s t start => start.ask (.pure rfl) fun first s t others => ?_
  refine others.ask (.pure rfl) fun second s t more => ?_
  exact more.ask (.raise places _) fun _ _ _ _ => .raise places _

theorem booleanItemOfStream_sameUnless {x y : Eval Stream}
    (stream : x.SameUnless excuse (Stream.SameUnless excuse) y) :
    (booleanItemOfStream location x).SameUnless excuse Eq (booleanItemOfStream location' y) := by
  refine stream.bind fun s t start => start.ask (.pure rfl) fun first s t others => ?_
  dsimp only
  split
  · exact .pure rfl
  · refine others.ask (.pure rfl) fun second s t more => ?_
    exact more.ask (.raise places _) fun _ _ _ _ => .raise places _

theorem singleOfValue_sameUnless (v : Value) :
    (singleOfValue location v).SameUnless excuse Eq (singleOfValue location' v) := by
  unfold singleOfValue
  split
  · exact .raise places _
  · exact .pure rfl

end Places

theorem collectStream_sameUnless {x y : Eval Stream}
    (stream : x.SameUnless excuse (Stream.SameUnless excuse) y) :
    (collectStream x).SameUnless excuse Eq (collectStream y) :=
  stream.bind fun _ _ related => (related.fold _).andThen

namespace Modes

variable {m n : Modes}

theorem SameUnless.refl (m : Modes) : m.SameUnless excuse m := by
  refine ⟨.inl rfl, fun c => ?_, .refl _, .refl _, .refl _⟩
  cases m.stream c with
  | mk result c₁ =>
      cases result with
      | ok s => exact .done (.refl s) c₁
      | error e => exact .failed e c₁

/-- The stream of a value that may have been refused. -/
theorem streamOf_sameUnless {x y : Eval A} {f : A → Stream} (given : x.SameUnless excuse Eq y) :
    (do return f (← x) : Eval Stream).SameUnless excuse (Stream.SameUnless excuse) (do return f (← y)) :=
  given.bind fun a _ same => same ▸ .pure (.refl (f a))

section Places

variable {location location' : Option Location} (places : excuse.Places location location')

include places

theorem ofStreamAndItem_sameUnless {x y : Eval Stream} {i j : Eval (Option Item)} (atMostOne : Bool)
    (stream : x.SameUnless excuse (Stream.SameUnless excuse) y) (item : i.SameUnless excuse Eq j) :
    (ofStreamAndItem location atMostOne x i).SameUnless excuse (ofStreamAndItem location' atMostOne y j) := by
  refine ⟨places, stream, item, ?_, ?_⟩
  · cases atMostOne with
    | true => exact item.andThen
    | false => exact collectStream_sameUnless stream
  · cases atMostOne with
    | true => exact item.andThen
    | false => exact booleanItemOfStream_sameUnless places stream

theorem ofValueAndItem_sameUnless {x y : Eval Value} {i j : Eval (Option Item)} (atMostOne : Bool)
    (value : x.SameUnless excuse Eq y) (item : i.SameUnless excuse Eq j) :
    (ofValueAndItem location atMostOne x i).SameUnless excuse (ofValueAndItem location' atMostOne y j) :=
  { ofStreamAndItem_sameUnless places atMostOne (streamOf_sameUnless value) item with value }

end Places

theorem ofStream_sameUnless {x y : Eval Stream} (location : Option Location) (atMostOne : Bool)
    (stream : x.SameUnless excuse (Stream.SameUnless excuse) y) :
    (ofStream location atMostOne x).SameUnless excuse (ofStream location atMostOne y) :=
  ofStreamAndItem_sameUnless (.inl rfl) atMostOne stream (singleOfStream_sameUnless (.inl rfl) stream)

theorem ofValue_sameUnless {x y : Eval Value} (location : Option Location) (atMostOne : Bool)
    (value : x.SameUnless excuse Eq y) :
    (ofValue location atMostOne x).SameUnless excuse (ofValue location atMostOne y) :=
  { ofStream_sameUnless location atMostOne (streamOf_sameUnless value) with value }

theorem ofItem_sameUnless {i j : Eval (Option Item)} (location : Option Location) (atMostOne : Bool)
    (item : i.SameUnless excuse Eq j) :
    (ofItem location atMostOne i).SameUnless excuse (ofItem location atMostOne j) :=
  ofStreamAndItem_sameUnless (.inl rfl) atMostOne (streamOf_sameUnless item) item

theorem SameUnless.boolean (same : m.SameUnless excuse n) :
    m.boolean.SameUnless excuse Eq n.boolean :=
  same.booleanItem.followed fun _ => .ofExcept same.location _

theorem SameUnless.test (same : m.SameUnless excuse n) : m.test.SameUnless excuse Eq n.test := by
  refine same.booleanItem.followed fun item => ?_
  dsimp only
  split
  · split
    · exact .refl _
    · exact .andThen (.ofExcept same.location _)
  · exact .andThen (.ofExcept same.location _)

theorem SameUnless.atomItem (same : m.SameUnless excuse n) :
    m.atomItem.SameUnless excuse Eq n.atomItem := by
  refine same.item.followed fun item => ?_
  cases item with
  | none => exact .refl _
  | some item =>
      refine .followed (.ofExcept same.location _) fun atoms => ?_
      split
      · exact .refl _
      · exact .refl _
      · exact .raise same.location _

theorem SameUnless.longOf (same : m.SameUnless excuse n) (a : Atom) :
    (m.longOf a).SameUnless excuse Eq (n.longOf a) := by
  cases a with
  | integer i => exact .refl _
  | untyped s =>
      dsimp only [Modes.longOf]
      split
      · exact .refl _
      · exact .raise same.location _
  | _ => exact .raise same.location _

theorem SameUnless.toLong? (same : m.SameUnless excuse n) :
    m.toLong?.SameUnless excuse Eq n.toLong? := by
  refine same.atomItem.followed fun a => ?_
  cases a with
  | none => exact .refl _
  | some a => exact (same.longOf a).andThen

theorem SameUnless.present (same : m.SameUnless excuse n) (expected : Option ItemType) (found : Option A) :
    (m.present expected found).SameUnless excuse Eq (n.present expected found) := by
  cases found with
  | none => exact .raise same.location _
  | some a => exact .refl _

theorem SameUnless.toText (same : m.SameUnless excuse n) :
    m.toText.SameUnless excuse Eq n.toText := by
  refine (same.atomItem.followed fun _ => same.present _ _).followed fun a => ?_
  split
  · exact .refl _
  · exact .refl _
  · exact .refl _
  · exact .raise same.location _

theorem SameUnless.toCallee (same : m.SameUnless excuse n) :
    m.toCallee.SameUnless excuse Eq n.toCallee := by
  refine same.item.followed fun item => (same.present _ item).followed fun item => ?_
  split
  · exact .refl _
  · exact .raise same.location _

end Modes

/-! ## Operations -/

variable {m n k l : Modes} {location : Option Location}

theorem rangeValue_sameUnless (first : m.SameUnless excuse n) (last : k.SameUnless excuse l) :
    (rangeValue m k location).SameUnless excuse Eq (rangeValue n l location) := by
  refine first.toLong?.followed fun a => ?_
  cases a with
  | none => exact .pure rfl
  | some a => exact last.toLong?.andThen

theorem onAtoms_sameUnless {operation : Atom → Atom → Except AtomError Item} (left : m.SameUnless excuse n)
    (right : k.SameUnless excuse l) :
    (onAtoms m k location operation).SameUnless excuse Eq (onAtoms n l location operation) := by
  refine left.atomItem.followed fun a => ?_
  cases a with
  | none => exact .pure rfl
  | some a => exact right.atomItem.andThen

/-- Operands of an expression, evaluated with and without some checks. -/
abbrev SameUnlessAll {I : Type} (excuse : Excuse) (p q : I → Modes) (is : List I) : Prop :=
  ∀ i ∈ is, (p i).SameUnless excuse (q i)

variable {I : Type} {p q : I → Modes} {is : List I}

theorem listValue_sameUnless (each : SameUnlessAll excuse p q is) :
    (listValue (is.map p)).SameUnless excuse Eq (listValue (is.map q)) := by
  refine .andThen (.foldList (fun b i member => ?_) _)
  exact .followed (.refl _) fun _ => (each i member).value.andThen

theorem ofList_sameUnless (location : Option Location) (atMostOne : Bool) (each : SameUnlessAll excuse p q is) :
    Modes.SameUnless excuse
      { Modes.ofStream location atMostOne (pure ⟨none, Stream.pullAll ((is.map p).map (·.stream))⟩) with
        value := listValue (is.map p) }
      { Modes.ofStream location atMostOne (pure ⟨none, Stream.pullAll ((is.map q).map (·.stream))⟩) with
        value := listValue (is.map q) } := by
  have pulls := fun c => Stream.pullAll_sameUnless (fun i member => (each i member).stream) c
  rw [List.map_map, List.map_map]
  exact { Modes.ofStream_sameUnless location atMostOne (.pure (.ofPulls pulls)) with
    value := listValue_sameUnless each }

theorem selectWhere_sameUnless (v : Value) (predicate : m.SameUnless excuse n) :
    (selectWhere v m).SameUnless excuse Eq (selectWhere v n) := by
  refine .andThen (.foldWalk (fun state item => ?_) _ _ _)
  exact .followed (.refl _) fun _ => .followed (.refl _) fun _ => predicate.test.andThen

theorem filterValue_sameUnless (position? : I → Option BinaryFloat) (base : m.SameUnless excuse n)
    (each : SameUnlessAll excuse p q is) :
    (filterValue m (is.map fun i => (position? i, p i))).SameUnless excuse Eq
      (filterValue n (is.map fun i => (position? i, q i))) := by
  refine base.value.followed fun v => .followed (.refl _) fun saved => ?_
  refine .refocused (.foldList (fun v i member => ?_) v) saved.focus
  dsimp only
  split
  · exact .refl _
  · exact selectWhere_sameUnless v (each i member)

theorem deleteAll_sameUnless (target : m.SameUnless excuse n) :
    (deleteAll m location).SameUnless excuse Eq (deleteAll n location) :=
  target.stream.bind fun _ _ related => (related.fold ()).andThen

section RaisedError

variable (each : SameUnlessAll excuse p q is)

include each

theorem raisedItems_sameUnless (code : Option ExpandedName) (message : String) :
    Eval.SameUnless excuse Eq
      (do
        let items ← match is[2]?.map p with
          | none => pure []
          | some m => ValueOf.items <$> m.value
        pure (⟨.raised (code.getD ErrorCode.FOER0000.expandedName) message items, location⟩ : Error))
      (do
        let items ← match is[2]?.map q with
          | none => pure []
          | some m => ValueOf.items <$> m.value
        pure (⟨.raised (code.getD ErrorCode.FOER0000.expandedName) message items, location⟩ : Error)) := by
  cases found : is[2]? with
  | none => exact .refl _
  | some i => exact (each i (List.mem_of_getElem? found)).value.map.andThen

theorem raisedMessage_sameUnless (code : Option ExpandedName) :
    Eval.SameUnless excuse Eq
      (do
        let message ← match is[1]?.map p with
          | none => pure "Halted on error()."
          | some m => m.toText
        let items ← match is[2]?.map p with
          | none => pure []
          | some m => ValueOf.items <$> m.value
        pure (⟨.raised (code.getD ErrorCode.FOER0000.expandedName) message items, location⟩ : Error))
      (do
        let message ← match is[1]?.map q with
          | none => pure "Halted on error()."
          | some m => m.toText
        let items ← match is[2]?.map q with
          | none => pure []
          | some m => ValueOf.items <$> m.value
        pure (⟨.raised (code.getD ErrorCode.FOER0000.expandedName) message items, location⟩ : Error)) := by
  cases found : is[1]? with
  | none => exact .followed (.refl _) fun message => raisedItems_sameUnless each code message
  | some i =>
      have message := (each i (List.mem_of_getElem? found)).toText
      exact message.followed fun message => raisedItems_sameUnless each code message

theorem raisedError_sameUnless :
    (raisedError location (is.map p)).SameUnless excuse Eq (raisedError location (is.map q)) := by
  unfold raisedError
  simp only [List.getElem?_map]
  cases found : is[0]? with
  | none => exact .followed (.refl _) fun code => raisedMessage_sameUnless each code
  | some i =>
      refine (each i (List.mem_of_getElem? found)).atomItem.followed fun a => ?_
      split <;> exact .followed (.refl _) fun code => raisedMessage_sameUnless each code

end RaisedError

theorem sumOrAlternative_sameUnless (sum : Option Atom) (alternative alternative' : Option (Eval (Option Item))) :
    Option.Rel (Eval.SameUnless excuse Eq) alternative alternative' →
      Eval.SameUnless excuse Eq
        (match sum, alternative with
          | some a, _ => pure (some (.atom a))
          | none, some other => other
          | none, none => pure (some (.integer 0)))
        (match sum, alternative' with
          | some a, _ => pure (some (.atom a))
          | none, some other => other
          | none, none => pure (some (.integer 0))) := by
  intro others
  cases others with
  | none => exact .refl _
  | some other =>
      cases sum with
      | none => exact other
      | some a => exact .refl _

theorem sumOf_sameUnless {x y : Eval Value} {alternative alternative' : Option (Eval (Option Item))}
    (value : x.SameUnless excuse Eq y)
    (others : Option.Rel (Eval.SameUnless excuse Eq) alternative alternative') :
    (sumOf location x alternative).SameUnless excuse Eq (sumOf location y alternative') := by
  refine value.followed fun v => ?_
  dsimp only
  split
  · exact .followed (.refl _) fun sum => sumOrAlternative_sameUnless sum _ _ others
  · refine .followed (.refl _) fun sum => ?_
    exact .followed (.refl _) fun sum => sumOrAlternative_sameUnless sum _ _ others

theorem countOf_sameUnless {x y : Eval Stream} (size? : Option Nat)
    (stream : x.SameUnless excuse (Stream.SameUnless excuse) y) :
    (countOf size? x).SameUnless excuse Eq (countOf size? y) := by
  cases size? with
  | some n => exact .refl _
  | none =>
      refine stream.bind fun s t related => ?_
      rw [← related.left]
      cases s.left with
      | some n => exact .refl _
      | none => exact (related.fold 0).andThen

theorem choose_sameUnless {R : A → A → Prop} {yes no yes' no' : Eval A} (test : m.SameUnless excuse n)
    (positive : yes.SameUnless excuse R yes') (negative : no.SameUnless excuse R no') :
    (choose m yes no).SameUnless excuse R (choose n yes' no') := by
  refine test.boolean.followed fun held => ?_
  cases held with
  | true => exact positive
  | false => exact negative

/-! ## Calls of function items -/

/-- Function items that are called, given up or not. -/
def Calls.SameUnless (excuse : Excuse) (calls calls' : Calls) : Prop :=
  ∀ f arguments, (calls f arguments).SameUnless excuse Eq (calls' f arguments)

theorem Calls.SameUnless.refl (calls : Calls) : calls.SameUnless excuse calls := fun _ _ => .refl _

section Calling

variable {calls calls' : Calls} (called : calls.SameUnless excuse calls')

include called

theorem invoke_sameUnless (callee : Item) (arguments : List Value) :
    (invoke calls callee arguments).SameUnless excuse Eq (invoke calls' callee arguments) := by
  unfold invoke
  split
  · split
    · exact called _ arguments
    · exact .refl _
  all_goals exact .refl _

theorem foldLeft1_sameUnless (v : Value) (callee : Item) :
    (foldLeft1 calls location v callee).SameUnless excuse Eq (foldLeft1 calls' location v callee) := by
  unfold foldLeft1
  split
  · exact .refl _
  · refine .foldWalk (fun total item => .followed (.refl _) fun _ => ?_) _ _ _
    exact (invoke_sameUnless called callee _).locate

theorem comesBefore_sameUnless (callee a b : Item) :
    (comesBefore calls callee a b).SameUnless excuse Eq (comesBefore calls' callee a b) :=
  .followed (.refl _) fun _ => (invoke_sameUnless called callee _).andThen

theorem sortWith_sameUnless (v : Value) (callee : Item) :
    (sortWith calls location v callee).SameUnless excuse Eq (sortWith calls' location v callee) := by
  have asked : ∀ questions : Questions (List Item), (questions.run (comesBefore calls callee)).SameUnless excuse Eq
      (questions.run (comesBefore calls' callee)) := by
    intro questions
    induction questions with
    | done items => exact .refl _
    | ask first second next next_ih => exact (comesBefore_sameUnless called callee first second).followed next_ih
  refine .andThen (.locate ?_)
  rw [mergeSort_eq_run, mergeSort_eq_run]
  exact asked _

theorem dynamicValue_sameUnless (callee : m.SameUnless excuse n) (each : SameUnlessAll excuse p q is) :
    (dynamicValue calls m (is.map p) location).SameUnless excuse Eq (dynamicValue calls' n (is.map q) location) := by
  refine callee.toCallee.followed fun item => .followed (.foldList (fun values i member => ?_) []) fun values => ?_
  · exact (each i member).value.andThen
  · exact (invoke_sameUnless called item _).locate

theorem BuiltIn.modes_sameUnless (each : SameUnlessAll excuse p q is) (f : BuiltIn) (atMostOne : Bool)
    (size? : Option Nat) :
    (f.modes calls location atMostOne size? (is.map p)).SameUnless excuse
      (f.modes calls' location atMostOne size? (is.map q)) := by
  have first : ((is.map p).headD (.ofLiteral .empty)).SameUnless excuse ((is.map q).headD (.ofLiteral .empty)) := by
    cases is with
    | nil => exact .refl _
    | cons i rest => exact each i List.mem_cons_self
  have second : ((is.map p).getD 1 (.ofLiteral .empty)).SameUnless excuse
      ((is.map q).getD 1 (.ofLiteral .empty)) := by
    simp only [List.getD_eq_getElem?_getD, List.getElem?_map]
    cases found : is[1]? with
    | none => exact .refl _
    | some i => exact each i (List.mem_of_getElem? found)
  have ofItem : ∀ {i j : Eval (Option Item)}, i.SameUnless excuse Eq j →
      (Modes.ofValueAndItem location atMostOne (do return valueOfOption (← i)) i).SameUnless excuse
        (.ofValueAndItem location atMostOne (do return valueOfOption (← j)) j) :=
    fun item => Modes.ofValueAndItem_sameUnless (.inl rfl) atMostOne item.andThen item
  have ofValue : ∀ {x y : Eval Value}, x.SameUnless excuse Eq y →
      (Modes.ofValueAndItem location atMostOne x (do singleOfValue location (← x))).SameUnless excuse
        (.ofValueAndItem location atMostOne y (do singleOfValue location (← y))) :=
    fun value => Modes.ofValueAndItem_sameUnless (.inl rfl) atMostOne value value.andThen
  cases f with
  | head => exact ofItem (first.stream.bind fun s t related => related.ask (.pure rfl) fun _ _ _ _ => .pure rfl)
  | count => exact ofItem (countOf_sameUnless size? first.stream).map
  | sum =>
      refine ofItem (sumOf_sameUnless first.value ?_)
      simp only [List.getElem?_map]
      cases found : is[1]? with
      | none => exact .none
      | some i => exact .some (each i (List.mem_of_getElem? found)).item
  | avg => exact ofItem first.value.andThen
  | error => exact ofItem (raisedError_sameUnless each).andThen
  | reverse => exact ofValue first.value.andThen
  | foldLeft1 =>
      exact ofValue (first.value.followed fun v => second.toCallee.followed (foldLeft1_sameUnless called v))
  | sortWith =>
      exact ofValue (first.value.followed fun v => second.toCallee.followed (sortWith_sameUnless called v))

end Calling

end QueryKernel
