import Mathlib.Data.List.Forall2
import QueryKernel.Proofs.Eval.Sound
import QueryKernel.Proofs.Meaning.Placed

/-!
# Computations in two contexts

Two computations that go the same way from two contexts, as long as the contexts agree on what can be
referred to.  A variable of one context may stand for another variable of the other.

More and more variables agree: each binding adds a pair, and a lazy stream may be continued from any two
contexts that agree on the pairs it has been left with, and maybe on others.  So what is known of two contexts
is ordered by what is visible, and everything said of two computations holds for all that may become visible
later.

## Definitions

* `Link` are pairs of variables, and `Context.Mirrors` says that two contexts agree.
* `Failure.Alike` relates failures that differ in the name of an undeclared variable only.
* `Eval.Mirrors`, `Step.Mirrors`, `Stream.Mirrors` and `Modes.Mirrors` relate what goes the same way.
-/

namespace QueryKernel

/-- Pairs of variables: the second stands for the first. -/
abbrev Link := Nat → Nat → Prop

/-- Two variables stand for each other and for no others. -/
structure Link.Only (link : Link) (x y : Nat) : Prop where
  linked : link x y
  right : ∀ {y'}, link x y' → y' = y
  left : ∀ {x'}, link x' y → x' = x

theorem Link.only_eq (x : Nat) : Link.Only Eq x x := ⟨rfl, fun same => same.symm, fun same => same⟩

namespace Visible

/-- What is visible is visible in the other too. -/
def Within (visible wider : Visible) : Prop := ∀ reference, visible reference → wider reference

variable {visible wider more : Visible}

theorem within_refl (visible : Visible) : visible.Within visible := fun _ => id

theorem Within.trans (first : visible.Within wider) (second : wider.Within more) : visible.Within more :=
  fun reference seen => second reference (first reference seen)

theorem within_add (visible : Visible) (id : Nat) : visible.Within (visible.add id) := fun _ => .inr

theorem Within.add (within : visible.Within wider) {id : Nat} (seen : wider (.variable id)) :
    (visible.add id).Within wider := by
  rintro reference (rfl | old)
  · exact seen
  · exact within reference old

theorem within_focused (visible : Visible) : visible.Within visible.focused := fun _ => .inr

end Visible

/-! ## Contexts -/

/-- The contexts agree on what is visible, and on whether there is a reason to stop. -/
structure Context.Mirrors (link : Link) (visible : Visible) (c d : Context) : Prop where
  focus : visible .focus → d.focus = c.focus
  forest : visible .forest → d.forest = c.forest
  bindings : ∀ x y, link x y → visible (.variable x) → d.bindings.lookup y = c.bindings.lookup x
  stop : d.stopCause? = c.stopCause?

namespace Context.Mirrors

variable {link : Link} {visible wider : Visible} {c d : Context}

theorem fewer (mirrors : c.Mirrors link wider d) (within : visible.Within wider) :
    c.Mirrors link visible d :=
  ⟨fun seen => mirrors.focus (within _ seen), fun seen => mirrors.forest (within _ seen),
    fun x y linked seen => mirrors.bindings x y linked (within _ seen), mirrors.stop⟩

theorem bind (mirrors : c.Mirrors link visible d) {var var' : Variable}
    (only : link.Only var.id var'.id) (v : Value) :
    (c.bind var v).Mirrors link (visible.add var.id) (d.bind var' v) := by
  refine ⟨fun seen => mirrors.focus (seen.resolve_left nofun),
    fun seen => mirrors.forest (seen.resolve_left nofun), fun x y pair seen => ?_, mirrors.stop⟩
  rw [Context.bind, Context.bind, Bindings.lookup_set, Bindings.lookup_set]
  by_cases same : x = var.id
  · subst same
    rw [if_pos rfl, if_pos (only.right pair)]
  · have other : y ≠ var'.id := by
      rintro rfl
      exact same (only.left pair)
    have before : visible (.variable x) :=
      seen.resolve_left fun equal => same (Reference.variable.inj equal)
    rw [if_neg same, if_neg other]
    exact mirrors.bindings x y pair before

theorem withFocus (mirrors : c.Mirrors link visible d) (focus : Focus) :
    ({ c with focus } : Context).Mirrors link visible.focused { d with focus } :=
  ⟨fun _ => rfl, fun seen => mirrors.forest (seen.resolve_left nofun),
    fun x y linked seen => mirrors.bindings x y linked (seen.resolve_left nofun), mirrors.stop⟩

/-- A focus that was set aside is restored. -/
theorem restore (mirrors : c.Mirrors link wider d) {focus focus' : Focus}
    (same : visible .focus → focus' = focus) (within : visible.Within wider) :
    ({ c with focus } : Context).Mirrors link visible { d with focus := focus' } :=
  ⟨same, fun seen => mirrors.forest (within _ seen),
    fun x y linked seen => mirrors.bindings x y linked (within _ seen), mirrors.stop⟩

end Context.Mirrors

/-! ## Failures -/

/-- The causes are the same, or variables are undeclared in both. -/
inductive Cause.Alike : Cause Expr → Cause Expr → Prop where
  | same (cause : Cause Expr) : Alike cause cause
  | undeclared (name name' : String) : Alike (.undeclared name) (.undeclared name')

/-- The failures are the same, but for the name of an undeclared variable. -/
inductive Failure.Alike : Failure → Failure → Prop where
  | same (e : Failure) : Alike e e
  | error {cause cause' : Cause Expr} (alike : cause.Alike cause') (location : Option Location) :
      Alike (.error ⟨cause, location⟩) (.error ⟨cause', location⟩)

/-! ## Computations -/

section Computations

variable {A B S T : Type}

/-- Two outcomes: alike failures, or related results in contexts that agree on what is visible now. -/
inductive Mirrored (link : Link) (visible : Visible) (R : Visible → A → B → Prop) :
    Except Failure A × Context → Except Failure B × Context → Prop where
  | failed {e e' : Failure} (alike : e.Alike e') (c d : Context) :
      Mirrored link visible R (.error e, c) (.error e', d)
  | done {a : A} {b : B} {c d : Context} {wider : Visible} (within : visible.Within wider)
      (related : R wider a b) (mirrors : c.Mirrors link wider d) :
      Mirrored link visible R (.ok a, c) (.ok b, d)

/-- The computations go the same way from contexts that agree on what is visible. -/
def Eval.Mirrors (link : Link) (visible : Visible) (R : Visible → A → B → Prop) (x : Eval A) (y : Eval B) :
    Prop :=
  ∀ wider, visible.Within wider → ∀ c d, c.Mirrors link wider d → Mirrored link wider R (x c) (y d)

/-- The same result, whatever is visible. -/
abbrev Equal : Visible → A → A → Prop := fun _ a b => a = b

variable {link : Link} {visible wider : Visible} {R : Visible → A → B → Prop} {Q : Visible → S → T → Prop}

theorem Mirrored.within {result : Except Failure A × Context} {result' : Except Failure B × Context}
    (mirrored : Mirrored link wider R result result') (within : visible.Within wider) :
    Mirrored link visible R result result' := by
  cases mirrored with
  | failed alike c d => exact .failed alike c d
  | done further related mirrors => exact .done (within.trans further) related mirrors

namespace Eval

theorem Mirrors.grow {x : Eval A} {y : Eval B} (mirrors : x.Mirrors link visible R y)
    (within : visible.Within wider) : x.Mirrors link wider R y :=
  fun more further c d agree => mirrors more (within.trans further) c d agree

theorem Mirrors.pure {a : A} {b : B} (related : ∀ wider, visible.Within wider → R wider a b) :
    Mirrors link visible R (pure a) (pure b) :=
  fun wider within _ _ agree => .done (Visible.within_refl wider) (related wider within) agree

theorem Mirrors.same (a : A) : Mirrors link visible Equal (Pure.pure a) (Pure.pure a) := .pure fun _ _ => rfl

theorem Mirrors.fail {e e' : Failure} (alike : e.Alike e') :
    Mirrors link visible R (Eval.fail e) (Eval.fail e') := fun _ _ c d _ => .failed alike c d

theorem Mirrors.raise {cause : Cause Expr} {location : Option Location} :
    Mirrors link visible R (Eval.raise cause location) (Eval.raise cause location) := .fail (.same _)

theorem Mirrors.ofExcept {location : Option Location} (x : Except (Cause Expr) A) :
    Mirrors link visible Equal (Eval.ofExcept location x) (Eval.ofExcept location x) := by
  cases x with
  | ok a => exact .same a
  | error cause => exact .raise

theorem Mirrors.ofFaulty (x : Except Fault A) :
    Mirrors link visible Equal (Eval.ofFaulty x) (Eval.ofFaulty x) := by
  cases x with
  | ok a => exact .same a
  | error fault => exact .fail (.same _)

theorem Mirrors.checkStop : Mirrors link visible Equal checkStop checkStop := by
  intro wider _ c d agree
  unfold Eval.checkStop
  rw [agree.stop]
  split
  · exact .done (Visible.within_refl wider) rfl agree
  · exact .failed (.same _) c d

theorem Mirrors.change {f g : Context → Context}
    (keeps : ∀ wider, visible.Within wider → ∀ c d, c.Mirrors link wider d → (f c).Mirrors link wider (g d)) :
    Mirrors link visible Equal (Eval.change f) (Eval.change g) :=
  fun wider within c d agree => .done (Visible.within_refl wider) rfl (keeps wider within c d agree)

theorem Mirrors.bind {x : Eval A} {y : Eval B} {f : A → Eval S} {g : B → Eval T}
    (first : x.Mirrors link visible R y)
    (second : ∀ wider, visible.Within wider → ∀ a b, R wider a b → (f a).Mirrors link wider Q (g b)) :
    (x >>= f).Mirrors link visible Q (y >>= g) := by
  intro wider within c d agree
  have compared := first wider within c d agree
  rw [bind_apply, bind_apply]
  generalize x c = result at compared
  generalize y d = result' at compared
  cases compared with
  | failed alike c d => exact .failed alike c d
  | done further related kept =>
      exact (second _ (within.trans further) _ _ related _ (Visible.within_refl _) _ _ kept).within further

/-- The same result leads on. -/
theorem Mirrors.followed {x y : Eval A} {f : A → Eval S} {g : A → Eval T}
    (first : x.Mirrors link visible Equal y) (second : ∀ a, (f a).Mirrors link visible Q (g a)) :
    (x >>= f).Mirrors link visible Q (y >>= g) :=
  first.bind fun _ within a _ same => same ▸ (second a).grow within

theorem Mirrors.map {x y : Eval A} (first : x.Mirrors link visible Equal y) (f : A → S) :
    (f <$> x).Mirrors link visible Equal (f <$> y) := first.followed fun a => .same (f a)

theorem Mirrors.locate {x y : Eval A} {location : Option Location} (mirrors : x.Mirrors link visible Equal y) :
    (x.locate location).Mirrors link visible Equal (y.locate location) := by
  intro wider within c d agree
  have compared := mirrors wider within c d agree
  unfold Eval.locate
  generalize x c = result at compared
  generalize y d = result' at compared
  cases compared with
  | @failed e e' alike c d =>
      cases alike with
      | same => cases e <;> exact .failed (.same _) c d
      | error alike found =>
          cases found with
          | none => exact .failed (.error alike location) c d
          | some found => exact .failed (.error alike (some found)) c d
  | done further related kept => exact .done further related kept

theorem Mirrors.foldList {R : A → B → Prop} {f : S → A → Eval S} {g : S → B → Eval S} {as : List A}
    {bs : List B} (each : List.Forall₂ R as bs)
    (step : ∀ s a b, R a b → (f s a).Mirrors link visible Equal (g s b)) (s : S) :
    (Eval.foldList f s as).Mirrors link visible Equal (Eval.foldList g s bs) := by
  induction each generalizing s with
  | nil => exact .same s
  | cons related _ rest_ih => exact (step s _ _ related).followed rest_ih

theorem Mirrors.foldWalk {f g : S → Item → Eval S}
    (step : ∀ s item, (f s item).Mirrors link visible Equal (g s item)) (n : Nat) (s : S) (w : Walk Expr) :
    (Eval.foldWalk f n s w).Mirrors link visible Equal (Eval.foldWalk g n s w) := by
  induction n generalizing s w with
  | zero => exact .same s
  | succ n n_ih =>
      simp only [Eval.foldWalk]
      split
      · exact .same s
      · exact (step s _).followed fun s => n_ih s _

theorem Mirrors.foldValue {f g : S → Item → Eval S}
    (step : ∀ s item, (f s item).Mirrors link visible Equal (g s item)) (s : S) (v : Value) :
    (Eval.foldValue f s v).Mirrors link visible Equal (Eval.foldValue g s v) := .foldWalk step _ _ _

end Eval

end Computations

/-! ## Streams -/

variable {link : Link} {visible wider : Visible}

namespace Step

/-- The streams from a step on yield the same items.  They go on from contexts that agree on what has become
visible up to then. -/
def Mirrors (link : Link) : Step → Step → Visible → Prop
  | done c, t, visible => ∃ d, t = done d ∧ c.Mirrors link visible d
  | failed _ e, t, _ => ∃ d e', t = failed d e' ∧ e.Alike e'
  | yield c item left rest, t, visible =>
      ∃ d rest' wider, t = yield d item left rest' ∧ visible.Within wider ∧ c.Mirrors link wider d ∧
        ∀ more, wider.Within more → ∀ c' d', c'.Mirrors link more d' →
          (rest c').Mirrors link (rest' d') more

variable {s t : Step}

theorem Mirrors.within (mirrors : s.Mirrors link t wider) (within : visible.Within wider) :
    s.Mirrors link t visible := by
  cases s with
  | done c =>
      obtain ⟨d, same, agree⟩ := mirrors
      exact ⟨d, same, agree.fewer within⟩
  | failed c e => exact mirrors
  | yield c item left rest =>
      obtain ⟨d, rest', more, same, further, agree, next⟩ := mirrors
      exact ⟨d, rest', more, same, within.trans further, agree, next⟩

theorem Mirrors.andThen {more more' : Context → Step} (first : s.Mirrors link t visible)
    (second : ∀ wider, visible.Within wider → ∀ c d, c.Mirrors link wider d →
      (more c).Mirrors link (more' d) wider) :
    (s.andThen more).Mirrors link (t.andThen more') visible := by
  induction s generalizing t visible with
  | done c =>
      obtain ⟨d, rfl, agree⟩ := first
      exact second visible (Visible.within_refl visible) c d agree
  | failed c e =>
      obtain ⟨d, e', rfl, alike⟩ := first
      exact ⟨d, e', rfl, alike⟩
  | yield c item left rest rest_ih =>
      obtain ⟨d, rest', wider, rfl, within, agree, next⟩ := first
      refine ⟨d, _, wider, rfl, within, agree, fun further grown c' d' agree' => ?_⟩
      refine rest_ih c' (next further grown c' d' agree') fun last reached => ?_
      exact second last ((within.trans grown).trans reached)

theorem Mirrors.fold {B : Type} {f g : B → Item → Eval B} (mirrors : s.Mirrors link t visible)
    (step : ∀ b item, (f b item).Mirrors link visible Equal (g b item)) (b : B) :
    Mirrored link visible Equal (s.fold f b) (t.fold g b) := by
  induction s generalizing t b visible with
  | done c =>
      obtain ⟨d, rfl, agree⟩ := mirrors
      exact .done (Visible.within_refl visible) rfl agree
  | failed c e =>
      obtain ⟨d, e', rfl, alike⟩ := mirrors
      exact .failed alike c d
  | yield c item left rest rest_ih =>
      obtain ⟨d, rest', wider, rfl, within, agree, next⟩ := mirrors
      have compared := step b item wider within c d agree
      simp only [Step.fold]
      generalize f b item c = result at compared
      generalize g b item d = result' at compared
      cases compared with
      | failed alike c d => exact .failed alike c d
      | done further same kept =>
          obtain rfl := same
          have grown := within.trans further
          refine (rest_ih _ (next _ further _ _ kept) (fun b item => ?_) _).within grown
          exact (step b item).grow grown

end Step

/-- The streams yield the same items, wherever they are read. -/
structure Stream.Mirrors (link : Link) (visible : Visible) (s t : Stream) : Prop where
  left : t.left = s.left
  pull : ∀ wider, visible.Within wider → ∀ c d, c.Mirrors link wider d →
    (s.pull c).Mirrors link (t.pull d) wider

namespace Stream

variable {s t : Stream}

theorem ofWalk_mirrors (n : Nat) (w : Walk Expr) {c d : Context} (agree : c.Mirrors link visible d) :
    (ofWalk n w c).Mirrors link (ofWalk n w d) visible := by
  induction n generalizing w c d visible with
  | zero => exact ⟨d, rfl, agree⟩
  | succ n n_ih =>
      unfold ofWalk
      split
      · exact ⟨d, rfl, agree⟩
      · exact ⟨d, _, visible, rfl, Visible.within_refl visible, agree, fun _ _ _ _ => n_ih _⟩

theorem ofValue_mirrors (v : Value) : (ofValue v).Mirrors link visible (ofValue v) :=
  ⟨rfl, fun _ _ _ _ agree => ofWalk_mirrors _ _ agree⟩

theorem Mirrors.fold {B : Type} {f g : B → Item → Eval B} (mirrors : s.Mirrors link visible t)
    (step : ∀ b item, (f b item).Mirrors link visible Equal (g b item)) (b : B) :
    (s.fold f b).Mirrors link visible Equal (t.fold g b) :=
  fun wider within c d agree =>
    (mirrors.pull wider within c d agree).fold (fun b item => (step b item).grow within) b

/-- The next item is the same, and so is what follows if it treats the rest of the streams alike. -/
theorem Mirrors.ask {S T : Type} {Q : Visible → S → T → Prop} {f : Option (Item × Stream) → Eval S}
    {g : Option (Item × Stream) → Eval T} (mirrors : s.Mirrors link visible t)
    (last : (f none).Mirrors link visible Q (g none))
    (more : ∀ wider, visible.Within wider → ∀ item s' t', s'.Mirrors link wider t' →
      (f (some (item, s'))).Mirrors link wider Q (g (some (item, t')))) :
    (s.next >>= f).Mirrors link visible Q (t.next >>= g) := by
  intro wider within c d agree
  have compared := mirrors.pull wider within c d agree
  rw [Eval.bind_apply, Eval.bind_apply]
  unfold Stream.next
  generalize s.pull c = step at compared
  generalize t.pull d = step' at compared
  cases step with
  | done c₁ =>
      obtain ⟨d₁, rfl, kept⟩ := compared
      exact last wider within c₁ d₁ kept
  | failed c₁ e =>
      obtain ⟨d₁, e', rfl, alike⟩ := compared
      exact .failed alike c₁ d₁
  | yield c₁ item left rest =>
      obtain ⟨d₁, rest', grown, rfl, further, kept, next⟩ := compared
      refine Mirrored.within ?_ further
      exact more grown (within.trans further) item ⟨left, rest⟩ ⟨left, rest'⟩ ⟨rfl, next⟩ grown
        (Visible.within_refl grown) c₁ d₁ kept

theorem pullAll_mirrors {starts starts' : List (Eval Stream)}
    (each : List.Forall₂ (Eval.Mirrors link visible (Stream.Mirrors link)) starts starts')
    {c d : Context} (agree : c.Mirrors link visible d) :
    (pullAll starts c).Mirrors link (pullAll starts' d) visible := by
  -- Whatever becomes visible while the streams before it are read, a stream starts all the same.
  suffices all : ∀ wider, visible.Within wider → ∀ c d, c.Mirrors link wider d →
      (pullAll starts c).Mirrors link (pullAll starts' d) wider from
    all visible (Visible.within_refl visible) c d agree
  clear agree
  induction each with
  | nil => exact fun _ _ c d agree => ⟨d, rfl, agree⟩
  | @cons start start' rest rest' first _ rest_ih =>
      intro wider within c d agree
      have compared := first wider within c d agree
      simp only [pullAll]
      generalize start c = result at compared
      generalize start' d = result' at compared
      cases compared with
      | failed alike c d => exact ⟨d, _, rfl, alike⟩
      | @done s t c d grown further related kept =>
          refine Step.Mirrors.within ?_ further
          refine (related.pull grown (Visible.within_refl grown) c d kept).andThen fun more reached => ?_
          exact rest_ih more ((within.trans further).trans reached)

/-- A loop with bodies that go the same way. -/
theorem forEach_mirrors {body body' : Item → Eval Stream} {s t : Step} (mirrors : s.Mirrors link t visible)
    (each : ∀ item, (body item).Mirrors link visible (Stream.Mirrors link) (body' item)) :
    (s.forEach body).Mirrors link (t.forEach body') visible := by
  induction s generalizing t visible with
  | done c =>
      obtain ⟨d, rfl, agree⟩ := mirrors
      exact ⟨d, rfl, agree⟩
  | failed c e =>
      obtain ⟨d, e', rfl, alike⟩ := mirrors
      exact ⟨d, e', rfl, alike⟩
  | yield c item left rest rest_ih =>
      obtain ⟨d, rest', wider, rfl, within, agree, next⟩ := mirrors
      -- The other items, whatever has become visible before it is their turn.
      have others : ∀ more, wider.Within more → ∀ c' d', c'.Mirrors link more d' →
          ((rest c').forEach body).Mirrors link ((rest' d').forEach body') more :=
        fun more reached c' d' kept => rest_ih c' (next more reached c' d' kept)
          fun item => (each item).grow (within.trans reached)
      have compared := each item wider within c d agree
      simp only [Step.forEach]
      generalize body item c = result at compared
      generalize body' item d = result' at compared
      cases compared with
      | failed alike c d => exact ⟨d, _, rfl, alike⟩
      | @done inner inner' c₁ d₁ grown further related kept =>
          have pulled := related.pull grown (Visible.within_refl grown) c₁ d₁ kept
          dsimp only
          generalize inner.pull c₁ = step at pulled
          generalize inner'.pull d₁ = step' at pulled
          cases step with
          | done c₂ =>
              obtain ⟨d₂, rfl, ended⟩ := pulled
              exact (others grown further c₂ d₂ ended).within (within.trans further)
          | failed c₂ e =>
              obtain ⟨d₂, e', rfl, alike⟩ := pulled
              exact ⟨d₂, e', rfl, alike⟩
          | yield c₂ first left₂ more =>
              obtain ⟨d₂, more', last, rfl, reached, ended, onward⟩ := pulled
              refine ⟨d₂, _, last, rfl, (within.trans further).trans reached, ended, ?_⟩
              intro final grown' c' d' agree'
              refine (onward final grown' c' d' agree').andThen fun top above => ?_
              exact others top (((further.trans reached).trans grown').trans above)

end Stream

/-! ## Ways to evaluate -/

/-- All ways to evaluate go the same way. -/
structure Modes.Mirrors (link : Link) (visible : Visible) (m n : Modes) : Prop where
  location : n.location = m.location
  stream : m.stream.Mirrors link visible (Stream.Mirrors link) n.stream
  item : m.item.Mirrors link visible Equal n.item
  value : m.value.Mirrors link visible Equal n.value
  booleanItem : m.booleanItem.Mirrors link visible Equal n.booleanItem

section Streams

variable {x y : Eval Stream} (stream : x.Mirrors link visible (Stream.Mirrors link) y)

include stream

theorem singleOfStream_mirrors (location : Option Location) :
    (singleOfStream location x).Mirrors link visible Equal (singleOfStream location y) := by
  refine stream.bind fun _ _ s t start => start.ask (.same none) fun _ _ first s t others => ?_
  refine others.ask (.same (some first)) fun _ _ second s t more => ?_
  exact more.ask .raise fun _ _ _ _ _ _ => .raise

theorem booleanItemOfStream_mirrors (location : Option Location) :
    (booleanItemOfStream location x).Mirrors link visible Equal (booleanItemOfStream location y) := by
  refine stream.bind fun _ _ s t start => start.ask (.same _) fun _ _ first s t others => ?_
  dsimp only
  split
  · exact .same first
  · refine others.ask (.same first) fun _ _ second s t more => ?_
    exact more.ask .raise fun _ _ _ _ _ _ => .raise

theorem collectStream_mirrors : (collectStream x).Mirrors link visible Equal (collectStream y) := by
  refine stream.bind fun _ _ s t related => (related.fold (fun b item => ?_) _).followed fun _ => .same _
  exact Eval.Mirrors.checkStop.followed fun _ => .same _

end Streams

namespace Modes

variable {m n : Modes}

theorem Mirrors.grow (mirrors : m.Mirrors link visible n) (within : visible.Within wider) :
    m.Mirrors link wider n :=
  ⟨mirrors.location, mirrors.stream.grow within, mirrors.item.grow within, mirrors.value.grow within,
    mirrors.booleanItem.grow within⟩

theorem ofStreamAndItem_mirrors {x y : Eval Stream} {i j : Eval (Option Item)} (location : Option Location)
    (atMostOne : Bool) (stream : x.Mirrors link visible (Stream.Mirrors link) y)
    (item : i.Mirrors link visible Equal j) :
    (ofStreamAndItem location atMostOne x i).Mirrors link visible (ofStreamAndItem location atMostOne y j) := by
  refine ⟨rfl, stream, item, ?_, ?_⟩
  · cases atMostOne with
    | true => exact item.followed fun _ => .same _
    | false => exact collectStream_mirrors stream
  · cases atMostOne with
    | true => exact item.followed fun _ => .same _
    | false => exact booleanItemOfStream_mirrors stream location

theorem ofStream_mirrors {x y : Eval Stream} (location : Option Location) (atMostOne : Bool)
    (stream : x.Mirrors link visible (Stream.Mirrors link) y) :
    (ofStream location atMostOne x).Mirrors link visible (ofStream location atMostOne y) :=
  ofStreamAndItem_mirrors location atMostOne stream (singleOfStream_mirrors stream location)

theorem streamOfValue_mirrors {x y : Eval Value} (value : x.Mirrors link visible Equal y) :
    (do return .ofValue (← x) : Eval Stream).Mirrors link visible (Stream.Mirrors link)
      (do return .ofValue (← y)) :=
  value.followed fun v => .pure fun _ _ => Stream.ofValue_mirrors v

theorem ofValueAndItem_mirrors {x y : Eval Value} {i j : Eval (Option Item)} (location : Option Location)
    (atMostOne : Bool) (value : x.Mirrors link visible Equal y) (item : i.Mirrors link visible Equal j) :
    (ofValueAndItem location atMostOne x i).Mirrors link visible (ofValueAndItem location atMostOne y j) :=
  { ofStreamAndItem_mirrors location atMostOne (streamOfValue_mirrors value) item with value }

theorem ofValue_mirrors {x y : Eval Value} (location : Option Location) (atMostOne : Bool)
    (value : x.Mirrors link visible Equal y) :
    (ofValue location atMostOne x).Mirrors link visible (ofValue location atMostOne y) :=
  { ofStream_mirrors location atMostOne (streamOfValue_mirrors value) with value }

theorem ofItem_mirrors {i j : Eval (Option Item)} (location : Option Location) (atMostOne : Bool)
    (item : i.Mirrors link visible Equal j) :
    (ofItem location atMostOne i).Mirrors link visible (ofItem location atMostOne j) :=
  ofStreamAndItem_mirrors location atMostOne
    (item.followed fun _ => .pure fun _ _ => Stream.ofValue_mirrors _) item

theorem singleOfValue_mirrors (location : Option Location) (v : Value) :
    (singleOfValue location v).Mirrors link visible Equal (singleOfValue location v) := by
  unfold singleOfValue
  split
  · exact .raise
  · exact .same _

theorem ofLiteral_mirrors (v : Value) : (ofLiteral v).Mirrors link visible (ofLiteral v) := by
  refine ⟨rfl, .pure fun _ _ => Stream.ofValue_mirrors v, singleOfValue_mirrors none v, .same v, ?_⟩
  unfold ofLiteral
  dsimp only
  split
  · exact .same _
  · exact .same _
  · split
    · exact .same _
    · exact .raise

theorem Mirrors.boolean (mirrors : m.Mirrors link visible n) :
    m.boolean.Mirrors link visible Equal n.boolean := by
  unfold Modes.boolean
  rw [mirrors.location]
  exact mirrors.booleanItem.followed fun _ => .ofExcept _

/-- Only where the focus is visible the position is known to be the same. -/
theorem Mirrors.test (mirrors : m.Mirrors link visible n) (focused : visible .focus) :
    m.test.Mirrors link visible Equal n.test := by
  unfold Modes.test
  rw [mirrors.location]
  refine mirrors.booleanItem.followed fun item => ?_
  have decided : ∀ held : Bool, Eval.Mirrors link visible Equal
      (Pure.pure (if held then some item else none) : Eval (Option Item))
      (Pure.pure (if held then some item else none)) := fun _ => .same _
  have ofBoolean : Eval.Mirrors link visible Equal
      (do
        let holds ← Eval.ofExcept m.location item.booleanValue
        Pure.pure (if holds then some item else none))
      (do
        let holds ← Eval.ofExcept m.location item.booleanValue
        Pure.pure (if holds then some item else none)) := (Eval.Mirrors.ofExcept _).followed decided
  dsimp only
  split
  · next a =>
      split
      · intro wider within c d agree
        have same : d.focus = c.focus := agree.focus (within _ focused)
        simp only [Eval.bind_apply, Eval.context]
        rw [same]
        exact .done (Visible.within_refl wider) rfl agree
      · exact ofBoolean
  · exact ofBoolean

theorem Mirrors.atomItem (mirrors : m.Mirrors link visible n) :
    m.atomItem.Mirrors link visible Equal n.atomItem := by
  unfold Modes.atomItem
  rw [mirrors.location]
  refine mirrors.item.followed fun found => ?_
  cases found with
  | none => exact .same none
  | some item =>
      refine (Eval.Mirrors.ofExcept _).followed fun atoms => ?_
      split
      · exact .same none
      · exact .same _
      · exact .raise

theorem present_mirrors {A : Type} (m : Modes) (expected : Option ItemType) (found : Option A) :
    (m.present expected found).Mirrors link visible Equal (m.present expected found) := by
  cases found with
  | none => exact .raise
  | some a => exact .same a

theorem longOf_mirrors (m : Modes) (a : Atom) :
    (m.longOf a).Mirrors link visible Equal (m.longOf a) := by
  unfold Modes.longOf
  split
  · exact .same _
  · split
    · exact .same _
    · exact .raise
  · exact .raise

theorem Mirrors.toLong? (mirrors : m.Mirrors link visible n) :
    m.toLong?.Mirrors link visible Equal n.toLong? := by
  have same : ∀ a, n.longOf a = m.longOf a := by
    intro a
    unfold Modes.longOf Modes.misread Modes.refuseAtom Modes.refuse
    rw [mirrors.location]
  unfold Modes.toLong?
  refine mirrors.atomItem.followed fun found => ?_
  cases found with
  | none => exact .same none
  | some a =>
      dsimp only
      rw [same]
      exact (longOf_mirrors m a).followed fun _ => .same _

theorem Mirrors.toText (mirrors : m.Mirrors link visible n) :
    m.toText.Mirrors link visible Equal n.toText := by
  unfold Modes.toText Modes.expectAtom Modes.present Modes.refuseAtom Modes.refuse
  rw [mirrors.location]
  refine Eval.Mirrors.followed (mirrors.atomItem.followed (present_mirrors m _)) fun a => ?_
  split
  · exact .same _
  · exact .same _
  · exact .same _
  · exact .raise

theorem Mirrors.toCallee (mirrors : m.Mirrors link visible n) :
    m.toCallee.Mirrors link visible Equal n.toCallee := by
  unfold Modes.toCallee Modes.present Modes.refuse
  rw [mirrors.location]
  refine Eval.Mirrors.followed mirrors.item fun found => ?_
  refine Eval.Mirrors.followed (present_mirrors m _ found) fun item => ?_
  split
  · exact .same item
  · exact .raise

end Modes

end QueryKernel
