import QueryKernel.Eval

/-!
# Lazy streams

Results that are computed item by item.  A stream is a computation of a step; a step is the end, a
failure, or an item together with the rest of the stream.  Every stream ends, so folding one is
recursion on its steps.

## Functions

* `Stream.ofValue` is the stream of the items of a value.
* `Step.andThen` puts another stream after a step, `Step.forEach` replaces each item by a stream.
* `Stream.next` is the next item; `Step.fold` goes through all of them.
-/

namespace QueryKernel

/-- The outcome of asking a stream for an item.  The context is the one after the computation; `left`
is the number of items behind this one, if it is known. -/
inductive Step where
  | done (context : Context)
  | failed (context : Context) (failure : Failure)
  | yield (context : Context) (item : Item) (left : Option Nat) (rest : Context → Step)

/-- A lazy sequence of items and their number, if it is known without computing them. -/
structure Stream where
  left : Option Nat
  pull : Context → Step

namespace Step

/-- Goes on with another stream after the last item. -/
def andThen (more : Context → Step) : Step → Step
  | done c => more c
  | failed c e => failed c e
  | yield c item _ rest => yield c item none fun c => (rest c).andThen more

/-- Replaces every item by the items of a stream that is made when its turn has come. -/
def forEach (body : Item → Eval Stream) : Step → Step
  | done c => done c
  | failed c e => failed c e
  | yield c item _ rest =>
      match body item c with
      | (.error e, c) => failed c e
      | (.ok inner, c) =>
          match inner.pull c with
          | done c => (rest c).forEach body
          | failed c e => failed c e
          | yield c item _ more =>
              yield c item none fun c => (more c).andThen fun c => (rest c).forEach body

/-- Folds the items, ending at the first failure. -/
def fold {β : Type} (f : β → Item → Eval β) (b : β) : Step → Except Failure β × Context
  | done c => (.ok b, c)
  | failed c e => (.error e, c)
  | yield c item _ rest =>
      match f b item c with
      | (.ok b, c) => (rest c).fold f b
      | (.error e, c) => (.error e, c)

end Step

namespace Stream

/-- The steps of a walk, at most the given number. -/
def ofWalk : Nat → Walk Expr → Context → Step
  | 0, _, c => .done c
  | n + 1, w, c =>
      match w.next with
      | (none, _) => .done c
      | (some item, w) => .yield c item (some w.remaining) (ofWalk n w)

/-- The stream of the items of a value. -/
def ofValue (v : Value) : Stream := ⟨some v.walk.remaining, ofWalk v.size v.walk⟩

/-- The stream of at most one item. -/
def ofOption (item : Option Item) : Stream := ofValue ((item.map ValueOf.one).getD .empty)

/-- The streams of several computations, one after another.  Each is started when those before it
have ended. -/
def pullAll : List (Eval Stream) → Context → Step
  | [], c => .done c
  | start :: rest, c =>
      match start c with
      | (.error e, c) => .failed c e
      | (.ok stream, c) => (stream.pull c).andThen (pullAll rest)

/-- The next item and the rest of the stream. -/
def next (s : Stream) : Eval (Option (Item × Stream)) := fun c =>
  match s.pull c with
  | .done c => (.ok none, c)
  | .failed c e => (.error e, c)
  | .yield c item left rest => (.ok (some (item, ⟨left, rest⟩)), c)

/-- Folds all items, ending at the first failure. -/
def fold {β : Type} (f : β → Item → Eval β) (b : β) (s : Stream) : Eval β := fun c =>
  (s.pull c).fold f b

end Stream

end QueryKernel
