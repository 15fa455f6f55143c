import QueryKernel.Proofs.Eval.Preserve
import QueryKernel.Proofs.Mirror.Steps

/-!
# Operations in two contexts

Each operation on parts that go the same way goes the same way.

Function items are called with the same arguments in both contexts, so that nothing is said of the values
that are passed; what is assumed is that the calls go the same way themselves.
-/

namespace QueryKernel

variable {link : Link} {visible : Visible} {calls : Calls}

/-- Calls of function items go the same way. -/
def Calls.Mirror (calls : Calls) (link : Link) (visible : Visible) : Prop :=
  ∀ f arguments, arguments.length = f.parameters.length →
    (calls f arguments).Mirrors link visible Equal (calls f arguments)

open Eval (Mirrors)

/-! ## Calling, folding and sorting -/

section Calling

variable (mirror : calls.Mirror link visible) (callee : Item)

theorem singleKey_mirrors (callee : Item) (arguments : List Value) :
    (singleKey callee arguments).Mirrors link visible Equal (singleKey callee arguments) := by
  unfold singleKey
  split
  · refine (Mirrors.ofExcept _).followed fun atoms => ?_
    split
    · exact .same _
    · exact .raise
    · exact .raise
  · exact .raise

include mirror

theorem invoke_mirrors (arguments : List Value) :
    (invoke calls callee arguments).Mirrors link visible Equal (invoke calls callee arguments) := by
  unfold invoke
  split
  · next f =>
      split
      · next arity => exact mirror f arguments arity
      · exact .raise
  · exact (singleKey_mirrors _ _).followed fun _ => .same _
  · refine (singleKey_mirrors _ _).followed fun key => ?_
    split
    · exact .ofExcept _
    · exact .raise
  · exact .raise

theorem foldLeft1_mirrors (location : Option Location) (v : Value) :
    (foldLeft1 calls location v callee).Mirrors link visible Equal (foldLeft1 calls location v callee) := by
  unfold foldLeft1
  split
  · exact .raise
  · refine .foldWalk (fun total item => ?_) _ _ _
    exact Mirrors.checkStop.followed fun _ => (invoke_mirrors mirror callee _).locate

theorem comesBefore_mirrors (a b : Item) :
    (comesBefore calls callee a b).Mirrors link visible Equal (comesBefore calls callee a b) := by
  refine Mirrors.checkStop.followed fun _ => (invoke_mirrors mirror callee _).followed fun v => ?_
  exact (Modes.ofLiteral_mirrors v).boolean

end Calling

section Sorting

variable {less : Item → Item → Eval Bool}
  (decides : ∀ a b, (less a b).Mirrors link visible Equal (less a b))

include decides

theorem takeLess_mirrors (a : Item) (merged others : List Item) :
    (takeLess less a merged others).Mirrors link visible Equal (takeLess less a merged others) := by
  induction others generalizing merged with
  | nil => exact .same _
  | cons b rest rest_ih =>
      rw [takeLess_cons]
      refine (decides b a).followed fun before => ?_
      split
      · exact rest_ih _
      · exact .same _

theorem mergeSorted_mirrors (merged left right : List Item) :
    (mergeSorted less merged left right).Mirrors link visible Equal (mergeSorted less merged left right) := by
  induction left generalizing merged right with
  | nil => exact .same _
  | cons a left left_ih =>
      rw [mergeSorted_cons]
      exact (takeLess_mirrors decides a merged right).followed fun _ => left_ih _ _

theorem mergeSortWithin_mirrors (most : Nat) (items : List Item) :
    (mergeSortWithin less most items).Mirrors link visible Equal (mergeSortWithin less most items) := by
  induction most generalizing items with
  | zero => exact .same _
  | succ most most_ih =>
      simp only [mergeSortWithin]
      split
      · exact .same _
      · exact (most_ih _).followed fun _ => (most_ih _).followed fun _ => mergeSorted_mirrors decides _ _ _

end Sorting

theorem sortWith_mirrors (mirror : calls.Mirror link visible) (callee : Item)
    (location : Option Location) (v : Value) :
    (sortWith calls location v callee).Mirrors link visible Equal (sortWith calls location v callee) := by
  have decides := comesBefore_mirrors mirror callee
  exact (mergeSortWithin_mirrors decides _ _).locate.followed fun _ => .same _

/-! ## Variables and loops -/

section Variables

variable {var var' : Variable} {location : Option Location}

theorem bindVariable_mirrors (same : var' = { var with id := var'.id })
    (only : link.Only var.id var'.id) (v : Value) :
    (bindVariable var location v).Mirrors link visible (fun wider _ _ => wider (.variable var.id))
      (bindVariable var' location v) := by
  have change : (Eval.change (·.bind var v)).Mirrors link visible (fun wider _ _ => wider (.variable var.id))
      (Eval.change (·.bind var' v)) := fun wider _ c d agree =>
    .done (Visible.within_add wider var.id) (.inl rfl) (agree.bind only v)
  have checked : checkDeclared var' v = checkDeclared var v := by
    rw [same]
    rfl
  unfold bindVariable
  rw [checked]
  exact (Mirrors.ofExcept _).followed fun _ => change

theorem variableValue_mirrors (linked : link var.id var'.id) (seen : visible (.variable var.id)) :
    (variableValue var location).Mirrors link visible Equal (variableValue var' location) := by
  intro wider within c d agree
  have same : d.lookup? var' = c.lookup? var := agree.bindings _ _ linked (within _ seen)
  simp only [variableValue, Eval.bind_apply, Eval.context, same]
  cases c.lookup? var with
  | some v => exact .done (Visible.within_refl wider) rfl agree
  | none => exact .failed (.error (.undeclared _ _) location) c d

theorem enterLoop_mirrors (same : var' = { var with id := var'.id })
    (only : link.Only var.id var'.id) {body body' : Modes} (result : body.Mirrors link (visible.add var.id) body')
    (item : Item) :
    (enterLoop var location body item).Mirrors link visible (Stream.Mirrors link)
      (enterLoop var' location body' item) := by
  refine Mirrors.checkStop.followed fun _ => ?_
  refine (bindVariable_mirrors same only _).bind fun wider within _ _ seen => ?_
  exact result.stream.grow (within.add seen)

end Variables

/-! ## Operations on parts -/

variable {m n k l : Modes} {ms ns : List Modes} {location : Option Location}

/-- Parts that go the same way, one by one. -/
abbrev MirrorAll (link : Link) (visible : Visible) (ms ns : List Modes) : Prop :=
  List.Forall₂ (Modes.Mirrors link visible) ms ns

theorem rangeValue_mirrors (first : m.Mirrors link visible n) (last : k.Mirrors link visible l) :
    (rangeValue m k location).Mirrors link visible Equal (rangeValue n l location) := by
  refine first.toLong?.followed fun a => ?_
  cases a with
  | none => exact .same _
  | some a =>
      refine last.toLong?.followed fun b => ?_
      cases b with
      | none => exact .same _
      | some b =>
          dsimp only
          split
          · exact .same _
          · exact .raise

theorem onAtoms_mirrors {operation : Atom → Atom → Except AtomError Item} (left : m.Mirrors link visible n)
    (right : k.Mirrors link visible l) :
    (onAtoms m k location operation).Mirrors link visible Equal (onAtoms n l location operation) := by
  refine left.atomItem.followed fun a => ?_
  cases a with
  | none => exact .same _
  | some a =>
      refine right.atomItem.followed fun b => ?_
      cases b with
      | none => exact .same _
      | some b => exact (Mirrors.ofExcept _).map _

theorem choose_mirrors {A B : Type} {R : Visible → A → B → Prop} {yes no : Eval A} {yes' no' : Eval B}
    (test : m.Mirrors link visible n) (positive : yes.Mirrors link visible R yes')
    (negative : no.Mirrors link visible R no') :
    (do if ← m.boolean then yes else no : Eval A).Mirrors link visible R
      (do if ← n.boolean then yes' else no') := by
  refine test.boolean.followed fun held => ?_
  cases held with
  | true => exact positive
  | false => exact negative

theorem MirrorAll.pullAll (parts : MirrorAll link visible ms ns) :
    (pure ⟨none, Stream.pullAll (ms.map (·.stream))⟩ : Eval Stream).Mirrors link visible (Stream.Mirrors link)
      (pure ⟨none, Stream.pullAll (ns.map (·.stream))⟩) := by
  refine .pure fun wider within => ⟨rfl, fun more further c d agree => Stream.pullAll_mirrors ?_ agree⟩
  rw [List.forall₂_map_left_iff, List.forall₂_map_right_iff]
  exact parts.imp fun m n mirrors => mirrors.stream.grow (within.trans further)

theorem listValue_mirrors (parts : MirrorAll link visible ms ns) :
    (listValue ms).Mirrors link visible Equal (listValue ns) := by
  refine (Mirrors.foldList parts (fun b m n mirrors => ?_) _).followed fun _ => .same _
  exact Mirrors.checkStop.followed fun _ => mirrors.value.followed fun v => .ofFaulty _

theorem contextValue_mirrors (description : String) (seen : visible .focus) :
    (contextValue description location).Mirrors link visible Equal (contextValue description location) := by
  intro wider within c d agree
  have same : d.focus = c.focus := agree.focus (within _ seen)
  simp only [contextValue, Eval.bind_apply, Eval.context, same]
  cases c.focus.value with
  | some v => exact .done (Visible.within_refl wider) rfl agree
  | none => exact .failed (.same _) c d

theorem rootValue_mirrors (seen : visible .focus) (around : visible .forest) :
    (rootValue location).Mirrors link visible Equal (rootValue location) := by
  refine (contextValue_mirrors "root" seen).followed fun v => ?_
  intro wider within c d agree
  have same : d.forest = c.forest := agree.forest (within _ around)
  simp only [Eval.bind_apply, Eval.context, same]
  cases distinctRoots c.forest v with
  | ok roots => exact .done (Visible.within_refl wider) rfl agree
  | error item => exact .failed (.same _) c d

/-- Wherever a predicate is tested, the focus has been set in both contexts. -/
theorem selectWhere_mirrors (v : Value) (predicate : m.Mirrors link visible.focused n) :
    (selectWhere v m).Mirrors link visible Equal (selectWhere v n) := by
  have set : ∀ focus : Focus, Mirrors link visible (fun wider _ _ => wider .focus)
      (Eval.change fun c => { c with focus }) (Eval.change fun c => { c with focus }) :=
    fun focus wider _ c d agree =>
      .done (Visible.within_focused wider) (.inl rfl) (agree.withFocus focus)
  refine (Mirrors.foldValue (fun state item => ?_) _ v).followed fun _ => .same _
  refine Mirrors.checkStop.followed fun _ => (set _).bind fun wider within _ _ seen => ?_
  have focused : visible.focused.Within wider := by
    rintro reference (rfl | old)
    · exact seen
    · exact within reference old
  exact ((predicate.grow focused).test seen).followed fun _ => .same _

theorem passAll_mirrors (positions : List (Option BinaryFloat))
    (conditions : MirrorAll link visible.focused ms ns) (v : Value) :
    (passAll (positions.zip ms) v).Mirrors link visible Equal (passAll (positions.zip ns) v) := by
  refine .foldList (R := fun p q => q.1 = p.1 ∧ p.2.Mirrors link visible.focused q.2) ?_ ?_ v
  · induction conditions generalizing positions with
    | nil => simp
    | cons first _ rest_ih =>
        cases positions with
        | nil => exact .nil
        | cons position positions => exact .cons ⟨rfl, first⟩ (rest_ih positions)
  · rintro v ⟨position, m⟩ ⟨position', n⟩ ⟨same, mirrors⟩
    obtain rfl := same
    cases position' with
    | none => exact selectWhere_mirrors v mirrors
    | some p => exact .ofFaulty _

theorem filterValue_mirrors (base : m.Mirrors link visible n) {positions : List (Option BinaryFloat)}
    (conditions : MirrorAll link visible.focused ms ns) :
    (filterValue m (positions.zip ms)).Mirrors link visible Equal (filterValue n (positions.zip ns)) := by
  refine base.value.followed fun v wider within c d agree => ?_
  have passed := passAll_mirrors positions conditions v wider within c d agree
  change Mirrored link wider Equal
    ((passAll (positions.zip ms) v c).1, { (passAll (positions.zip ms) v c).2 with focus := c.focus })
    ((passAll (positions.zip ns) v d).1, { (passAll (positions.zip ns) v d).2 with focus := d.focus })
  generalize passAll (positions.zip ms) v c = result at passed
  generalize passAll (positions.zip ns) v d = result' at passed
  cases passed with
  | failed alike => exact .failed alike _ _
  | done further same kept =>
      exact .done (Visible.within_refl wider) same (kept.restore agree.focus further)

theorem deleteAll_mirrors (target : m.Mirrors link visible n) :
    (deleteAll m location).Mirrors link visible Equal (deleteAll n location) := by
  refine target.stream.bind fun wider _ s t related => ?_
  refine (related.fold (fun _ item => ?_) ()).followed fun _ => .same _
  refine Mirrors.checkStop.followed fun _ => ?_
  split
  · exact .change fun _ _ c d agree => ⟨agree.focus, agree.forest, agree.bindings, agree.stop⟩
  · exact .raise

/-! ## Calls of built-in functions -/

theorem countOf_mirrors {x y : Eval Stream} (size? : Option Nat)
    (stream : x.Mirrors link visible (Stream.Mirrors link) y) :
    (countOf size? x).Mirrors link visible Equal (countOf size? y) := by
  cases size? with
  | some n => exact .ofExcept _
  | none =>
      refine stream.bind fun _ _ s t related => ?_
      rw [related.left]
      cases s.left with
      | some n => exact .ofExcept _
      | none =>
          refine (related.fold (fun n _ => ?_) 0).followed fun _ => .same _
          exact Mirrors.checkStop.followed fun _ => .same _

theorem total_mirrors (v : Value) : (total v).Mirrors link visible Equal (total v) :=
  .foldValue (fun _ _ => Mirrors.checkStop.followed fun _ => .ofExcept _) _ v

theorem sumOrAlternative_mirrors (alternative alternative' : Option (Eval (Option Item)))
    (sum : Option Atom) : Option.Rel (Mirrors link visible Equal) alternative alternative' →
    Mirrors link visible Equal
      (match sum, alternative with
        | some a, _ => pure (some (.atom a))
        | none, some other => other
        | none, none => pure (some (.integer 0)))
      (match sum, alternative' with
        | some a, _ => pure (some (.atom a))
        | none, some other => other
        | none, none => pure (some (.integer 0))) := by
  intro others
  cases sum with
  | some a => cases others <;> exact .same _
  | none =>
      cases others with
      | none => exact .same _
      | some other => exact other

theorem sumOf_mirrors {x y : Eval Value} {alternative alternative' : Option (Eval (Option Item))}
    (value : x.Mirrors link visible Equal y)
    (others : Option.Rel (Mirrors link visible Equal) alternative alternative') :
    (sumOf location x alternative).Mirrors link visible Equal (sumOf location y alternative') := by
  have given := fun sum => sumOrAlternative_mirrors alternative alternative' sum others
  refine value.followed fun v => ?_
  dsimp only
  split
  · exact ((Mirrors.ofExcept _).map _).followed given
  · exact (total_mirrors v).locate.followed fun sum => (Mirrors.same _).followed given

theorem averageOf_mirrors {x y : Eval Value} (value : x.Mirrors link visible Equal y) :
    (averageOf location x).Mirrors link visible Equal (averageOf location y) := by
  refine value.followed fun v => ?_
  dsimp only
  split
  case' h_1 => refine (Mirrors.ofExcept _).followed fun sum => (Mirrors.same _).followed fun sum => ?_
  case' h_2 => refine (total_mirrors v).locate.followed fun sum => (Mirrors.same _).followed fun sum => ?_
  all_goals
    cases sum with
    | none => exact .same _
    | some pair =>
        dsimp only
        split
        · exact .raise
        · exact (Mirrors.ofExcept _).followed fun _ => .same _

theorem argument_mirrors (parts : MirrorAll link visible ms ns) (i : Nat) :
    Option.Rel (Modes.Mirrors link visible) ms[i]? ns[i]? := by
  induction parts generalizing i with
  | nil => exact .none
  | cons first _ rest_ih =>
      cases i with
      | zero => exact .some first
      | succ i => exact rest_ih i

theorem MirrorAll.getD (parts : MirrorAll link visible ms ns) (i : Nat) :
    (ms.getD i (.ofLiteral .empty)).Mirrors link visible (ns.getD i (.ofLiteral .empty)) := by
  have related := argument_mirrors parts i
  rw [List.getD_eq_getElem?_getD, List.getD_eq_getElem?_getD]
  generalize ms[i]? = left at related ⊢
  generalize ns[i]? = right at related ⊢
  cases related with
  | none => exact Modes.ofLiteral_mirrors _
  | some related => exact related

theorem raisedItems_mirrors (parts : MirrorAll link visible ms ns) (code : Option ExpandedName)
    (message : String) : Mirrors link visible Equal
    (do
      let items ← match ms[2]? with
        | none => pure []
        | some m => ValueOf.items <$> m.value
      pure (⟨.raised (code.getD ErrorCode.FOER0000.expandedName) message items, location⟩ : Error))
    (do
      let items ← match ns[2]? with
        | none => pure []
        | some m => ValueOf.items <$> m.value
      pure (⟨.raised (code.getD ErrorCode.FOER0000.expandedName) message items, location⟩ : Error)) := by
  have related := argument_mirrors parts 2
  generalize ms[2]? = left at related ⊢
  generalize ns[2]? = right at related ⊢
  cases related with
  | none => exact (Mirrors.same _).followed fun _ => .same _
  | some related => exact (related.value.map _).followed fun _ => .same _

theorem raisedMessage_mirrors (parts : MirrorAll link visible ms ns) (code : Option ExpandedName) :
    Mirrors link visible Equal
    (do
      let message ← match ms[1]? with
        | none => pure "Halted on error()."
        | some m => m.toText
      let items ← match ms[2]? with
        | none => pure []
        | some m => ValueOf.items <$> m.value
      pure (⟨.raised (code.getD ErrorCode.FOER0000.expandedName) message items, location⟩ : Error))
    (do
      let message ← match ns[1]? with
        | none => pure "Halted on error()."
        | some m => m.toText
      let items ← match ns[2]? with
        | none => pure []
        | some m => ValueOf.items <$> m.value
      pure (⟨.raised (code.getD ErrorCode.FOER0000.expandedName) message items, location⟩ : Error)) := by
  have related := argument_mirrors parts 1
  generalize ms[1]? = left at related ⊢
  generalize ns[1]? = right at related ⊢
  cases related with
  | none => exact (Mirrors.same _).followed (raisedItems_mirrors parts code)
  | some related => exact related.toText.followed (raisedItems_mirrors parts code)

theorem raisedError_mirrors (parts : MirrorAll link visible ms ns) :
    (raisedError location ms).Mirrors link visible Equal (raisedError location ns) := by
  unfold raisedError
  have related := argument_mirrors parts 0
  generalize ms[0]? = left at related ⊢
  generalize ns[0]? = right at related ⊢
  cases related with
  | none => exact (Mirrors.same _).followed (raisedMessage_mirrors parts)
  | some related =>
      refine related.atomItem.followed fun a => ?_
      split
      · exact (Mirrors.same _).followed (raisedMessage_mirrors parts)
      · exact (Mirrors.same _).followed (raisedMessage_mirrors parts)
      · exact Mirrors.raise.followed (raisedMessage_mirrors parts)

end QueryKernel
