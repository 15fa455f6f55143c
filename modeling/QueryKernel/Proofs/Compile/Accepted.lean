import QueryKernel.Proofs.Compile.Everywhere
import QueryKernel.Proofs.Compile.Undisturbed
import QueryKernel.Proofs.Eval.Focus
import QueryKernel.Proofs.Expr.Empty

/-!
# Accepted queries

Which queries are accepted whatever the limits of compilation are: those that keep updates apart from everything
else.  An update is found in an operand of a list, in a branch of a conditional or in the body of a binding or loop, and
what is beside it there is an update as well or gives nothing.

Some branches and loops are computed in advance and others are not, as the limits have it.  What becomes of such a
part either still says that it updates or has a type of nothing, and this is all that the check of lists and
conditionals asks for.  Errors behave in another way: a call of `error()` counts as nothing where it stands, but not in
the body of a binding, and loops turn into bindings when they are unrolled.
-/

namespace QueryKernel

variable {calls : Calls} {c : Context}

/-! ## Trees that keep updates apart -/

/-- There are no items, and their number is known. -/
def StaticType.Nothing (t : StaticType) : Prop := t.sequenceType.occurrence = .zero ∧ t.size? = some 0

namespace Expr

/-- Nothing in the expression is an update. -/
abbrev Quiet (e : Expr) : Prop := e.Every (Bears .any False)

/-- Deletions and empty sequences, put together by lists, conditionals, bindings and loops. -/
inductive Updates : Expr → Prop where
  | empty : Updates emptySequence
  | delete {target : Expr} {location : Option Location} (input : target.Quiet) : Updates (.delete target location)
  | list {operands : List Expr} {type : StaticType} {location : Option Location}
      (parts : ∀ e ∈ operands, Updates e) : Updates (.list operands type location)
  | conditional {test yes no : Expr} {type : StaticType} {location : Option Location} (condition : test.Quiet)
      (positive : Updates yes) (negative : Updates no) : Updates (.conditional test yes no type location)
  | letIn {var : Variable} {bound body : Expr} {location : Option Location} (value : bound.Quiet)
      (result : Updates body) : Updates (.letIn var bound body location)
  | forIn {var : Variable} {source body : Expr} {type : StaticType} {location : Option Location}
      (input : source.Quiet) (result : Updates body) : Updates (.forIn var source body type location)

/-- A call that raises an error. -/
inductive Throws : Expr → Prop where
  | call {arguments : List Expr} {type : StaticType} {location : Option Location}
      (parts : ∀ e ∈ arguments, e.Quiet) : Throws (.call .error arguments type location)

/-- Updates are kept apart: there are none, or there is nothing else but errors beside them. -/
inductive Apart : Expr → Prop where
  | quiet {e : Expr} (none : e.Quiet) : Apart e
  | updates {e : Expr} (each : e.Updates) : Apart e
  | list {operands : List Expr} {type : StaticType} {location : Option Location}
      (parts : ∀ e ∈ operands, e.Updates ∨ e.Throws) : Apart (.list operands type location)
  | conditional {test yes no : Expr} {type : StaticType} {location : Option Location} (condition : test.Quiet)
      (positive : yes.Updates ∨ yes.Throws) (negative : no.Updates ∨ no.Throws) :
      Apart (.conditional test yes no type location)
  | letIn {var : Variable} {bound body : Expr} {location : Option Location} (value : bound.Quiet)
      (result : Apart body) : Apart (.letIn var bound body location)

/-- A compiled expression of the kind says that it updates, or has a type of nothing. -/
structure Settled (e : Expr) : Prop where
  updates : e.Updates
  settled : e.hasUpdates = true ∨ e.staticType.Nothing

variable {e e' : Expr} {ref bind : Nat → Nat → Prop}

theorem alike_updates (alike : Alike ref bind e e') (updates : e.Updates) : e'.Updates := by
  induction updates generalizing e' with
  | empty =>
      cases alike
      exact .empty
  | delete input =>
      cases alike with
      | delete alike => exact .delete (alike_bears alike input)
  | list _ parts_ih =>
      cases alike with
      | list length parts =>
          refine .list fun e member => ?_
          obtain ⟨before, among, paired⟩ := mem_zip_of_mem_right length member
          exact parts_ih before among (parts _ paired)
  | conditional condition _ _ positive_ih negative_ih =>
      cases alike with
      | conditional test yes no => exact .conditional (alike_bears test condition) (positive_ih yes) (negative_ih no)
  | letIn value _ result_ih =>
      cases alike with
      | letIn same binds bound body => exact .letIn (alike_bears bound value) (result_ih body)
  | forIn input _ result_ih =>
      cases alike with
      | forIn same binds source body => exact .forIn (alike_bears source input) (result_ih body)

/-! ## What becomes of them -/

theorem Updates.narrow (updates : e.Updates) (known : SequenceType) : (e.narrow known).Updates := by
  cases updates with
  | empty => exact .empty
  | delete input =>
      simp only [Expr.narrow]
      split <;> exact .delete input
  | list parts =>
      simp only [Expr.narrow]
      split <;> exact .list parts
  | conditional condition positive negative =>
      simp only [Expr.narrow]
      split <;> exact .conditional condition positive negative
  | letIn value result =>
      simp only [Expr.narrow]
      split <;> exact .letIn value result
  | forIn input result =>
      simp only [Expr.narrow]
      split <;> exact .forIn input result

theorem hasUpdates_narrow (e : Expr) (known : SequenceType) : (e.narrow known).hasUpdates = e.hasUpdates := by
  cases e with
  | literal v => rfl
  | _ =>
      simp only [Expr.narrow]
      split <;> rfl

theorem nothing_assign {t : StaticType} (nothing : t.Nothing) (narrower : SequenceType) :
    (t.assign narrower).Nothing := by
  have made := t.assign_assigned narrower
  generalize t.assign narrower = t' at made ⊢
  cases made with
  | empty => exact ⟨rfl, rfl⟩
  | ignored => exact nothing
  | sized size occupied => exact absurd (Option.some.inj (size.symm.trans nothing.2)) occupied
  | adopted unknown => cases unknown.symm.trans nothing.2

theorem nothing_narrow (nothing : e.staticType.Nothing) (known : SequenceType) :
    (e.narrow known).staticType.Nothing := by
  cases literal : e.isLiteral with
  | true =>
      cases e with
      | literal v =>
          have none : v.size = 0 := Option.some.inj nothing.2
          have same : (v.narrow known).size = 0 := (ValueOf.size_narrow v known).trans none
          show (StaticType.sized _ (v.narrow known).size).Nothing
          rw [same]
          exact ⟨rfl, rfl⟩
      | _ => cases literal
  | false =>
      obtain same | ⟨narrower, -, assigned⟩ := narrow_cases known literal
      · rwa [same]
      · rw [assigned]
        cases e <;> first | exact nothing | exact nothing_assign nothing narrower

theorem Settled.narrow (settled : e.Settled) (known : SequenceType) : (e.narrow known).Settled :=
  ⟨settled.updates.narrow known, settled.settled.imp (hasUpdates_narrow e known).trans fun nothing =>
    nothing_narrow nothing known⟩

theorem Settled.copy (settled : e.Settled) (s : Copying) : (e.copy s).1.Settled := by
  refine ⟨alike_updates (e.alike_copy s) settled.updates, ?_⟩
  rw [alike_hasUpdates (e.alike_copy s), copy_staticType]
  exact settled.settled

theorem settled_empty : emptySequence.Settled := ⟨.empty, .inr ⟨rfl, rfl⟩⟩

/-- What counts for the check of lists and conditionals is an update. -/
theorem Settled.hasUpdates (settled : e.Settled) (counts : e.isVacuous = false) : e.hasUpdates = true := by
  have decided : (decide (e.size? = some 0) && !e.hasUpdates) = false := by
    cases settled.updates <;> exact counts
  obtain updates | ⟨-, size⟩ := settled.settled
  · exact updates
  · simpa [show e.size? = some 0 from size] using decided

theorem nothing_sized {type : ItemType} : (StaticType.sized type 0).Nothing := ⟨rfl, rfl⟩

theorem nothing_concatType {es : List Expr} (each : ∀ e ∈ es, e.staticType.Nothing) : (concatType es).Nothing := by
  have size : es.foldl (fun n e => do knownSize ((← n) + (← e.size?))) (some 0) = some 0 := by
    induction es with
    | nil => rfl
    | cons e rest rest_ih =>
        have none : e.size? = some 0 := (each e List.mem_cons_self).2
        rw [List.foldl_cons, none]
        exact rest_ih fun s member => each s (List.mem_cons_of_mem _ member)
  unfold concatType
  simp only [size]
  exact nothing_sized

theorem nothing_branchType {yes no : Expr} (positive : yes.staticType.Nothing) (negative : no.staticType.Nothing) :
    (branchType yes no).Nothing := by
  have first : yes.size? = some 0 := positive.2
  have second : no.size? = some 0 := negative.2
  simp only [branchType, first, second, if_true]
  exact nothing_sized

theorem nothing_loopType {source body : Expr} (result : body.staticType.Nothing) : (loopType source body).Nothing := by
  have none : source.sequenceType.occurrence.mul body.sequenceType.occurrence = .zero := by
    rw [show body.sequenceType.occurrence = .zero from result.1]
    cases source.sequenceType.occurrence <;> rfl
  unfold loopType
  rw [none]
  exact ⟨rfl, rfl⟩

theorem settled_listOf {es : List Expr} (each : ∀ e ∈ es, e.Settled) (location : Option Location) :
    (listOf es location).Settled := by
  refine ⟨.list fun e member => (each e member).updates, ?_⟩
  by_cases some : anyUpdates es = true
  · exact .inl some
  · have quiet := anyUpdates_eq_false_iff.1 (Bool.eq_false_iff.2 some)
    refine .inr (nothing_concatType fun e member => (each e member).settled.resolve_left fun updates => ?_)
    rw [quiet e member] at updates
    cases updates

theorem settled_conditionalOf {test yes no : Expr} (condition : test.Quiet) (positive : yes.Settled)
    (negative : no.Settled) (location : Option Location) : (conditionalOf test yes no location).Settled := by
  refine ⟨.conditional condition positive.updates negative.updates, ?_⟩
  rcases positive.settled with updates | nothing
  · exact .inl (Bool.or_eq_true_iff.2 (.inl updates))
  · rcases negative.settled with updates | nothing'
    · exact .inl (Bool.or_eq_true_iff.2 (.inr updates))
    · exact .inr (nothing_branchType nothing nothing')

theorem settled_letIn {var : Variable} {bound body : Expr} (value : bound.Quiet) (result : body.Settled)
    (location : Option Location) : (letIn var bound body location).Settled :=
  ⟨.letIn value result.updates, result.settled.imp_left fun updates => Bool.or_eq_true_iff.2 (.inr updates)⟩

theorem settled_forOf {var : Variable} {source body : Expr} (input : source.Quiet) (result : body.Settled)
    (location : Option Location) : (forOf var source body location).Settled :=
  ⟨.forIn input result.updates, result.settled.imp (fun updates => Bool.or_eq_true_iff.2 (.inr updates))
    nothing_loopType⟩

end Expr

/-! ## Compilation -/

namespace Compile

open QueryKernel.Expr

/-- Function items that leave the focus alone break no rule. -/
theorem quiet_rules (keep : calls.KeepFocus) : CompileRules calls (fun _ => True) (fun _ => True) .any where
  lawful := Kind.any_lawful
  atom := fun _ => trivial
  node := fun _ => trivial
  setFocus := fun _ _ _ => trivial
  focused := fun _ _ _ _ => trivial
  nextVariable := fun _ _ _ => trivial
  nextIdentity := fun _ _ _ => trivial
  forest := fun _ _ _ => trivial
  trace := fun _ _ _ => trivial
  emptyMap := fun _ _ => trivial
  emptyArray := fun _ _ => trivial
  narrow := fun _ _ _ => trivial
  unfocused := trivial
  pushed := fun _ _ => trivial
  refocused := fun _ _ _ _ _ _ => trivial
  pairs := fun _ focus _ _ a b _ _ => invoke_always trivial (fun f _ _ => keep.keep f [a, b] focus)
    (fun _ _ _ _ _ _ => trivial) fun _ _ _ _ _ _ => trivial

/-- No step is refused, and the results satisfy a condition. -/
abbrev Accepts {A : Type} (focus : Focus) (P : A → Prop) (x : Compile A) : Prop :=
  x.Always (Steady (fun _ => True) .any focus) (Refused False) P

variable {focus : Focus} {e : Expr} {es : List Expr} {again : Expr → Compile Expr} {before : ExprSummary}
  {location : Option Location}

theorem requireUniformUpdates_accepts {description : String}
    (each : ∀ e ∈ es, e.isVacuous = false → e.hasUpdates = true) :
    (requireUniformUpdates description es).Accepts focus fun _ => True := by
  unfold requireUniformUpdates
  split
  · exact .pure trivial
  · next first rest counted =>
      have updating : ∀ e ∈ first :: rest, e.hasUpdates = true := by
        intro e member
        rw [← counted] at member
        obtain ⟨among, counts⟩ := List.mem_filter.1 member
        exact each e among (by simpa using counts)
      split
      · next e found =>
          have differ : e.hasUpdates ≠ first.hasUpdates := by simpa using List.find?_some found
          rw [updating e (List.mem_cons_of_mem _ (List.mem_of_find?_eq_some found)),
            updating first List.mem_cons_self] at differ
          exact absurd rfl differ
      · exact .pure trivial

/-- An update or an error is a literal only if it is the empty sequence. -/
theorem isLiteral_of_operand (operand : e.Settled ∨ e.Throws) (filled : e.isEmptyLiteral = false) :
    e.isLiteral = false := by
  obtain ⟨updates, -⟩ | throws := operand
  · cases updates with
    | empty => cases filled
    | _ => rfl
  · cases throws
    rfl

theorem hasUpdates_of_operand (operand : e.Settled ∨ e.Throws) (counts : e.isVacuous = false) :
    e.hasUpdates = true := by
  obtain settled | throws := operand
  · exact settled.hasUpdates counts
  · cases throws
    cases counts

section Steps

variable (keep : calls.KeepFocus)

include keep

theorem replace_accepts {P : Expr → Prop} (holds : P (e.narrow before.sequenceType)) :
    (replace before e).Accepts focus P :=
  (noteReplacement_always (quiet_rules keep)).bind fun _ _ => .pure holds

theorem reduceList_accepts (each : ∀ e ∈ es, e.Settled ∨ e.Throws) :
    (reduceList calls before es location).Accepts focus fun e => (∀ e ∈ es, e.Settled) → e.Settled := by
  have kept : ∀ e ∈ es.filter (!·.isEmptyLiteral), e ∈ es ∧ e.isLiteral = false := by
    intro e member
    obtain ⟨among, filled⟩ := List.mem_filter.1 member
    exact ⟨among, isLiteral_of_operand (each e among) (by simpa using filled)⟩
  refine (requireUniformUpdates_accepts fun e member =>
    hasUpdates_of_operand (each e (kept e member).1)).bind fun _ _ => ?_
  split
  · exact replace_accepts keep fun _ => settled_empty.narrow _
  · next operand alone =>
      have inside : operand ∈ es := (kept operand (by rw [alone]; exact List.mem_cons_self)).1
      exact replace_accepts keep fun all => (all operand inside).narrow _
  · next some _ =>
      refine Always.options.bind fun most _ => ?_
      dsimp only
      split
      · next constant =>
          -- There are operands, but none of them is a literal.
          obtain ⟨first, rest, filled⟩ := List.exists_cons_of_ne_nil some
          have member : first ∈ es.filter (!·.isEmptyLiteral) := by rw [filled]; exact List.mem_cons_self
          rw [Bool.and_eq_true, List.all_eq_true] at constant
          cases (constant.1 first member).symm.trans (kept first member).2
      · exact .pure fun all => settled_listOf (fun e member => all e (kept e member).1) location

theorem reduceConditional_accepts {test yes no : Expr} (condition : test.Quiet) (positive : yes.Settled ∨ yes.Throws)
    (negative : no.Settled ∨ no.Throws) :
    (reduceConditional test yes no location).Accepts focus fun e => yes.Settled → no.Settled → e.Settled := by
  refine (requireUniformUpdates_accepts (forall_pair (hasUpdates_of_operand positive)
    (hasUpdates_of_operand negative))).bind fun _ _ => ?_
  dsimp only
  split
  · exact .pure fun first second => settled_conditionalOf condition first second location
  · next v _ =>
      have decided : (attempt (Modes.ofLiteral v).boolean).Accepts focus fun result => ∀ b, result = .ok b → True :=
        .attempt (R := fun _ => At _ focus)
          (fun _ _ => (Modes.Always.ofLiteral Kind.any_lawful trivial).boolean)
          (fun _ steady => steady.context) fun _ _ steady kept => ⟨kept, steady.recorded⟩
      refine decided.bind fun result _ => ?_
      cases result with
      | ok b =>
          refine replace_accepts keep fun first second => ?_
          cases b with
          | true => exact first.narrow _
          | false => exact second.narrow _
      | error e => exact .pure fun first second => settled_conditionalOf condition first second location

theorem reduceLet_accepts {var : Variable} {bound body : Expr} (value : bound.Quiet) :
    (reduceLet before var bound body location).Accepts focus fun e => body.Settled → e.Settled := by
  unfold reduceLet
  split
  · exact replace_accepts keep fun result => result.narrow _
  · exact .pure fun result => settled_letIn value result location

theorem unrolledLoop_accepts {var : Variable} {body : Expr} {items : List Item} (result : body.Settled) :
    (unrolledLoop var body location items).Accepts focus fun bindings => ∀ e ∈ bindings, e.Settled := by
  induction items with
  | nil => exact .pure fun _ member => by cases member
  | cons item rest rest_ih =>
      refine (copyVariable_always (quiet_rules keep)).bind fun copied _ => ?_
      have body' : (copy body copied.2).Accepts focus fun copied => copied.1.Settled :=
        copying_always (quiet_rules keep) fun s => result.copy s
      refine body'.bind fun body' settled => rest_ih.bind fun others all => .pure ?_
      exact List.forall_mem_cons.2 ⟨settled_letIn (literal_bears trivial) settled location, all⟩

/-- What is asked of the way to simplify what is unrolled. -/
def AgainUpdates (again : Expr → Compile Expr) : Prop :=
  ∀ focus e, e.Settled → (again e).Accepts focus Settled

theorem reduceFor_accepts (unrolls : AgainUpdates again) {var : Variable} {source body : Expr} (input : source.Quiet)
    (result : body.Settled) : (reduceFor again before var source body location).Accepts focus Settled := by
  refine Always.options.bind fun most _ => ?_
  dsimp only
  split
  · exact .pure (settled_forOf input result location)
  · next v _ =>
      refine (unrolledLoop_accepts keep result).bind fun bindings each => ?_
      exact (unrolls focus _ (settled_listOf each none)).bind fun e settled => replace_accepts keep (settled.narrow _)

end Steps

end Compile

namespace Expr

open Compile

variable {again : Expr → Compile Expr} {focus : Focus} {e : Expr} {es : List Expr}

theorem optimizeAllWith_accepts {P : Expr → Prop}
    (parts : ∀ e ∈ es, (optimizeWith calls again e).Accepts focus P) :
    (optimizeAllWith calls again es).Accepts focus fun es => ∀ e ∈ es, P e := by
  induction es with
  | nil => exact .pure fun _ member => by cases member
  | cons e rest rest_ih =>
      refine (parts e List.mem_cons_self).bind fun e' here => ?_
      exact (rest_ih fun other member => parts other (List.mem_cons_of_mem _ member)).bind
        fun others holds => .pure (List.forall_mem_cons.2 ⟨here, holds⟩)

section Trees

variable (keep : calls.KeepFocus)
  (simplifies : AgainAlways (fun _ => True) (fun _ => True) .any False again)

include keep simplifies

theorem optimizeWith_quiet (quiet : e.Quiet) : (optimizeWith calls again e).Accepts focus Quiet :=
  optimizeWith_always (quiet_rules keep) simplifies quiet trivial

theorem optimizeWith_updates (unrolls : AgainUpdates again) (updates : e.Updates) :
    (optimizeWith calls again e).Accepts focus Settled := by
  induction updates with
  | empty => exact .pure settled_empty
  | delete input =>
      refine (optimizeWith_quiet keep simplifies input).bind fun target quiet => ?_
      exact (requireNoUpdates_always quiet).bind fun _ _ => .pure ⟨.delete quiet, .inl rfl⟩
  | list _ parts_ih =>
      refine (optimizeAllWith_accepts parts_ih).bind fun es settled => ?_
      exact (reduceList_accepts keep fun e member => .inl (settled e member)).mono fun e whole => whole settled
  | conditional condition _ _ positive_ih negative_ih =>
      refine (optimizeWith_quiet keep simplifies condition).bind fun test quiet => ?_
      refine (requireNoUpdates_always quiet).bind fun _ _ => ?_
      refine positive_ih.bind fun yes first => negative_ih.bind fun no second => ?_
      exact (reduceConditional_accepts keep quiet (.inl first) (.inl second)).mono fun e whole => whole first second
  | letIn value _ result_ih =>
      refine (optimizeWith_quiet keep simplifies value).bind fun bound quiet => ?_
      refine (requireNoUpdates_always quiet).bind fun _ _ => ?_
      refine (inScope_always result_ih (scopeOfLet_recorded quiet)).bind fun body result => ?_
      exact (reduceLet_accepts keep quiet).mono fun e whole => whole result
  | forIn input _ result_ih =>
      refine (optimizeWith_quiet keep simplifies input).bind fun source quiet => ?_
      refine (requireNoUpdates_always quiet).bind fun _ _ => ?_
      split
      · exact replace_accepts keep (settled_empty.narrow _)
      · refine (inScope_always result_ih scopeOfFor_recorded).bind fun body result => ?_
        exact reduceFor_accepts keep unrolls quiet result

theorem optimizeWith_throws (throws : e.Throws) : (optimizeWith calls again e).Accepts focus Throws := by
  obtain @⟨arguments, type, location, parts⟩ := throws
  refine (optimizeAllWith_accepts fun e member => optimizeWith_quiet keep simplifies (parts e member)).bind
    fun arguments quiet => ?_
  refine (requireNoneUpdates_always quiet).bind fun _ _ => Always.options.bind fun most _ => ?_
  exact .pure (.call quiet)

theorem optimizeWith_apart (unrolls : AgainUpdates again) (apart : e.Apart) :
    (optimizeWith calls again e).Accepts focus fun _ => True := by
  have operand : ∀ {e : Expr}, e.Updates ∨ e.Throws →
      (optimizeWith calls again e).Accepts focus fun e => e.Settled ∨ e.Throws := fun given => given.elim
    (fun updates => (optimizeWith_updates keep simplifies unrolls updates).mono fun _ => .inl)
    fun throws => (optimizeWith_throws keep simplifies throws).mono fun _ => .inr
  induction apart with
  | quiet none => exact (optimizeWith_quiet keep simplifies none).mono fun _ _ => trivial
  | updates each => exact (optimizeWith_updates keep simplifies unrolls each).mono fun _ _ => trivial
  | list parts =>
      refine (optimizeAllWith_accepts fun e member => operand (parts e member)).bind fun es each => ?_
      exact (reduceList_accepts keep each).mono fun _ _ => trivial
  | conditional condition positive negative =>
      refine (optimizeWith_quiet keep simplifies condition).bind fun test quiet => ?_
      refine (requireNoUpdates_always quiet).bind fun _ _ => ?_
      refine (operand positive).bind fun yes first => (operand negative).bind fun no second => ?_
      exact (reduceConditional_accepts keep quiet first second).mono fun _ _ => trivial
  | letIn value _ result_ih =>
      refine (optimizeWith_quiet keep simplifies value).bind fun bound quiet => ?_
      refine (requireNoUpdates_always quiet).bind fun _ _ => ?_
      refine (inScope_always result_ih (scopeOfLet_recorded quiet)).bind fun body _ => ?_
      exact (reduceLet_accepts keep quiet).mono fun _ _ => trivial

end Trees

variable (keep : calls.KeepFocus)

include keep

theorem optimizeWithin_updates (depth : Nat) : AgainUpdates (optimizeWithin calls depth) := by
  induction depth with
  | zero =>
      exact fun focus e settled => optimizeWith_updates keep (fun _ _ _ given => .pure given)
        (fun _ _ given => .pure given) settled.updates
  | succ depth depth_ih =>
      exact fun focus e settled => optimizeWith_updates keep (optimizeWithin_always (quiet_rules keep) depth) depth_ih
        settled.updates

theorem optimizeWithin_apart (depth : Nat) (apart : e.Apart) :
    (optimizeWithin calls depth e).Accepts focus fun _ => True := by
  cases depth with
  | zero => exact optimizeWith_apart keep (fun _ _ _ given => .pure given) (fun _ _ given => .pure given) apart
  | succ depth =>
      exact optimizeWith_apart keep (optimizeWithin_always (quiet_rules keep) depth) (optimizeWithin_updates keep depth)
        apart

omit keep

/-! ## Queries -/

/-- Compilation ends with an error. -/
def RefusedIn (calls : Calls) (c : Context) (e : Expr) : Prop :=
  ∃ error, (e.compileBy calls c).1 = .error (.error error)

instance (calls : Calls) (c : Context) (e : Expr) : Decidable (e.RefusedIn calls c) :=
  match compiled : (e.compileBy calls c).1 with
  | .ok _ => isFalse fun ⟨_, refused⟩ => by simp [compiled] at refused
  | .error (.error error) => isTrue ⟨error, compiled⟩
  | .error (.fault _) => isFalse fun ⟨_, refused⟩ => by simp [compiled] at refused
  | .error .callsTooDeep => isFalse fun ⟨_, refused⟩ => by simp [compiled] at refused

end Expr

open QueryKernel.Expr

/-- A query that keeps its updates apart is refused nowhere, whatever the limits of compilation are. -/
theorem not_refused_if_apart (keep : calls.KeepFocus) {e : Expr} (apart : e.Apart) (c : Context) (options : Options) :
    ¬e.RefusedIn calls { c with options } := by
  rintro ⟨error, failed⟩
  have start : Steady (fun _ => True) .any c.focus (.start { c with options }) :=
    ⟨⟨rfl, trivial⟩, fun _ _ _ _ _ _ => trivial⟩
  have accepted : (e.optimizeBy calls).Accepts c.focus fun _ => True := optimizeWithin_apart keep _ apart
  exact ((accepted _ start).2.2 error failed).1

/-- `for $x in (1, 2) return if ($x eq 1) then delete nodes () else …` -/
def deleteFirstOr (other : Expr) : Expr :=
  let x : Variable := ⟨0, "x", none⟩
  .forOf x (.literal (.ofItems [.integer 1, .integer 2]))
    (.conditionalOf (.comparisonOf .eq (.varRefOf x none) (.literal (.one (.integer 1))) none)
      (.delete .emptySequence none) other none) none

/-- With nothing beside the deletion it makes no difference whether the loop is unrolled. -/
theorem deleteFirst_not_refused :
    ¬(deleteFirstOr .emptySequence).RefusedIn (callsWithin callDepth) (.initial { unrollLimit := 0 }) ∧
      ¬(deleteFirstOr .emptySequence).RefusedIn (callsWithin callDepth) (.initial {}) := by
  have leaf : ∀ {e : Expr}, e.parts = [] → Bears .any False e → e.Quiet := fun none here =>
    .node here fun s member => by rw [none] at member; cases member
  have apart : (deleteFirstOr .emptySequence).Apart := .updates <| .forIn (leaf rfl trivial) <|
    .conditional (.node trivial (forall_pair (leaf rfl trivial) (leaf rfl trivial))) (.delete (leaf rfl trivial)) .empty
  exact ⟨not_refused_if_apart (callsWithin_keepFocus _) apart (.initial {}) _,
    not_refused_if_apart (callsWithin_keepFocus _) apart (.initial {}) {}⟩

/-- With an error beside it the limits matter: unrolled, the loop becomes two bindings of which one updates and the
other one is just an error, which is not seen through the binding. -/
theorem deleteOrFail_refused_if_unrolled :
    let deleteOrFail := deleteFirstOr (.call .error [] (BuiltIn.error.resultType []) none)
    ¬deleteOrFail.RefusedIn (callsWithin callDepth) (.initial { unrollLimit := 0 }) ∧
      deleteOrFail.RefusedIn (callsWithin callDepth) (.initial {}) := by
  decide +kernel

end QueryKernel
