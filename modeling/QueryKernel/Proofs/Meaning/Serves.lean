import QueryKernel.Proofs.Compile.Literals
import QueryKernel.Proofs.Expr.Empty
import QueryKernel.Proofs.Meaning.Constructors

/-!
# Expressions in place of others

An expression may stand in place of another if it fits its types and has no other outcomes.  It may then
also get the narrower type that is known of the other.

Errors may be left for evaluation: how many items count as its result depends on its type, so that a narrower
type must not change that number.
-/

namespace QueryKernel

/-! ## Narrower types -/

/-- A narrower type allows what is allowed by both, that which was known and that which was found. -/
theorem narrowed_allows {known found narrower : SequenceType} (narrowed : narrowed? known found = some narrower)
    {n : Nat} : narrower.occurrence.allows n = true ↔
      known.occurrence.allows n = true ∧ found.occurrence.allows n = true := by
  obtain ⟨_, subtype, _⟩ := narrowed?_ok narrowed
  rw [occurrence_of_narrowed narrowed]
  exact Occurrence.allows_intersect (Occurrence.intersect?_of_isWithin (SequenceType.isSubtype_iff.1 subtype).1)

namespace StaticType

variable {t : StaticType} {narrower : SequenceType} {n : Nat}

theorem Allows.assign (allows : t.Allows n) (narrow : narrower.occurrence.allows n = true) :
    (t.assign narrower).Allows n := by
  have made := t.assign_assigned narrower
  generalize t.assign narrower = t' at made ⊢
  cases made with
  | empty nothing =>
      have none : n = 0 := by
        obtain none | ⟨_, empty⟩ := nothing
        · exact allows.exact 0 none
        · rw [beq_iff_eq.1 empty] at narrow
          exact Occurrence.size_of_allows_zero narrow
      rw [none]
      exact .empty
  | ignored => exact allows
  | sized known => exact ⟨allows.occurrence, fun m same => allows.exact m (known.trans same)⟩
  | adopted => exact .ofSequenceType narrow

/-- Where one item was certain it still is. -/
theorem assign_allows_zero (allows : t.Allows 1) (narrow : narrower.occurrence.allows 1 = true)
    (found : narrower.occurrence.allows 0 = true → t.sequenceType.occurrence.allows 0 = true)
    (allowed : (t.assign narrower).sequenceType.occurrence.allows 0 = true) :
    t.sequenceType.occurrence.allows 0 = true := by
  have made := t.assign_assigned narrower
  generalize t.assign narrower = t' at made allowed
  cases made with
  | empty nothing =>
      obtain none | ⟨_, empty⟩ := nothing
      · exact absurd (allows.exact 0 none) (by decide)
      · rw [beq_iff_eq.1 empty] at narrow
        exact absurd (Occurrence.size_of_allows_zero narrow) (by decide)
  | ignored | sized => exact allowed
  | adopted => exact found allowed

end StaticType

/-- The result in place of an error stays the same. -/
theorem ErrorOf.result_assign {error : Error} {t : StaticType} {known narrower : SequenceType}
    (narrowed : narrowed? known t.sequenceType = some narrower) (allows : t.Allows (error.result t).length)
    (before : known.occurrence.allows (error.result t).length = true) :
    error.result (t.assign narrower) = error.result t := by
  have both := (narrowed_allows narrowed).2 ⟨before, allows.occurrence⟩
  unfold ErrorOf.result at allows both ⊢
  split
  · rfl
  · by_cases zero : t.sequenceType.occurrence.allows 0 = true
    · simp only [zero, if_true] at allows both ⊢
      exact if_pos (allows.assign both).occurrence
    · simp only [zero] at allows both ⊢
      exact if_neg fun still => zero (StaticType.assign_allows_zero allows both
        (fun given => ((narrowed_allows narrowed).1 given).2) still)

/-! ## Values -/

namespace ValueOf

theorem narrow_of_plain {v : Value} (plain : AllPlain v.items) (known : SequenceType) :
    (v.narrow known).items = v.items ∧ (v.narrow known).isRange = v.isRange := by
  have made := v.narrow_narrowed known
  generalize v.narrow known = w at made ⊢
  cases made with
  | same => exact ⟨rfl, rfl⟩
  | @item item narrower single function =>
      subst single
      have given := plain item List.mem_cons_self
      cases item with
      | atom a | node n => cases function
      | function f | map identity entries type | array identity members type => exact given.elim
  | sequence => exact ⟨v.items_refine _, by cases v <;> rfl⟩

theorem Simple.narrow {v : Value} (simple : v.Simple) (known : SequenceType) : (v.narrow known).Simple :=
  ⟨v.narrow_shaped known simple.shaped, by
    rw [(narrow_of_plain simple.plain known).1]
    exact simple.plain⟩

end ValueOf

/-! ## Expressions -/

namespace Expr

variable {e e' : Expr} {env : Env} {known narrower : SequenceType}

/-- The second expression may stand in place of the first: it fits its types and has no other outcomes. -/
structure Serves (e : Expr) (env : Env) (e' : Expr) : Prop where
  fits : e'.Fits env
  within : Within .free e' env .free e env

theorem serves_self (fits : e.Fits env) : e.Serves env e := ⟨fits, fun _ _ => id⟩

theorem Serves.trans {e'' : Expr} (first : e.Serves env e') (second : e'.Serves env e'') : e.Serves env e'' :=
  ⟨second.fits, fun s updates given => first.within s updates (second.within s updates given)⟩

/-- An expression keeps its outcomes under a narrower type. -/
theorem outcomes_assignType (narrowed : narrowed? known e.sequenceType = some narrower) (fits : e.Fits env)
    (allowed : ∀ s updates, e.outcomes .free env s updates → known.occurrence.allows s.items.length = true) :
    Within .free (e.assignType narrower) env .free e env := by
  cases e with
  | deferred error type location =>
      have whole : (deferred error type location).outcomes .free env ⟨error.result type, false⟩ [] :=
        ⟨Sequence.from_self _ _, rfl⟩
      have same : error.result (type.assign narrower) = error.result type :=
        ErrorOf.result_assign narrowed (fits.typed _ _ whole).1 (allowed _ _ whole)
      rintro s updates ⟨given, none⟩
      rw [same] at given
      exact ⟨given, none⟩
  | _ => exact fun s updates given => given

theorem fits_assignType (narrowed : narrowed? known e.sequenceType = some narrower) (fits : e.Fits env)
    (allowed : ∀ s updates, e.outcomes .free env s updates → known.occurrence.allows s.items.length = true) :
    (e.assignType narrower).Fits env := by
  have within := outcomes_assignType narrowed fits allowed
  have typed : ∀ s updates, (e.assignType narrower).outcomes .free env s updates →
      (e.staticType.assign narrower).Allows s.items.length ∧ AllPlain s.items := by
    intro s updates given
    have before := within s updates given
    obtain ⟨allows, plain⟩ := fits.typed s updates before
    exact ⟨allows.assign ((narrowed_allows narrowed).2 ⟨allowed s updates before, allows.occurrence⟩), plain⟩
  cases e with
  | literal | letIn | root | documents | delete => exact fits
  | contextValue | varRef | deferred => exact typed
  | dynamicCall => exact fits.elim
  | _ => exact ⟨typed, fits.2⟩

theorem Fits.narrow (fits : e.Fits env)
    (allowed : ∀ s updates, e.outcomes .free env s updates → known.occurrence.allows s.items.length = true)
    (simple : ∀ v, e = .literal v → v.Simple) : e.Serves env (e.narrow known) := by
  cases e with
  | literal v =>
      have given := simple v rfl
      obtain ⟨items, range⟩ := ValueOf.narrow_of_plain given.plain known
      refine ⟨fits_literal (given.narrow known), fun s updates holds => ?_⟩
      obtain ⟨same, none⟩ := holds
      rw [items, range] at same
      exact ⟨same, none⟩
  | _ =>
      simp only [Expr.narrow]
      split
      · next narrower narrowed =>
          exact ⟨fits_assignType narrowed fits allowed, outcomes_assignType narrowed fits allowed⟩
      · exact serves_self fits

variable {compiled : Bool} {visible : Visible}

theorem Placed.simple {v : Value} (placed : (Expr.literal v).Placed compiled visible) : v.Simple := by
  cases placed with
  | literal simple => exact simple

theorem Placed.assignType (placed : e.Placed compiled visible) (narrower : SequenceType) :
    (e.assignType narrower).Placed compiled visible := by
  cases placed with
  | literal simple => exact .literal simple
  | list parts => exact .list parts
  | range low high quiet => exact .range low high quiet
  | arithmetic left right quiet => exact .arithmetic left right quiet
  | comparison left right quiet => exact .comparison left right quiet
  | conditional condition positive negative quiet => exact .conditional condition positive negative quiet
  | contextValue seen => exact .contextValue seen
  | root seen around => exact .root seen around
  | documents => exact .documents
  | filter input conditions quiet => exact .filter input conditions quiet
  | letIn meets value result quiet => exact .letIn meets value result quiet
  | forIn meets input result quiet => exact .forIn meets input result quiet
  | varRef seen => exact .varRef seen
  | call firstOrder takes parts quiet => exact .call firstOrder takes parts quiet
  | deferred later => exact .deferred later
  | delete input quiet => exact .delete input quiet

theorem Placed.narrow (placed : e.Placed compiled visible) (known : SequenceType) :
    (e.narrow known).Placed compiled visible := by
  cases e with
  | literal v => exact .literal (placed.simple.narrow known)
  | _ =>
      simp only [Expr.narrow]
      split
      · exact placed.assignType _
      · exact placed

/-- What stands in place of an expression may be given the type of the expression too. -/
theorem Serves.narrow (serves : e.Serves env e') (fits : e.Fits env) (placed : e'.Placed compiled visible) :
    e.Serves env (e'.narrow e.sequenceType) := by
  refine serves.trans (serves.fits.narrow (fun s updates given => ?_) fun v same => ?_)
  · exact (fits.typed s updates (serves.within s updates given)).1.occurrence
  · subst same
    exact placed.simple

end Expr

end QueryKernel
