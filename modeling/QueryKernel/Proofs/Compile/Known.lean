import QueryKernel.Proofs.Compile.Still
import QueryKernel.Proofs.Expr.Justified

/-!
# What compilation knows of variables

What a state of a compilation records agrees with the variables that surround the expression at hand, also after
a step, and what is made by a step is new.

Scopes are entered and left, so that it is enough to know what surrounds an expression while it is compiled.  Only
the number of the next variable is carried on: it keeps the variables of copies apart from those in use.
-/

namespace QueryKernel

variable {R : Context → Prop} {F : Focus → Prop} {k : Kind} {focus : Focus} {updating nothing : Prop}
  {K K' : Surroundings} {n : Nat}

/-- What is recorded of a variable agrees with what is known of it. -/
structure Surroundings.Records (K : Surroundings) (entry : ScopeEntry) : Prop where
  type : ∀ type, entry.sequenceType = some type → type.occurrence = .zero → K.empty entry.var.id
  bound : ∀ v, entry.value = some v → K.bound entry.var.id
  value : ∀ v, entry.value = some v → K.empty entry.var.id → v = .empty

/-- What is recorded of variables around a binding has nothing to do with the variable that it binds. -/
theorem Surroundings.Records.add {entry : ScopeEntry} (records : K.Records entry) {id : Nat} (new : ¬K.bound id) :
    (K.add id nothing).Records entry := by
  refine ⟨fun type typed zero => .inr (records.type type typed zero), fun v given => .inr (records.bound v given), ?_⟩
  rintro v given (⟨same, _⟩ | known)
  · exact absurd (same ▸ records.bound v given) new
  · exact records.value v given known

/-- What surrounds an expression describes the state of a compilation, and variables with smaller numbers have been
made.  A focus that compilation has set is on some item. -/
structure Known (R : Context → Prop) (k : Kind) (focus : Focus) (K : Surroundings) (n : Nat) (c : CompileContext) :
    Prop extends Steady R k focus c where
  next : n ≤ c.context.nextVariable
  bounded : ∀ id, K.bound id → id < n
  records : ∀ scope ∈ c.scopes, ∀ entry ∈ scope, K.Records entry
  focused : c.focuses = [] ∨ ∀ v, focus.value = some v → v.size ≠ 0

/-- At the start of a compilation nothing is recorded. -/
theorem start_known {c : Context} (inv : R c) (bounded : ∀ id, K.bound id → id < c.nextVariable) :
    Known R k c.focus K c.nextVariable (.start c) := by
  have nowhere : ∀ scope ∈ (CompileContext.start c).scopes, ∀ entry, entry ∉ scope := by
    intro scope member entry inside
    rw [List.mem_singleton.1 member] at inside
    cases inside
  exact ⟨⟨⟨rfl, inv⟩, fun scope member entry inside => (nowhere scope member entry inside).elim⟩, Nat.le_refl _,
    bounded, fun scope member entry inside => (nowhere scope member entry inside).elim, .inl rfl⟩

namespace Compile

open QueryKernel.Expr (Bears CopyJustified Justified)

variable {A B : Type} {Refused : Cause Expr → Prop} {Q : A → Prop} {P : Nat → A → Prop} {S : Nat → B → Prop}

/-- A successful computation leads from a state in some surroundings to a state in the same ones, with a condition
on the result and on the variables that have been made. -/
def Leads (R : Context → Prop) (k : Kind) (focus : Focus) (K : Surroundings) (n : Nat) (P : Nat → A → Prop)
    (x : Compile A) : Prop :=
  ∀ c, Known R k focus K n c → ∀ a c', x c = (.ok a, c') → ∃ m, n ≤ m ∧ Known R k focus K m c' ∧ P m a

theorem Leads.mono {P' : Nat → A → Prop} {x : Compile A} (leads : x.Leads R k focus K n P)
    (implies : ∀ m a, n ≤ m → P m a → P' m a) : x.Leads R k focus K n P' := by
  intro c known a c' ran
  obtain ⟨m, le, known', holds⟩ := leads c known a c' ran
  exact ⟨m, le, known', implies m a le holds⟩

/-- A computation that makes no variables. -/
theorem Leads.still {x : Compile A} (always : x.Always (Known R k focus K n) Refused (P n)) :
    x.Leads R k focus K n P := by
  intro c known a c' ran
  obtain ⟨kept, holds, _⟩ := always c known
  rw [ran] at kept holds
  exact ⟨n, Nat.le_refl n, kept, holds a rfl⟩

theorem Leads.pure {a : A} (holds : P n a) : Leads R k focus K n P (pure a) := by
  intro c known b c' ran
  cases ran
  exact ⟨n, Nat.le_refl n, known, holds⟩

theorem Leads.bind {x : Compile A} {f : A → Compile B} (first : x.Leads R k focus K n P)
    (second : ∀ m a, n ≤ m → P m a → (f a).Leads R k focus K m S) : (x >>= f).Leads R k focus K n S := by
  intro c known b c₂ ran
  rw [bind_apply] at ran
  split at ran
  · next a c₁ step =>
      obtain ⟨m, le, known₁, holds⟩ := first c known a c₁ step
      obtain ⟨l, later, known₂, result⟩ := second m a le holds c₁ known₁ b c₂ ran
      exact ⟨l, Nat.le_trans le later, known₂, result⟩
  · cases ran

/-- A computation that makes no variables, before another one. -/
theorem Leads.after {x : Compile A} {f : A → Compile B} (first : x.Always (Known R k focus K n) Refused Q)
    (second : ∀ a, Q a → (f a).Leads R k focus K n S) : (x >>= f).Leads R k focus K n S := by
  intro c known b c₂ ran
  rw [bind_apply] at ran
  split at ran
  · next a c₁ step =>
      obtain ⟨kept, holds, _⟩ := first c known
      rw [step] at kept holds
      exact second a (holds a rfl) c₁ kept b c₂ ran
  · cases ran

/-- Inside of a binding more is known. -/
theorem Leads.inScope {scope : Scope} {x : Compile A} {id : Nat} (new : ¬K.bound id) (made : id < n)
    (leads : x.Leads R k focus (K.add id nothing) n P)
    (recorded : ∀ entry ∈ scope, ∀ v, entry.value = some v → k.value v)
    (records : ∀ entry ∈ scope, (K.add id nothing).Records entry) : (inScope scope x).Leads R k focus K n P := by
  intro c known a c' ran
  have entered : Known R k focus (K.add id nothing) n { c.pushScope with innermost := scope } := by
    refine ⟨⟨known.context, List.forall_mem_cons.2 ⟨recorded, known.recorded⟩⟩, known.next, ?_, ?_, known.focused⟩
    · rintro other (rfl | inside)
      · exact made
      · exact known.bounded other inside
    · exact List.forall_mem_cons.2 ⟨records, fun scope member entry inside =>
        (known.records scope member entry inside).add new⟩
  cases inner : x { c.pushScope with innermost := scope } with
  | mk result after =>
      simp only [Compile.inScope, inner, Prod.mk.injEq] at ran
      obtain ⟨rfl, rfl⟩ := ran
      obtain ⟨m, le, known', holds⟩ := leads _ entered a after inner
      exact ⟨m, le, ⟨⟨known'.context, known.recorded⟩, known'.next, fun other inside =>
        known'.bounded other (.inr inside), known.records, known'.focused⟩, holds⟩

/-- A focus on one item. -/
theorem Leads.withFocus (setFocus : ∀ c focus, R c → R { c with focus }) {value : Option Value}
    {x : Compile A} (some : ∀ v, value = some v → v.size ≠ 0)
    (leads : x.Leads R k (.ofValue value) K n P) : (withFocus value x).Leads R k focus K n P := by
  intro c known a c' ran
  have entered : Known R k (.ofValue value) K n (c.pushFocus value) :=
    ⟨⟨⟨rfl, setFocus c.context _ known.context.rest⟩, known.recorded⟩, known.next, known.bounded, known.records,
      .inr some⟩
  cases inner : x (c.pushFocus value) with
  | mk result after =>
      simp only [Compile.withFocus, inner, Prod.mk.injEq] at ran
      obtain ⟨rfl, rfl⟩ := ran
      obtain ⟨m, le, known', holds⟩ := leads _ entered a after inner
      have restored : At R focus { after.context with focus := c.context.focus } :=
        ⟨known.context.focus_eq, setFocus after.context _ known'.context.rest⟩
      exact ⟨m, le, ⟨⟨restored, known'.recorded⟩, known'.next, known'.bounded, known'.records, known.focused⟩, holds⟩

/-! ## Computations that make no variables -/

theorem Always.known {x : Compile A} (always : x.Always (Steady R k focus) Refused Q) (still : x.Still) :
    x.Always (Known R k focus K n) Refused Q := by
  intro c known
  obtain ⟨kept, holds, refused⟩ := always c known.toSteady
  have unmoved := still c
  refine ⟨⟨kept, unmoved.context.nextVariable ▸ known.next, known.bounded, ?_, ?_⟩, holds, refused⟩
  · rw [CompileContext.scopes, unmoved.innermost, unmoved.outer]
    exact known.records
  · rw [unmoved.focuses]
    exact known.focused

/-- Something may be evaluated that takes no variables back. -/
theorem attempt_known {x : Eval A}
    (evaluates : x.Always (At (fun d => R d ∧ n ≤ d.nextVariable) focus) Q) :
    (attempt x).Always (Known R k focus K n) Refused fun result => ∀ a, result = .ok a → Q a := by
  refine .attempt (R := fun _ => At (fun d => R d ∧ n ≤ d.nextVariable) focus) (fun _ _ => evaluates)
    (fun c known => ⟨known.context.focus_eq, known.context.rest, known.next⟩) fun c context known kept => ?_
  exact ⟨⟨⟨kept.focus_eq, kept.rest.1⟩, known.recorded⟩, kept.rest.2, known.bounded, known.records, known.focused⟩

/-! ## Copies -/

theorem copying_leads {calls : Calls} (rules : CompileRules calls R F k) {renames : Renaming}
    {copy : Copying → A × Copying} (more : ∀ s, s.nextVariable ≤ (copy s).2.nextVariable) :
    (copying renames copy).Leads R k focus K n fun m copied => ∃ next, n ≤ next ∧
      m = (copy ⟨next, renames, []⟩).2.nextVariable ∧
      copied = ((copy ⟨next, renames, []⟩).1, (copy ⟨next, renames, []⟩).2.renames) := by
  intro c known copied c' ran
  have always : (copying renames copy).Always (Steady R k focus) (QueryKernel.Refused True)
      fun _ => True := copying_always (P := fun _ => True) rules fun _ => trivial
  have steady := (always c known.toSteady).1
  rw [ran] at steady
  cases ran
  have le := Nat.le_trans known.next (more ⟨c.context.nextVariable, renames, []⟩)
  refine ⟨_, le, ⟨steady, Nat.le_refl _, fun id inside => Nat.lt_of_lt_of_le (known.bounded id inside) le, ?_,
    known.focused⟩, _, known.next, rfl, rfl⟩
  intro scope member entry inside
  rcases List.mem_cons.1 member with rfl | outer
  · rcases List.mem_append.1 inside with new | old
    · obtain ⟨var, _, rfl⟩ := List.mem_map.1 new
      exact ⟨fun _ none => (by cases none), fun _ none => (by cases none), fun _ none => by cases none⟩
    · exact known.records _ List.mem_cons_self entry old
  · exact known.records scope (List.mem_cons_of_mem _ outer) entry inside

/-- A copy in some surroundings, of an expression in others. -/
structure Copied (k : Kind) (updating : Prop) (K K' : Surroundings) (e : Expr) (m : Nat) (e' : Expr) : Prop
    extends CopyJustified K K' e e' where
  bears : e'.Every (Bears k updating)
  made : ∀ id ∈ e'.binders, id < m

theorem copy_leads {calls : Calls} (rules : CompileRules calls R F k) {around : Surroundings} {e : Expr}
    {renames : Renaming} (bears : e.Every (Bears k updating)) (justified : e.Justified K)
    (old : ∀ id, K'.bound id → id < n) (carried : ∀ var : Variable, K.empty var.id → K'.empty (renames.apply var).id) :
    (copy e renames).Leads R k focus around n fun m copied => Copied k updating K K' e m copied.1 := by
  refine (copying_leads rules fun s => ?_).mono ?_
  · rw [(Expr.copy_binders e s).2]
    exact Nat.le_add_right _ _
  · rintro _ _ _ ⟨next, le, rfl, rfl⟩
    obtain ⟨binders, last⟩ := Expr.copy_binders e ⟨next, renames, []⟩
    refine ⟨Expr.copy_justified justified ⟨fun id inside => Nat.lt_of_lt_of_le (old id inside) le, carried⟩,
      Expr.copy_bears bears _, fun id mine => ?_⟩
    rw [binders, List.mem_range'_1] at mine
    exact last ▸ mine.2

theorem copyVariable_leads {calls : Calls} (rules : CompileRules calls R F k) (var : Variable) :
    (copyVariable var []).Leads R k focus K n fun m copied => ∃ id, n ≤ id ∧ id < m ∧
      copied = ({ var with id }, [(var.id, { var with id })]) := by
  refine (copying_leads rules fun s => Nat.le_succ _).mono ?_
  rintro _ _ _ ⟨next, le, rfl, rfl⟩
  exact ⟨next, le, Nat.lt_succ_self next, rfl⟩

end Compile

end QueryKernel
