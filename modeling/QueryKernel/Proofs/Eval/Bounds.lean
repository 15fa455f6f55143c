import QueryKernel.Proofs.Eval.Preserve
import QueryKernel.Proofs.Expr.Sizes

/-!
# Bounds of streams and values

How many items the operations yield at most, given how many their parts yield at most.
-/

namespace QueryKernel

variable {declared : Declarations} {good : Item → Prop}

open Modes (KeepsSound)

/-- The stream of a computation yields at most so many items. -/
def StreamAtMost (declared : Declarations) (good : Item → Prop) (stream : Eval Stream) (n : Nat) : Prop :=
  KeepsSound declared good (Stream.AtMost (Context.Sound declared good) n) stream

/-- The value of a computation is good and has at most so many items. -/
def ValueAtMost (declared : Declarations) (good : Item → Prop) (value : Eval Value) (n : Nat) : Prop :=
  KeepsSound declared good (fun v => v.Good good ∧ v.items.length ≤ n) value

theorem StreamAtMost.mono {stream : Eval Stream} {m n : Nat} (few : StreamAtMost declared good stream m)
    (fewer : m ≤ n) : StreamAtMost declared good stream n :=
  Eval.Keeps.mono few fun _ given c inv => (given c inv).mono fewer

/-- The stream of a value. -/
theorem ValueAtMost.stream {value : Eval Value} {n : Nat} (few : ValueAtMost declared good value n) :
    StreamAtMost declared good (do return .ofValue (← value)) n := by
  refine Eval.Keeps.bind few fun v given => .pure fun c inv => ?_
  exact (Stream.ofValue_atMost given.1.1 c inv).mono given.2

theorem StreamAtMost.drain {stream : Eval Stream} {n : Nat} (few : StreamAtMost declared good stream n)
    (sound : KeepsSound declared good (Stream.Sound (Context.Sound declared good) good) stream)
    {c c' : Context} (inv : c.Sound declared good) {items : List Item}
    (drained : drainStream stream c = (.ok items, c')) : items.length ≤ n := by
  obtain ⟨s, c₁, started, pulled⟩ := drainStream_ok_iff.1 drained
  obtain ⟨inv₁, pulls⟩ := sound c s c₁ inv started
  obtain ⟨_, fewPulls⟩ := few c s c₁ inv started
  exact (fewPulls c₁ inv₁).drain (pulls c₁ inv₁) pulled

/-! ## Streams -/

theorem pullAll_atMost {A : Type} {operands : List A} {stream : A → Eval Stream} {bound : A → Nat}
    (sound : ∀ a ∈ operands, KeepsSound declared good
      (Stream.Sound (Context.Sound declared good) good) (stream a))
    (few : ∀ a ∈ operands, StreamAtMost declared good (stream a) (bound a))
    {c : Context} (inv : c.Sound declared good) :
    (Stream.pullAll (operands.map stream) c).AtMost (Context.Sound declared good)
      (sumOver bound operands) := by
  induction operands generalizing c with
  | nil => trivial
  | cons a rest rest_ih =>
      simp only [List.map_cons, Stream.pullAll, sumOver]
      cases started : stream a c with
      | mk result c₁ =>
          cases result with
          | error e => trivial
          | ok s =>
              obtain ⟨inv₁, pulls⟩ := sound a List.mem_cons_self c s c₁ inv started
              obtain ⟨_, fewPulls⟩ := few a List.mem_cons_self c s c₁ inv started
              refine (fewPulls c₁ inv₁).andThen (pulls c₁ inv₁) fun c' inv' => ?_
              exact rest_ih (fun other member => sound other (List.mem_cons_of_mem _ member))
                (fun other member => few other (List.mem_cons_of_mem _ member)) inv'

/-- The stream of a loop. -/
def loopStream (source : Eval Stream) (enter : Item → Eval Stream) : Eval Stream := do
  let s ← source
  pure ⟨none, fun c => (s.pull c).forEach enter⟩

section Loop

variable {source : Eval Stream} {enter : Item → Eval Stream}
  (sound : KeepsSound declared good (Stream.Sound (Context.Sound declared good) good) source)
  (bodySound : Step.BodySound (Context.Sound declared good) good enter)

include sound bodySound

theorem loopStream_atMost {m n : Nat} (few : StreamAtMost declared good source m)
    (bounded : Step.BodyAtMost (Context.Sound declared good) good n enter) :
    StreamAtMost declared good (loopStream source enter) (m * n) := by
  intro c s c' inv ran
  obtain ⟨input, c₁, started, made⟩ := Eval.bind_ok_iff.1 ran
  obtain ⟨rfl, rfl⟩ := Eval.pure_ok_iff.1 made
  obtain ⟨inv₁, pulls⟩ := sound c input c₁ inv started
  obtain ⟨_, fewPulls⟩ := few c input c₁ inv started
  exact ⟨inv₁, fun c' inv' => (fewPulls c' inv').forEach (pulls c' inv') bodySound bounded⟩

theorem loopStream_atMost_zero (bounded : Step.BodyAtMost (Context.Sound declared good) good 0 enter) :
    StreamAtMost declared good (loopStream source enter) 0 :=
  sound.bind fun _ pulls => .pure fun c inv => Step.forEach_atMost_zero (pulls c inv) bodySound bounded

omit sound bodySound in
theorem loopStream_noInput (few : StreamAtMost declared good source 0) :
    StreamAtMost declared good (loopStream source enter) 0 := by
  refine Eval.Keeps.bind few fun input fewPulls => .pure fun c inv => ?_
  have none := fewPulls c inv
  dsimp only
  cases pulled : input.pull c with
  | done c₁ => trivial
  | failed c₁ e => trivial
  | yield c₁ item left rest =>
      rw [pulled] at none
      obtain ⟨m, impossible, _⟩ := none
      omega

end Loop

/-- What a loop does for an item yields as much as its body. -/
theorem enterLoop_atMost {var : Variable} (agrees : var.Agrees declared) {location : Option Location}
    {body : Modes} {n : Nat} (few : StreamAtMost declared good body.stream n) :
    Step.BodyAtMost (Context.Sound declared good) good n (enterLoop var location body) := by
  intro item holds
  refine Eval.Keeps.checkStop.bind fun _ _ => ?_
  exact (bindVariable_keeps agrees (ValueOf.good_one holds)).bind fun _ _ => few

/-! ## Values -/

theorem valueOfOption_atMost {item : Eval (Option Item)}
    (keeps : KeepsSound declared good (fun found => ∀ a, found = some a → good a) item) :
    ValueAtMost declared good (do return valueOfOption (← item)) 1 := by
  refine keeps.bind fun found holds => .pure ⟨good_valueOfOption holds, ?_⟩
  rw [items_valueOfOption]
  cases found <;> simp

section Filter

variable {base : Modes} {predicates : List (Option BinaryFloat × Modes)}
  (conditions : ∀ p ∈ predicates, p.2.Sound declared good)

include conditions

theorem filterValue_atMost {n : Nat} (few : ValueAtMost declared good base.value n) :
    ValueAtMost declared good (filterValue base predicates) n := by
  refine filterValue_keeps few fun v given => ?_
  refine (passAll_keeps conditions given.1).mono fun w selects => ?_
  exact ⟨selects.keepsGood given.1, Nat.le_trans selects.2.length_le given.2⟩

theorem filterValue_positional (sound : base.Sound declared good)
    (positional : ∃ p ∈ predicates, p.1.isSome = true) :
    ValueAtMost declared good (filterValue base predicates) 1 := by
  refine filterValue_keeps sound.value fun v holds c w c' inv ran => ?_
  obtain ⟨inv', selects⟩ := passAll_keeps conditions holds c w c' inv ran
  obtain ⟨_, few⟩ := passAll_positional conditions holds (.inr positional) c w c' inv ran
  exact ⟨inv', selects.keepsGood holds, few⟩

end Filter

theorem variableValue_atMost {var : Variable} {type : SequenceType} (found : declared var.id = some type)
    (few : type.most < 2) {location : Option Location} :
    ValueAtMost declared good (variableValue var location) type.most := by
  refine variableValue_keeps.mono fun v given => ⟨given.1, ?_⟩
  rw [← given.1.1.size_eq]
  exact Occurrence.le_most_of_allows (given.2 type found) few

theorem deleteAll_atMost {target : Modes} (sound : target.Sound declared good)
    {location : Option Location} : ValueAtMost declared good (deleteAll target location) 0 := by
  refine (deleteAll_keeps sound).mono fun v same => ?_
  rw [same]
  exact ⟨ValueOf.good_empty, Nat.le_refl 0⟩

theorem reverse_atMost {value : Eval Value} {n : Nat} (few : ValueAtMost declared good value n) :
    ValueAtMost declared good (do return (← value).reverse) n := by
  refine Eval.Keeps.bind few fun v given => .pure ?_
  obtain ⟨valid, items⟩ := given.1.1.reverse_holds
  refine ⟨⟨valid, fun item member => given.1.2 item ?_⟩, ?_⟩
  · rw [items] at member
    exact List.mem_reverse.1 member
  · rw [items, List.length_reverse]
    exact given.2

theorem sortWith_atMost {calls : Calls} (closed : ItemClass good)
    (callsSound : calls.Sound declared good) {value : Eval Value} {callee : Eval Item} {n : Nat}
    (few : ValueAtMost declared good value n) (keeps : KeepsSound declared good good callee)
    {location : Option Location} :
    ValueAtMost declared good (do
      let v ← value
      sortWith calls location v (← callee)) n := by
  refine Eval.Keeps.bind few fun v given => keeps.bind fun item holds => ?_
  refine (sortWith_keeps closed callsSound given.1 holds).mono fun sorted both => ⟨both.1, ?_⟩
  rw [both.2]
  exact given.2

/-- A stream that yields nothing has no first item. -/
theorem first_atMost_zero {stream : Eval Stream}
    (sound : KeepsSound declared good (Stream.Sound (Context.Sound declared good) good) stream)
    (few : StreamAtMost declared good stream 0) :
    ValueAtMost declared good (do
      let found ← (do
        let s ← stream
        return (← s.next).map Prod.fst : Eval (Option Item))
      return valueOfOption found) 0 := by
  refine .bind (P := fun found => found = none) (fun c found c' inv ran => ?_) fun found none => ?_
  · obtain ⟨s, c₁, started, ran⟩ := Eval.bind_ok_iff.1 ran
    obtain ⟨answer, c₂, asked, ran⟩ := Eval.bind_ok_iff.1 ran
    obtain ⟨rfl, rfl⟩ := Eval.pure_ok_iff.1 ran
    obtain ⟨inv₁, pulls⟩ := sound c s c₁ inv started
    obtain ⟨_, fewPulls⟩ := few c s c₁ inv started
    refine ⟨(Modes.stream_next_keeps pulls c₁ answer c₂ inv₁ asked).1, ?_⟩
    -- A stream of at most no items does not yield one.
    have none := fewPulls c₁ inv₁
    rw [Stream.next_apply] at asked
    cases pulled : s.pull c₁ with
    | done c₃ =>
        rw [pulled] at asked
        cases asked
        rfl
    | failed c₃ e =>
        rw [pulled] at asked
        cases asked
    | yield c₃ item left rest =>
        rw [pulled] at none
        obtain ⟨m, impossible, _⟩ := none
        omega
  · rw [none]
    exact .pure ⟨ValueOf.good_empty, Nat.le_refl 0⟩

end QueryKernel
