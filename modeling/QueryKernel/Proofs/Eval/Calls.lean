import QueryKernel.Proofs.Eval.Operations

/-!
# Calls of function items keep contexts sound

Folding and sorting with a function item, and calls of any function whose own calls keep contexts
sound.

A sorted list is a permutation of the given one even though the comparison is an arbitrary computation: no item
is lost when the comparison contradicts itself.
-/

namespace QueryKernel

variable {declared : Declarations} {good : Item → Prop}

open Modes (KeepsSound)

/-! ## Calling and folding -/

/-- Calls with values of the class keep contexts sound and give values of the class. -/
def Calls.Sound (declared : Declarations) (good : Item → Prop) (calls : Calls) : Prop :=
  ∀ f arguments, good (.function f) → (∀ v ∈ arguments, v.Good good) →
    KeepsSound declared good (ValueOf.Good good) (calls f arguments)

theorem singleKey_keeps {callee : Item} {arguments : List Value} :
    KeepsSound declared good (fun _ => True) (singleKey callee arguments) := by
  unfold singleKey
  split
  · refine .bind (P := fun _ => True) (.ofExcept fun _ _ => trivial) fun atoms _ => ?_
    split
    · exact .pure trivial
    · exact .raise
    · exact .raise
  · exact .raise

theorem invoke_keeps {calls : Calls} (closed : ItemClass good)
    (sound : calls.Sound declared good) {callee : Item} (holds : good callee)
    {arguments : List Value} (given : ∀ v ∈ arguments, v.Good good) :
    KeepsSound declared good (ValueOf.Good good) (invoke calls callee arguments) := by
  unfold invoke
  split
  · next f =>
      split
      · exact sound f arguments holds given
      · exact .raise
  · next identity entries type =>
      refine singleKey_keeps.bind fun key _ => .pure ?_
      unfold Entries.get?
      cases found : entries.find? fun (other, _) => other.sameKey key with
      | none => exact ValueOf.good_empty
      | some entry => exact closed.entry identity entries type holds entry (List.mem_of_find?_eq_some found)
  · next identity members type =>
      refine singleKey_keeps.bind fun key _ => ?_
      split
      · next i =>
          refine .ofExcept fun v found => ?_
          simp only [arrayMember] at found
          split at found
          · cases found
          · split at found
            · next member looked =>
                cases found
                exact closed.member identity members type holds v (List.mem_of_getElem? looked)
            · cases found
      · exact .raise
  · exact .raise

theorem foldLeft1_keeps {calls : Calls} (closed : ItemClass good)
    (sound : calls.Sound declared good) {location : Option Location} {v : Value} (holds : v.Good good)
    {callee : Item} (given : good callee) :
    KeepsSound declared good (ValueOf.Good good) (foldLeft1 calls location v callee) := by
  unfold foldLeft1
  obtain ⟨item, rest⟩ := holds.1.walk_reads.next
  generalize v.walk.next = step at item rest
  obtain ⟨found, w⟩ := step
  dsimp only at item rest ⊢
  have all := holds.2
  cases items : v.items with
  | nil =>
      rw [items, List.head?_nil] at item
      subst item
      exact .raise
  | cons first others =>
      rw [items] at item rest all
      rw [List.head?_cons] at item
      subst item
      dsimp only
      rw [Eval.foldWalk_eq _ _ rest]
      refine .foldList (ValueOf.good_one (all first List.mem_cons_self)) fun total reached other member => ?_
      have inside : good other := all other (List.mem_cons_of_mem _ (List.mem_of_mem_take member))
      refine Eval.Keeps.checkStop.bind fun _ _ => (invoke_keeps closed sound given ?_).locate
      intro w among
      rcases List.mem_cons.1 among with rfl | last
      · exact reached
      · rw [List.mem_singleton.1 last]
        exact ValueOf.good_one inside

theorem comesBefore_keeps {calls : Calls} (closed : ItemClass good)
    (sound : calls.Sound declared good) {callee a b : Item} (given : good callee) (left : good a)
    (right : good b) : KeepsSound declared good (fun _ => True) (comesBefore calls callee a b) := by
  refine Eval.Keeps.checkStop.bind fun _ _ => (invoke_keeps closed sound given ?_).bind fun v holds => ?_
  · intro w among
    rcases List.mem_cons.1 among with rfl | last
    · exact ValueOf.good_one left
    · rw [List.mem_singleton.1 last]
      exact ValueOf.good_one right
  · exact (Modes.Sound.ofLiteral closed holds).boolean

/-! ## Sorting -/

section Sorting

variable {Inv : Context → Prop} {less : Item → Item → Eval Bool}

/-- The comparison keeps a condition on the context for items of a class. -/
def LessKeeps (Inv : Context → Prop) (good : Item → Prop) (less : Item → Item → Eval Bool) : Prop :=
  ∀ a b, good a → good b → (less a b).Keeps Inv fun _ => True

theorem takeLess_cons (a b : Item) (merged rest : List Item) :
    takeLess less a merged (b :: rest) = less b a >>= fun before =>
      if before then takeLess less a (b :: merged) rest else pure (merged, b :: rest) := by
  funext c
  rw [Eval.bind_apply]
  simp only [takeLess]
  cases less b a c with
  | mk result c₁ =>
      cases result with
      | ok before => cases before <;> rfl
      | error e => rfl

theorem mergeSorted_cons (a : Item) (merged left right : List Item) :
    mergeSorted less merged (a :: left) right = takeLess less a merged right >>= fun taken =>
      mergeSorted less (a :: taken.1) left taken.2 := by
  funext c
  rw [Eval.bind_apply]
  simp only [mergeSorted]
  cases takeLess less a merged right c with
  | mk result c₁ => cases result <;> rfl

theorem takeLess_keeps (keeps : LessKeeps Inv good less) {a : Item} (first : good a)
    {merged others : List Item} (all : ∀ b ∈ others, good b) :
    (takeLess less a merged others).Keeps Inv
      fun taken => (taken.1 ++ taken.2).Perm (merged ++ others) := by
  induction others generalizing merged with
  | nil => exact .pure (List.Perm.refl _)
  | cons b rest rest_ih =>
      rw [takeLess_cons]
      refine (keeps b a (all b List.mem_cons_self) first).bind fun before _ => ?_
      split
      · refine (rest_ih fun other member => all other (List.mem_cons_of_mem _ member)).mono ?_
        exact fun taken permuted => permuted.trans List.perm_middle.symm
      · exact .pure (List.Perm.refl _)

theorem mergeSorted_keeps (keeps : LessKeeps Inv good less) {merged left right : List Item}
    (allMerged : ∀ b ∈ merged, good b) (allLeft : ∀ b ∈ left, good b) (allRight : ∀ b ∈ right, good b) :
    (mergeSorted less merged left right).Keeps Inv
      fun sorted => sorted.Perm (merged ++ (left ++ right)) := by
  induction left generalizing merged right with
  | nil => exact .pure ((List.reverse_perm merged).append_right right)
  | cons a left left_ih =>
      rw [mergeSorted_cons]
      have first : good a := allLeft a List.mem_cons_self
      refine (takeLess_keeps keeps first allRight).bind fun taken permuted => ?_
      have all : ∀ b ∈ taken.1 ++ taken.2, good b := by
        intro b member
        rcases List.mem_append.1 (permuted.mem_iff.1 member) with old | new
        · exact allMerged b old
        · exact allRight b new
      refine (left_ih ?_ ?_ ?_).mono fun sorted reached => ?_
      · intro b member
        rcases List.mem_cons.1 member with rfl | inside
        · exact first
        · exact all b (List.mem_append_left _ inside)
      · exact fun b member => allLeft b (List.mem_cons_of_mem _ member)
      · exact fun b member => all b (List.mem_append_right _ member)
      -- Taking items moves them from the right list to what is merged.
      · have moved : (taken.1 ++ (left ++ taken.2)).Perm (merged ++ (left ++ right)) :=
          calc (taken.1 ++ (left ++ taken.2)).Perm (left ++ (taken.1 ++ taken.2)) :=
                List.perm_append_comm_assoc _ _ _
            _ |>.Perm (left ++ (merged ++ right)) := permuted.append_left left
            _ |>.Perm (merged ++ (left ++ right)) := List.perm_append_comm_assoc _ _ _
        exact reached.trans ((moved.cons a).trans List.perm_middle.symm)

theorem mergeSortWithin_keeps (keeps : LessKeeps Inv good less) {most : Nat} {items : List Item}
    (all : ∀ b ∈ items, good b) :
    (mergeSortWithin less most items).Keeps Inv fun sorted => sorted.Perm items := by
  induction most generalizing items with
  | zero => exact .pure (List.Perm.refl _)
  | succ most most_ih =>
      simp only [mergeSortWithin]
      split
      · exact .pure (List.Perm.refl _)
      · refine (most_ih fun b member => all b (List.mem_of_mem_take member)).bind fun left leftPerm => ?_
        refine (most_ih fun b member => all b (List.mem_of_mem_drop member)).bind fun right rightPerm => ?_
        refine (mergeSorted_keeps keeps (fun b member => by cases member) (fun b member => ?_)
          (fun b member => ?_)).mono fun sorted reached => ?_
        · exact all b (List.mem_of_mem_take (leftPerm.mem_iff.1 member))
        · exact all b (List.mem_of_mem_drop (rightPerm.mem_iff.1 member))
        · have joined := leftPerm.append rightPerm
          rw [List.take_append_drop] at joined
          exact reached.trans joined

end Sorting

theorem sortWith_keeps {calls : Calls} (closed : ItemClass good)
    (sound : calls.Sound declared good) {location : Option Location} {v : Value} (holds : v.Good good)
    {callee : Item} (given : good callee) :
    KeepsSound declared good (fun sorted => sorted.Good good ∧ sorted.items.length = v.items.length)
      (sortWith calls location v callee) := by
  have keeps : LessKeeps (Context.Sound declared good) good (comesBefore calls callee) :=
    fun a b left right => comesBefore_keeps closed sound given left right
  refine (mergeSortWithin_keeps keeps holds.2).locate.bind fun sorted permuted => .pure ⟨?_, ?_⟩
  · exact (ValueOf.ofItems_holds sorted).allGood fun item member => holds.2 item (permuted.mem_iff.1 member)
  · rw [(ValueOf.ofItems_holds sorted).2]
    exact permuted.length_eq

end QueryKernel
