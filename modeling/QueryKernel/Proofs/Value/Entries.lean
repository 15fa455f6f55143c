import Mathlib.Data.List.Induction
import QueryKernel.Proofs.Atom.Keys
import QueryKernel.Value.Entries

/-!
# Maps as finite functions

A map made from key and value pairs has each key once, in the order in which the keys came first, and gives for
a key the value that came last with it.

A key finds its entry by comparison with keys of other types, so that all of this rests on sameness of keys
being an equivalence.  `set_keys` and `get?_set` say what one pair does to the entries; the rest is induction on
the pairs, the last one first.
-/

namespace QueryKernel

/-! ## Lists without duplicates -/

section Duplicates

variable {α β : Type} (r : α → α → Bool)

theorem eraseDupsBy_loop_concat (list : List α) (a : α) (seen : List α) :
    List.eraseDupsBy.loop r (list ++ [a]) seen =
      if (List.eraseDupsBy.loop r list seen).any (r a) then List.eraseDupsBy.loop r list seen
      else List.eraseDupsBy.loop r list seen ++ [a] := by
  induction list generalizing seen with
  | nil =>
      simp only [List.nil_append, List.eraseDupsBy.loop, List.any_reverse]
      cases seen.any (r a) <;> simp
  | cons b list list_ih =>
      by_cases found : seen.any (r b) = true
      · simp only [List.cons_append, List.eraseDupsBy.loop, found]
        exact list_ih seen
      · simp only [List.cons_append, List.eraseDupsBy.loop, Bool.not_eq_true _ ▸ found]
        exact list_ih (b :: seen)

/-- A last element is kept unless it is a duplicate of one that is kept. -/
theorem eraseDupsBy_concat (list : List α) (a : α) :
    (list ++ [a]).eraseDupsBy r =
      if (list.eraseDupsBy r).any (r a) then list.eraseDupsBy r else list.eraseDupsBy r ++ [a] :=
  eraseDupsBy_loop_concat r list a []

theorem pairwise_eraseDupsBy (list : List α) : (list.eraseDupsBy r).Pairwise fun a b => r b a = false := by
  induction list using List.reverseRec with
  | nil => exact .nil
  | append_singleton list a list_ih =>
      rw [eraseDupsBy_concat]
      split
      · exact list_ih
      · next fresh =>
          refine List.pairwise_append.2 ⟨list_ih, List.pairwise_singleton _ _, fun b kept c last => ?_⟩
          rw [List.mem_singleton.1 last]
          simpa using fun same => fresh (List.any_eq_true.2 ⟨b, kept, same⟩)

theorem mem_of_mem_eraseDupsBy {list : List α} {a : α} (member : a ∈ list.eraseDupsBy r) : a ∈ list := by
  induction list using List.reverseRec with
  | nil => exact member
  | append_singleton list b list_ih =>
      rw [eraseDupsBy_concat] at member
      split at member
      · exact List.mem_append_left _ (list_ih member)
      · rcases List.mem_append.1 member with kept | last
        · exact List.mem_append_left _ (list_ih kept)
        · exact List.mem_append_right _ last

/-- Where duplicates are elements of equal images, as many are kept as there are different images. -/
theorem map_eraseDupsBy [BEq β] (f : α → β) {list : List α}
    (same : ∀ a ∈ list, ∀ b ∈ list, r a b = (f a == f b)) :
    (list.eraseDupsBy r).map f = (list.map f).eraseDups := by
  induction list using List.reverseRec with
  | nil => rfl
  | append_singleton list a list_ih =>
      have kept := list_ih fun b first c second =>
        same b (List.mem_append_left _ first) c (List.mem_append_left _ second)
      have any : (list.eraseDupsBy r).any (r a) = ((list.map f).eraseDups).any (f a == ·) := by
        rw [← kept, List.any_map, Bool.eq_iff_iff, List.any_eq_true, List.any_eq_true]
        refine exists_congr fun b => and_congr_right fun member => ?_
        rw [same a (by simp) b (List.mem_append_left _ (mem_of_mem_eraseDupsBy r member))]
        rfl
      rw [List.map_append, List.eraseDups, List.map_singleton, eraseDupsBy_concat, eraseDupsBy_concat,
        ← List.eraseDups, any, ← kept]
      split <;> simp

end Duplicates

namespace Entries

variable {F : Type} {entries : Entries F} {key other : Atom}

/-! ## One pair -/

section Step

variable (exact : ∀ key ∈ entries.map Prod.fst, key.IsExact) (exactKey : key.IsExact)

include exact exactKey

/-- A new key comes last, and a key that is there stays in its place. -/
theorem set_keys (value : ValueOf F) :
    (set key value entries).map Prod.fst =
      if (entries.map Prod.fst).any key.sameKey then entries.map Prod.fst
      else entries.map Prod.fst ++ [key] := by
  induction entries with
  | nil => rfl
  | cons entry rest rest_ih =>
      obtain ⟨first, bound⟩ := entry
      have exactFirst : first.IsExact := exact first List.mem_cons_self
      have rest_ih := rest_ih fun key member => exact key (List.mem_cons_of_mem _ member)
      rw [set, List.map_cons, List.any_cons, key.sameKey_comm exactKey exactFirst]
      cases first.sameKey key with
      | true => rfl
      | false =>
          simp only [Bool.false_eq_true, if_false, List.map_cons, Bool.false_or, rest_ih]
          split <;> rfl

/-- The keys that are the same as the new one give its value, and others what they gave before. -/
theorem get?_set (value : ValueOf F) (exactOther : other.IsExact) :
    (set key value entries).get? other = if key.sameKey other then some value else entries.get? other := by
  induction entries with
  | nil =>
      simp only [set, get?, List.find?_cons, List.find?_nil]
      cases key.sameKey other <;> rfl
  | cons entry rest rest_ih =>
      obtain ⟨first, bound⟩ := entry
      have exactFirst : first.IsExact := exact first List.mem_cons_self
      have rest_ih := rest_ih fun key member => exact key (List.mem_cons_of_mem _ member)
      rw [set]
      split
      · next same =>
          have alike := Atom.sameKey_congr exactFirst exactKey exactOther same
          simp only [get?, List.find?_cons, alike]
          cases key.sameKey other <;> rfl
      · next differs =>
          simp only [get?, List.find?_cons] at rest_ih ⊢
          cases found : first.sameKey other with
          | true =>
              -- The other key is the same as the first one, so it is not the same as the new one.
              have alike : key.sameKey other = false := by
                rw [key.sameKey_comm exactKey exactOther, ← Atom.sameKey_congr exactFirst exactOther exactKey found]
                simpa using differs
              simp [alike]
          | false => exact rest_ih

end Step

/-! ## All pairs -/

theorem ofPairs_concat (pairs : List (Atom × ValueOf F)) (key : Atom) (value : ValueOf F) :
    ofPairs (pairs ++ [(key, value)]) = set key value (ofPairs pairs) := by
  rw [ofPairs, List.foldl_append]
  rfl

section Run

variable {pairs : List (Atom × ValueOf F)} (exact : ∀ key ∈ pairs.map Prod.fst, key.IsExact)

include exact

theorem ofPairs_keys : (ofPairs pairs).map Prod.fst = (pairs.map Prod.fst).eraseDupsBy Atom.sameKey := by
  induction pairs using List.reverseRec with
  | nil => rfl
  | append_singleton pairs pair pairs_ih =>
      obtain ⟨last, value⟩ := pair
      rw [List.map_append, List.map_singleton] at exact ⊢
      have before := fun key member => exact key (List.mem_append_left _ member)
      have keys := pairs_ih before
      have known : ∀ key ∈ (ofPairs pairs).map Prod.fst, key.IsExact := fun key member =>
        before key (mem_of_mem_eraseDupsBy _ (keys ▸ member))
      rw [ofPairs_concat, set_keys known (exact last (by simp)), eraseDupsBy_concat, keys]

theorem ofPairs_exact : ∀ key ∈ (ofPairs pairs).map Prod.fst, key.IsExact := fun key member =>
  exact key (mem_of_mem_eraseDupsBy _ (ofPairs_keys exact ▸ member))

theorem get?_ofPairs (exactKey : key.IsExact) :
    (ofPairs pairs).get? key = (pairs.findRev? (·.1.sameKey key)).map Prod.snd := by
  induction pairs using List.reverseRec with
  | nil => rfl
  | append_singleton pairs pair pairs_ih =>
      obtain ⟨last, value⟩ := pair
      rw [List.map_append, List.map_singleton] at exact
      have before := fun key member => exact key (List.mem_append_left _ member)
      rw [ofPairs_concat, get?_set (ofPairs_exact before) (exact last (by simp)) value exactKey,
        pairs_ih before, List.findRev?_eq_find?_reverse, List.findRev?_eq_find?_reverse, List.reverse_append]
      simp only [List.reverse_cons, List.reverse_nil, List.nil_append, List.cons_append, List.find?_cons]
      cases last.sameKey key <;> rfl

theorem ofPairs_pairwise : (ofPairs pairs).Pairwise fun p q => p.1.sameKey q.1 = false := by
  have known := ofPairs_exact exact
  have keys : ((ofPairs pairs).map Prod.fst).Pairwise fun a b => b.sameKey a = false :=
    ofPairs_keys exact ▸ pairwise_eraseDupsBy _ _
  refine (List.pairwise_map.1 keys).imp_of_mem fun {p q} first second differ => ?_
  rw [p.1.sameKey_comm (known p.1 (List.mem_map_of_mem first)) (known q.1 (List.mem_map_of_mem second))]
  exact differ

theorem length_ofPairs : (ofPairs pairs).length = (pairs.map (·.1.keyForm?)).eraseDups.length := by
  have forms : ((pairs.map Prod.fst).eraseDupsBy Atom.sameKey).map Atom.keyForm? =
      (pairs.map (·.1.keyForm?)).eraseDups := by
    rw [map_eraseDupsBy _ _ fun a first b second => ?_, List.map_map]
    · rfl
    · rw [Bool.eq_iff_iff, Atom.sameKey_iff (exact a first) (exact b second), beq_iff_eq]
  rw [← forms, List.length_map, ← ofPairs_keys exact, List.length_map]

end Run

/-- Sameness of keys is an equivalence, and a map made from pairs is a finite function on its classes: it has
each key once, in the order in which the keys came first, gives for each key the value of the last pair with it
or nothing, and has as many entries as there are different keys. -/
theorem ofPairs_finite_map (pairs : List (Atom × ValueOf F)) (exact : ∀ pair ∈ pairs, pair.1.IsExact) :
    Equivalence (fun a b : { a : Atom // a.IsExact } => a.1.sameKey b.1 = true) ∧
      (ofPairs pairs).Pairwise (fun p q => p.1.sameKey q.1 = false) ∧
      (ofPairs pairs).map Prod.fst = (pairs.map Prod.fst).eraseDupsBy Atom.sameKey ∧
      (∀ key : Atom, key.IsExact →
        (ofPairs pairs).get? key = (pairs.findRev? (·.1.sameKey key)).map Prod.snd) ∧
      (ofPairs pairs).length = (pairs.map (·.1.keyForm?)).eraseDups.length := by
  have keys : ∀ key ∈ pairs.map Prod.fst, key.IsExact := by
    intro key member
    obtain ⟨pair, inside, rfl⟩ := List.mem_map.1 member
    exact exact pair inside
  exact ⟨Atom.sameKey_equivalence, ofPairs_pairwise keys, ofPairs_keys keys,
    fun _ exactKey => get?_ofPairs keys exactKey, length_ofPairs keys⟩

/-- The integer one and the decimal `1.0` are one key, and so are a string and untyped text. -/
theorem ofPairs_finite_map_across_types :
    let pairs : List (Atom × ValueOf Unit) :=
      [(.integer 1, .integer 10), (.string "a", .integer 20), (.decimal ⟨10, 1⟩, .integer 30),
        (.untyped "a", .empty)]
    (∀ pair ∈ pairs, pair.1.IsExact) ∧
      (ofPairs pairs).map Prod.fst = [.integer 1, .string "a"] ∧
      (ofPairs pairs).get? (.decimal ⟨100, 2⟩) = some (.integer 30) ∧
      (ofPairs pairs).get? (.anyUri "a") = some .empty ∧
      (ofPairs pairs).get? (.integer 2) = none := by
  intro pairs
  have exact : ∀ pair ∈ pairs, pair.1.IsExact := by
    simp [pairs, Atom.IsExact, Decimal.maxScale]
  obtain ⟨-, -, keys, get, -⟩ := ofPairs_finite_map pairs exact
  have hundred : (Atom.decimal ⟨100, 2⟩).IsExact := by simp [Atom.IsExact, Decimal.maxScale]
  exact ⟨exact, keys.trans rfl, (get _ hundred).trans rfl, (get (.anyUri "a") trivial).trans rfl,
    (get (.integer 2) trivial).trans rfl⟩

end Entries

end QueryKernel
