import QueryKernel.Proofs.Number.Word
import QueryKernel.Proofs.Value.Reachable
import QueryKernel.Proofs.Value.Walk
import QueryKernel.Value.Text

/-!
# Ranges in words of 64 bits

The arithmetic of ranges, computed in words of 64 bits: integers are signed, lengths and positions are not, and
each conversion, sum and difference is checked.  No step overflows, and no part of a range is too long for a range.

A length may be 2^63, which no signed word holds.  It is never converted as it stands: what is converted is a
position inside the range or the length less one, and both are at most the distance of two integers of the
range.
-/

namespace QueryKernel

variable {F : Type}

/-! ## The computations -/

/-- The integers that are still to come in a walk through a range. -/
structure WalkWords where
  next : Int64
  left : UInt64

namespace WalkWords

/-- The walk that the words stand for. -/
def walk (w : WalkWords) : Walk F := .range w.next w.left.toNat

/-- The next integer and the walk behind it. -/
def next? (w : WalkWords) : Option (Option Int64 × WalkWords) :=
  if w.left = 0 then some (none, w)
  else do
    let left ← size? (w.left.toNat - 1)
    if left = 0 then some (some w.next, ⟨w.next, left⟩)
    else do
      let next ← long? (w.next.toInt + 1)
      some (some w.next, ⟨next, left⟩)

/-- The next integers, at most the given number, and the walk behind them. -/
def take? : Nat → WalkWords → Option (List Int64 × WalkWords)
  | 0, w => some ([], w)
  | n + 1, w => do
      let (found, w) ← w.next?
      match found with
      | none => some ([], w)
      | some i => do
          let (rest, w) ← take? n w
          some (i :: rest, w)

end WalkWords

/-- The first integer and the length of a range. -/
structure RangeWords where
  first : Int64
  length : UInt64

namespace RangeWords

/-- The range that the words stand for. -/
def range (w : RangeWords) : IntegerRange := ⟨w.first, w.length.toNat⟩

/-- The integer at a position. -/
def get? (w : RangeWords) (i : UInt64) : Option Int64 := do
  let steps ← long? i.toNat
  long? (w.first.toInt + steps.toInt)

/-- The last integer. -/
def last? (w : RangeWords) : Option Int64 := do
  let before ← size? (w.length.toNat - 1)
  let steps ← long? before.toNat
  long? (w.first.toInt + steps.toInt)

/-- The integers between two bounds, both included, unless they are too many. -/
def between? (first last : Int64) : Option (ValueOf F) :=
  if last.toInt < first.toInt then some .empty
  else do
    let span ← size? (last.toInt - first.toInt)
    if IntegerRange.maxLength ≤ span.toNat then none
    else if span = 0 then some (.integer first)
    else do
      let length ← size? (span.toNat + 1)
      some (.range ⟨first, length.toNat⟩)

/-- A walk from a position on.  Positions beyond the end are the end. -/
def walkFrom? (w : RangeWords) (i : UInt64) : Option WalkWords :=
  if i < w.length then do
    let next ← w.get? i
    let left ← size? (w.length.toNat - i.toNat)
    some ⟨next, left⟩
  else some ⟨w.first, 0⟩

/-- Part of a range, which is refused if it goes beyond the end. -/
def slice? (w : RangeWords) (start count : UInt64) : Option (ValueOf F) := do
  let stop ← size? (start.toNat + count.toNat)
  if w.length < stop then none
  else if count = w.length then some (.range w.range)
  else if count = 0 then some .empty
  else do
    let first ← w.get? start
    let i ← size? (stop.toNat - 1)
    let last ← w.get? i
    between? first last

/-- A range without its first integer. -/
def removeFirst? (w : RangeWords) : Option (ValueOf F) := do
  let first ← long? (w.first.toInt + 1)
  let last ← w.last?
  between? first last

/-- A range without its last integer. -/
def removeLast? (w : RangeWords) : Option (ValueOf F) := do
  let last ← w.last?
  let before ← long? (last.toInt - 1)
  between? w.first before

/-- The range made of two adjacent ones, or nothing if they are not adjacent or too long together.  The two tests
are checked, and where they fail there is no overflow but no such range. -/
def join? (w x : RangeWords) : Option (Option RangeWords) := do
  let last ← w.last?
  if long? (last.toInt + 1) = some x.first ∧
      (size? (w.length.toNat + x.length.toNat)).any (·.toNat ≤ IntegerRange.maxLength) then do
    let length ← size? (w.length.toNat + x.length.toNat)
    some (some ⟨w.first, length⟩)
  else some none

/-- The printed form. -/
def text? (w : RangeWords) : Option String := do
  let last ← w.last?
  some ("(" ++ toString w.first.toInt ++ " to " ++ toString last.toInt ++ ")")

/-! ## Steps that do not overflow -/

section Steps

variable {w x : RangeWords}

theorem bounds (valid : w.range.Valid) :
    2 ≤ w.length.toNat ∧ w.length.toNat ≤ 2 ^ 63 ∧ -2 ^ 63 ≤ w.first.toInt ∧
      w.first.toInt + w.length.toNat - 1 < 2 ^ 63 :=
  ⟨valid.least, valid.most, w.first.le_toInt, Int.lt_of_le_sub_one valid.inside⟩

theorem get?_eq (valid : w.range.Valid) {i : UInt64} (inside : i.toNat < w.length.toNat) :
    w.get? i = some (w.range.get i.toNat) := by
  obtain ⟨-, most, -⟩ := bounds valid
  -- A position inside the range is below 2^63, so it is a signed word.
  obtain ⟨steps, steps_eq⟩ := exists_long (i := i.toNat) (by omega) (by omega)
  simp only [get?, long?_of_eq steps steps_eq, Option.bind_eq_bind, Option.bind_some]
  exact long?_of_eq _ (by rw [valid.toInt_get inside, steps_eq]; rfl)

theorem last?_eq (valid : w.range.Valid) : w.last? = some w.range.last := by
  obtain ⟨least, most, -⟩ := bounds valid
  obtain ⟨before, before_eq⟩ := exists_size (i := w.length.toNat - 1) (by omega) (by omega)
  -- The length itself need not be a signed word, but one less is.
  obtain ⟨steps, steps_eq⟩ := exists_long (i := before.toNat) (by omega) (by omega)
  simp only [last?, size?_of_eq before before_eq, long?_of_eq steps steps_eq, Option.bind_eq_bind, Option.bind_some]
  refine long?_of_eq _ ?_
  rw [valid.toInt_last, steps_eq, before_eq]
  exact Int.add_sub_assoc _ _ _

/-- The distance of two integers is an unsigned word, and so is one more if they are not too many. -/
theorem between?_eq (first last : Int64) : (between? first last : Option (ValueOf F)) = ValueOf.range? first last := by
  have most : IntegerRange.maxLength = 2 ^ 63 := rfl
  have low := first.le_toInt
  have high := last.toInt_lt
  unfold between? ValueOf.range?
  by_cases backwards : last.toInt < first.toInt
  · have negative : last.toInt - first.toInt < 0 := by omega
    simp only [if_pos backwards, if_pos negative]
  have forwards : ¬last.toInt - first.toInt < 0 := by omega
  obtain ⟨span, span_eq⟩ := exists_size (i := last.toInt - first.toInt) (by omega) (by omega)
  simp only [if_neg backwards, if_neg forwards, size?_of_eq span span_eq, Option.bind_eq_bind, Option.bind_some]
  by_cases many : IntegerRange.maxLength ≤ span.toNat
  · have tooMany : (IntegerRange.maxLength : Int) ≤ last.toInt - first.toInt := by omega
    rw [if_pos many, if_pos tooMany]
  have few : ¬(IntegerRange.maxLength : Int) ≤ last.toInt - first.toInt := by omega
  have nothing : (span = 0) = (last.toInt - first.toInt = 0) := by
    rw [← span_eq, eq_iff_iff, ← UInt64.toNat_inj]
    exact Int.natCast_eq_zero.symm
  obtain ⟨length, length_eq⟩ := exists_size (i := span.toNat + 1) (by omega) (by omega)
  have same : length.toNat = (last.toInt - first.toInt).toNat + 1 := by omega
  simp only [if_neg many, if_neg few, nothing, size?_of_eq length length_eq, Option.bind_some, same]

theorem exists_range? (first last : Int64) (fits : last.toInt - first.toInt < 2 ^ 63) :
    ∃ v : ValueOf F, ValueOf.range? first last = some v := by
  cases made : (ValueOf.range? first last : Option (ValueOf F)) with
  | some v => exact ⟨v, rfl⟩
  | none =>
      have tooMany := (ValueOf.range?_eq_none_iff first last).1 made
      have most : IntegerRange.maxLength = 2 ^ 63 := rfl
      rw [ValueOf.integersBetween, length_integersFrom] at tooMany
      omega

theorem slice?_eq (valid : w.range.Valid) {start count : UInt64}
    (inside : start.toNat + count.toNat ≤ w.length.toNat) :
    ∃ part : ValueOf F, w.slice? start count = some part ∧
      (ValueOf.range w.range).slice start.toNat count.toNat = .ok part := by
  obtain ⟨least, most, -⟩ := bounds valid
  obtain ⟨stop, stop_eq⟩ := exists_size (i := start.toNat + count.toNat) (by omega) (by omega)
  have size : (ValueOf.range w.range : ValueOf F).size = w.length.toNat := rfl
  have accepted : ¬(ValueOf.range w.range : ValueOf F).size < start.toNat + count.toNat := by omega
  have admitted : ¬w.length < stop := by rw [UInt64.lt_iff_toNat_lt]; omega
  unfold ValueOf.slice
  simp only [slice?, size?_of_eq stop stop_eq, Option.bind_eq_bind, Option.bind_some, if_neg admitted]
  rw [if_neg accepted]
  by_cases all : count = w.length
  · have whole : count.toNat = (ValueOf.range w.range : ValueOf F).size := by rw [size, all]
    exact ⟨_, if_pos all, if_pos whole⟩
  have notAll : ¬count.toNat = (ValueOf.range w.range : ValueOf F).size := fun same => all (UInt64.toNat_inj.1 same)
  rw [if_neg all, if_neg notAll]
  by_cases none : count = 0
  · exact ⟨_, if_pos none, if_pos (by rw [none]; rfl)⟩
  have some : ¬count.toNat = 0 := fun same => none (UInt64.toNat_inj.1 same)
  rw [if_neg none, if_neg some]
  obtain ⟨i, i_eq⟩ := exists_size (i := stop.toNat - 1) (by omega) (by omega)
  have position : i.toNat = start.toNat + count.toNat - 1 := by omega
  have first := valid.toInt_get (i := start.toNat) (show start.toNat < w.length.toNat by omega)
  have last := valid.toInt_get (i := i.toNat) (show i.toNat < w.length.toNat by omega)
  -- Both ends are integers of the range, so they are not too far apart.
  obtain ⟨part, made⟩ := exists_range? (F := F) (w.range.get start.toNat) (w.range.get i.toNat) (by omega)
  refine ⟨part, ?_, ?_⟩
  · simp only [get?_eq valid (i := start) (by omega), size?_of_eq i i_eq, get?_eq valid (i := i) (by omega),
      Option.bind_some, between?_eq, made]
  · rw [← position]
    exact congrArg (fun v => Except.ok (v.getD .empty)) made

theorem removeFirst?_eq (valid : w.range.Valid) :
    ∃ rest : ValueOf F, w.removeFirst? = some rest ∧ (ValueOf.range w.range).remove 0 = .ok rest := by
  obtain ⟨least, most, -⟩ := bounds valid
  have size : (ValueOf.range w.range : ValueOf F).size = w.length.toNat := rfl
  have length : w.range.length = w.length.toNat := rfl
  have first := valid.toInt_get (i := 1) (show 1 < w.length.toNat by omega)
  have last := valid.toInt_last
  obtain ⟨rest, made⟩ := exists_range? (F := F) (w.range.get 1) w.range.last (by omega)
  refine ⟨rest, ?_, ?_⟩
  · have next : long? (w.first.toInt + 1) = some (w.range.get 1) := long?_of_eq _ first
    simp only [removeFirst?, next, last?_eq valid, Option.bind_eq_bind, Option.bind_some, between?_eq, made]
  · unfold ValueOf.remove
    rw [if_neg (by omega)]
    exact congrArg (fun v => Except.ok (v.getD .empty)) made

theorem removeLast?_eq (valid : w.range.Valid) :
    ∃ rest : ValueOf F, w.removeLast? = some rest ∧
      (ValueOf.range w.range).remove (w.range.length - 1) = .ok rest := by
  obtain ⟨least, most, low, high⟩ := bounds valid
  have size : (ValueOf.range w.range : ValueOf F).size = w.length.toNat := rfl
  have length : w.range.length = w.length.toNat := rfl
  have first : w.range.first = w.first := rfl
  have last := valid.toInt_last
  -- There are at least two integers, so there is one before the last.
  have before := valid.toInt_get (i := w.length.toNat - 2) (show w.length.toNat - 2 < w.length.toNat by omega)
  obtain ⟨rest, made⟩ := exists_range? (F := F) w.first (w.range.get (w.length.toNat - 2))
    (by rw [before, first]; omega)
  refine ⟨rest, ?_, ?_⟩
  · have previous : long? (w.range.last.toInt - 1) = some (w.range.get (w.length.toNat - 2)) :=
      long?_of_eq _ (by rw [before, last]; omega)
    simp only [removeLast?, previous, last?_eq valid, Option.bind_eq_bind, Option.bind_some, between?_eq, made]
  · unfold ValueOf.remove
    rw [if_neg (by omega)]
    dsimp only
    rw [if_neg (by omega), if_pos rfl]
    exact congrArg (fun v => Except.ok (v.getD .empty)) made

theorem text?_eq (valid : w.range.Valid) : w.text? = some (ValueOf.range w.range : ValueOf F).text := by
  simp only [text?, last?_eq valid, Option.bind_eq_bind, Option.bind_some]
  rw [ValueOf.text]
  rfl

/-- Two ranges are joined in words exactly if they are joined: where the sum of the lengths has no word, it is
too long for a range. -/
theorem join?_eq (valid : w.range.Valid) :
    ∃ joined, w.join? x = some joined ∧ ValueOf.joinRanges? w.range x.range = joined.map range := by
  unfold join? ValueOf.joinRanges?
  simp only [last?_eq valid, Option.bind_eq_bind, Option.bind_some]
  by_cases adjacent : w.range.last.toInt + 1 = x.range.first.toInt ∧
      w.range.length + x.range.length ≤ IntegerRange.maxLength
  · have most : IntegerRange.maxLength = 2 ^ 63 := rfl
    have fits : w.length.toNat + x.length.toNat ≤ IntegerRange.maxLength := adjacent.2
    obtain ⟨length, length_eq⟩ := exists_size (i := w.length.toNat + x.length.toNat) (by omega) (by omega)
    have next : long? (w.range.last.toInt + 1) = some x.first := long?_of_eq _ adjacent.1.symm
    have total : length.toNat = w.length.toNat + x.length.toNat := by omega
    refine ⟨some ⟨w.first, length⟩, ?_, ?_⟩
    · rw [next, size?_of_eq length length_eq, if_pos ⟨rfl, by simpa [total] using fits⟩]
      rfl
    · rw [if_pos adjacent]
      exact congrArg (fun length => some (IntegerRange.mk w.first length)) total.symm
  · refine ⟨none, if_neg ?_, if_neg adjacent⟩
    rintro ⟨next, fits⟩
    refine adjacent ⟨(long?_eq_some next).symm, ?_⟩
    -- A total that does not fit in a word is too long as well.
    cases found : size? (w.length.toNat + x.length.toNat) with
    | none => rw [found] at fits; cases fits
    | some length =>
        rw [found] at fits
        have total := size?_eq_some found
        have short : length.toNat ≤ IntegerRange.maxLength := by simpa using fits
        have lengths : w.range.length + x.range.length = w.length.toNat + x.length.toNat := rfl
        omega

end Steps

end RangeWords

/-! ## Walks -/

namespace WalkWords

/-- The integers that are still to come exist. -/
def Fits (w : WalkWords) : Prop := 0 < w.left.toNat → w.next.toInt + w.left.toNat - 1 < 2 ^ 63

/-- One step does not overflow, and the steps behind it do not either. -/
theorem Fits.next {w : WalkWords} (fits : w.Fits) :
    ∃ found w', w.next? = some (found, w') ∧ w'.Fits ∧
      (w.walk : Walk F).next = (found.map .integer, w'.walk) := by
  unfold Fits at fits
  by_cases finished : w.left = 0
  · refine ⟨none, w, if_pos finished, fun more => ?_, ?_⟩
    · rw [finished] at more
      cases more
    · rw [walk, finished]
      rfl
  have more : w.left.toNat ≠ 0 := fun zero => finished (UInt64.toNat_inj.1 zero)
  have high := w.left.toNat_lt
  obtain ⟨left, left_eq⟩ := exists_size (i := w.left.toNat - 1) (by omega) (by omega)
  have remaining : w.left.toNat = left.toNat + 1 := by omega
  simp only [next?, if_neg finished, size?_of_eq left left_eq, Option.bind_eq_bind, Option.bind_some]
  -- Behind the last integer no next one is computed: there may be none.
  by_cases atEnd : left = 0
  · refine ⟨some w.next, ⟨w.next, left⟩, if_pos atEnd, fun more => ?_, ?_⟩
    · simp only [atEnd] at more
      cases more
    · rw [walk, remaining, atEnd]
      rfl
  · have further : left.toNat ≠ 0 := fun zero => atEnd (UInt64.toNat_inj.1 zero)
    have low := w.next.le_toInt
    have inside := fits (by omega)
    have next_eq : (w.next + 1).toInt = w.next.toInt + 1 := by
      rw [Int64.toInt_add, show Int64.toInt 1 = 1 from rfl, Int.bmod_eq_of_le] <;> omega
    obtain ⟨rest, rest_eq⟩ := Nat.exists_eq_succ_of_ne_zero further
    refine ⟨some w.next, ⟨w.next + 1, left⟩, ?_, fun _ => ?_, ?_⟩
    · rw [if_neg atEnd, long?_of_eq _ next_eq]
      rfl
    · simp only [next_eq]
      omega
    · rw [walk, remaining, rest_eq, walk, rest_eq]
      rfl

/-- No walk overflows, however far it goes. -/
theorem Fits.take {w : WalkWords} (fits : w.Fits) (n : Nat) :
    ∃ found w', w.take? n = some (found, w') ∧ (w.walk : Walk F).take n = (found.map .integer, w'.walk) := by
  induction n generalizing w with
  | zero => exact ⟨[], w, rfl, rfl⟩
  | succ n n_ih =>
      obtain ⟨found, w', stepped, fits', same⟩ := fits.next (F := F)
      simp only [take?, stepped, Option.bind_eq_bind, Option.bind_some, Walk.take, same]
      cases found with
      | none => exact ⟨[], w', rfl, rfl⟩
      | some i =>
          obtain ⟨rest, last, ran, taken⟩ := n_ih fits'
          refine ⟨i :: rest, last, ?_, ?_⟩
          · simp only [ran, Option.bind_some]
          · simp only [Option.map_some, taken, List.map_cons]

end WalkWords

theorem RangeWords.walkFrom?_eq {w : RangeWords} (valid : w.range.Valid) (i : UInt64) :
    ∃ started, w.walkFrom? i = some started ∧ started.Fits ∧
      ((ValueOf.range w.range).walkFrom i.toNat : Walk F) = started.walk := by
  obtain ⟨least, most, low, high⟩ := bounds valid
  have length : w.range.length = w.length.toNat := rfl
  unfold walkFrom? ValueOf.walkFrom
  by_cases inside : i < w.length
  · have before : i.toNat < w.range.length := UInt64.lt_iff_toNat_lt.1 inside
    have next := valid.toInt_get before
    have first : w.range.first = w.first := rfl
    obtain ⟨left, left_eq⟩ := exists_size (i := w.length.toNat - i.toNat) (by omega) (by omega)
    refine ⟨⟨w.range.get i.toNat, left⟩, ?_, fun _ => ?_, ?_⟩
    · rw [if_pos inside, get?_eq valid before, size?_of_eq left left_eq]
      rfl
    · simp only [next, first]
      omega
    · have same : w.range.length - i.toNat = left.toNat := by omega
      simp only [if_pos before, WalkWords.walk, same]
  · have beyond : ¬i.toNat < w.range.length := fun before => inside (UInt64.lt_iff_toNat_lt.2 before)
    refine ⟨⟨w.first, 0⟩, if_neg inside, fun more => ?_, ?_⟩
    · cases more
    · simp only [if_neg beyond]
      rfl

/-! ## All ranges there are -/

namespace ValueOf

/-- Made by operations, like all members of arrays and all values of maps that are in it. -/
inductive Composed : ValueOf F → Prop where
  | intro {v : ValueOf F} (reachable : v.Reachable)
      (members : ∀ identity members type, .array identity members type ∈ v.items → ∀ member ∈ members, Composed member)
      (entries : ∀ identity entries type, .map identity entries type ∈ v.items → ∀ entry ∈ entries, Composed entry.2) :
      Composed v

/-- The ranges in a value: it is one itself, or has them in its arrays and maps. -/
inductive HasRange : ValueOf F → IntegerRange → Prop where
  | itself (r : IntegerRange) : HasRange (.range r) r
  | member {v : ValueOf F} {identity : Nat} {members : List (ValueOf F)} {type : ItemType} {member : ValueOf F}
      {r : IntegerRange} (array : .array identity members type ∈ v.items) (inside : member ∈ members)
      (has : HasRange member r) : HasRange v r
  | entry {v : ValueOf F} {identity : Nat} {entries : List (Atom × ValueOf F)} {type : ItemType}
      {entry : Atom × ValueOf F} {r : IntegerRange} (map : .map identity entries type ∈ v.items)
      (inside : entry ∈ entries) (has : HasRange entry.2 r) : HasRange v r

theorem HasRange.valid {v : ValueOf F} {r : IntegerRange} (has : v.HasRange r) (composed : v.Composed) : r.Valid := by
  induction has with
  | itself r =>
      obtain ⟨reachable, -, -⟩ := composed
      exact reachable.valid
  | member array inside _ has_ih =>
      obtain ⟨-, members, -⟩ := composed
      exact has_ih (members _ _ _ array _ inside)
  | entry map inside _ has_ih =>
      obtain ⟨-, -, entries⟩ := composed
      exact has_ih (entries _ _ _ map _ inside)

end ValueOf

/-- Each operation on the range, computed in words, gives what the operation gives, for every position that is
admitted. -/
structure RangeWords.Computes (F : Type) (w : RangeWords) : Prop where
  itemAt : ∀ i : UInt64, i.toNat < w.range.length →
    ∃ n, w.get? i = some n ∧ (ValueOf.range w.range : ValueOf F).itemAt i.toNat = .ok (.integer n)
  last : w.last? = some w.range.last
  walk : ∀ (i : UInt64) (n : Nat), ∃ started found rest, w.walkFrom? i = some started ∧
    started.take? n = some (found, rest) ∧
    ((ValueOf.range w.range : ValueOf F).walkFrom i.toNat).take n = (found.map .integer, rest.walk)
  slice : ∀ start count : UInt64, start.toNat + count.toNat ≤ w.range.length →
    ∃ part : ValueOf F, w.slice? start count = some part ∧
      (ValueOf.range w.range).slice start.toNat count.toNat = .ok part
  removeFirst : ∃ rest : ValueOf F, w.removeFirst? = some rest ∧ (ValueOf.range w.range).remove 0 = .ok rest
  removeLast : ∃ rest : ValueOf F, w.removeLast? = some rest ∧
    (ValueOf.range w.range).remove (w.range.length - 1) = .ok rest
  text : w.text? = some (ValueOf.range w.range : ValueOf F).text

theorem RangeWords.computes {w : RangeWords} (valid : w.range.Valid) : w.Computes F where
  itemAt := by
    intro i inside
    refine ⟨_, get?_eq valid inside, ?_⟩
    rw [ValueOf.itemAt, ValueOf.get?, if_pos inside]
  last := last?_eq valid
  walk := by
    intro i n
    obtain ⟨started, made, fits, same⟩ := walkFrom?_eq (F := F) valid i
    obtain ⟨found, rest, ran, taken⟩ := fits.take (F := F) n
    exact ⟨started, found, rest, made, ran, same ▸ taken⟩
  slice := fun _ _ inside => slice?_eq valid inside
  removeFirst := removeFirst?_eq valid
  removeLast := removeLast?_eq valid
  text := text?_eq valid

/-- The words of a range that is not too long. -/
def IntegerRange.words (r : IntegerRange) : RangeWords := ⟨r.first, .ofNat r.length⟩

theorem IntegerRange.Valid.range_words {r : IntegerRange} (valid : r.Valid) : r.words.range = r := by
  have most := valid.most
  have largest : maxLength = 2 ^ 63 := rfl
  have fits : r.length < UInt64.size := by
    rw [show UInt64.size = 2 ^ 64 from rfl]
    omega
  rw [words, RangeWords.range, UInt64.toNat_ofNat_of_lt' fits]

/-- Every range in a value that operations can make has between 2 and 2^63 integers, and a last one.  It fits in
words of 64 bits; each operation on it is computed in checked words without an overflow, and never meets a range
that is too long; and so is the concatenation with any other such range, which is one range if they are adjacent
and not too long together. -/
theorem ranges_computed_in_words {v : ValueOf F} (composed : v.Composed) {r : IntegerRange} (has : v.HasRange r) :
    (2 ≤ r.length ∧ r.length ≤ 2 ^ 63 ∧ r.last.toInt = r.first.toInt + r.length - 1) ∧
      r.words.range = r ∧ r.words.Computes F ∧
      ∀ (v' : ValueOf F) (s : IntegerRange), v'.Composed → v'.HasRange s →
        ∃ joined, r.words.join? s.words = some joined ∧
          (joined.isSome ↔ r.last.toInt + 1 = s.first.toInt ∧ r.length + s.length ≤ 2 ^ 63) ∧
          ∀ t, joined = some t → (ValueOf.range r : ValueOf F).append (.range s) = .range t.range := by
  have valid := has.valid composed
  have same := valid.range_words
  refine ⟨⟨valid.least, valid.most, valid.toInt_last⟩, same, RangeWords.computes (same.symm ▸ valid), ?_⟩
  intro v' s composed' has'
  have same' := (has'.valid composed').range_words
  obtain ⟨joined, made, together⟩ := RangeWords.join?_eq (x := s.words) (same.symm ▸ valid : r.words.range.Valid)
  rw [same, same'] at together
  refine ⟨joined, made, ?_, ?_⟩
  · have decided : joined.isSome = (ValueOf.joinRanges? r s).isSome := by rw [together, Option.isSome_map]
    rw [decided, ValueOf.joinRanges?, show (2 ^ 63 : Nat) = IntegerRange.maxLength from rfl]
    by_cases adjacent : r.last.toInt + 1 = s.first.toInt ∧ r.length + s.length ≤ IntegerRange.maxLength
    · rw [if_pos adjacent]
      exact ⟨fun _ => adjacent, fun _ => rfl⟩
    · rw [if_neg adjacent]
      exact ⟨fun none => (Bool.false_ne_true none).elim, fun both => (adjacent both).elim⟩
  · rintro t rfl
    rw [ValueOf.append, together]
    rfl

/-- The longest range from zero on, in an array: its last integer is the greatest one. -/
theorem ranges_computed_in_words_longest :
    let r : IntegerRange := ⟨0, 2 ^ 63⟩
    let v : ValueOf Unit := .one (.array 0 [.range r] (.function .array))
    v.Composed ∧ v.HasRange r ∧ r.words.last? = some Int64.maxValue ∧ r.words.Computes Unit := by
  intro r v
  have made : ValueOf.range? 0 Int64.maxValue = some (.range r : ValueOf Unit) := rfl
  have inner : (.range r : ValueOf Unit).Composed := by
    refine ⟨.range made, ?_, ?_⟩
    · intro identity members type array
      obtain ⟨i, _, same⟩ := List.mem_map.1 array
      cases same
    · intro identity entries type map
      obtain ⟨i, _, same⟩ := List.mem_map.1 map
      cases same
  have composed : v.Composed := by
    refine ⟨.ofItems [.array 0 [.range r] (.function .array)], ?_, ?_⟩
    · intro identity members type array member inside
      cases List.mem_singleton.1 array
      rwa [List.mem_singleton.1 inside]
    · intro identity entries type map
      cases List.mem_singleton.1 map
  have has : v.HasRange r := .member (List.mem_singleton_self _) (List.mem_singleton_self _) (.itself r)
  obtain ⟨⟨-, -, last⟩, same, computes, -⟩ := ranges_computed_in_words composed has
  have greatest : r.first.toInt + r.length - 1 = Int64.maxValue.toInt := by decide +kernel
  refine ⟨composed, has, ?_, computes⟩
  rw [computes.last, same, Int64.toInt_inj.1 (last.trans greatest)]

end QueryKernel
