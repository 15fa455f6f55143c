import QueryKernel.Eval.Run
import QueryKernel.Proofs.Eval.Keeps
import QueryKernel.Proofs.Number.Word

/-!
# Integers in texts

Which texts count as integers: digits with at most one sign, and blanks around them.  A text that is read has
one more form, though: in front of an integer, whether it has a sign or not, a plus sign does no harm.

The work is in `signedDigits?_eq_some_iff`: the number that the digits are worth by their places is the one that
is computed digit by digit.

## Definitions

* `placeValue` is the number that decimal digits stand for.
* `WritesInteger` relates characters to the integer that they write, `IsIntegerText` texts.
* `IsDoublySigned` has the texts with a plus sign in front of another sign.
-/

namespace QueryKernel

/-! ## Blanks -/

/-- Some characters with blanks before and after them. -/
def Surrounds (s inner : List Char) : Prop :=
  ∃ before after, s = before ++ inner ++ after ∧ (∀ c ∈ before, isBlank c = true) ∧
    ∀ c ∈ after, isBlank c = true

theorem blank_of_mem_takeWhile {s : List Char} (c : Char) (member : c ∈ s.takeWhile isBlank) :
    isBlank c = true :=
  List.all_eq_true.1 List.all_takeWhile c member

theorem surrounds_trimBlanks (s : List Char) : Surrounds s (trimBlanks s) := by
  have front : s = s.takeWhile isBlank ++ s.dropWhile isBlank := List.takeWhile_append_dropWhile.symm
  have back : (s.dropWhile isBlank).reverse = (s.dropWhile isBlank).reverse.takeWhile isBlank ++
      (s.dropWhile isBlank).reverse.dropWhile isBlank := List.takeWhile_append_dropWhile.symm
  refine ⟨s.takeWhile isBlank, ((s.dropWhile isBlank).reverse.takeWhile isBlank).reverse, ?_,
    blank_of_mem_takeWhile, fun c member => blank_of_mem_takeWhile c (List.mem_reverse.1 member)⟩
  rw [trimBlanks, List.append_assoc, ← List.reverse_append, ← back, List.reverse_reverse]
  exact front

theorem dropWhile_blanks {before : List Char} (blank : ∀ c ∈ before, isBlank c = true) (solid rest : List Char)
    (some : solid ≠ []) (visible : ∀ c ∈ solid, isBlank c = false) :
    (before ++ (solid ++ rest)).dropWhile isBlank = solid ++ rest := by
  rw [List.dropWhile_append_of_pos blank]
  cases solid with
  | nil => exact absurd rfl some
  | cons first others =>
      exact List.dropWhile_cons_of_neg (by rw [visible first List.mem_cons_self]; decide)

/-- What is left without blanks is what they surround. -/
theorem Surrounds.trimBlanks_eq {s inner : List Char} (surrounds : Surrounds s inner) (some : inner ≠ [])
    (visible : ∀ c ∈ inner, isBlank c = false) : trimBlanks s = inner := by
  obtain ⟨before, after, rfl, front, back⟩ := surrounds
  have reversed := dropWhile_blanks (fun c member => back c (List.mem_reverse.1 member)) inner.reverse []
    (by simpa using some) (fun c member => visible c (List.mem_reverse.1 member))
  rw [List.append_nil] at reversed
  rw [trimBlanks, List.append_assoc, dropWhile_blanks front inner after some visible, List.reverse_append, reversed,
    List.reverse_reverse]

/-- Blanks in front of something that is none are easy to find. -/
theorem Surrounds.dropWhile_eq {s inner : List Char} {c : Char} (surrounds : Surrounds s (c :: inner))
    (visible : isBlank c = false) : ∃ after, s.dropWhile isBlank = c :: (inner ++ after) := by
  obtain ⟨before, after, rfl, front, -⟩ := surrounds
  have dropped := dropWhile_blanks front [c] (inner ++ after) (List.cons_ne_nil c [])
    (List.forall_mem_singleton.2 visible)
  rw [List.singleton_append] at dropped
  exact ⟨after, by rw [List.append_assoc]; exact dropped⟩

/-! ## Digits -/

/-- The number that decimal digits stand for: each one counts as often as its place asks for. -/
def placeValue : List Char → Nat
  | [] => 0
  | c :: rest => (c.toNat - '0'.toNat) * tenTo rest.length + placeValue rest

theorem foldl_digits_none (digits : List Char) :
    digits.foldl (fun total c => total.bind fun n =>
      if c.isDigit then some (10 * n + (c.toNat - '0'.toNat)) else none) none = none := by
  induction digits with
  | nil => rfl
  | cons c rest rest_ih => exact rest_ih

theorem foldl_digits_eq_some_iff {digits : List Char} {total n : Nat} :
    digits.foldl (fun total c => total.bind fun n =>
      if c.isDigit then some (10 * n + (c.toNat - '0'.toNat)) else none) (some total) = some n ↔
      (∀ c ∈ digits, c.isDigit = true) ∧ total * tenTo digits.length + placeValue digits = n := by
  induction digits generalizing total with
  | nil => simp [placeValue, tenTo_zero]
  | cons c rest rest_ih =>
      rw [List.foldl_cons, Option.bind_some, List.forall_mem_cons]
      by_cases digit : c.isDigit = true
      · have shifted : total * tenTo (rest.length + 1) + placeValue (c :: rest) =
            (10 * total + (c.toNat - '0'.toNat)) * tenTo rest.length + placeValue rest := by
          rw [placeValue, tenTo_succ, Nat.add_mul, Nat.mul_comm 10 total, Nat.mul_assoc, Nat.mul_comm 10,
            Nat.add_assoc]
        rw [if_pos digit, rest_ih, List.length_cons, shifted, and_iff_right digit]
      · rw [if_neg digit, foldl_digits_none]
        exact iff_of_false (fun found => by cases found) fun given => digit given.1.1

theorem digitsValue?_eq_some_iff {digits : List Char} {n : Nat} :
    digitsValue? digits = some n ↔ (∀ c ∈ digits, c.isDigit = true) ∧ placeValue digits = n := by
  rw [digitsValue?, foldl_digits_eq_some_iff, Nat.zero_mul, Nat.zero_add]

/-! ## Integers -/

/-- One or more decimal digits. -/
def IsDigits (digits : List Char) : Prop := digits ≠ [] ∧ ∀ c ∈ digits, c.isDigit = true

/-- The characters write the integer: digits, and at most one sign before them. -/
inductive WritesInteger : List Char → Int → Prop where
  | unsigned {digits : List Char} (number : IsDigits digits) : WritesInteger digits (placeValue digits)
  | plus {digits : List Char} (number : IsDigits digits) : WritesInteger ('+' :: digits) (placeValue digits)
  | minus {digits : List Char} (number : IsDigits digits) : WritesInteger ('-' :: digits) (-placeValue digits)

/-- Digits behind a sign that has been taken off. -/
theorem unsignedDigits_eq_some_iff {negative : Bool} {digits : List Char} {i : Int} :
    (if digits.isEmpty then none
      else (digitsValue? digits).map fun n => if negative then -Int.ofNat n else Int.ofNat n) = some i ↔
      IsDigits digits ∧ (if negative then -Int.ofNat (placeValue digits) else Int.ofNat (placeValue digits)) = i := by
  cases digits with
  | nil => exact iff_of_false (fun found => by cases found) fun given => given.1.1 rfl
  | cons c rest =>
      rw [List.isEmpty_cons, if_neg Bool.false_ne_true, Option.map_eq_some_iff, IsDigits,
        and_iff_right (List.cons_ne_nil c rest)]
      constructor
      · rintro ⟨n, found, same⟩
        obtain ⟨all, rfl⟩ := digitsValue?_eq_some_iff.1 found
        exact ⟨all, same⟩
      · rintro ⟨all, same⟩
        exact ⟨_, digitsValue?_eq_some_iff.2 ⟨all, rfl⟩, same⟩

theorem signedDigits?_eq (s : List Char) : signedDigits? s =
    if (splitSign s).2.isEmpty then none
    else (digitsValue? (splitSign s).2).map fun n =>
      if (splitSign s).1 then -Int.ofNat n else Int.ofNat n := by
  unfold signedDigits?
  dsimp only
  cases digitsValue? (splitSign s).2 <;> rfl

theorem signedDigits?_eq_some_iff {s : List Char} {i : Int} : signedDigits? s = some i ↔ WritesInteger s i := by
  rw [signedDigits?_eq, unsignedDigits_eq_some_iff]
  constructor
  · unfold splitSign
    split
    · rintro ⟨number, rfl⟩
      exact .minus number
    · rintro ⟨number, rfl⟩
      exact .plus number
    · rintro ⟨number, rfl⟩
      exact .unsigned number
  · intro writes
    cases writes with
    | minus number => exact ⟨number, rfl⟩
    | plus number => exact ⟨number, rfl⟩
    | unsigned number =>
        have unsigned : splitSign s = (false, s) := by
          unfold splitSign
          split
          · exact absurd (number.2 _ List.mem_cons_self) (by decide)
          · exact absurd (number.2 _ List.mem_cons_self) (by decide)
          · rfl
        rw [unsigned]
        exact ⟨number, rfl⟩

theorem isBlank_of_isDigit {c : Char} (digit : c.isDigit = true) : isBlank c = false := by
  have bounds := Char.isDigit_iff_toNat.1 digit
  rw [show '0'.toNat = 48 from rfl, show '9'.toNat = 57 from rfl] at bounds
  simp only [isBlank, Bool.or_eq_false_iff, Bool.and_eq_false_iff, decide_eq_false_iff_not, beq_eq_false_iff_ne]
  omega

theorem WritesInteger.visible {s : List Char} {i : Int} (writes : WritesInteger s i) :
    s ≠ [] ∧ ∀ c ∈ s, isBlank c = false := by
  cases writes with
  | unsigned number => exact ⟨number.1, fun c member => isBlank_of_isDigit (number.2 c member)⟩
  | plus number | minus number =>
      exact ⟨List.cons_ne_nil _ _, List.forall_mem_cons.2
        ⟨by decide, fun c member => isBlank_of_isDigit (number.2 c member)⟩⟩

/-- The text is an integer with blanks around it. -/
def IsIntegerText (s : String) (i : Int) : Prop := ∃ inner, Surrounds s.toList inner ∧ WritesInteger inner i

/-- The text is an integer behind one more plus sign, with blanks around it. -/
def IsPlusIntegerText (s : String) (i : Int) : Prop :=
  ∃ inner, Surrounds s.toList ('+' :: inner) ∧ WritesInteger inner i

/-- The text has a plus sign in front of another sign, with blanks around it. -/
def IsDoublySigned (s : String) : Prop :=
  ∃ sign inner, (sign = '+' ∨ sign = '-') ∧ Surrounds s.toList ('+' :: sign :: inner)

theorem IsDoublySigned.dropWhile_eq {s : String} (double : IsDoublySigned s) :
    ∃ rest, s.toList.dropWhile isBlank = '+' :: rest := by
  obtain ⟨sign, inner, -, surrounds⟩ := double
  obtain ⟨after, dropped⟩ := surrounds.dropWhile_eq (by decide)
  exact ⟨_, dropped⟩

/-- A plus sign in front of digits is their only sign. -/
theorem IsPlusIntegerText.single {s : String} {i : Int} (written : IsPlusIntegerText s i)
    (single : ¬IsDoublySigned s) : IsIntegerText s i := by
  obtain ⟨inner, surrounds, writes⟩ := written
  cases writes with
  | unsigned number => exact ⟨_, surrounds, .plus number⟩
  | plus number => exact absurd ⟨'+', _, .inl rfl, surrounds⟩ single
  | minus number => exact absurd ⟨'-', _, .inr rfl, surrounds⟩ single

/-- The plus sign of an integer may be taken off. -/
theorem WritesInteger.of_plus {rest : List Char} {i : Int} (writes : WritesInteger ('+' :: rest) i) :
    WritesInteger rest i := by
  cases writes with
  | unsigned number => exact absurd (number.2 '+' List.mem_cons_self) (by decide)
  | plus number => exact .unsigned number

theorem readInteger?_eq_some_iff {s : String} {n : Int64} :
    readInteger? s = some n ↔ IsIntegerText s n.toInt ∨ IsPlusIntegerText s n.toInt := by
  have word : ∀ number : List Char,
      (signedDigits? number).bind long? = some n ↔ WritesInteger number n.toInt := by
    intro number
    rw [Option.bind_eq_some_iff, ← signedDigits?_eq_some_iff]
    constructor
    · rintro ⟨i, found, fits⟩
      rw [found, long?_eq_some fits]
    · intro found
      exact ⟨n.toInt, found, long?_toInt n⟩
  unfold readInteger?
  dsimp only
  constructor
  · have surrounds := surrounds_trimBlanks s.toList
    split
    · next rest trimmed =>
        rw [trimmed] at surrounds
        exact fun found => .inr ⟨rest, surrounds, (word rest).1 found⟩
    · exact fun found => .inl ⟨_, surrounds, (word _).1 found⟩
  · rintro (⟨inner, surrounds, writes⟩ | ⟨inner, surrounds, writes⟩)
    -- What is written has no blanks at its ends, so that trimming finds it again.
    · obtain ⟨some, visible⟩ := writes.visible
      rw [surrounds.trimBlanks_eq some visible]
      split
      · exact (word _).2 writes.of_plus
      · exact (word _).2 writes
    · have visible : ∀ c ∈ '+' :: inner, isBlank c = false :=
        List.forall_mem_cons.2 ⟨by decide, writes.visible.2⟩
      rw [surrounds.trimBlanks_eq (List.cons_ne_nil _ _) visible]
      exact (word _).2 writes

/-! ## Untyped atoms -/

namespace Modes

variable {m : Modes} {s : String} {c c' : Context}

/-- Both ways to ask for an integer come to the same once there is an untyped atom. -/
theorem toLong_untyped (found : m.atomItem c = (.ok (some (.untyped s)), c')) :
    m.toLong c = m.longOf (.untyped s) c' ∧ m.toLong? c = (some <$> m.longOf (.untyped s)) c' := by
  constructor
  · have expected : m.expectAtom .integer c = (.ok (.untyped s), c') := by
      rw [expectAtom, Eval.bind_apply, found]
      rfl
    rw [toLong, Eval.bind_apply, expected]
  · rw [toLong?, Eval.bind_apply, found]
    rfl

theorem atomItem_literal (a : Atom) (c : Context) :
    (Expr.literal (.one (.atom a))).run.atomItem c = (.ok (some a), c) := by
  have atoms : (ItemOf.atom a : Item).atoms = .ok [a] := by
    rw [ItemOf.atoms, ItemOf.atomize]
    rfl
  have asked : (Expr.literal (.one (.atom a))).run.item c = (.ok (some (.atom a)), c) := rfl
  simp only [atomItem, Eval.bind_apply, asked, atoms]
  rfl

theorem longOf_of_read {n : Int64} (read : readInteger? s = some n) : m.longOf (.untyped s) = pure n := by
  rw [longOf, read]

theorem longOf_of_misread (misread : readInteger? s = none) :
    m.longOf (.untyped s) = m.misread s .integer false := by
  rw [longOf, misread]

end Modes

/-- An integer of 64 bits is read from its text, with blanks around it and even behind one more plus sign, and from
no other text; where there is no other sign for the plus sign to stand before, these are the texts of integers.  An
untyped atom with such a text counts as the integer, and any other one is an error. -/
theorem untyped_integer_read (s : String) :
    (∀ n, readInteger? s = some n ↔ IsIntegerText s n.toInt ∨ IsPlusIntegerText s n.toInt) ∧
    (¬IsDoublySigned s → ∀ n, readInteger? s = some n ↔ IsIntegerText s n.toInt) ∧
    ∀ (m : Modes) (c c' : Context), m.atomItem c = (.ok (some (.untyped s)), c') →
      (∀ n, readInteger? s = some n → m.toLong c = (.ok n, c') ∧ m.toLong? c = (.ok (some n), c')) ∧
      (readInteger? s = none → ∃ e : Error, e.code = ErrorCode.FORG0001.expandedName ∧
        m.toLong c = (.error (.error e), c') ∧ m.toLong? c = (.error (.error e), c')) := by
  refine ⟨fun n => readInteger?_eq_some_iff, fun single n => ?_, fun m c c' found => ?_⟩
  · rw [readInteger?_eq_some_iff]
    constructor
    · rintro (text | text)
      · exact text
      · exact text.single single
    · exact .inl
  · obtain ⟨long, optional⟩ := Modes.toLong_untyped found
    constructor
    · intro n read
      rw [long, optional, Modes.longOf_of_read read]
      exact ⟨rfl, rfl⟩
    · intro misread
      rw [long, optional, Modes.longOf_of_misread misread]
      exact ⟨⟨.wrongForm (.atom (.untyped s)) .integer false, m.location⟩, rfl, rfl, rfl⟩

/-- The least integer between blanks is an integer and read, and the one after the greatest is an error. -/
theorem untyped_integer_read_edges :
    let c := Context.initial {}
    IsIntegerText " -9223372036854775808\n" (Int64.toInt .minValue) ∧
    ((Expr.literal (.one (.atom (.untyped " -9223372036854775808\n")))).run.toLong c = (.ok .minValue, c)) ∧
    ∃ e : Error, e.code = ErrorCode.FORG0001.expandedName ∧
      (Expr.literal (.one (.atom (.untyped "9223372036854775808")))).run.toLong c = (.error (.error e), c) := by
  intro c
  obtain ⟨-, single, least⟩ := untyped_integer_read " -9223372036854775808\n"
  obtain ⟨-, -, beyond⟩ := untyped_integer_read "9223372036854775808"
  have read : readInteger? " -9223372036854775808\n" = some .minValue := by decide +kernel
  have negative : ¬IsDoublySigned " -9223372036854775808\n" := by
    intro double
    obtain ⟨rest, dropped⟩ := double.dropWhile_eq
    have minus : (" -9223372036854775808\n".toList.dropWhile isBlank).head? = some '-' := by decide +kernel
    rw [dropped] at minus
    cases minus
  refine ⟨(single negative _).1 read, ((least _ c c (Modes.atomItem_literal _ c)).1 _ read).1, ?_⟩
  obtain ⟨e, code, failed, -⟩ := (beyond _ c c (Modes.atomItem_literal _ c)).2 (by decide +kernel)
  exact ⟨e, code, failed⟩

/-- Two plus signs are one too many for an integer, and still it is read. -/
theorem doubly_signed_text_read :
    readInteger? "++5" = some 5 ∧ ¬∃ i, IsIntegerText "++5" i := by
  refine ⟨by decide +kernel, ?_⟩
  rintro ⟨i, inner, surrounds, writes⟩
  obtain ⟨some, visible⟩ := writes.visible
  have unread : signedDigits? (trimBlanks "++5".toList) = none := by decide +kernel
  rw [surrounds.trimBlanks_eq some visible, signedDigits?_eq_some_iff.2 writes] at unread
  cases unread

end QueryKernel
