import QueryKernel.Calendar

/-!
# Texts of durations

No two durations have the same text, as long as months and seconds do not have opposite signs.

This is shown by reading: months and seconds are found again in the text.  Everything rests on `adds_part`: a
part that is left out because it is zero would add nothing.  The letter of the months is that of the minutes
too, so the reader has to know whether it is behind the `T`.

## Definitions

* `DurationReading` is what has been read of a text, `DurationReading.next` reads one more character.
* `readDuration` has the months and seconds of a text.
* `OneSigned` says that months and seconds do not have opposite signs.
-/

namespace QueryKernel

/-- What has been read of the text of a duration. -/
structure DurationReading where
  negative : Bool
  /-- Whether the `T` has been read. -/
  timed : Bool
  /-- The digits since the last letter. -/
  number : Nat
  months : Nat
  seconds : Nat

namespace DurationReading

/-- At the start of a text. -/
def start : DurationReading := ⟨false, false, 0, 0, 0⟩

/-- The months and seconds of a unit.  Behind the `T` minutes have the letter that months have before it. -/
def unit? (timed : Bool) : Char → Option (Nat × Nat)
  | 'Y' => some (12, 0)
  | 'M' => some (if timed then (0, 60) else (1, 0))
  | 'D' => some (0, 86400)
  | 'H' => some (0, 3600)
  | 'S' => some (0, 1)
  | _ => none

/-- Reads a letter: a unit with the number in front of it, the `T` or the sign. -/
def letter (r : DurationReading) (c : Char) : DurationReading :=
  match unit? r.timed c with
  | some (months, seconds) =>
      { r with number := 0, months := r.months + months * r.number, seconds := r.seconds + seconds * r.number }
  | none =>
      if c = 'T' then { r with timed := true }
      else if c = '-' then { r with negative := true }
      else r

/-- Reads a character. -/
def next (r : DurationReading) (c : Char) : DurationReading :=
  if c.isDigit then { r with number := 10 * r.number + (c.toNat - '0'.toNat) } else r.letter c

/-- Reads a text. -/
def read (r : DurationReading) (text : String) : DurationReading := text.toList.foldl next r

theorem read_append (r : DurationReading) (a b : String) : r.read (a ++ b) = (r.read a).read b := by
  rw [read, read, read, String.toList_append, List.foldl_append]

theorem foldl_digits (r : DurationReading) {digits : List Char} (all : ∀ c ∈ digits, c.isDigit = true) :
    digits.foldl next r = { r with number := Nat.ofDigitChars 10 digits r.number } := by
  induction digits generalizing r with
  | nil => rfl
  | cons c rest rest_ih =>
      have read : r.next c = { r with number := 10 * r.number + (c.toNat - '0'.toNat) } :=
        if_pos (all c List.mem_cons_self)
      rw [List.foldl_cons, read, rest_ih _ fun other member => all other (List.mem_cons_of_mem _ member)]
      rfl

/-- Behind a letter, a number is the one that its digits write. -/
theorem read_number {r : DurationReading} (behind : r.number = 0) (n : Nat) :
    r.read (toString n) = { r with number := n } := by
  have digits : ∀ c ∈ Nat.toDigits 10 n, c.isDigit = true :=
    fun c member => Nat.isDigit_of_mem_toDigits (by decide) (by decide) member
  rw [read, Nat.toString_eq_repr, Nat.toList_repr, foldl_digits r digits, behind, Nat.ofDigitChars_ten_toDigits]

/-! ## Parts -/

/-- Behind a letter, and behind the `T` or not, the text adds so many months and seconds. -/
def Adds (text : String) (timed : Bool) (months seconds : Nat) : Prop :=
  ∀ r : DurationReading, r.number = 0 → r.timed = timed →
    r.read text = { r with months := r.months + months, seconds := r.seconds + seconds }

variable {a b : String} {timed : Bool} {months seconds months' seconds' : Nat}

theorem Adds.append (first : Adds a timed months seconds) (second : Adds b timed months' seconds') :
    Adds (a ++ b) timed (months + months') (seconds + seconds') := by
  intro r behind same
  rw [read_append, first r behind same]
  have both := second { r with months := r.months + months, seconds := r.seconds + seconds } behind same
  rwa [Nat.add_assoc, Nat.add_assoc] at both

/-- A number with its unit, or nothing if it is zero. -/
def partText (n : Nat) (unit : String) : String := if n = 0 then "" else toString n ++ unit

/-- A part that is left out would add nothing. -/
theorem adds_part {unit : String} {c : Char} (single : unit.toList = [c]) (plain : c.isDigit = false)
    (found : unit? timed c = some (months, seconds)) (n : Nat) :
    Adds (partText n unit) timed (months * n) (seconds * n) := by
  intro r behind same
  unfold partText
  split
  · next zero =>
      subst zero
      rfl
  · have last : ∀ r : DurationReading, r.read unit = r.letter c := by
      intro r
      rw [read, single]
      exact if_neg (by rw [plain]; exact Bool.false_ne_true)
    rw [read_append, read_number behind, last, letter, same, found, ← behind]

/-- Years, months and days. -/
def dateText (months days : Nat) : String :=
  partText (months / 12) "Y" ++ partText (months % 12) "M" ++ partText days "D"

/-- Hours, minutes and seconds. -/
def timeText (seconds : Nat) : String :=
  partText (seconds / 3600) "H" ++ partText (seconds % 3600 / 60) "M" ++ partText (seconds % 60) "S"

theorem adds_dateText (months days : Nat) : Adds (dateText months days) false months (86400 * days) := by
  have added : Adds (dateText months days) false (12 * (months / 12) + 1 * (months % 12) + 0 * days)
      (0 * (months / 12) + 0 * (months % 12) + 86400 * days) :=
    ((adds_part rfl rfl rfl _).append (adds_part rfl rfl rfl _)).append (adds_part rfl rfl rfl _)
  -- Years and months are the quotient and the remainder of all months.
  rwa [show 12 * (months / 12) + 1 * (months % 12) + 0 * days = months by omega,
    show 0 * (months / 12) + 0 * (months % 12) + 86400 * days = 86400 * days by omega] at added

theorem adds_timeText (seconds : Nat) : Adds (timeText seconds) true 0 seconds := by
  have added : Adds (timeText seconds) true
      (0 * (seconds / 3600) + 0 * (seconds % 3600 / 60) + 0 * (seconds % 60))
      (3600 * (seconds / 3600) + 60 * (seconds % 3600 / 60) + 1 * (seconds % 60)) :=
    ((adds_part rfl rfl rfl _).append (adds_part rfl rfl rfl _)).append (adds_part rfl rfl rfl _)
  rwa [show 0 * (seconds / 3600) + 0 * (seconds % 3600 / 60) + 0 * (seconds % 60) = 0 by omega,
    show 3600 * (seconds / 3600) + 60 * (seconds % 3600 / 60) + 1 * (seconds % 60) = seconds by omega] at added

/-! ## Whole texts -/

/-- The part of the text behind the days. -/
def clockText (months seconds : Int) : String :=
  if seconds.natAbs % 86400 ≠ 0 then "T" ++ timeText (seconds.natAbs % 86400)
  else if months = 0 ∧ seconds = 0 then "T0S"
  else ""

theorem durationText_eq (months seconds : Int) : durationText months seconds =
    (if months < 0 ∨ seconds < 0 then "-P" else "P") ++ dateText months.natAbs (seconds.natAbs / 86400) ++
      clockText months seconds := rfl

/-- Behind the days, the rest of the seconds is read. -/
theorem read_clockText (r : DurationReading) (behind : r.number = 0) (months seconds : Int) :
    ∃ timed, r.read (clockText months seconds) =
      { r with timed, seconds := r.seconds + seconds.natAbs % 86400 } := by
  unfold clockText
  split
  · refine ⟨true, ?_⟩
    have passed : r.read "T" = { r with timed := true } := rfl
    rw [read_append, passed]
    exact adds_timeText _ _ behind rfl
  · next whole =>
    rw [Decidable.not_not.1 whole]
    -- No time is left to be read; the duration of nothing at all still has a `0S`.
    split
    · refine ⟨true, ?_⟩
      have zero : r.read "T0S" = { r with
          timed := true
          number := 0
          months := r.months + 0 * (10 * r.number + 0)
          seconds := r.seconds + 1 * (10 * r.number + 0) } := rfl
      rw [zero, behind]
      rfl
    · exact ⟨r.timed, rfl⟩

theorem read_durationText (months seconds : Int) : ∃ timed, start.read (durationText months seconds) =
    ⟨decide (months < 0 ∨ seconds < 0), timed, 0, months.natAbs, seconds.natAbs⟩ := by
  have signed : start.read (if months < 0 ∨ seconds < 0 then "-P" else "P") =
      ⟨decide (months < 0 ∨ seconds < 0), false, 0, 0, 0⟩ := by
    split
    · next negative =>
      rw [decide_eq_true negative]
      rfl
    · next positive =>
      rw [decide_eq_false positive]
      rfl
  obtain ⟨timed, read⟩ := read_clockText
    ⟨decide (months < 0 ∨ seconds < 0), false, 0, months.natAbs, 86400 * (seconds.natAbs / 86400)⟩ rfl months seconds
  refine ⟨timed, ?_⟩
  rw [durationText_eq, read_append, read_append, signed, adds_dateText _ _ _ rfl rfl]
  simp only [Nat.zero_add]
  rw [read, Nat.div_add_mod]

end DurationReading

/-- Months and seconds in the text of a duration. -/
def readDuration (text : String) : Int × Int :=
  let r := DurationReading.start.read text
  if r.negative then (-r.months, -r.seconds) else (r.months, r.seconds)

/-- Months and seconds are both not negative or both not positive. -/
def OneSigned (months seconds : Int) : Prop := (0 ≤ months ∧ 0 ≤ seconds) ∨ (months ≤ 0 ∧ seconds ≤ 0)

theorem readDuration_durationText {months seconds : Int} (oneSigned : OneSigned months seconds) :
    readDuration (durationText months seconds) = (months, seconds) := by
  obtain ⟨timed, read⟩ := DurationReading.read_durationText months seconds
  rw [readDuration, read]
  dsimp only
  unfold OneSigned at oneSigned
  split
  · next negative =>
    have sign := of_decide_eq_true negative
    rw [Prod.mk.injEq]
    omega
  · next positive =>
    have sign := of_decide_eq_false (Bool.eq_false_iff.2 positive)
    rw [Prod.mk.injEq]
    omega

/-- Durations of 32 and 64 bits with the same text are the same. -/
theorem durationText_eq_iff {months months' : Int32} {seconds seconds' : Int64}
    (first : OneSigned months.toInt seconds.toInt) (second : OneSigned months'.toInt seconds'.toInt) :
    durationText months.toInt seconds.toInt = durationText months'.toInt seconds'.toInt ↔
      months = months' ∧ seconds = seconds' := by
  constructor
  · intro same
    have read := readDuration_durationText first
    rw [same, readDuration_durationText second] at read
    obtain ⟨sameMonths, sameSeconds⟩ := Prod.mk.inj read
    exact ⟨Int32.toInt_inj.1 sameMonths.symm, Int64.toInt_inj.1 sameSeconds.symm⟩
  · rintro ⟨rfl, rfl⟩
    rfl

/-- The least months and the least seconds differ in their texts from those next to them. -/
theorem durationText_least :
    OneSigned Int32.minValue.toInt Int64.minValue.toInt ∧ OneSigned (-2147483647) (-9223372036854775807) ∧
      durationText Int32.minValue.toInt Int64.minValue.toInt ≠ durationText (-2147483647) (-9223372036854775807) := by
  have first : OneSigned Int32.minValue.toInt Int64.minValue.toInt := .inr ⟨by decide, by decide⟩
  have second : OneSigned (-2147483647 : Int32).toInt (-9223372036854775807 : Int64).toInt :=
    .inr ⟨by decide, by decide⟩
  exact ⟨first, second, fun same => absurd ((durationText_eq_iff first second).1 same).1 (by decide)⟩

/-- The sign stands for both numbers, so that opposite signs cannot be told from equal ones. -/
example : durationText 1 (-60) = durationText (-1) (-60) := rfl

end QueryKernel
