import Duet.Domain.Piece
import Duet.Lib.Calendar
import Duet.Lib.Matcher

/-!
# Local times

A `DateTime` that the app makes is a local time: `toIso8601String` writes its date and time of day
where the device is, without an offset, and `DateTime.parse` reads what has no offset as a local
time again. When clocks are set back, two instants an hour apart have the same local time, and only
one of them is read.

## Main definitions

* `TimeZone` — what the platform says of the zone of the device.
* `TimeZone.toIso8601String`, `TimeZone.parse` — the texts of `dart:core`.
* `TimeZone.ReadsBack` — the offset of the instant is the one with which its local time is read.

## Main results

* `TimeZone.parse_toIso8601String` — what is read of the text of an instant.
* `TimeZone.parse_toIso8601String_iff` — it is the instant exactly when that one reads back.
-/

namespace Duet

open Lib Matcher

/-! ## Texts -/

/-- `_fourDigits`, or `_sixDigits` with a sign. -/
def yearText (year : Int) : List Char :=
  if year.natAbs ≤ 9999 then (if year < 0 then ['-'] else []) ++ digitsOf 4 year.natAbs
  else (if year < 0 then '-' else '+') :: digitsOf 6 year.natAbs

/-- Three digits of milliseconds, and three of microseconds unless they are zero. -/
def fractionText (microsecond : Nat) : List Char :=
  digitsOf 3 (microsecond / 1000) ++
    if microsecond % 1000 = 0 then [] else digitsOf 3 (microsecond % 1000)

/-- `toIso8601String` of a local time with these parts. -/
def civilText (t : Civil) : List Char :=
  yearText t.date.year ++ '-' :: (digitsOf 2 t.date.month.toNat ++
    '-' :: (digitsOf 2 t.date.day.toNat ++ 'T' :: (digitsOf 2 t.hour.toNat ++
      ':' :: (digitsOf 2 t.minute.toNat ++ ':' :: (digitsOf 2 t.second.toNat ++
        '.' :: fractionText t.microsecond.toNat)))))

/-- `([+-]?\d{4,6})`. -/
def yearGroup : Matcher Int := do
  let sign ← optional (char fun c => c = '+' || c = '-')
  let year ← or (digits 6) (or (digits 5) (digits 4))
  pure (if sign = some '-' then -(numberOf year : Int) else numberOf year)

/-- A separator that may be left out, and two digits. -/
def twoDigits (separator : Char) : Matcher Nat := do
  let _ ← optional (char (· = separator))
  let value ← digits 2
  pure (numberOf value)

/-- `parseMilliAndMicroseconds`: the first six digits of the fraction. -/
def microsecondsOf (fraction : List Char) : Nat :=
  numberOf ((fraction ++ List.replicate 6 '0').take 6)

/-- `(?::?(\d\d)(?:[.,](\d+))?)?`, seconds and microseconds. -/
def secondGroup : Matcher (Nat × Nat) := do
  let second ← twoDigits ':'
  let fraction ← optional do
    let _ ← char fun c => c = '.' || c = ','
    digitRun
  pure (second, fraction.elim 0 microsecondsOf)

/-- `(?::?(\d\d)…)?`, minutes and what follows. -/
def minuteGroup : Matcher (Nat × Nat × Nat) := do
  let minute ← twoDigits ':'
  let second ← optional secondGroup
  pure (minute, second.getD (0, 0))

/-- `( ?[zZ]| ?([-+])(\d\d)(?::?(\d\d))?)`, in minutes. -/
def offsetGroup : Matcher Int :=
  or
    (do
      let _ ← optional (char (· = ' '))
      let _ ← char fun c => c = 'z' || c = 'Z'
      pure 0)
    (do
      let _ ← optional (char (· = ' '))
      let sign ← char fun c => c = '-' || c = '+'
      let hour ← digits 2
      let minute ← optional (twoDigits ':')
      let minutes : Int := 60 * numberOf hour + minute.getD 0
      pure (if sign = '-' then -minutes else minutes))

/-- The time of day and the offset. -/
def timeGroup : Matcher (Nat × (Nat × Nat × Nat) × Option Int) := do
  let _ ← char fun c => c = ' ' || c = 'T'
  let hour ← digits 2
  let minute ← optional minuteGroup
  let offset ← optional offsetGroup
  pure (numberOf hour, minute.getD (0, 0, 0), offset)

/-- `_parseFormat`: a date, a time of day, and an offset if there is one. -/
def parseFormat : Matcher (Civil × Option Int) := do
  let year ← yearGroup
  let month ← twoDigits '-'
  let day ← twoDigits '-'
  let time ← optional timeGroup
  let (hour, (minute, second, microsecond), offset) := time.getD (0, (0, 0, 0), none)
  pure (⟨⟨year, month, day⟩, hour, minute, second, microsecond⟩, offset)

/-! ### What is written is read -/

/-- Four digits are read as four, since no digit follows. -/
theorem first_fourDigits (n : Nat) (rest : List Char) :
    (or (digits 6) (or (digits 5) (digits 4))).First (digitsOf 4 n ++ '-' :: rest) (digitsOf 4 n)
      ('-' :: rest) := by
  have hfewer {count : Nat} (h : 4 < count) : digits count (digitsOf 4 n ++ '-' :: rest) = [] :=
    digits_eq_nil (by decide) (by rwa [length_digitsOf])
  exact .or_right (hfewer (by decide)) (.or_right (hfewer (by decide)) (first_digitsOf 4 n _))

/-- Digits have no sign. -/
theorem sign_digitsOf (count n : Nat) (rest : List Char) :
    char (fun c => c = '+' || c = '-') (digitsOf (count + 1) n ++ rest) = [] := by
  have hdigits := isDigit_digitsOf (count + 1) n
  have hlength := length_digitsOf (count + 1) n
  cases hds : digitsOf (count + 1) n with
  | nil =>
    rw [hds] at hlength
    cases hlength
  | cons d ds =>
    have hdigit : d.isDigit = true := hdigits d (by rw [hds]; exact List.mem_cons_self)
    refine char_eq_nil (Bool.eq_false_iff.mpr fun hsign => ?_)
    obtain rfl | rfl : d = '+' ∨ d = '-' := by simpa using hsign
    · cases hdigit
    · cases hdigit

theorem first_yearGroup {year : Int} (h : year.natAbs < 1000000) (rest : List Char) :
    yearGroup.First (yearText year ++ '-' :: rest) year ('-' :: rest) := by
  have hvalue {sign : Option Char} {count : Nat} (hcount : year.natAbs < 10 ^ count)
      (hsign : sign = some '-' ↔ year < 0) :
      (if sign = some '-' then -(numberOf (digitsOf count year.natAbs) : Int)
        else numberOf (digitsOf count year.natAbs)) = year := by
    rw [numberOf_digitsOf hcount]
    simp only [hsign]
    split_ifs <;> omega
  rw [yearText]
  split_ifs with hfour hneg hneg
  · refine (First.optional (first_char (by decide))).bind ((first_fourDigits _ rest).bind ?_)
    rw [hvalue (by omega) (by simp [hneg])]
    exact first_pure
  · refine (first_optional_none (sign_digitsOf 3 _ _)).bind ((first_fourDigits _ rest).bind ?_)
    rw [hvalue (by omega) (by simpa using hneg)]
    exact first_pure
  · refine (First.optional (first_char (by decide))).bind
      ((First.or_left (first_digitsOf 6 _ _)).bind ?_)
    rw [hvalue (by omega) (by simp [hneg])]
    exact first_pure
  · refine (First.optional (first_char (by decide))).bind
      ((First.or_left (first_digitsOf 6 _ _)).bind ?_)
    rw [hvalue (by omega) (by simpa using hneg)]
    exact first_pure

theorem first_twoDigits (separator : Char) {n : Nat} (h : n < 100) (rest : List Char) :
    (twoDigits separator).First (separator :: (digitsOf 2 n ++ rest)) n rest := by
  refine (First.optional (first_char (by simp))).bind ((first_digitsOf 2 n rest).bind ?_)
  rw [numberOf_digitsOf h]
  exact first_pure

/-- Milliseconds alone, or milliseconds and microseconds. -/
theorem microsecondsOf_fractionText {microsecond : Nat} (h : microsecond < 1000000) :
    microsecondsOf (fractionText microsecond) = microsecond := by
  have hsix : digitsOf 6 microsecond =
      digitsOf 3 (microsecond / 1000) ++ digitsOf 3 (microsecond % 1000) := by
    simp only [digitsOf, List.nil_append, List.cons_append, List.cons.injEq, and_true]
    refine ⟨?_, ?_, ?_, ?_, ?_, ?_⟩ <;> exact congrArg Nat.digitChar (by omega)
  have hpadded : (fractionText microsecond ++ List.replicate 6 '0').take 6 =
      digitsOf 6 microsecond := by
    rw [fractionText, hsix]
    split_ifs with hzero
    · rw [hzero]
      rfl
    · rw [List.take_append_of_le_length (by simp)]
      exact List.take_of_length_le (by simp)
  rw [microsecondsOf, hpadded, numberOf_digitsOf h]

theorem first_secondGroup {second microsecond : Nat} (hsecond : second < 60)
    (hmicrosecond : microsecond < 1000000) :
    secondGroup.First (':' :: (digitsOf 2 second ++ '.' :: fractionText microsecond))
      (second, microsecond) [] := by
  have hdigits : ∀ d ∈ fractionText microsecond, d.isDigit = true := by
    intro d hd
    obtain hd | hd := List.mem_append.mp hd
    · exact isDigit_digitsOf _ _ d hd
    · split_ifs at hd
      · cases hd
      · exact isDigit_digitsOf _ _ d hd
  have hne : fractionText microsecond ≠ [] := by simp [fractionText, digitsOf]
  refine (first_twoDigits ':' (by omega) _).bind
    ((First.optional ((first_char (by decide)).bind (first_digitRun hne hdigits))).bind ?_)
  rw [Option.elim_some, microsecondsOf_fractionText hmicrosecond]
  exact first_pure

theorem first_timeGroup {hour minute second microsecond : Nat} (hhour : hour < 24)
    (hminute : minute < 60) (hsecond : second < 60) (hmicrosecond : microsecond < 1000000) :
    timeGroup.First ('T' :: (digitsOf 2 hour ++ ':' :: (digitsOf 2 minute ++
        ':' :: (digitsOf 2 second ++ '.' :: fractionText microsecond))))
      (hour, (minute, second, microsecond), none) [] := by
  have hseconds := First.optional (first_secondGroup hsecond hmicrosecond)
  have hminutes : minuteGroup.First (':' :: (digitsOf 2 minute ++
      ':' :: (digitsOf 2 second ++ '.' :: fractionText microsecond))) (minute, second, microsecond)
        [] := (first_twoDigits ':' (by omega) _).bind (hseconds.bind first_pure)
  refine (first_char (by decide)).bind ((first_digitsOf 2 hour _).bind
    ((First.optional hminutes).bind ((first_optional_none rfl).bind ?_)))
  rw [numberOf_digitsOf (by omega)]
  exact first_pure

/-- A date and a time of day whose parts are in their ranges are read back from their text. -/
theorem whole_parseFormat_civilText {t : Civil} (h : t.InRange)
    (hyear : t.date.year.natAbs < 1000000) :
    parseFormat.whole (String.ofList (civilText t)) = some (t, none) := by
  obtain ⟨⟨year, month, day⟩, hour, minute, second, microsecond⟩ := t
  obtain ⟨hmonth, hday, hhour, hminute, hsecond, hmicrosecond⟩ := h
  dsimp only at hmonth hday hhour hminute hsecond hmicrosecond hyear
  obtain ⟨month, rfl⟩ := Int.eq_ofNat_of_zero_le (by omega : 0 ≤ month)
  obtain ⟨day, rfl⟩ := Int.eq_ofNat_of_zero_le (by omega : 0 ≤ day)
  obtain ⟨hour, rfl⟩ := Int.eq_ofNat_of_zero_le hhour.1
  obtain ⟨minute, rfl⟩ := Int.eq_ofNat_of_zero_le hminute.1
  obtain ⟨second, rfl⟩ := Int.eq_ofNat_of_zero_le hsecond.1
  obtain ⟨microsecond, rfl⟩ := Int.eq_ofNat_of_zero_le hmicrosecond.1
  have hmonth : month < 100 := by omega
  have hday : day < 100 := by omega
  have htime := First.optional (first_timeGroup (Int.ofNat_lt.mp hhour.2) (Int.ofNat_lt.mp hminute.2)
    (Int.ofNat_lt.mp hsecond.2) (Int.ofNat_lt.mp hmicrosecond.2))
  refine whole_of_first ?_
  rw [String.toList_ofList]
  exact (first_yearGroup hyear _).bind ((first_twoDigits '-' hmonth _).bind
    ((first_twoDigits '-' hday _).bind (htime.bind first_pure)))

/-! ## Local times of instants -/

/-- What the platform says of the zone of the device, in seconds east of universal time: the offset
at an instant, in microseconds since the epoch, and the one that is in force without daylight saving
time. -/
structure TimeZone where
  timeZoneOffsetInSeconds : Int → Int
  localTimeZoneAdjustmentInSeconds : Int
  lt_day : ∀ micros, (timeZoneOffsetInSeconds micros).natAbs < 86400

/-- `null` out of the range of instants. -/
def DateTime.ofMicros (micros : Int) : Option DateTime :=
  if h : micros.natAbs ≤ 8640000000000000000 then some ⟨micros, h⟩ else none

namespace TimeZone

variable (zone : TimeZone)

/-- The offset at an instant, in microseconds. -/
def offset (micros : Int) : Int := zone.timeZoneOffsetInSeconds micros * 1000000

/-- `_brokenDownDateToValue` of a local time: the offset is the one in force where the local time
would be without daylight saving time. -/
def ofLocal (micros : Int) : Option DateTime :=
  -- an offset is less than a day
  if micros.natAbs > 8640000000000000000 + 86400000000 then none
  else DateTime.ofMicros (micros -
    zone.offset (micros - zone.localTimeZoneAdjustmentInSeconds * 1000000))

def toIso8601String (t : DateTime) : String :=
  .ofList (civilText (.ofMicros (t.micros + zone.offset t.micros)))

/-- A text with an offset is of an instant, one without is of a local time; a `FormatException`
otherwise. -/
def parse (text : String) : Option DateTime :=
  match parseFormat.whole text with
  | none => none
  | some (t, none) => zone.ofLocal t.toMicros
  | some (t, some minutes) => DateTime.ofMicros (t.toMicros - minutes * 60000000)

/-- The offset that is in force is the one with which the local time is read. -/
def ReadsBack (t : DateTime) : Prop :=
  zone.offset (t.micros + zone.offset t.micros - zone.localTimeZoneAdjustmentInSeconds * 1000000) =
    zone.offset t.micros

instance (t : DateTime) : Decidable (zone.ReadsBack t) :=
  inferInstanceAs (Decidable (_ = _))

/-- What is read of the text of an instant: the local time is the same, the offset may be another. -/
theorem parse_toIso8601String (t : DateTime) :
    zone.parse (zone.toIso8601String t) = zone.ofLocal (t.micros + zone.offset t.micros) := by
  have hoffset := zone.lt_day t.micros
  have hrange := t.inRange
  have hyear : (Civil.ofMicros (t.micros + zone.offset t.micros)).date.year.natAbs < 1000000 :=
    Civil.natAbs_year_ofMicros (by rw [offset]; omega)
  rw [parse, toIso8601String, whole_parseFormat_civilText (Civil.inRange_ofMicros _) hyear]
  dsimp only
  rw [Civil.toMicros_ofMicros]

@[simp] theorem parse_toIso8601String_iff {t : DateTime} :
    zone.parse (zone.toIso8601String t) = some t ↔ zone.ReadsBack t := by
  have hoffset := zone.lt_day t.micros
  have hrange := t.inRange
  rw [parse_toIso8601String, ofLocal, if_neg (by rw [offset]; omega), DateTime.ofMicros, ReadsBack]
  split_ifs with h
  · obtain ⟨micros, -⟩ := t
    simp only [Option.some.injEq, DateTime.mk.injEq]
    omega
  · refine iff_of_false (by simp) fun hread => h ?_
    rw [hread]
    omega

/-- Without daylight saving time every instant is read back. -/
theorem readsBack_of_eq_adjustment {t : DateTime} (h : zone.offset t.micros =
    zone.localTimeZoneAdjustmentInSeconds * 1000000) : zone.ReadsBack t := by
  rw [ReadsBack, h, Int.add_sub_cancel, h]

end TimeZone

end Duet
