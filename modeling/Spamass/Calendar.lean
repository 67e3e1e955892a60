import Mathlib.Algebra.BigOperators.Intervals
import Mathlib.Algebra.Order.BigOperators.Group.Finset

/-!
# Calendar dates

Blocks of given sizes follow one another, and an offset falls into one of them. Years
and months are such blocks of days: a later second has a later date in the proleptic
Gregorian calendar, field by field.
-/
namespace Spamass.Calendar

section Blocks

variable (size : Nat → Nat)

/-- The search for the block, with as many steps as there are left. -/
def locateFrom : Nat → Nat → Nat → Nat × Nat
  | 0, start, offset => (start, offset)
  | left + 1, start, offset =>
    if offset < size start then (start, offset)
    else locateFrom left (start + 1) (offset - size start)

/-- The block an offset falls into, and the place in it. -/
def locate (start offset : Nat) : Nat × Nat := locateFrom size offset start offset

/-- The blocks from `start` on, before the given one. -/
def before (start count : Nat) : Nat := ∑ i ∈ Finset.range count, size (start + i)

theorem before_mono (start : Nat) {count count' : Nat} (le : count ≤ count') :
    before size start count ≤ before size start count' :=
  Finset.sum_le_sum_of_subset (Finset.range_subset_range.mpr le)

variable (positive : ∀ i, 0 < size i)

include positive in
theorem locateFrom_spec (left start offset : Nat) (enough : offset ≤ left) :
    ∃ count, (locateFrom size left start offset).1 = start + count ∧
      offset = before size start count + (locateFrom size left start offset).2 ∧
      (locateFrom size left start offset).2 < size (start + count) := by
  -- on the fuel: a block that is left behind shortens the offset by its size
  induction left generalizing start offset with
  | zero =>
    obtain rfl := Nat.le_zero.mp enough
    exact ⟨0, rfl, by simp [before, locateFrom], positive start⟩
  | succ left ih =>
    rw [locateFrom]
    split
    next inside => exact ⟨0, rfl, by simp [before], inside⟩
    next outside =>
      have present := positive start
      obtain ⟨count, block, sum, inside⟩ := ih (start + 1) (offset - size start) (by omega)
      have next : start + 1 + count = start + (count + 1) := by omega
      rw [next] at block inside
      refine ⟨count + 1, block, ?_, inside⟩
      have shifted : before size start (count + 1) = size start + before size (start + 1) count := by
        rw [before, Finset.sum_range_succ', Nat.add_comm, before]
        congr 1
        apply Finset.sum_congr rfl
        intro i _
        rw [Nat.add_assoc, Nat.add_comm 1 i]
      omega

include positive in
theorem locate_spec (start offset : Nat) :
    ∃ count, (locate size start offset).1 = start + count ∧
      offset = before size start count + (locate size start offset).2 ∧
      (locate size start offset).2 < size (start + count) :=
  locateFrom_spec size positive offset start offset le_rfl

include positive in
/-- A greater offset lies in a later block, or later in the same one. -/
theorem locate_lt (start : Nat) {offset offset' : Nat} (less : offset < offset') :
    (locate size start offset).1 < (locate size start offset').1 ∨
      (locate size start offset).1 = (locate size start offset').1 ∧
        (locate size start offset).2 < (locate size start offset').2 := by
  obtain ⟨count, block, sum, inside⟩ := locate_spec size positive start offset
  obtain ⟨count', block', sum', inside'⟩ := locate_spec size positive start offset'
  rw [block, block']
  rcases Nat.lt_trichotomy count count' with below | rfl | above
  · exact Or.inl (by omega)
  · exact Or.inr ⟨rfl, by omega⟩
  · -- the block of the greater offset would end before the other one begins
    have ends := before_mono size start (Nat.succ_le_of_lt above)
    rw [Nat.succ_eq_add_one, before, Finset.sum_range_succ, ← before] at ends
    omega

end Blocks

/-! ### The Gregorian calendar -/

def isLeap (year : Nat) : Bool := year % 4 == 0 && (year % 100 != 0 || year % 400 == 0)

def daysInYear (year : Nat) : Nat := if isLeap year then 366 else 365

/-- The months are counted from zero. -/
def daysInMonth (year : Nat) : Nat → Nat
  | 1 => if isLeap year then 29 else 28
  | 3 | 5 | 8 | 10 => 30
  | _ => 31

/-- `struct tm`, as far as it is a date and a time. -/
structure Tm where
  -- since 1900
  tmYear : Nat
  -- since January
  tmMon : Nat
  tmMday : Nat
  tmHour : Nat
  tmMin : Nat
  tmSec : Nat
  deriving DecidableEq, Repr

/-- Year, month and day of the month of a number of days since the beginning of 1970. -/
def civil (days : Nat) : Nat × Nat × Nat :=
  let (year, day) := locate daysInYear 1970 days
  let (month, mday) := locate (daysInMonth year) 0 day
  (year, month, mday + 1)

/-- The date and time of a number of seconds since then. -/
def gmtime (clock : Nat) : Tm :=
  let (year, month, mday) := civil (clock / 86400)
  { tmYear := year - 1900
    tmMon := month
    tmMday := mday
    tmHour := clock % 86400 / 3600
    tmMin := clock % 3600 / 60
    tmSec := clock % 60 }

example : gmtime 1344340805 = ⟨112, 7, 7, 12, 0, 5⟩ := by decide +kernel

theorem daysInYear_pos (year : Nat) : 0 < daysInYear year := by
  unfold daysInYear
  split <;> omega

theorem daysInMonth_bounds (year month : Nat) :
    0 < daysInMonth year month ∧ daysInMonth year month ≤ 31 := by
  unfold daysInMonth
  split
  · split <;> omega
  all_goals omega

theorem before_year (year : Nat) : before (daysInMonth year) 0 12 = daysInYear year := by
  simp only [before, Finset.sum_range_succ, Finset.sum_range_zero, daysInMonth, daysInYear]
  split <;> rfl

theorem civil_inRange (days : Nat) :
    1970 ≤ (civil days).1 ∧ (civil days).2.1 < 12 ∧ 0 < (civil days).2.2 ∧ (civil days).2.2 ≤ 31 := by
  obtain ⟨years, year, -, day⟩ := locate_spec daysInYear daysInYear_pos 1970 days
  rw [← year] at day
  have late : 1970 ≤ (locate daysInYear 1970 days).1 := by omega
  have positive := fun month => (daysInMonth_bounds (locate daysInYear 1970 days).1 month).1
  obtain ⟨months, month, sum, mday⟩ := locate_spec _ positive 0 (locate daysInYear 1970 days).2
  have most := (daysInMonth_bounds (locate daysInYear 1970 days).1 (0 + months)).2
  rw [Nat.zero_add] at month
  have few : months < 12 := by
    by_contra many
    -- twelve months are the whole year
    have all := before_mono (daysInMonth (locate daysInYear 1970 days).1) 0 (Nat.not_lt.mp many)
    rw [before_year] at all
    omega
  exact ⟨late, month ▸ few, Nat.succ_pos _, mday.trans_le most⟩

/-- Dates are compared year, month, day. -/
theorem civil_lt {days days' : Nat} (less : days < days') :
    (civil days).1 < (civil days').1 ∨ (civil days).1 = (civil days').1 ∧
      ((civil days).2.1 < (civil days').2.1 ∨ (civil days).2.1 = (civil days').2.1 ∧
        (civil days).2.2 < (civil days').2.2) := by
  rcases locate_lt daysInYear daysInYear_pos 1970 less with year | ⟨same, later⟩
  · exact Or.inl year
  · right
    have positive := fun month => (daysInMonth_bounds (locate daysInYear 1970 days').1 month).1
    have date : ∀ d, (civil d).2 =
        ((locate (daysInMonth (locate daysInYear 1970 d).1) 0 (locate daysInYear 1970 d).2).1,
          (locate (daysInMonth (locate daysInYear 1970 d).1) 0 (locate daysInYear 1970 d).2).2 + 1) :=
      fun _ => rfl
    refine ⟨same, ?_⟩
    rw [date, date, same]
    rcases locate_lt _ positive 0 later with month | ⟨same', mday⟩
    · exact Or.inl month
    · exact Or.inr ⟨same', Nat.succ_lt_succ mday⟩

/-- The fields of a date are in their ranges. -/
structure InRange (date : Tm) : Prop where
  month : date.tmMon < 12
  mday : 0 < date.tmMday ∧ date.tmMday ≤ 31
  hour : date.tmHour < 24
  minute : date.tmMin < 60
  second : date.tmSec < 60

theorem gmtime_inRange (clock : Nat) : InRange (gmtime clock) := by
  obtain ⟨-, month, mday⟩ := civil_inRange (clock / 86400)
  constructor
  · exact month
  · exact mday
  · exact Nat.div_lt_of_lt_mul (Nat.mod_lt clock (by decide))
  · exact Nat.div_lt_of_lt_mul (Nat.mod_lt clock (by decide))
  · exact Nat.mod_lt clock (by decide)

/-- The fields, the greatest unit first. -/
def Tm.fields (date : Tm) : List Nat :=
  [date.tmYear, date.tmMon, date.tmMday, date.tmHour, date.tmMin, date.tmSec]

theorem quotient_lt (k : Nat) {m n : Nat} (less : m < n) :
    m / k < n / k ∨ m / k = n / k ∧ m % k < n % k := by
  rcases Nat.lt_or_eq_of_le (Nat.div_le_div_right (c := k) less.le) with below | same
  · exact Or.inl below
  · have split_ := Nat.div_add_mod m k
    have split' := Nat.div_add_mod n k
    rw [same] at split_
    exact Or.inr ⟨same, by omega⟩

/-- A later second has a later date. -/
theorem gmtime_lt {clock clock' : Nat} (less : clock < clock') :
    (gmtime clock).fields < (gmtime clock').fields := by
  have compared : (gmtime clock).tmYear < (gmtime clock').tmYear ∨
      (gmtime clock).tmYear = (gmtime clock').tmYear ∧
        ((gmtime clock).tmMon < (gmtime clock').tmMon ∨
          (gmtime clock).tmMon = (gmtime clock').tmMon ∧
            ((gmtime clock).tmMday < (gmtime clock').tmMday ∨
              (gmtime clock).tmMday = (gmtime clock').tmMday ∧
                clock % 86400 < clock' % 86400)) := by
    -- on another day the date decides, on the same one the second does
    rcases quotient_lt 86400 less with day | ⟨same, second⟩
    · obtain ⟨late, -⟩ := civil_inRange (clock / 86400)
      rcases civil_lt day with year | ⟨year, month⟩
      · left
        exact Nat.sub_lt_sub_right (le_trans (by decide) late) year
      · right
        refine ⟨congrArg (· - 1900) year, ?_⟩
        rcases month with month | ⟨month, mday⟩
        · exact Or.inl month
        · exact Or.inr ⟨month, Or.inl mday⟩
    · unfold gmtime
      rw [same]
      exact Or.inr ⟨rfl, Or.inr ⟨rfl, Or.inr ⟨rfl, second⟩⟩⟩
  simp only [Tm.fields, List.cons_lt_cons_iff]
  rcases compared with year | ⟨year, month | ⟨month, mday | ⟨mday, second⟩⟩⟩
  · exact Or.inl year
  · exact Or.inr ⟨year, Or.inl month⟩
  · exact Or.inr ⟨year, Or.inr ⟨month, Or.inl mday⟩⟩
  · refine Or.inr ⟨year, Or.inr ⟨month, Or.inr ⟨mday, ?_⟩⟩⟩
    have hour : (gmtime clock).tmHour = clock % 86400 / 3600 := rfl
    have hour' : (gmtime clock').tmHour = clock' % 86400 / 3600 := rfl
    have minute : (gmtime clock).tmMin = clock % 3600 / 60 := rfl
    have minute' : (gmtime clock').tmMin = clock' % 3600 / 60 := rfl
    have last : (gmtime clock).tmSec = clock % 60 := rfl
    have last' : (gmtime clock').tmSec = clock' % 60 := rfl
    rw [hour, hour', minute, minute', last, last']
    omega

end Spamass.Calendar
