import ApuBios.Drivers.CmosOption.Date
import Mathlib.Algebra.BigOperators.Intervals

/-!
# The time of day from the clock

Model of `rtc_read_clock` in `drivers/nvram.c` and of `day_of_year` and `gettimeofday_init` in
`libc/time.c` with `CONFIG_NVRAM`. The clock is read while it does not update itself; it does not tick
while it is read.
-/

namespace ApuBios.Libc

open CmosOption

/-! ### Model -/

def NVRAM_RTC_SECONDS : ℕ := 0
def NVRAM_RTC_MINUTES : ℕ := 2
def NVRAM_RTC_HOURS : ℕ := 4
def NVRAM_RTC_DAY : ℕ := 7
def NVRAM_RTC_MONTH : ℕ := 8
def NVRAM_RTC_YEAR : ℕ := 9

/-- The members of `struct tm` that are not zero. -/
structure Tm where
  tm_sec : ℤ
  tm_min : ℤ
  tm_hour : ℤ
  tm_mday : ℤ
  tm_mon : ℤ
  tm_year : ℤ

def bcd2dec (b : ℕ) : ℕ := ((b >>> 4) &&& 0x0f) * 10 + (b &&& 0x0f)

def nvramRead (c : Cmos) (addr : ℕ) : ℕ := (cmosRead c addr).toNat

def rtcReadClock (c : Cmos) : Tm :=
  let year := bcd2dec (nvramRead c NVRAM_RTC_YEAR)
  { tm_mon := bcd2dec (nvramRead c NVRAM_RTC_MONTH) - 1
    tm_sec := bcd2dec (nvramRead c NVRAM_RTC_SECONDS)
    tm_min := bcd2dec (nvramRead c NVRAM_RTC_MINUTES)
    tm_mday := bcd2dec (nvramRead c NVRAM_RTC_DAY)
    tm_hour := bcd2dec (nvramRead c NVRAM_RTC_HOURS)
    tm_year := if year < 80 then year + 100 else year }

def mdays : List ℤ := [31, 28, 31, 30, 31, 30, 31, 31, 30, 31, 30, 31]

/-- The loop of `day_of_year`. No value means that it reads behind the table. -/
def addMonths (year : ℤ) : (i : ℕ) → Option ℤ
  | 0 => some 0
  | i + 1 => do
    let ret ← addMonths year i
    let ret := ret + (← mdays[i]?)
    return if i = 1 ∧ Int.tmod year 4 ≠ 0 then ret + 1 else ret

def dayOfYear (mon day year : ℤ) : Option ℤ := (addMonths year mon.toNat).map (· + day)

/-- The value of `clock.secs`. -/
def gettimeofdayInit (c : Cmos) : Option ℤ := do
  let tm := rtcReadClock c
  let days ← dayOfYear tm.tm_mon tm.tm_mday (tm.tm_year + 1900)
  let delta := tm.tm_year - 70
  let days := days + delta * 365
  let days := if delta > 2 then days + Int.tdiv (delta - 2) 4 else days
  return Word.toInt 32 (days * 86400 + tm.tm_hour * 3600 + tm.tm_min * 60 + tm.tm_sec)

/-! ### The calendar -/

/-- A second of the Gregorian calendar. -/
structure Instant where
  year : ℕ
  month : ℕ
  day : ℕ
  hour : ℕ
  minute : ℕ
  second : ℕ
  inYear : 1 ≤ month ∧ month ≤ 12
  inMonth : 1 ≤ day ∧ day ≤ daysInMonth year month
  inDay : hour < 24 ∧ minute < 60 ∧ second < 60

def daysInYear (year : ℕ) : ℕ := if IsLeap year then 366 else 365

/-- The days of the months before this one. -/
def daysBefore (year month : ℕ) : ℕ := ∑ m ∈ Finset.Ico 1 month, daysInMonth year m

namespace Instant

/-- The number of days from 1970-01-01. -/
def days (d : Instant) : ℕ :=
  ∑ y ∈ Finset.Ico 1970 d.year, daysInYear y + daysBefore d.year d.month + (d.day - 1)

/-- The number of seconds from 1970-01-01 00:00:00. -/
def seconds (d : Instant) : ℕ := ((d.days * 24 + d.hour) * 60 + d.minute) * 60 + d.second

/-- The registers of the clock, in BCD and with two digits of the year. -/
structure Shows (c : Cmos) (d : Instant) : Prop where
  digits : ∀ r ∈ [NVRAM_RTC_SECONDS, NVRAM_RTC_MINUTES, NVRAM_RTC_HOURS, NVRAM_RTC_DAY,
    NVRAM_RTC_MONTH, NVRAM_RTC_YEAR], IsBcd (cmosRead c r)
  second : bcdValue (cmosRead c NVRAM_RTC_SECONDS) = d.second
  minute : bcdValue (cmosRead c NVRAM_RTC_MINUTES) = d.minute
  hour : bcdValue (cmosRead c NVRAM_RTC_HOURS) = d.hour
  day : bcdValue (cmosRead c NVRAM_RTC_DAY) = d.day
  month : bcdValue (cmosRead c NVRAM_RTC_MONTH) = d.month
  year : bcdValue (cmosRead c NVRAM_RTC_YEAR) = d.year % 100

end Instant

variable {c : Cmos} {d : Instant} {year month i k : ℕ}

lemma daysBefore_thirteen (year : ℕ) : daysBefore year 13 = daysInYear year := by
  simp only [daysBefore, daysInYear, daysInMonth]
  split_ifs <;> rfl

lemma daysBefore_succ (year : ℕ) (h : 1 ≤ month) :
    daysBefore year (month + 1) = daysBefore year month + daysInMonth year month :=
  Finset.sum_Ico_succ_top h _

lemma daysBefore_le (year month : ℕ) : daysBefore year month ≤ 31 * (month - 1) := by
  have hsum := Finset.sum_le_card_nsmul (Finset.Ico 1 month) (daysInMonth year) 31
    fun m _ => daysInMonth_le year m
  rw [Nat.card_Ico, smul_eq_mul, Nat.mul_comm] at hsum
  exact hsum

lemma daysInMonth_pos (year month : ℕ) : 1 ≤ daysInMonth year month := by
  unfold daysInMonth
  split
  · split <;> decide
  all_goals decide

/-- There is no year in this range that a multiple of 4 is not enough for. -/
lemma isLeap_iff (h : 1901 ≤ year) (h' : year < 2100) : IsLeap year ↔ year % 4 = 0 := by
  unfold IsLeap
  omega

lemma sum_daysInYear (hk : k ≤ 67) :
    ∑ y ∈ Finset.Ico 1970 (1970 + k), daysInYear y = 365 * k + (k + 1) / 4 := by
  induction k with
  | zero => rfl
  | succ k ih =>
    rw [← Nat.add_assoc, Finset.sum_Ico_succ_top (by omega), ih (by omega), daysInYear]
    have hleap : IsLeap (1970 + k) ↔ (1970 + k) % 4 = 0 := isLeap_iff (by omega) (by omega)
    split_ifs with h <;> rw [hleap] at h <;> omega

namespace Instant

/-- The second that follows. -/
def next (d : Instant) : Instant :=
  if hs : d.second + 1 < 60 then
    { d with second := d.second + 1, inDay := ⟨d.inDay.1, d.inDay.2.1, hs⟩ }
  else if hm : d.minute + 1 < 60 then
    { d with minute := d.minute + 1, second := 0, inDay := ⟨d.inDay.1, hm, by decide⟩ }
  else if hh : d.hour + 1 < 24 then
    { d with hour := d.hour + 1, minute := 0, second := 0, inDay := ⟨hh, by decide, by decide⟩ }
  else if hd : d.day + 1 ≤ daysInMonth d.year d.month then
    { d with
      day := d.day + 1, hour := 0, minute := 0, second := 0
      inMonth := ⟨Nat.succ_pos _, hd⟩, inDay := by decide }
  else if hy : d.month + 1 ≤ 12 then
    { d with
      month := d.month + 1, day := 1, hour := 0, minute := 0, second := 0
      inYear := ⟨Nat.succ_pos _, hy⟩, inMonth := ⟨le_rfl, daysInMonth_pos _ _⟩, inDay := by decide }
  else
    { year := d.year + 1, month := 1, day := 1, hour := 0, minute := 0, second := 0
      inYear := by decide, inMonth := ⟨le_rfl, daysInMonth_pos _ _⟩, inDay := by decide }

/-- Consecutive seconds have consecutive values, also at the end of a month or of a year. -/
lemma seconds_next (hyear : 1970 ≤ d.year) : d.next.seconds = d.seconds + 1 := by
  have htime := d.inDay
  have hday := d.inMonth
  have hmonth := d.inYear
  have hbefore := daysBefore_succ d.year hmonth.1
  unfold next
  split_ifs with hs hm hh hd hy
  · rfl
  · simp only [seconds, days]
    omega
  · simp only [seconds, days]
    omega
  · simp only [seconds, days]
    omega
  · simp only [seconds, days, hbefore]
    omega
  · -- the year ends
    have hlast : d.month = 12 := by omega
    rw [hlast, daysBefore_thirteen] at hbefore
    have hyears := Finset.sum_Ico_succ_top hyear daysInYear
    simp only [seconds, days, hyears, hlast, hbefore]
    rw [hlast] at hday hd
    have hfirst : daysBefore (d.year + 1) 1 = 0 := rfl
    omega

end Instant

/-! ### The registers -/

lemma bcd2dec_eq (b : BitVec 8) : bcd2dec b.toNat = bcdValue b := by
  revert b
  decide +kernel

lemma rtcReadClock_eq (h : d.Shows c) (hyear : 1980 ≤ d.year ∧ d.year ≤ 2037) :
    rtcReadClock c = ⟨d.second, d.minute, d.hour, d.day, d.month - 1, d.year - 1900⟩ := by
  have hread (addr : ℕ) : bcd2dec (nvramRead c addr) = bcdValue (cmosRead c addr) := bcd2dec_eq _
  have htwo : (if d.year % 100 < 80 then ((d.year % 100 : ℕ) : ℤ) + 100
      else ((d.year % 100 : ℕ) : ℤ)) = d.year - 1900 := by
    split_ifs <;> omega
  simp only [rtcReadClock, hread, h.second, h.minute, h.hour, h.day, h.month, h.year, htwo]

/-! ### The days -/

/-- What the test of the year adds to the months that have passed. -/
def leapError (year i : ℕ) : ℤ := if 2 ≤ i then if IsLeap year then -1 else 1 else 0

lemma mdays_getElem (year : ℕ) (hi : i < 12) :
    mdays[i]? = some (daysInMonth year (i + 1) - if i = 1 ∧ IsLeap year then 1 else 0 : ℤ) := by
  by_cases hfeb : i = 1
  · subst hfeb
    by_cases hleap : IsLeap year <;> simp [mdays, daysInMonth, hleap]
  · rw [if_neg fun h => hfeb h.1]
    interval_cases i <;> first | rfl | omega

/-- The leap day is in the wrong years. -/
lemma addMonths_eq (hyear : IsLeap year ↔ year % 4 = 0) (hi : i ≤ 12) :
    addMonths year i = some (daysBefore year (i + 1) + leapError year i) := by
  induction i with
  | zero => rfl
  | succ i ih =>
    have hmod : Int.tmod year 4 ≠ 0 ↔ ¬ year % 4 = 0 := by
      rw [Int.tmod_eq_emod_of_nonneg (Int.natCast_nonneg _)]
      omega
    have hnext := daysBefore_succ year (show 1 ≤ i + 1 by omega)
    rw [addMonths, ih (by omega), mdays_getElem year (by omega), hnext]
    simp only [hmod, hyear, leapError, Option.bind_eq_bind, Option.bind_some, Option.pure_def,
      Option.some.injEq]
    push_cast
    split_ifs <;> omega

/-- Until 2037 a `long` is large enough, also for a day more. -/
lemma seconds_lt (hyear : 1970 ≤ d.year ∧ d.year ≤ 2037) : 2 * (d.seconds + 86400) < 2 ^ 32 := by
  obtain ⟨k, hk⟩ : ∃ k, d.year = 1970 + k := ⟨d.year - 1970, by omega⟩
  have hmonth := d.inYear
  have hday := d.inMonth
  have htime := d.inDay
  have hle := daysInMonth_le d.year d.month
  have hbefore := daysBefore_le d.year d.month
  have hsum := sum_daysInYear (k := k) (by omega)
  have hdays : d.days ≤ 365 * k + (k + 1) / 4 + 31 * 11 + 30 := by
    rw [Instant.days, hk, hsum, ← hk]
    omega
  rw [Instant.seconds]
  omega

/-- The days that are computed are one too many where the two leap days do not agree. -/
lemma days_computed (hyear : 1980 ≤ d.year ∧ d.year ≤ 2037) :
    (daysBefore d.year d.month + leapError d.year (d.month - 1) + d.day : ℤ) +
      (d.year - 1900 - 70) * 365 + Int.tdiv (d.year - 1900 - 70 - 2) 4 =
        d.days + if IsLeap d.year ↔ 3 ≤ d.month then 0 else 1 := by
  obtain ⟨k, hk⟩ : ∃ k, d.year = 1970 + k := ⟨d.year - 1970, by omega⟩
  have hleap : IsLeap d.year ↔ d.year % 4 = 0 := isLeap_iff (by omega) (by omega)
  have hmonth := d.inYear
  have hday := d.inMonth
  have hsum := sum_daysInYear (k := k) (by omega)
  rw [Instant.days, hk, hsum, ← hk, leapError, Int.tdiv_eq_ediv_of_nonneg (by omega)]
  simp only [hleap]
  push_cast
  split_ifs <;> omega

lemma seconds_computed (d : Instant) :
    (d.days + if IsLeap d.year ↔ 3 ≤ d.month then 0 else 1 : ℤ) * 86400 + d.hour * 3600 +
      d.minute * 60 + d.second =
        (d.seconds + if IsLeap d.year ↔ 3 ≤ d.month then 0 else 86400 : ℕ) := by
  rw [Instant.seconds]
  push_cast
  split_ifs <;> omega

/-- What is computed is the number of seconds, or a day more. -/
lemma gettimeofdayInit_eq (h : d.Shows c) (hyear : 1980 ≤ d.year ∧ d.year ≤ 2037) :
    gettimeofdayInit c =
      some (d.seconds + if IsLeap d.year ↔ 3 ≤ d.month then 0 else 86400 : ℤ) := by
  have hlt : 2 * (d.seconds + if IsLeap d.year ↔ 3 ≤ d.month then 0 else 86400) < 2 ^ 32 := by
    have hday : (if IsLeap d.year ↔ 3 ≤ d.month then 0 else 86400) ≤ 86400 := by
      split_ifs
      · exact Nat.zero_le _
      · exact le_rfl
    calc 2 * (d.seconds + if IsLeap d.year ↔ 3 ≤ d.month then 0 else 86400)
        ≤ 2 * (d.seconds + 86400) := Nat.mul_le_mul_left 2 (Nat.add_le_add_left hday _)
      _ < 2 ^ 32 := seconds_lt ⟨by omega, hyear.2⟩
  have hleap : IsLeap d.year ↔ d.year % 4 = 0 := isLeap_iff (by omega) (by omega)
  have hmonth := d.inYear
  have hmon : ((d.month : ℤ) - 1).toNat = d.month - 1 := by omega
  have hsucc : d.month - 1 + 1 = d.month := by omega
  have hbase : (d.year : ℤ) - 1900 + 1900 = (d.year : ℕ) := by omega
  have hmonths := addMonths_eq (i := d.month - 1) hleap (by omega)
  rw [hsucc] at hmonths
  have hdelta : (d.year : ℤ) - 1900 - 70 > 2 := by omega
  simp only [gettimeofdayInit, rtcReadClock_eq h hyear, dayOfYear, hmon, hbase, hmonths,
    Option.map_some, Option.bind_eq_bind, Option.bind_some, Option.pure_def, if_pos hdelta,
    days_computed hyear, seconds_computed]
  rw [Word.toInt_eq hlt]
  push_cast
  rfl

/-- The seconds are those of the calendar in the first two months of a common year and from March on
in a leap year; otherwise they are those of the next day. -/
theorem gettimeofdayInit_iff (h : d.Shows c) (hyear : 1980 ≤ d.year ∧ d.year ≤ 2037) :
    gettimeofdayInit c = some (d.seconds : ℤ) ↔ (IsLeap d.year ↔ 3 ≤ d.month) := by
  rw [gettimeofdayInit_eq h hyear, Option.some.injEq]
  split_ifs with hexact
  · exact iff_of_true (by omega) hexact
  · exact iff_of_false (by omega) hexact

/-- The clock at midnight of a day. -/
def midnight (year month day : BitVec 8) : Cmos := fun addr =>
  if addr = 9 then year else if addr = 8 then month else if addr = 7 then day else 0

/-- The first of March of a leap year and of a common year. -/
def leapMarch : Instant := ⟨2024, 3, 1, 0, 0, 0, by decide, by decide, by decide⟩
def commonMarch : Instant := ⟨2001, 3, 1, 0, 0, 0, by decide, by decide, by decide⟩

theorem gettimeofdayInit_iff_leapMarch :
    gettimeofdayInit (midnight 0x24 0x03 0x01) = some (leapMarch.seconds : ℤ) := by
  have hshows : leapMarch.Shows (midnight 0x24 0x03 0x01) := by
    refine ⟨?_, ?_, ?_, ?_, ?_, ?_, ?_⟩ <;> decide +kernel
  exact (gettimeofdayInit_iff hshows (by decide)).mpr (by decide)

theorem gettimeofdayInit_commonMarch :
    commonMarch.Shows (midnight 0x01 0x03 0x01) ∧
      gettimeofdayInit (midnight 0x01 0x03 0x01) ≠ some (commonMarch.seconds : ℤ) := by
  refine ⟨⟨?_, ?_, ?_, ?_, ?_, ?_, ?_⟩, ?_⟩ <;> decide +kernel

end ApuBios.Libc
