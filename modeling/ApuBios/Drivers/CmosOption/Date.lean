import ApuBios.Drivers.CmosOption.Basic
import Mathlib.Tactic

/-!
# The date in the CMOS

Model of `rtc_check_update_cmos_date` in `drivers/pc80/mc146818rtc.c`. The clock does not tick
while the function runs.
-/

namespace ApuBios.CmosOption

/-! ### Registers -/

def RTC_CLK_SECOND : ℕ := 0
def RTC_CLK_MINUTE : ℕ := 2
def RTC_CLK_HOUR : ℕ := 4
def RTC_CLK_DAYOFWEEK : ℕ := 6
def RTC_CLK_DAYOFMONTH : ℕ := 7
def RTC_CLK_MONTH : ℕ := 8
def RTC_CLK_YEAR : ℕ := 9
def RTC_VALID : ℕ := 13
def RTC_CLK_ALTCENTURY : ℕ := 0x32

def RTC_VRT : BitVec 8 := 0x80

/-- The constants `COREBOOT_BUILD_..._BCD`. -/
structure BuildDate where
  weekday : BitVec 8
  day : BitVec 8
  month : BitVec 8
  year : BitVec 8
  century : BitVec 8

def rtcUpdateCmosDate (build : BuildDate) (hasCentury : BitVec 8) (c : Cmos) : Cmos :=
  let c := cmosWrite c 0 RTC_CLK_SECOND
  let c := cmosWrite c 0 RTC_CLK_MINUTE
  let c := cmosWrite c 1 RTC_CLK_HOUR
  let c := cmosWrite c (build.weekday + 1) RTC_CLK_DAYOFWEEK
  let c := cmosWrite c build.day RTC_CLK_DAYOFMONTH
  let c := cmosWrite c build.month RTC_CLK_MONTH
  let c := cmosWrite c build.year RTC_CLK_YEAR
  if hasCentury ≠ 0 then cmosWrite c build.century RTC_CLK_ALTCENTURY else c

def testBcdEncoding (data : BitVec 8) : Bool :=
  (data &&& 0x0F) > 0x09 || (data &&& 0xF0) > 0x90

def bcdToHex (bcd : BitVec 8) : BitVec 8 :=
  ((bcd &&& 0xF0) >>> 4) * 10 + (bcd &&& 0x0F)

/-- `RTC_BCD_ERROR` or `RTC_RANGE_ERROR`, for the values that have been read. -/
def rtcErrorType (century year month dayofmonth dayofweek : BitVec 8) : Bool :=
  testBcdEncoding century || testBcdEncoding year || testBcdEncoding month ||
    testBcdEncoding dayofmonth || testBcdEncoding dayofweek ||
    (bcdToHex century != bcdToHex 0x20 || bcdToHex year > 99 || bcdToHex month > 12 ||
      bcdToHex dayofmonth > 31 || bcdToHex dayofweek > 7)

/-- The check of the values in the CMOS. -/
def rtcError (hasCentury : BitVec 8) (c : Cmos) : Bool :=
  rtcErrorType (if hasCentury ≠ 0 then cmosRead c RTC_CLK_ALTCENTURY else 0)
    (cmosRead c RTC_CLK_YEAR) (cmosRead c RTC_CLK_MONTH) (cmosRead c RTC_CLK_DAYOFMONTH)
    (cmosRead c RTC_CLK_DAYOFWEEK)

def rtcCheckUpdateCmosDate (build : BuildDate) (hasCentury : BitVec 8) (c : Cmos) : Cmos :=
  let c := if cmosRead c RTC_VALID &&& RTC_VRT = 0 then rtcUpdateCmosDate build hasCentury c else c
  if rtcError hasCentury c then rtcUpdateCmosDate build hasCentury c else c

/-! ### Dates -/

/-- Both digits are decimal. -/
def IsBcd (b : BitVec 8) : Prop := b.toNat / 16 ≤ 9 ∧ b.toNat % 16 ≤ 9

/-- The number with these digits. -/
def bcdValue (b : BitVec 8) : ℕ := 10 * (b.toNat / 16) + b.toNat % 16

instance (b : BitVec 8) : Decidable (IsBcd b) := inferInstanceAs (Decidable (_ ∧ _))

def IsLeap (year : ℕ) : Prop := 4 ∣ year ∧ (100 ∣ year → 400 ∣ year)

instance (year : ℕ) : Decidable (IsLeap year) := inferInstanceAs (Decidable (_ ∧ _))

def daysInMonth (year month : ℕ) : ℕ :=
  match month with
  | 2 => if IsLeap year then 29 else 28
  | 4 | 6 | 9 | 11 => 30
  | _ => 31

/-- Five bytes that are a day of the calendar in BCD, and a day of the week from 1 to 7. -/
structure IsDate (century year month day weekday : BitVec 8) : Prop where
  digits : IsBcd century ∧ IsBcd year ∧ IsBcd month ∧ IsBcd day ∧ IsBcd weekday
  inYear : 1 ≤ bcdValue month ∧ bcdValue month ≤ 12
  inMonth : 1 ≤ bcdValue day ∧
    bcdValue day ≤ daysInMonth (100 * bcdValue century + bcdValue year) (bcdValue month)
  inWeek : 1 ≤ bcdValue weekday ∧ bcdValue weekday ≤ 7

/-- The date in the CMOS is valid. Without a register for the century it is the one that the
check asks for. -/
def ValidDate (hasCentury : BitVec 8) (c : Cmos) : Prop :=
  IsDate (if hasCentury ≠ 0 then cmosRead c RTC_CLK_ALTCENTURY else 0x20)
    (cmosRead c RTC_CLK_YEAR) (cmosRead c RTC_CLK_MONTH) (cmosRead c RTC_CLK_DAYOFMONTH)
    (cmosRead c RTC_CLK_DAYOFWEEK)

/-- The day of a build; the weekday is counted from Sunday as 0. -/
def BuildDate.Valid (build : BuildDate) : Prop :=
  IsDate build.century build.year build.month build.day (build.weekday + 1)

/-! ### Bytes -/

lemma testBcdEncoding_iff (b : BitVec 8) : testBcdEncoding b = false ↔ IsBcd b := by
  revert b
  decide +kernel

lemma bcdToHex_toNat (b : BitVec 8) : (bcdToHex b).toNat = bcdValue b := by
  revert b
  decide +kernel

lemma century_iff (b : BitVec 8) : IsBcd b ∧ bcdValue b = 20 ↔ b = 0x20 := by
  revert b
  decide +kernel

lemma not_bcdToHex_gt (b n : BitVec 8) : ¬ bcdToHex b > n ↔ bcdValue b ≤ n.toNat := by
  rw [gt_iff_lt, BitVec.lt_def, bcdToHex_toNat]
  exact not_lt

lemma daysInMonth_le (year month : ℕ) : daysInMonth year month ≤ 31 := by
  unfold daysInMonth
  split
  · split <;> omega
  all_goals omega

/-- The fields of the date, apart from the century, that the check accepts. -/
def InRange (c : Cmos) : Prop :=
  IsBcd (cmosRead c RTC_CLK_YEAR) ∧ IsBcd (cmosRead c RTC_CLK_MONTH) ∧
    IsBcd (cmosRead c RTC_CLK_DAYOFMONTH) ∧ IsBcd (cmosRead c RTC_CLK_DAYOFWEEK) ∧
    bcdValue (cmosRead c RTC_CLK_MONTH) ≤ 12 ∧ bcdValue (cmosRead c RTC_CLK_DAYOFMONTH) ≤ 31 ∧
    bcdValue (cmosRead c RTC_CLK_DAYOFWEEK) ≤ 7

variable {build : BuildDate} {hasCentury : BitVec 8} {c : Cmos}

/-- There is a register for the century, and the century is the one that the check asks for. -/
def InCentury (hasCentury : BitVec 8) (c : Cmos) : Prop :=
  hasCentury ≠ 0 ∧ cmosRead c RTC_CLK_ALTCENTURY = 0x20

lemma rtcError_iff : rtcError hasCentury c = false ↔ InCentury hasCentury c ∧ InRange c := by
  have hvalue (b : BitVec 8) : (bcdToHex b != bcdToHex 0x20) = false ↔ bcdValue b = 20 := by
    rw [bne_eq_false_iff_eq, ← BitVec.toNat_inj, bcdToHex_toNat, bcdToHex_toNat]
    rfl
  have hyear (b : BitVec 8) : IsBcd b → bcdValue b ≤ 99 := by
    revert b
    decide +kernel
  have hzero : ¬ bcdValue 0 = 20 := by decide
  simp only [rtcError, rtcErrorType, Bool.or_eq_false_iff, testBcdEncoding_iff, hvalue,
    decide_eq_false_iff_not, not_bcdToHex_gt, InCentury, InRange, ← century_iff]
  by_cases hcentury : hasCentury = 0
  · simp only [hcentury, ne_eq, not_true_eq_false, if_false, hzero, false_and, and_false]
  · simp only [hcentury, ne_eq, not_false_eq_true, if_true, true_and]
    constructor
    · rintro ⟨⟨⟨⟨⟨h₁, h₂⟩, h₃⟩, h₄⟩, h₅⟩, ⟨⟨⟨h₆, _⟩, h₈⟩, h₉⟩, h₁₀⟩
      exact ⟨⟨h₁, h₆⟩, h₂, h₃, h₄, h₅, h₈, h₉, h₁₀⟩
    · rintro ⟨⟨h₁, h₆⟩, h₂, h₃, h₄, h₅, h₈, h₉, h₁₀⟩
      exact ⟨⟨⟨⟨⟨h₁, h₂⟩, h₃⟩, h₄⟩, h₅⟩, ⟨⟨⟨h₆, hyear _ h₂⟩, h₈⟩, h₉⟩, h₁₀⟩

/-- A valid date passes the check of the fields. -/
lemma ValidDate.inRange (h : ValidDate hasCentury c) : InRange c := by
  obtain ⟨⟨_, hyear, hmonth, hday, hweekday⟩, hinYear, hinMonth, hinWeek⟩ := h
  exact ⟨hyear, hmonth, hday, hweekday, hinYear.2, hinMonth.2.trans (daysInMonth_le _ _), hinWeek.2⟩

/-! ### Writing the date -/

/-- Writing the date sets some registers to constants. -/
lemma rtcUpdateCmosDate_apply (addr : BitVec 8) :
    rtcUpdateCmosDate build hasCentury c addr =
      if hasCentury ≠ 0 ∧ addr = 0x32 then build.century
      else if addr = 9 then build.year
      else if addr = 8 then build.month
      else if addr = 7 then build.day
      else if addr = 6 then build.weekday + 1
      else if addr = 4 then 1
      else if addr = 2 then 0
      else if addr = 0 then 0
      else c addr := by
  by_cases hcentury : hasCentury = 0
  · simp only [rtcUpdateCmosDate, hcentury, ne_eq, not_true_eq_false, if_false, false_and,
      cmosWrite, Function.update_apply]
    rfl
  · simp only [rtcUpdateCmosDate, hcentury, ne_eq, not_false_eq_true, if_true, true_and,
      cmosWrite, Function.update_apply]
    rfl

/-- Writing the date twice is writing it once. -/
lemma rtcUpdateCmosDate_idem :
    rtcUpdateCmosDate build hasCentury (rtcUpdateCmosDate build hasCentury c) =
      rtcUpdateCmosDate build hasCentury c := by
  funext addr
  rw [rtcUpdateCmosDate_apply, rtcUpdateCmosDate_apply]
  split_ifs <;> rfl

/-- The clock shows one o'clock on the day of the build. -/
structure Shows (build : BuildDate) (hasCentury : BitVec 8) (c : Cmos) : Prop where
  second : cmosRead c RTC_CLK_SECOND = 0
  minute : cmosRead c RTC_CLK_MINUTE = 0
  hour : cmosRead c RTC_CLK_HOUR = 1
  weekday : cmosRead c RTC_CLK_DAYOFWEEK = build.weekday + 1
  day : cmosRead c RTC_CLK_DAYOFMONTH = build.day
  month : cmosRead c RTC_CLK_MONTH = build.month
  year : cmosRead c RTC_CLK_YEAR = build.year
  century : hasCentury ≠ 0 → cmosRead c RTC_CLK_ALTCENTURY = build.century

/-- What is written is what the registers show afterwards. -/
lemma shows_rtcUpdateCmosDate : Shows build hasCentury (rtcUpdateCmosDate build hasCentury c) := by
  have hread (addr : ℕ) (hne : BitVec.ofNat 8 addr ≠ 0x32) :
      ¬ (hasCentury ≠ 0 ∧ BitVec.ofNat 8 addr = 0x32) := fun h => hne h.2
  constructor
  case century =>
    intro hcentury
    rw [cmosRead, rtcUpdateCmosDate_apply, if_pos ⟨hcentury, rfl⟩]
  all_goals
    rw [cmosRead, rtcUpdateCmosDate_apply, if_neg (hread _ (by decide))]
    rfl

/-- Writing the date changes nothing exactly if the registers show it. -/
lemma rtcUpdateCmosDate_eq_self_iff :
    rtcUpdateCmosDate build hasCentury c = c ↔ Shows build hasCentury c := by
  constructor
  · intro hsame
    rw [← hsame]
    exact shows_rtcUpdateCmosDate
  · intro h
    funext addr
    rw [rtcUpdateCmosDate_apply]
    split_ifs with h₁ h₂ h₃ h₄ h₅ h₆ h₇ h₈
    · rw [h₁.2]
      exact (h.century h₁.1).symm
    · rw [h₂]
      exact h.year.symm
    · rw [h₃]
      exact h.month.symm
    · rw [h₄]
      exact h.day.symm
    · rw [h₅]
      exact h.weekday.symm
    · rw [h₆]
      exact h.hour.symm
    · rw [h₇]
      exact h.minute.symm
    · rw [h₈]
      exact h.second.symm
    · rfl

/-- A day of any century has a day of this one with the same other digits. -/
lemma IsDate.inCentury {century year month day weekday : BitVec 8}
    (h : IsDate century year month day weekday) : IsDate 0x20 year month day weekday := by
  obtain ⟨⟨hcentury, hyear, hmonth, hday, hweekday⟩, hinYear, ⟨hpos, hle⟩, hinWeek⟩ := h
  refine ⟨⟨by decide, hyear, hmonth, hday, hweekday⟩, hinYear, ⟨hpos, hle.trans ?_⟩, hinWeek⟩
  have hbound : bcdValue year ≤ 99 := by
    obtain ⟨h₁, h₂⟩ := hyear
    rw [bcdValue]
    omega
  have hvalue : bcdValue 0x20 = 20 := by decide
  have hleap : IsLeap (100 * bcdValue century + bcdValue year) →
      IsLeap (100 * bcdValue 0x20 + bcdValue year) := by
    rintro ⟨hfour, hhundred⟩
    rw [hvalue]
    constructor <;> omega
  unfold daysInMonth
  split
  · split
    · rename_i hle
      rw [if_pos (hleap hle)]
    · split <;> omega
  · rfl
  · rfl
  · rfl
  · rfl
  · rfl

/-- The date that is written is the day of the build. -/
lemma rtcUpdateCmosDate_date (hbuild : build.Valid) :
    ValidDate hasCentury (rtcUpdateCmosDate build hasCentury c) := by
  have hshows : Shows build hasCentury (rtcUpdateCmosDate build hasCentury c) :=
    shows_rtcUpdateCmosDate
  rw [ValidDate, hshows.year, hshows.month, hshows.day, hshows.weekday]
  by_cases hcentury : hasCentury = 0
  · rw [if_neg (not_not.2 hcentury)]
    exact hbuild.inCentury
  · rw [if_pos hcentury, hshows.century hcentury]
    exact hbuild

/-! ### The check -/

/-- The check either leaves the CMOS alone or writes the day of the build. -/
lemma rtcCheckUpdateCmosDate_eq :
    rtcCheckUpdateCmosDate build hasCentury c =
      if cmosRead c RTC_VALID &&& RTC_VRT = 0 ∨ rtcError hasCentury c = true then
        rtcUpdateCmosDate build hasCentury c
      else c := by
  unfold rtcCheckUpdateCmosDate
  by_cases hlost : cmosRead c RTC_VALID &&& RTC_VRT = 0
  · simp only [hlost, if_true, true_or, rtcUpdateCmosDate_idem, ite_self]
  · simp only [hlost, if_false, false_or]

/-- Checking twice is checking once. -/
lemma rtcCheckUpdateCmosDate_idem :
    rtcCheckUpdateCmosDate build hasCentury (rtcCheckUpdateCmosDate build hasCentury c) =
      rtcCheckUpdateCmosDate build hasCentury c := by
  rw [rtcCheckUpdateCmosDate_eq (c := c)]
  split
  · rw [rtcCheckUpdateCmosDate_eq, rtcUpdateCmosDate_idem, ite_self]
  · rename_i hkept
    rw [rtcCheckUpdateCmosDate_eq, if_neg hkept]

/-- What the check is for: the date is valid afterwards, a second check changes nothing more, and
a valid date with the valid-RAM bit set is left alone. -/
structure Repairs (build : BuildDate) (hasCentury : BitVec 8) (c : Cmos) : Prop where
  valid : ValidDate hasCentury (rtcCheckUpdateCmosDate build hasCentury c)
  twice : rtcCheckUpdateCmosDate build hasCentury (rtcCheckUpdateCmosDate build hasCentury c) =
    rtcCheckUpdateCmosDate build hasCentury c
  keeps : cmosRead c RTC_VALID &&& RTC_VRT ≠ 0 → ValidDate hasCentury c →
    rtcCheckUpdateCmosDate build hasCentury c = c

/-- The day in the CMOS is one of the calendar: no field is zero, and the month has the day. -/
def DayExists (c : Cmos) : Prop :=
  bcdValue (cmosRead c RTC_CLK_MONTH) ≠ 0 ∧ bcdValue (cmosRead c RTC_CLK_DAYOFWEEK) ≠ 0 ∧
    bcdValue (cmosRead c RTC_CLK_DAYOFMONTH) ≠ 0 ∧
    bcdValue (cmosRead c RTC_CLK_DAYOFMONTH) ≤
      daysInMonth (2000 + bcdValue (cmosRead c RTC_CLK_YEAR)) (bcdValue (cmosRead c RTC_CLK_MONTH))

lemma ValidDate.dayExists (h : ValidDate hasCentury c) (hcentury : InCentury hasCentury c) :
    DayExists c := by
  obtain ⟨hregister, hbyte⟩ := hcentury
  rw [ValidDate, if_pos hregister, hbyte] at h
  obtain ⟨_, ⟨hmonth, _⟩, ⟨hday, hexists⟩, ⟨hweekday, _⟩⟩ := h
  exact ⟨by omega, by omega, by omega, hexists⟩

lemma DayExists.validDate (h : DayExists c) (hcentury : InCentury hasCentury c)
    (hrange : InRange c) : ValidDate hasCentury c := by
  obtain ⟨hregister, hbyte⟩ := hcentury
  obtain ⟨hmonth, hweekday, hday, hexists⟩ := h
  obtain ⟨h₁, h₂, h₃, h₄, h₅, _, h₇⟩ := hrange
  rw [ValidDate, if_pos hregister, hbyte]
  exact ⟨⟨by decide, h₁, h₂, h₃, h₄⟩, ⟨by omega, h₅⟩, ⟨by omega, hexists⟩, ⟨by omega, h₇⟩⟩

/-- For every CMOS content and every day of a build, the check does what it is for if and only if
the RTC has lost power, or the century is 20 and a date inside the ranges that are checked is one
of the calendar, or there is no such century and the date is invalid, or the clock shows one
o'clock on the day of the build. -/
theorem rtcCheckUpdateCmosDate_iff (build : BuildDate) (hbuild : build.Valid)
    (hasCentury : BitVec 8) (c : Cmos) :
    Repairs build hasCentury c ↔
      cmosRead c RTC_VALID &&& RTC_VRT = 0 ∨
        (InCentury hasCentury c ∧ (InRange c → DayExists c)) ∨
        (¬ InCentury hasCentury c ∧
          (ValidDate hasCentury c → Shows build hasCentury c)) := by
  have hwritten : ValidDate hasCentury (rtcUpdateCmosDate build hasCentury c) :=
    rtcUpdateCmosDate_date hbuild
  by_cases hlost : cmosRead c RTC_VALID &&& RTC_VRT = 0
  · have hrun : rtcCheckUpdateCmosDate build hasCentury c =
        rtcUpdateCmosDate build hasCentury c := by
      rw [rtcCheckUpdateCmosDate_eq, if_pos (Or.inl hlost)]
    refine iff_of_true ⟨?_, rtcCheckUpdateCmosDate_idem, fun h => absurd hlost h⟩ (Or.inl hlost)
    rw [hrun]
    exact hwritten
  by_cases herror : rtcError hasCentury c = false
  · -- the date passes the check and stays
    obtain ⟨hcentury, hrange⟩ := rtcError_iff.1 herror
    have hrun : rtcCheckUpdateCmosDate build hasCentury c = c := by
      rw [rtcCheckUpdateCmosDate_eq, if_neg (not_or.2 ⟨hlost, by simp [herror]⟩)]
    constructor
    · rintro ⟨hvalid, _, _⟩
      rw [hrun] at hvalid
      exact Or.inr (Or.inl ⟨hcentury, fun _ => hvalid.dayExists hcentury⟩)
    · rintro (h | ⟨_, hday⟩ | ⟨hother, _⟩)
      · exact absurd h hlost
      · refine ⟨?_, rtcCheckUpdateCmosDate_idem, fun _ _ => hrun⟩
        rw [hrun]
        exact (hday hrange).validDate hcentury hrange
      · exact absurd hcentury hother
  · -- the date is replaced
    have hrun : rtcCheckUpdateCmosDate build hasCentury c =
        rtcUpdateCmosDate build hasCentury c := by
      rw [rtcCheckUpdateCmosDate_eq, if_pos (Or.inr (by simpa using herror))]
    constructor
    · rintro ⟨_, _, hkeeps⟩
      rw [hrun] at hkeeps
      by_cases hcentury : InCentury hasCentury c
      · refine Or.inr (Or.inl ⟨hcentury, fun hrange => ?_⟩)
        exact absurd (rtcError_iff.2 ⟨hcentury, hrange⟩) herror
      · refine Or.inr (Or.inr ⟨hcentury, fun hvalid => ?_⟩)
        exact rtcUpdateCmosDate_eq_self_iff.1 (hkeeps hlost hvalid)
    · intro h
      refine ⟨by rw [hrun]; exact hwritten, rtcCheckUpdateCmosDate_idem, fun _ hvalid => ?_⟩
      rw [hrun]
      rcases h with h | ⟨hcentury, _⟩ | ⟨_, hshows⟩
      · exact absurd h hlost
      · exact absurd (rtcError_iff.2 ⟨hcentury, hvalid.inRange⟩) herror
      · exact rtcUpdateCmosDate_eq_self_iff.2 (hshows hvalid)

/-- A CMOS with the valid-RAM bit set, a register for the century, and month zero. -/
theorem rtcCheckUpdateCmosDate_month_zero :
    ¬ Repairs ⟨0x01, 0x15, 0x06, 0x15, 0x20⟩ 1
      (fun addr => if addr = 13 then 0x80 else if addr = 0x32 then 0x20
        else if addr = 6 then 0x02 else if addr = 7 then 0x15 else if addr = 9 then 0x15
        else 0) := by
  rintro ⟨⟨_, ⟨hmonth, _⟩, _, _⟩, _, _⟩
  exact absurd hmonth (by decide)

/-- A valid date in this century. -/
theorem rtcCheckUpdateCmosDate_iff_valid :
    Repairs ⟨0x01, 0x15, 0x06, 0x15, 0x20⟩ 1
      (fun addr => if addr = 13 then 0x80 else if addr = 0x32 then 0x20
        else if addr = 6 then 0x02 else if addr = 7 then 0x29 else if addr = 8 then 0x02
        else if addr = 9 then 0x16 else 0) :=
  (rtcCheckUpdateCmosDate_iff _ ⟨by decide, by decide, by decide, by decide⟩ 1 _).2
    (Or.inr (Or.inl ⟨⟨by decide, rfl⟩, fun _ => ⟨by decide, by decide, by decide, by decide⟩⟩))

end ApuBios.CmosOption
