import Brtos.Library.Gregorian

/-! The calendar of OSTime.c, which OSUpdateCalendar moves on by a second. -/
namespace Brtos
open Gregorian

structure OsRtc where
  year : ℕ
  month : ℕ
  day : ℕ
  hour : ℕ
  min : ℕ
  sec : ℕ
  deriving DecidableEq

/-- OSRtc and the LeapMonth that is kept between the calls. -/
structure Calendar where
  osRtc : OsRtc
  leapMonth : ℕ
  deriving DecidableEq

/-- MonthLength; the first element is a dummy. -/
def monthLengths : List ℕ := [0,31,28,31,30,31,30,31,31,30,31,30,31]

namespace OsRtc

/-- A time of a day that exists. -/
structure Valid (r : OsRtc) : Prop where
  date : IsDate r.year r.month r.day
  year_lt : r.year < 65536
  hour_lt : r.hour < 24
  min_lt : r.min < 60
  sec_lt : r.sec < 60

/-- The seconds since the beginning of the year zero. -/
def instant (r : OsRtc) : ℕ :=
  dayNumber r.year r.month r.day*86400+r.hour*3600+r.min*60+r.sec

theorem Valid.instant_lt {r : OsRtc} (h : r.Valid) :
    r.instant < daysBeforeYear (r.year+1)*86400 := by
  have := h.date.lt_year
  have := h.hour_lt
  have := h.min_lt
  have := h.sec_lt
  simp only [instant]
  omega

theorem Valid.eq_of_instant {r r' : OsRtc} (h : r.Valid) (h' : r'.Valid)
    (same : r.instant = r'.instant) : r = r' := by
  have := h.hour_lt
  have := h.min_lt
  have := h.sec_lt
  have := h'.hour_lt
  have := h'.min_lt
  have := h'.sec_lt
  simp only [instant] at same
  obtain ⟨year,month,day⟩ := h.date.eq_of_dayNumber h'.date (by omega)
  rw [year,month,day] at same
  cases r
  cases r'
  simp only [mk.injEq] at *
  omega

end OsRtc

namespace Calendar
variable (c : Calendar)

def setCalendar (rtc : OsRtc) : Calendar := { c with osRtc := rtc }

/-- The nested tests for a leap year. -/
def leapOf (r : OsRtc) : ℕ :=
  if r.month = 2 then
    if r.year%4 = 0 then
      if r.year%100 = 0 then
        if r.year%400 = 0 then 1 else 0
      else 1
    else 0
  else 0

def osUpdateCalendar : Calendar :=
  let r := { c.osRtc with sec := (c.osRtc.sec+1)%256 }
  if r.sec = 60 then
    let r := { r with sec := 0, min := (r.min+1)%256 }
    if r.min > 59 then
      let r := { r with min := 0, hour := (r.hour+1)%256 }
      if r.hour > 23 then
        let r := { r with hour := 0, day := (r.day+1)%256 }
        let leapMonth := leapOf r
        if r.day > monthLengths.getD r.month 0+leapMonth then
          let r := { r with day := 1, month := (r.month+1)%256 }
          if r.month > 12 then
            ⟨{ r with month := 1, year := (r.year+1)%65536 },leapMonth⟩
          else ⟨r,leapMonth⟩
        else ⟨r,leapMonth⟩
      else ⟨r,c.leapMonth⟩
    else ⟨r,c.leapMonth⟩
  else ⟨r,c.leapMonth⟩

variable {c}

theorem monthLength_eq {r : OsRtc} (pos : 1 ≤ r.month) (le : r.month ≤ 12) :
    monthLengths.getD r.month 0+leapOf r = monthLength r.year r.month := by
  have leap : Leap r.year ↔ r.year%4 = 0 ∧ (r.year%100 = 0 → r.year%400 = 0) := by
    simp only [Leap,Nat.dvd_iff_mod_eq_zero]
  by_cases february : r.month = 2
  · simp only [february,monthLength,leapOf,leap]
    split_ifs <;> simp_all [monthLengths]
  · unfold leapOf
    rw [if_neg february]
    generalize r.month = m at *
    interval_cases m <;> first | rfl | contradiction

/-- A second later, as long as the year fits into sixteen bits. -/
structure Later (r r' : OsRtc) : Prop where
  valid : r'.Valid
  instant : r'.instant = r.instant+1

theorem later_osUpdateCalendar (h : c.osRtc.Valid)
    (fits : c.osRtc.instant+1 < daysBeforeYear 65536*86400) :
    Later c.osRtc c.osUpdateCalendar.osRtc := by
  obtain ⟨⟨year,month,day,hour,min,sec⟩,leapMonth⟩ := c
  obtain ⟨date,year_lt,hour_lt,min_lt,sec_lt⟩ := h
  have length := monthLength_eq (r := ⟨year,month,day+1,0,0,0⟩) date.month_pos date.month_le
  have month_le := date.month_le
  have short := date.day_le.trans (monthLength_le year month)
  simp only [OsRtc.instant] at *
  rw [osUpdateCalendar]
  simp only [Nat.mod_eq_of_lt (show sec+1 < 256 by omega),
    Nat.mod_eq_of_lt (show min+1 < 256 by omega),Nat.mod_eq_of_lt (show hour+1 < 256 by omega),
    Nat.mod_eq_of_lt (show day+1 < 256 by omega),Nat.mod_eq_of_lt (show month+1 < 256 by omega),length]
  split_ifs with minute hours midnight ends december
  · have last : day = monthLength year month := by
      have := date.day_le
      omega
    obtain rfl : month = 12 := by omega
    have next := dayNumber_next_year date last
    have later : year+1 < 65536 := by
      by_contra full
      have := daysBeforeYear_mono (show 65536 ≤ year+1 by omega)
      simp only [dayNumber,daysBeforeMonth_one] at *
      omega
    rw [Nat.mod_eq_of_lt later]
    refine ⟨⟨IsDate.first (m := 1) _ (by omega) (by omega),later,by simp,by simp,by simp⟩,?_⟩
    simp only [OsRtc.instant,next]
    omega
  · have last : day = monthLength year month := by
      have := date.day_le
      omega
    have next := dayNumber_next_month date last
    refine ⟨⟨IsDate.first (m := month+1) _ (by omega) (by omega),year_lt,by simp,by simp,by simp⟩,?_⟩
    simp only [OsRtc.instant,next]
    omega
  · have next := dayNumber_next_day (y := year) (m := month) date.day_pos
    have tomorrow : IsDate year month (day+1) :=
      ⟨date.month_pos,date.month_le,by omega,by omega⟩
    refine ⟨⟨tomorrow,year_lt,by simp,by simp,by simp⟩,?_⟩
    simp only [OsRtc.instant,next]
    omega
  · refine ⟨⟨date,year_lt,by simp only; omega,by simp,by simp⟩,?_⟩
    simp only [OsRtc.instant]
    omega
  · refine ⟨⟨date,year_lt,hour_lt,by simp only; omega,by simp⟩,?_⟩
    simp only [OsRtc.instant]
    omega
  · refine ⟨⟨date,year_lt,hour_lt,min_lt,by simp only; omega⟩,?_⟩
    simp only [OsRtc.instant]
    omega

/-- After SetCalendar with a valid value and `n` calls of OSUpdateCalendar, the calendar holds the one
valid value that denotes the instant `n` seconds later. -/
theorem updates_seconds (c : Calendar) {rtc : OsRtc} (h : rtc.Valid) {n : ℕ}
    (fits : rtc.instant+n < daysBeforeYear 65536*86400) :
    ((osUpdateCalendar^[n]) (c.setCalendar rtc)).osRtc.Valid ∧
      ((osUpdateCalendar^[n]) (c.setCalendar rtc)).osRtc.instant = rtc.instant+n ∧
      ∀ r : OsRtc, r.Valid → r.instant = rtc.instant+n →
        ((osUpdateCalendar^[n]) (c.setCalendar rtc)).osRtc = r := by
  have run : ∀ m ≤ n, ((osUpdateCalendar^[m]) (c.setCalendar rtc)).osRtc.Valid ∧
      ((osUpdateCalendar^[m]) (c.setCalendar rtc)).osRtc.instant = rtc.instant+m := by
    intro m
    induction m with
    | zero => exact fun _ => ⟨h,(Nat.add_zero _).symm⟩
    | succ m ih =>
      intro le
      obtain ⟨valid,same⟩ := ih (by omega)
      rw [Function.iterate_succ_apply']
      have later := later_osUpdateCalendar valid (by omega)
      exact ⟨later.valid,by rw [later.instant,same,Nat.add_assoc]⟩
  obtain ⟨valid,same⟩ := run n le_rfl
  exact ⟨valid,same,fun r hr eq => valid.eq_of_instant hr (same.trans eq.symm)⟩

theorem updates_seconds_example :
    ((osUpdateCalendar^[1]) (setCalendar ⟨⟨0,0,0,0,0,0⟩,0⟩ ⟨1999,12,31,23,59,59⟩)).osRtc =
      ⟨2000,1,1,0,0,0⟩ ∧
    ((osUpdateCalendar^[1]) (setCalendar ⟨⟨0,0,0,0,0,0⟩,0⟩ ⟨1999,12,31,23,59,59⟩)).osRtc.instant =
      OsRtc.instant ⟨1999,12,31,23,59,59⟩+1 := by
  have valid : OsRtc.Valid ⟨1999,12,31,23,59,59⟩ :=
    ⟨⟨by decide,by decide,by decide,by decide⟩,by decide,by decide,by decide,by decide⟩
  have before := valid.instant_lt
  simp only [Nat.reduceAdd] at before
  have years := daysBeforeYear_mono (show 2000+1 ≤ 65536 by decide)
  rw [daysBeforeYear_succ] at years
  have length : 0 < yearLength 2000 := by decide
  exact ⟨rfl,(updates_seconds _ valid (by omega)).2.1⟩

end Calendar
end Brtos
