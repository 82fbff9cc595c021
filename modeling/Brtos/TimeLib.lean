import Brtos.Library.Civil

/-! gmtime_r, localtime_r and mktime of time_lib.c. A long has 32 bits and wraps, as the comments of
mktime assume. The overflow of an int is undefined: an int is an integer here, and what depends on fields
that may have any value assumes that their sums are ints. -/
namespace Brtos
open Gregorian

/-- struct tm -/
structure Tm where
  tmSec : ℤ
  tmMin : ℤ
  tmHour : ℤ
  tmMday : ℤ
  tmMon : ℤ
  tmYear : ℤ
  tmWday : ℤ
  tmYday : ℤ
  tmIsdst : ℤ
  deriving DecidableEq

/-- _timezone and _dstbias. -/
structure Zone where
  timezone : ℤ
  dstbias : ℤ

namespace Tm

/-- The value of an int. -/
def InInt (x : ℤ) : Prop := -2147483648 ≤ x ∧ x ≤ 2147483647

instance (x : ℤ) : Decidable (InInt x) := inferInstanceAs (Decidable (_ ∧ _))

def year0 : ℤ := 1900
def epochYr : ℤ := 1970
def secsDay : ℤ := 24*60*60
def timeMax : ℤ := 2147483647

def leapyear (year : ℤ) : Bool :=
  year.tmod 4 = 0 && (year.tmod 100 ≠ 0 || year.tmod 400 = 0)

def yearsize (year : ℤ) : ℕ := if leapyear year then 366 else 365

/-- A row of _ytab. -/
def row : Bool → List ℕ
  | false => [31,28,31,30,31,30,31,31,30,31,30,31]
  | true => [31,29,31,30,31,30,31,31,30,31,30,31]

/-- `_ytab[LEAPYEAR(year)][mon]`, none outside of the table. -/
def ytab (year mon : ℤ) : Option ℕ :=
  if 0 ≤ mon then (row (leapyear year))[mon.toNat]? else none

theorem yearsize_pos (year : ℤ) : 0 < yearsize year := by
  unfold yearsize
  split <;> decide

theorem row_pos (leap : Bool) : ∀ len ∈ row leap, 0 < len := by
  cases leap <;> decide

theorem ytab_pos {year mon : ℤ} {len : ℕ} (h : ytab year mon = some len) : 0 < len := by
  unfold ytab at h
  split at h
  · exact row_pos _ _ (List.mem_of_getElem? h)
  · cases h

/-! ### gmtime_r -/

def skipYears (dayno : ℕ) (year : ℤ) : ℕ × ℤ :=
  if yearsize year ≤ dayno then skipYears (dayno-yearsize year) (year+1) else (dayno,year)
termination_by dayno
decreasing_by
  have := yearsize_pos year
  omega

def skipMonths (dayno : ℕ) (year mon : ℤ) : Option (ℕ × ℤ) :=
  match found : ytab year mon with
  | none => none
  | some len => if len ≤ dayno then skipMonths (dayno-len) year (mon+1) else some (dayno,mon)
termination_by dayno
decreasing_by
  have := ytab_pos found
  omega

/-- The time is read as an uint32_t. -/
def gmtimeR (timer : ℤ) : Option Tm := do
  let time := (timer%4294967296).toNat
  let dayclock := time%86400
  let dayno := time/86400
  let (yday,year) := skipYears dayno epochYr
  let (day,mon) ← skipMonths yday year 0
  pure {
    tmSec := dayclock%60, tmMin := dayclock%3600/60, tmHour := dayclock/3600,
    tmMday := day+1, tmMon := mon, tmYear := year-year0,
    tmWday := (dayno+4)%7, tmYday := yday, tmIsdst := 0 }

def localtimeR (z : Zone) (timer : ℤ) : Option Tm :=
  gmtimeR (timer-z.timezone)

/-! ### mktime -/

/-- The value of a long after an operation. -/
def long (x : ℤ) : ℤ := x.bmod 4294967296

/-- What exceeds the base moves on to the next field. -/
def carry (base low high : ℤ) : ℤ × ℤ :=
  let high := high+low.tdiv base
  let low := low.tmod base
  if low < 0 then (low+base,high-1) else (low,high)

def lastMonth (year mon : ℤ) : ℤ × ℤ :=
  if mon-1 < 0 then (year-1,11) else (year,mon-1)

def nextMonth (year mon : ℤ) : ℤ × ℤ :=
  if mon+1 = 12 then (year+1,0) else (year,mon+1)

def borrowMonths (day year mon : ℤ) : Option (ℤ × ℤ × ℤ) :=
  if day < 0 then
    let date := lastMonth year mon
    match found : ytab (year0+date.1) date.2 with
    | none => none
    | some len => borrowMonths (day+len) date.1 date.2
  else some (day,year,mon)
termination_by (-day).toNat
decreasing_by
  have := ytab_pos found
  omega

def passMonths (day year mon : ℤ) : Option (ℤ × ℤ × ℤ) :=
  match found : ytab (year0+year) mon with
  | none => none
  | some len =>
    if len ≤ day then
      let date := nextMonth year mon
      passMonths (day-len) date.1 date.2
    else some (day,year,mon)
termination_by day.toNat
decreasing_by
  have := ytab_pos found
  omega

/-- mktime up to the date. -/
def normalize (tm : Tm) : Option Tm := do
  let (sec,min) := carry 60 tm.tmSec tm.tmMin
  let (min,hour) := carry 60 min tm.tmHour
  let (hour,day) := carry 24 hour 0
  let (mon,year) := carry 12 tm.tmMon tm.tmYear
  let (day,year,mon) ← borrowMonths (day+(tm.tmMday-1)) year mon
  let (day,year,mon) ← passMonths day year mon
  pure { tm with
    tmSec := sec, tmMin := min, tmHour := hour, tmMday := day+1, tmMon := mon, tmYear := year }

/-- The fields are ints, and so is what mktime makes of them up to the date: the carries, the days, and the
years whose months it passes, from the first to the last. -/
structure Sums (tm : Tm) : Prop where
  sec : InInt tm.tmSec
  min : InInt tm.tmMin
  hour : InInt tm.tmHour
  mday : InInt tm.tmMday
  mon : InInt tm.tmMon
  year : InInt tm.tmYear
  minutes : InInt (tm.tmMin+tm.tmSec/60)
  hours : InInt (tm.tmHour+(tm.tmMin+tm.tmSec/60)/60)
  before : InInt (tm.tmMday-1)
  days : InInt ((tm.tmHour+(tm.tmMin+tm.tmSec/60)/60)/24+(tm.tmMday-1))
  first : InInt (tm.tmYear+tm.tmMon/12) ∧ InInt (year0+(tm.tmYear+tm.tmMon/12))
  last : ∀ tm' ∈ tm.normalize, InInt tm'.tmYear ∧ InInt (year0+tm'.tmYear)

/-- The days of the months before. -/
def yearDays (year mon : ℤ) : Option ℕ :=
  (List.range mon.toNat).foldlM (fun yday (month : ℕ) => (ytab year month).map (yday+·)) 0

def flag (p : Prop) [Decidable p] : ℤ := if p then 1 else 0

/-- The days from 1970 to the year, and how often they overflowed. -/
def daysTo (tmYear : ℤ) : ℤ × ℤ :=
  let year := epochYr
  let overflow := flag (timeMax.tdiv 365 < tmYear-year)
  let day := long ((tmYear-year)*365)
  let overflow := overflow+flag (long (timeMax-day) < (tmYear-year).tdiv 4+1)
  let day := long (day+((tmYear-year).tdiv 4
    +flag (tmYear.tmod 4 ≠ 0 ∧ tmYear.tmod 4 < year.tmod 4)))
  let day := long (day-((tmYear-year).tdiv 100
    +flag (tmYear.tmod 100 ≠ 0 ∧ tmYear.tmod 100 < year.tmod 100)))
  let day := long (day+((tmYear-year).tdiv 400
    +flag (tmYear.tmod 400 ≠ 0 ∧ tmYear.tmod 400 < year.tmod 400)))
  (day,overflow)

def secondsOf (tm : Tm) : ℤ := (tm.tmHour*60+tm.tmMin)*60+tm.tmSec

/-- The seconds after the days, the time zone and daylight saving time. -/
def adjust (z : Zone) (tm : Tm) (day overflow : ℤ) : ℤ :=
  let seconds := tm.secondsOf
  let overflow := overflow+flag ((timeMax-seconds).tdiv secsDay < day)
  let seconds := long (seconds+long (day*secsDay))
  let overflow := overflow+flag ((0 < z.timezone ∧ timeMax-z.timezone < seconds) ∨
    (z.timezone < 0 ∧ seconds < -z.timezone))
  let seconds := long (seconds+z.timezone)
  let dst := if tm.tmIsdst ≠ 0 then z.dstbias else 0
  let overflow := overflow+flag (seconds < dst)
  let seconds := long (seconds-dst)
  if overflow ≠ 0 then -1 else seconds

/-- The days of the week and of the year are filled in; the days from 1970 and the overflows so
far come with them. -/
def countDays (tm : Tm) : Option (Tm × ℤ × ℤ) := do
  let tmYear := tm.tmYear+year0
  let (day,overflow) := daysTo tmYear
  let months ← yearDays tmYear tm.tmMon
  let yday := months+(tm.tmMday-1)
  let overflow := overflow+flag (long (day+yday) < 0)
  let day := long (day+yday)
  return ({ tm with tmYday := yday, tmWday := (day+4).tmod 7 },day,overflow)

/-- The struct that is left behind, and the time. -/
def mktime (z : Zone) (tm : Tm) : Option (Tm × ℤ) := do
  let tm ← tm.normalize
  if tm.tmYear < epochYr-year0 then return (tm,-1)
  let (tm,day,overflow) ← tm.countDays
  return (tm,tm.adjust z day overflow)

/-! ### The tables are the calendar -/

theorem leapyear_iff (year : ℤ) : leapyear year = true ↔ Leap (cycle year) := by
  have four := Int.dvd_iff_tmod_eq_zero (a := 4) (b := year)
  have century := Int.dvd_iff_tmod_eq_zero (a := 100) (b := year)
  have cycle := Int.dvd_iff_tmod_eq_zero (a := 400) (b := year)
  simp only [leapyear,leap_cycle,four,century,cycle,Bool.and_eq_true,Bool.or_eq_true,
    decide_eq_true_eq]
  exact and_congr_right fun _ => imp_iff_not_or.symm

theorem yearsize_eq (year : ℤ) : yearsize year = yearLength (cycle year) := by
  simp only [yearsize,yearLength,leapyear_iff]

theorem ytab_eq {year mon : ℤ} (nonneg : 0 ≤ mon) (lt : mon < 12) :
    ytab year mon = some (lengthOf year mon.toNat) := by
  have leap := leapyear_iff year
  lift mon to ℕ using nonneg
  have lt : mon < 12 := by omega
  simp only [ytab,Int.natCast_nonneg,if_true,Int.toNat_natCast,lengthOf,monthLength]
  cases h : leapyear year
  case false =>
    have common : ¬Leap (cycle year) := by simpa [h] using leap
    interval_cases mon <;> simp [row,common]
  case true =>
    have leap := leap.mp h
    interval_cases mon <;> simp [row,leap]

/-! ### What the fields say -/

/-- The days from 1970. -/
def dayno (tm : Tm) : ℤ :=
  civil (tm.tmYear+year0) tm.tmMon.toNat (tm.tmMday-1)-civil epochYr 0 0

/-- The fields are within their ranges. -/
structure Normal (tm : Tm) : Prop where
  date : IsCivil (tm.tmYear+year0) tm.tmMon.toNat (tm.tmMday-1)
  mon_nonneg : 0 ≤ tm.tmMon
  hour_nonneg : 0 ≤ tm.tmHour
  hour_lt : tm.tmHour < 24
  min_nonneg : 0 ≤ tm.tmMin
  min_lt : tm.tmMin < 60
  sec_nonneg : 0 ≤ tm.tmSec
  sec_lt : tm.tmSec < 60

/-- The days of the week and of the year are those of the date. -/
structure Derived (tm : Tm) : Prop where
  wday : tm.tmWday = (tm.dayno+4)%7
  yday : tm.tmYday = monthStart (tm.tmYear+year0) tm.tmMon.toNat+(tm.tmMday-1)

/-- The seconds from 1970, whatever the fields are. -/
def epoch (tm : Tm) : ℤ :=
  (civil (tm.tmYear+tm.tmMon/12+year0) (tm.tmMon%12).toNat (tm.tmMday-1)-civil epochYr 0 0)*86400
    +tm.tmHour*3600+tm.tmMin*60+tm.tmSec

variable {tm tm' : Tm}

theorem Normal.epoch_eq (h : tm.Normal) : tm.epoch = tm.dayno*86400+tm.secondsOf := by
  have := h.date.month_lt
  have := h.mon_nonneg
  have year : tm.tmMon/12 = 0 := by omega
  have mon : tm.tmMon%12 = tm.tmMon := by omega
  simp only [epoch,dayno,year,mon,secondsOf,add_zero]
  ring

theorem Normal.secondsOf_nonneg (h : tm.Normal) : 0 ≤ tm.secondsOf := by
  have := h.hour_nonneg
  have := h.min_nonneg
  have := h.sec_nonneg
  simp only [secondsOf]
  omega

theorem Normal.secondsOf_lt (h : tm.Normal) : tm.secondsOf < 86400 := by
  have := h.hour_lt
  have := h.min_lt
  have := h.sec_lt
  simp only [secondsOf]
  omega

/-- A time has one normal form. -/
theorem Normal.eq_of_epoch (h : tm.Normal) (h' : tm'.Normal) (derived : tm.Derived)
    (derived' : tm'.Derived) (same : tm.epoch = tm'.epoch) (isdst : tm.tmIsdst = tm'.tmIsdst) :
    tm = tm' := by
  rw [h.epoch_eq,h'.epoch_eq] at same
  have low := h.secondsOf_nonneg
  have high := h.secondsOf_lt
  have low' := h'.secondsOf_nonneg
  have high' := h'.secondsOf_lt
  have seconds : tm.secondsOf = tm'.secondsOf := by omega
  have days : tm.dayno = tm'.dayno := by omega
  obtain ⟨year,mon,day⟩ := h.date.eq_of_civil h'.date (by simpa [dayno] using days)
  have := h.mon_nonneg
  have := h'.mon_nonneg
  have mon : tm.tmMon = tm'.tmMon := by omega
  have := h.min_nonneg
  have := h.min_lt
  have := h.sec_nonneg
  have := h.sec_lt
  have := h'.min_nonneg
  have := h'.min_lt
  have := h'.sec_nonneg
  have := h'.sec_lt
  have wday := derived.wday
  have yday := derived.yday
  rw [days,← derived'.wday] at wday
  rw [year,mon,day,← derived'.yday] at yday
  simp only [secondsOf] at seconds
  cases tm
  cases tm'
  simp only [mk.injEq] at *
  omega

/-! ### gmtime_r -/

theorem skipYears_spec (dayno : ℕ) (year : ℤ) :
    yearStart (skipYears dayno year).2+(skipYears dayno year).1 = yearStart year+dayno ∧
      (skipYears dayno year).1 < yearsize (skipYears dayno year).2 := by
  fun_induction skipYears dayno year with
  | case1 dayno year le ih =>
    have next := yearStart_succ year
    rw [← yearsize_eq] at next
    exact ⟨by omega,ih.2⟩
  | case2 dayno year lt => exact ⟨rfl,by simpa using lt⟩

theorem skipMonths_spec (dayno : ℕ) (year mon : ℤ) (nonneg : 0 ≤ mon) (lt : mon < 12)
    (fits : monthStart year mon.toNat+dayno < yearsize year) :
    ∃ day mon', skipMonths dayno year mon = some (day,mon') ∧ 0 ≤ mon' ∧
      IsCivil year mon'.toNat day ∧
      monthStart year mon'.toNat+day = monthStart year mon.toNat+dayno := by
  induction dayno using Nat.strong_induction_on generalizing mon with
  | _ dayno ih =>
    have entry := @ytab_eq year mon nonneg lt
    have pos := lengthOf_pos year (show mon.toNat < 12 by omega)
    have next := monthStart_succ year mon.toNat
    rw [skipMonths]
    split
    case h_1 none => simp [entry] at none
    case h_2 len found =>
      rw [entry] at found
      cases found
      split
      case isTrue le =>
        have succ : (mon+1).toNat = mon.toNat+1 := by omega
        have inside : mon+1 < 12 := by
          by_contra last
          have twelve := monthStart_twelve year
          rw [← yearsize_eq,show 12 = mon.toNat+1 by omega] at twelve
          omega
        rw [← succ] at next
        obtain ⟨day,mon',eq,low,date,same⟩ :=
          ih (dayno-lengthOf year mon.toNat) (by omega) (mon+1) (by omega) inside (by omega)
        exact ⟨day,mon',eq,low,date,by omega⟩
      case isFalse gt =>
        exact ⟨dayno,mon,rfl,nonneg,⟨by omega,by omega,by omega⟩,rfl⟩

/-- The normal form of the time, read as an uint32_t. -/
theorem gmtimeR_spec (timer : ℤ) : ∃ tm, gmtimeR timer = some tm ∧ tm.Normal ∧ tm.Derived ∧
    tm.tmIsdst = 0 ∧ tm.epoch = timer%4294967296 := by
  obtain ⟨time,eq⟩ := Int.eq_ofNat_of_zero_le (Int.emod_nonneg timer (show (4294967296 : ℤ) ≠ 0 by decide))
  have spent := skipYears_spec (time/86400) epochYr
  generalize years : skipYears (time/86400) epochYr = out at spent
  obtain ⟨yday,year⟩ := out
  simp only at spent
  obtain ⟨day,mon,months,nonneg,date,same⟩ :=
    skipMonths_spec yday year 0 le_rfl (by decide) (by simpa [monthStart] using spent.2)
  have first : monthStart year (0 : ℤ).toNat = 0 := rfl
  have january : civil epochYr 0 0 = yearStart epochYr := rfl
  let tm : Tm := {
    tmSec := (time%86400%60 : ℕ), tmMin := (time%86400%3600/60 : ℕ), tmHour := (time%86400/3600 : ℕ),
    tmMday := day+1, tmMon := mon, tmYear := year-year0,
    tmWday := ((time/86400+4)%7 : ℕ), tmYday := yday, tmIsdst := 0 }
  have here : tm.tmYear+year0 = year := sub_add_cancel year year0
  have mday : tm.tmMday-1 = day := add_sub_cancel_right (day : ℤ) 1
  have days : tm.dayno = (time/86400 : ℕ) := by
    have begins := spent.1
    rw [first] at same
    unfold dayno
    rw [here,mday,january,civil]
    change yearStart year+monthStart year mon.toNat+day-yearStart epochYr = _
    omega
  have normal : tm.Normal := by
    have low : ∀ {k : ℕ}, (0 : ℤ) ≤ k := fun {k} => Int.natCast_nonneg k
    have clock := Nat.mod_lt time (show 0 < 86400 by decide)
    refine ⟨?_,nonneg,low,?_,low,?_,low,?_⟩
    · rw [here,mday]
      exact date
    · change ((time%86400/3600 : ℕ) : ℤ) < 24
      omega
    · change ((time%86400%3600/60 : ℕ) : ℤ) < 60
      omega
    · change ((time%86400%60 : ℕ) : ℤ) < 60
      omega
  refine ⟨tm,?_,normal,⟨?_,?_⟩,rfl,?_⟩
  · simp only [gmtimeR,eq,Int.toNat_natCast,years,months]
    rfl
  · rw [days]
    rfl
  · rw [here,mday]
    rw [first] at same
    change (yday : ℤ) = monthStart year mon.toNat+day
    omega
  · rw [normal.epoch_eq,days,eq]
    change ((time/86400 : ℕ) : ℤ)*86400+
      ((((time%86400/3600 : ℕ) : ℤ)*60+(time%86400%3600/60 : ℕ))*60+(time%86400%60 : ℕ)) = time
    omega

end Tm
end Brtos
