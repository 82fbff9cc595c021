import Brtos.TimeLib
import Brtos.Calendar

/-! mktime brings any struct tm into its normal form and finds its time; gmtime_r and localtime_r
are its inverses, and the calendar of OSTime.c keeps up with them. -/
namespace Brtos
open Gregorian

namespace Tm

/-! ### The fields come into their ranges -/

theorem carry_eq {base : ℤ} (pos : 0 < base) (low high : ℤ) :
    carry base low high = (low%base,high+low/base) := by
  have quotient := Int.tdiv_eq_ediv (a := low) (b := base)
  have remainder := Int.tmod_eq_emod (a := low) (b := base)
  have nonneg := Int.emod_nonneg low pos.ne'
  have lt := Int.emod_lt_of_pos low pos
  unfold carry
  by_cases exact : 0 ≤ low ∨ base ∣ low
  · rw [if_pos exact,add_zero] at quotient
    rw [if_pos exact,Nat.cast_zero,sub_zero] at remainder
    simp only [quotient,remainder]
    exact if_neg (not_lt.mpr nonneg)
  · rw [if_neg exact,Int.sign_eq_one_of_pos pos] at quotient
    rw [if_neg exact,Int.natAbs_of_nonneg pos.le] at remainder
    simp only [quotient,remainder]
    rw [if_pos (by omega),sub_add_cancel,← add_assoc,add_sub_cancel_right]

theorem civil_nextMonth (year mon : ℤ) (nonneg : 0 ≤ mon) (lt : mon < 12) (day : ℤ) :
    civil (year0+(nextMonth year mon).1) (nextMonth year mon).2.toNat day =
      civil (year0+year) mon.toNat (day+lengthOf (year0+year) mon.toNat) := by
  have next := monthStart_succ (year0+year) mon.toNat
  have succ : (mon+1).toNat = mon.toNat+1 := by omega
  unfold nextMonth
  split_ifs with last
  · have start := yearStart_succ_civil (year0+year)
    have first : monthStart (year0+year+1) (0 : ℤ).toNat = 0 := rfl
    rw [show mon.toNat+1 = 12 by omega] at next
    simp only [civil,← add_assoc] at *
    omega
  · simp only [civil,succ]
    omega

theorem nextMonth_range (year mon : ℤ) (nonneg : 0 ≤ mon) (lt : mon < 12) :
    0 ≤ (nextMonth year mon).2 ∧ (nextMonth year mon).2 < 12 := by
  unfold nextMonth
  split_ifs <;> simp only <;> omega

theorem lastMonth_range (year mon : ℤ) (nonneg : 0 ≤ mon) (lt : mon < 12) :
    0 ≤ (lastMonth year mon).2 ∧ (lastMonth year mon).2 < 12 := by
  unfold lastMonth
  split_ifs <;> simp only <;> omega

theorem nextMonth_lastMonth (year mon : ℤ) (nonneg : 0 ≤ mon) (lt : mon < 12) :
    nextMonth (lastMonth year mon).1 (lastMonth year mon).2 = (year,mon) := by
  unfold lastMonth
  split_ifs with january
  · obtain rfl : mon = 0 := by omega
    simp [nextMonth]
  · simp only [nextMonth,sub_add_cancel]
    rw [if_neg (by omega)]

theorem borrowMonths_spec (day year mon : ℤ) (nonneg : 0 ≤ mon) (lt : mon < 12) :
    ∃ day' year' mon', borrowMonths day year mon = some (day',year',mon') ∧
      0 ≤ day' ∧ 0 ≤ mon' ∧ mon' < 12 ∧
      civil (year0+year') mon'.toNat day' = civil (year0+year) mon.toNat day := by
  fun_induction borrowMonths day year mon with
  | case1 day year mon neg date none =>
    obtain ⟨low,high⟩ := lastMonth_range year mon nonneg lt
    simp [date,ytab_eq low high] at none
  | case2 day year mon neg date len found ih =>
    obtain ⟨low,high⟩ := lastMonth_range year mon nonneg lt
    rw [ytab_eq low high] at found
    cases found
    obtain ⟨day',year',mon',eq,days,ge,le,same⟩ := ih low high
    refine ⟨day',year',mon',eq,days,ge,le,?_⟩
    rw [same,← civil_nextMonth _ _ low high,nextMonth_lastMonth year mon nonneg lt]
  | case3 day year mon le =>
    exact ⟨day,year,mon,rfl,by omega,nonneg,lt,rfl⟩

theorem passMonths_spec (day year mon : ℤ) (days : 0 ≤ day) (nonneg : 0 ≤ mon) (lt : mon < 12) :
    ∃ day' year' mon', passMonths day year mon = some (day',year',mon') ∧ 0 ≤ mon' ∧
      IsCivil (year0+year') mon'.toNat day' ∧
      civil (year0+year') mon'.toNat day' = civil (year0+year) mon.toNat day := by
  fun_induction passMonths day year mon with
  | case1 day year mon none => simp [ytab_eq nonneg lt] at none
  | case2 day year mon len found le date ih =>
    rw [ytab_eq nonneg lt] at found
    cases found
    obtain ⟨low,high⟩ := nextMonth_range year mon nonneg lt
    obtain ⟨day',year',mon',eq,ge,exists_,same⟩ := ih (by omega) low high
    refine ⟨day',year',mon',eq,ge,exists_,?_⟩
    rw [same,civil_nextMonth year mon nonneg lt,sub_add_cancel]
  | case3 day year mon len found gt =>
    rw [ytab_eq nonneg lt] at found
    cases found
    exact ⟨day,year,mon,rfl,nonneg,⟨by omega,days,by omega⟩,rfl⟩

/-- The struct is in its normal form, at the same time. -/
theorem normalize_spec (tm : Tm) : ∃ tm', normalize tm = some tm' ∧ tm'.Normal ∧
    tm'.epoch = tm.epoch ∧ tm'.tmIsdst = tm.tmIsdst := by
  have sixty : (0 : ℤ) < 60 := by decide
  let min := tm.tmMin+tm.tmSec/60
  let hour := tm.tmHour+min/60
  let day := hour/24+(tm.tmMday-1)
  let year := tm.tmYear+tm.tmMon/12
  obtain ⟨day₁,year₁,mon₁,borrowed,days,low,high,same₁⟩ :=
    borrowMonths_spec day year (tm.tmMon%12) (by omega) (by omega)
  obtain ⟨day₂,year₂,mon₂,passed,nonneg,date,same₂⟩ := passMonths_spec day₁ year₁ mon₁ days low high
  have eq : normalize tm = some { tm with
      tmSec := tm.tmSec%60, tmMin := min%60, tmHour := hour%24, tmMday := day₂+1, tmMon := mon₂,
      tmYear := year₂ } := by
    simp only [normalize,carry_eq sixty,carry_eq (show (0 : ℤ) < 24 by decide),
      carry_eq (show (0 : ℤ) < 12 by decide),zero_add]
    change (borrowMonths day year (tm.tmMon%12)).bind _ = _
    rw [borrowed]
    change (passMonths day₁ year₁ mon₁).bind _ = _
    rw [passed]
    rfl
  have normal : Tm.Normal { tm with
      tmSec := tm.tmSec%60, tmMin := min%60, tmHour := hour%24, tmMday := day₂+1, tmMon := mon₂,
      tmYear := year₂ } := by
    refine ⟨?_,nonneg,?_,?_,?_,?_,?_,?_⟩
    · simp only [add_sub_cancel_right]
      rw [add_comm]
      exact date
    all_goals
      simp only
      omega
  refine ⟨_,eq,normal,?_,rfl⟩
  rw [normal.epoch_eq]
  have moved : civil (year+year0) (tm.tmMon%12).toNat day =
      civil (year+year0) (tm.tmMon%12).toNat (tm.tmMday-1)+hour/24 := by
    simp only [civil,day]
    ring
  simp only [dayno,secondsOf,epoch,add_sub_cancel_right,show tm.tmYear+tm.tmMon/12 = year from rfl]
  rw [add_comm year₂,same₂,same₁,add_comm year0,moved]
  omega

theorem yearDays_eq (year mon : ℤ) (le : mon ≤ 12) :
    yearDays year mon = some (monthStart year mon.toNat) := by
  have upto : ∀ m : ℕ, m ≤ 12 →
      (List.range m).foldlM (fun yday (month : ℕ) => (ytab year month).map (yday+·)) 0 =
        some (monthStart year m) := by
    intro m
    induction m with
    | zero => intro _; rfl
    | succ m ih =>
      intro le
      rw [List.range_succ,List.foldlM_append,ih (by omega)]
      have entry := @ytab_eq year m (by omega) (by omega)
      simp [entry,monthStart_succ]
  exact upto mon.toNat (by omega)

/-! ### The days from 1970 -/

theorem flag_nonneg (p : Prop) [Decidable p] : 0 ≤ flag p := by
  unfold flag
  split <;> decide

theorem flag_eq_zero {p : Prop} [Decidable p] : flag p = 0 ↔ ¬p := by
  unfold flag
  split <;> simp_all

theorem long_eq {x : ℤ} (low : -2147483648 ≤ x) (high : x ≤ 2147483647) : long x = x :=
  Int.bmod_eq_of_le_mul_two (by omega) (by omega)

theorem long_neg {x : ℤ} (low : 2147483647 < x) (high : x < 4294967296) : long x < 0 := by
  have back : long x = long (x-4294967296) := (Int.sub_bmod_right x 4294967296).symm
  rw [back,long_eq (by omega) (by omega)]
  omega

/-- Every fourth year is a leap year, but for the centuries that are no multiple of 400. -/
theorem yearStart_epoch (year : ℤ) (le : epochYr ≤ year) : yearStart year-yearStart epochYr =
    (year-epochYr)*365
      +((year-epochYr).tdiv 4+flag (year.tmod 4 ≠ 0 ∧ year.tmod 4 < epochYr.tmod 4))
      -((year-epochYr).tdiv 100+flag (year.tmod 100 ≠ 0 ∧ year.tmod 100 < epochYr.tmod 100))
      +((year-epochYr).tdiv 400+flag (year.tmod 400 ≠ 0 ∧ year.tmod 400 < epochYr.tmod 400)) := by
  have since : 0 ≤ year-epochYr := by omega
  have nonneg : 0 ≤ year := le_trans (by decide) le
  simp only [Int.tdiv_eq_ediv_of_nonneg since,Int.tmod_eq_emod_of_nonneg nonneg,flag,yearStart]
  simp only [epochYr] at *
  split_ifs <;> simp only [Int.reduceTMod] at * <;> omega

theorem yearStart_far (year : ℤ) (le : epochYr ≤ year) :
    365*(year-epochYr) ≤ yearStart year-yearStart epochYr := by
  simp only [yearStart,epochYr] at *
  omega

theorem flag_le (p : Prop) [Decidable p] : flag p ≤ 1 := by
  unfold flag
  split <;> decide

/-- The days are right when no overflow was noticed, and too many otherwise. -/
theorem daysTo_spec (year : ℤ) (le : epochYr ≤ year) :
    0 ≤ (daysTo year).2 ∧
    ((daysTo year).2 = 0 → (daysTo year).1 = yearStart year-yearStart epochYr ∧
      yearStart year-yearStart epochYr ≤ timeMax) ∧
    ((daysTo year).2 ≠ 0 → timeMax < (yearStart year-yearStart epochYr)*86400) := by
  have exact := yearStart_epoch year le
  have far := yearStart_far year le
  have since : 0 ≤ year-epochYr := by omega
  simp only [Int.tdiv_eq_ediv_of_nonneg since] at exact
  simp only [daysTo,Int.tdiv_eq_ediv_of_nonneg since]
  generalize fourth : flag (year.tmod 4 ≠ 0 ∧ year.tmod 4 < epochYr.tmod 4) = a at *
  generalize century : flag (year.tmod 100 ≠ 0 ∧ year.tmod 100 < epochYr.tmod 100) = b at *
  generalize cycle : flag (year.tmod 400 ≠ 0 ∧ year.tmod 400 < epochYr.tmod 400) = c at *
  have a_range : 0 ≤ a ∧ a ≤ 1 := fourth ▸ ⟨flag_nonneg _,flag_le _⟩
  have b_range : 0 ≤ b ∧ b ≤ 1 := century ▸ ⟨flag_nonneg _,flag_le _⟩
  have c_range : 0 ≤ c ∧ c ≤ 1 := cycle ▸ ⟨flag_nonneg _,flag_le _⟩
  have quotient : timeMax.tdiv 365 = 5883516 := by decide
  have max : timeMax = 2147483647 := rfl
  rw [quotient]
  by_cases big : 5883516 < year-epochYr
  · have first : flag (5883516 < year-epochYr) = 1 := if_pos big
    have second := flag_nonneg (long (timeMax-long ((year-epochYr)*365)) < (year-epochYr)/4+1)
    exact ⟨by omega,fun none => by omega,fun _ => by omega⟩
  have first : flag (5883516 < year-epochYr) = 0 := if_neg big
  have days : long ((year-epochYr)*365) = (year-epochYr)*365 := long_eq (by omega) (by omega)
  have room : long (timeMax-(year-epochYr)*365) = timeMax-(year-epochYr)*365 :=
    long_eq (by omega) (by omega)
  rw [first,days,room,zero_add]
  refine ⟨flag_nonneg _,?_,?_⟩
  · intro fits
    have fits := flag_eq_zero.mp fits
    rw [long_eq (x := (year-epochYr)*365+_) (by omega) (by omega),
      long_eq (x := _-_) (by omega) (by omega),long_eq (by omega) (by omega)]
    omega
  · intro exceeds
    have exceeds := not_not.mp (mt flag_eq_zero.mpr exceeds)
    omega

end Tm

namespace Zone
variable (z : Zone)

/-- Daylight saving time at the struct. -/
def dst (tm : Tm) : ℤ := if tm.tmIsdst ≠ 0 then z.dstbias else 0

/-- A time_t can hold the time, before and after the adjustments. -/
structure Represents (tm : Tm) : Prop where
  nonneg : 0 ≤ tm.epoch
  le : tm.epoch ≤ Tm.timeMax
  dst_le : z.dst tm ≤ tm.epoch+z.timezone
  zone_nonneg : 0 ≤ tm.epoch+z.timezone
  zone_le : tm.epoch+z.timezone ≤ Tm.timeMax

variable {z} {tm tm' : Tm}

theorem dst_congr (isdst : tm'.tmIsdst = tm.tmIsdst) : z.dst tm' = z.dst tm := by
  simp only [dst,isdst]

theorem represents_congr (epoch : tm'.epoch = tm.epoch) (isdst : tm'.tmIsdst = tm.tmIsdst) :
    z.Represents tm' ↔ z.Represents tm := by
  constructor <;> intro h
  · exact ⟨by rw [← epoch]; exact h.nonneg,by rw [← epoch]; exact h.le,
      by rw [← epoch,← dst_congr isdst]; exact h.dst_le,
      by rw [← epoch]; exact h.zone_nonneg,by rw [← epoch]; exact h.zone_le⟩
  · exact ⟨by rw [epoch]; exact h.nonneg,by rw [epoch]; exact h.le,
      by rw [epoch,dst_congr isdst]; exact h.dst_le,
      by rw [epoch]; exact h.zone_nonneg,by rw [epoch]; exact h.zone_le⟩

end Zone

namespace Tm
variable (z : Zone) (tm : Tm)

/-- The overflows of the days are known; those of the seconds are found here. -/
theorem adjust_spec (normal : tm.Normal) (bias : 0 ≤ z.dstbias) (day overflow : ℤ)
    (nonneg : 0 ≤ overflow) (before : overflow ≠ 0 → timeMax < tm.epoch)
    (right : overflow = 0 → day = tm.dayno ∧ 0 ≤ day) :
    (z.Represents tm → tm.adjust z day overflow = tm.epoch+z.timezone-z.dst tm) ∧
    (¬z.Represents tm → tm.adjust z day overflow = -1) := by
  have epoch := normal.epoch_eq
  have low := normal.secondsOf_nonneg
  have high := normal.secondsOf_lt
  have max : timeMax = 2147483647 := rfl
  have length : secsDay = 86400 := rfl
  have dst : (if tm.tmIsdst ≠ 0 then z.dstbias else 0) = z.dst tm := rfl
  have dst_nonneg : 0 ≤ z.dst tm := by
    unfold Zone.dst
    split_ifs <;> omega
  simp only [adjust,dst,length]
  set seconds := tm.secondsOf with eq
  set late := flag ((timeMax-seconds).tdiv 86400 < day) with late_eq
  have late_nonneg : 0 ≤ late := flag_nonneg _
  set total := long (seconds+long (day*86400)) with total_eq
  have second := flag_nonneg ((0 < z.timezone ∧ timeMax-z.timezone < total) ∨
    (z.timezone < 0 ∧ total < -z.timezone))
  have third := flag_nonneg (long (total+z.timezone) < z.dst tm)
  by_cases known : overflow = 0
  swap
  · have far := before known
    exact ⟨fun holds => absurd holds.le (not_le.mpr far),fun _ => if_pos (by omega)⟩
  obtain ⟨days,first⟩ := right known
  rw [Int.tdiv_eq_ediv_of_nonneg (by omega)] at late_eq
  by_cases far : timeMax < tm.epoch
  · have one : late = 1 := by
      rw [late_eq]
      exact if_pos (by omega)
    exact ⟨fun holds => absurd holds.le (not_le.mpr far),fun _ => if_pos (by omega)⟩
  have zero : late = 0 := by
    rw [late_eq]
    exact if_neg (by omega)
  have product : long (day*86400) = day*86400 := long_eq (by omega) (by omega)
  have sum : total = tm.epoch := by
    rw [total_eq,product,long_eq (by omega) (by omega)]
    omega
  rw [sum] at second third ⊢
  rw [known,zero,zero_add,zero_add]
  by_cases outside : (0 < z.timezone ∧ timeMax-z.timezone < tm.epoch) ∨
    (z.timezone < 0 ∧ tm.epoch < -z.timezone)
  · have one : flag ((0 < z.timezone ∧ timeMax-z.timezone < tm.epoch) ∨
      (z.timezone < 0 ∧ tm.epoch < -z.timezone)) = 1 := if_pos outside
    refine ⟨fun holds => ?_,fun _ => if_pos (by omega)⟩
    have := holds.zone_le
    have := holds.zone_nonneg
    omega
  have moved : long (tm.epoch+z.timezone) = tm.epoch+z.timezone := long_eq (by omega) (by omega)
  rw [flag_eq_zero.mpr outside,zero_add,moved]
  by_cases small : tm.epoch+z.timezone < z.dst tm
  · refine ⟨fun holds => absurd holds.dst_le (not_le.mpr small),fun _ => if_pos ?_⟩
    exact mt flag_eq_zero.mp (not_not.mpr small)
  · refine ⟨fun _ => ?_,fun fails => absurd ⟨by omega,by omega,by omega,by omega,by omega⟩ fails⟩
    rw [flag_eq_zero.mpr small,if_neg (not_not.mpr rfl),long_eq (by omega) (by omega)]

theorem dayno_low (normal : tm.Normal) :
    yearStart (tm.tmYear+year0)-yearStart epochYr ≤ tm.dayno := by
  have := normal.date.year_le
  have january : civil epochYr 0 0 = yearStart epochYr := rfl
  rw [dayno,january]
  omega

theorem countDays_spec (normal : tm.Normal) (le : epochYr-year0 ≤ tm.tmYear) :
    ∃ tm' day overflow, tm.countDays = some (tm',day,overflow) ∧
      tm'.Normal ∧ tm'.epoch = tm.epoch ∧ tm'.tmIsdst = tm.tmIsdst ∧ 0 ≤ overflow ∧
      (overflow ≠ 0 → timeMax < tm.epoch) ∧
      (overflow = 0 → tm'.Derived ∧ day = tm'.dayno ∧ 0 ≤ day) := by
  have months := yearDays_eq (tm.tmYear+year0) tm.tmMon (by
    have := normal.date.month_lt
    omega)
  obtain ⟨nonneg,right,far⟩ := daysTo_spec (tm.tmYear+year0) (by omega)
  have low := dayno_low tm normal
  have within := normal.date.lt_year
  have short : yearLength (cycle (tm.tmYear+year0)) ≤ 366 := by
    unfold yearLength
    split_ifs <;> omega
  have since := normal.date.day_nonneg
  have days : tm.dayno = yearStart (tm.tmYear+year0)-yearStart epochYr
      +(monthStart (tm.tmYear+year0) tm.tmMon.toNat+(tm.tmMday-1)) := by
    have january : civil epochYr 0 0 = yearStart epochYr := rfl
    rw [dayno,january,civil]
    ring
  have epoch := normal.epoch_eq
  have seconds := normal.secondsOf_nonneg
  have max : timeMax = 2147483647 := rfl
  have start := yearStart_mono (show epochYr ≤ tm.tmYear+year0 by omega)
  generalize counted : daysTo (tm.tmYear+year0) = years at *
  obtain ⟨first,before⟩ := years
  simp only at nonneg right far
  set yday := (monthStart (tm.tmYear+year0) tm.tmMon.toNat : ℤ)+(tm.tmMday-1) with yday_eq
  have wrapped := flag_nonneg (long (first+yday) < 0)
  refine ⟨{ tm with tmYday := yday, tmWday := (long (first+yday)+4).tmod 7 },long (first+yday),
    before+flag (long (first+yday) < 0),?_,
    ⟨normal.date,normal.mon_nonneg,normal.hour_nonneg,normal.hour_lt,normal.min_nonneg,
      normal.min_lt,normal.sec_nonneg,normal.sec_lt⟩,rfl,rfl,by omega,?_,?_⟩
  · simp only [countDays,counted,months]
    rfl
  · intro some
    by_cases none : before = 0
    · by_contra fits
      have exact : long (first+yday) = tm.dayno := by
        rw [long_eq (by omega) (by omega)]
        omega
      have zero : flag (long (first+yday) < 0) = 0 := flag_eq_zero.mpr (by omega)
      omega
    · have := far none
      omega
  · intro none
    have kept : ¬long (first+yday) < 0 := flag_eq_zero.mp (by omega)
    have days' := right (by omega)
    have exact : long (first+yday) = tm.dayno := by
      by_cases fits : first+yday ≤ 2147483647
      · rw [long_eq (by omega) fits]
        omega
      · exact absurd (long_neg (by omega) (by omega)) kept
    refine ⟨⟨?_,rfl⟩,exact,by omega⟩
    change (long (first+yday)+4).tmod 7 = (tm.dayno+4)%7
    rw [exact,Int.tmod_eq_emod_of_nonneg (by omega)]

theorem early_epoch (normal : tm.Normal) (early : tm.tmYear < epochYr-year0) : tm.epoch < 0 := by
  have := normal.date.civil_lt
  have := normal.secondsOf_lt
  have january : civil epochYr 0 0 = yearStart epochYr := rfl
  have := yearStart_mono (show tm.tmYear+year0+1 ≤ epochYr by omega)
  rw [normal.epoch_eq,dayno,january]
  omega

/-- mktime leaves the normal form behind, and answers its time or -1. -/
theorem mktime_spec (bias : 0 ≤ z.dstbias) : ∃ tm' time, mktime z tm = some (tm',time) ∧
    tm'.Normal ∧ tm'.epoch = tm.epoch ∧ tm'.tmIsdst = tm.tmIsdst ∧
    (z.Represents tm → tm'.Derived ∧ time = tm.epoch+z.timezone-z.dst tm) ∧
    (¬z.Represents tm → time = -1) := by
  obtain ⟨tm₁,eq,normal,epoch,isdst⟩ := normalize_spec tm
  by_cases early : tm₁.tmYear < epochYr-year0
  · have before := early_epoch tm₁ normal early
    refine ⟨tm₁,-1,?_,normal,epoch,isdst,fun holds => ?_,fun _ => rfl⟩
    · simp [mktime,eq,early]
    · exact absurd holds.nonneg (by omega)
  obtain ⟨tm₂,day,overflow,counted,normal₂,epoch₂,isdst₂,nonneg,far,right⟩ :=
    countDays_spec tm₁ normal (not_lt.mp early)
  have same : tm₂.epoch = tm.epoch := epoch₂.trans epoch
  have flagged : tm₂.tmIsdst = tm.tmIsdst := isdst₂.trans isdst
  obtain ⟨fits,fails⟩ := adjust_spec z tm₂ normal₂ bias day overflow nonneg
    (fun some => epoch₂ ▸ far some) (fun none => (right none).2)
  rw [Zone.represents_congr same flagged] at fits fails
  refine ⟨tm₂,tm₂.adjust z day overflow,?_,normal₂,same,flagged,fun holds => ⟨?_,?_⟩,fails⟩
  · simp [mktime,eq,early,counted]
  · apply (right _).1
    by_contra some
    have := far some
    have := holds.le
    omega
  · rw [fits holds,same,Zone.dst_congr flagged]

/-! ### The way back -/

variable {z tm} {tm' : Tm} {timer time : ℤ}

theorem localtimeR_spec (z : Zone) (timer : ℤ) (nonneg : 0 ≤ timer-z.timezone)
    (lt : timer-z.timezone < 4294967296) : ∃ tm, localtimeR z timer = some tm ∧ tm.Normal ∧
    tm.Derived ∧ tm.tmIsdst = 0 ∧ tm.epoch = timer-z.timezone := by
  obtain ⟨tm,eq,normal,derived,isdst,epoch⟩ := gmtimeR_spec (timer-z.timezone)
  rw [Int.emod_eq_of_lt nonneg lt] at epoch
  exact ⟨tm,eq,normal,derived,isdst,epoch⟩

/-- mktime finds the time again that localtime_r took apart, and leaves the struct as it is. -/
theorem mktime_localtimeR (bias : 0 ≤ z.dstbias) (nonneg : 0 ≤ timer) (le : timer ≤ timeMax)
    (zone_nonneg : 0 ≤ timer-z.timezone) (zone_le : timer-z.timezone ≤ timeMax) :
    ∃ tm, localtimeR z timer = some tm ∧ mktime z tm = some (tm,timer) := by
  have max : timeMax = 2147483647 := rfl
  obtain ⟨tm,eq,normal,derived,isdst,epoch⟩ := localtimeR_spec z timer zone_nonneg (by omega)
  obtain ⟨tm',time,made,normal',epoch',isdst',fits,_⟩ := mktime_spec z tm bias
  have dst : z.dst tm = 0 := if_neg (not_not.mpr isdst)
  obtain ⟨derived',value⟩ := fits ⟨by omega,by omega,by omega,by omega,by omega⟩
  have same : tm' = tm := normal'.eq_of_epoch normal derived' derived epoch' isdst'
  refine ⟨tm,eq,?_⟩
  rw [made,same,value,epoch,dst]
  simp

theorem mktime_localtimeR_billion : ∃ tm, localtimeR ⟨10800,3600⟩ 1000000000 = some tm ∧
    mktime ⟨10800,3600⟩ tm = some (tm,1000000000) :=
  mktime_localtimeR (by decide) (by decide) (by decide) (by decide) (by decide)

/-- localtime_r takes the answer of mktime apart into the struct that mktime has left behind,
daylight saving time aside. -/
theorem localtimeR_mktime (bias : 0 ≤ z.dstbias) (made : mktime z tm = some (tm',time))
    (success : time ≠ -1) :
    localtimeR z (time+z.dst tm) = some { tm' with tmIsdst := 0 } := by
  obtain ⟨tm₁,time₁,eq,normal,epoch,isdst,fits,fails⟩ := mktime_spec z tm bias
  rw [made] at eq
  cases eq
  have max : timeMax = 2147483647 := rfl
  by_cases represents : z.Represents tm
  swap
  · exact absurd (fails represents) success
  obtain ⟨derived,value⟩ := fits represents
  have := represents.nonneg
  have := represents.le
  obtain ⟨tm₂,eq,normal₂,derived₂,isdst₂,epoch₂⟩ :=
    localtimeR_spec z (time+z.dst tm) (by omega) (by omega)
  have cleared : Tm.Normal { tm' with tmIsdst := 0 } :=
    ⟨normal.date,normal.mon_nonneg,normal.hour_nonneg,normal.hour_lt,normal.min_nonneg,
      normal.min_lt,normal.sec_nonneg,normal.sec_lt⟩
  have same : tm₂.epoch = Tm.epoch { tm' with tmIsdst := 0 } := by
    change tm₂.epoch = tm'.epoch
    omega
  rw [eq,normal₂.eq_of_epoch cleared derived₂ ⟨derived.wday,derived.yday⟩ same isdst₂]

theorem localtimeR_mktime_minute : ∃ tm', mktime ⟨-7200,3600⟩ ⟨61,59,1,1,0,70,0,0,0⟩ = some (tm',1) ∧
    localtimeR ⟨-7200,3600⟩ 1 = some { tm' with tmIsdst := 0 } := by
  obtain ⟨tm',time,eq,_,_,_,fits,_⟩ := mktime_spec ⟨-7200,3600⟩ ⟨61,59,1,1,0,70,0,0,0⟩ (by decide)
  have value : time = 1 :=
    (fits ⟨by decide,by decide,by decide,by decide,by decide⟩).2.trans (by decide)
  rw [value] at eq
  exact ⟨tm',eq,localtimeR_mktime (by decide) eq (by decide)⟩

theorem mktime_year (made : mktime z tm = some (tm',time)) :
    ∃ tm₁ ∈ tm.normalize, tm₁.tmYear = tm'.tmYear := by
  obtain ⟨tm₁,normalized,-⟩ := normalize_spec tm
  refine ⟨tm₁,normalized,?_⟩
  simp only [mktime,normalized,Option.bind_eq_bind,Option.bind_some] at made
  split_ifs at made
  · cases made
    rfl
  · obtain ⟨⟨tm₂,day,overflow⟩,counted,made⟩ := Option.bind_eq_some_iff.mp made
    cases made
    obtain ⟨months,-,counted⟩ := Option.bind_eq_some_iff.mp counted
    cases counted
    rfl

/-- mktime never leaves its tables: it brings the fields into their ranges without moving the time, and
answers the time exactly when a time_t can hold it. -/
theorem mktime_normalizes (z : Zone) (tm : Tm) (sums : tm.Sums) (bias : 0 ≤ z.dstbias) :
    ∃ tm' time, mktime z tm = some (tm',time) ∧ tm'.Normal ∧ InInt tm'.tmYear ∧ tm'.epoch = tm.epoch ∧
      (time ≠ -1 ↔ z.Represents tm) ∧
      (time ≠ -1 → tm'.Derived ∧ time = tm.epoch+z.timezone-z.dst tm) := by
  obtain ⟨tm',time,eq,normal,epoch,_,fits,fails⟩ := mktime_spec z tm bias
  obtain ⟨tm₁,normalized,year⟩ := mktime_year eq
  refine ⟨tm',time,eq,normal,year ▸ (sums.last tm₁ normalized).1,epoch,⟨fun success => ?_,fun holds => ?_⟩,
    fun success => ?_⟩
  · by_contra not
    exact success (fails not)
  · have := holds.dst_le
    rw [(fits holds).2]
    omega
  · by_contra not
    by_cases holds : z.Represents tm
    · exact not (fits holds)
    · exact success (fails holds)

theorem mktime_normalizes_leap : ∃ tm' time,
    mktime ⟨0,3600⟩ ⟨0,0,0,0,14,99,0,0,0⟩ = some (tm',time) ∧ tm'.Normal ∧
      tm'.epoch = epoch ⟨0,0,0,0,14,99,0,0,0⟩ := by
  obtain ⟨tm',time,eq,normal,-,epoch,_⟩ := mktime_normalizes ⟨0,3600⟩ ⟨0,0,0,0,14,99,0,0,0⟩
    ⟨by decide,by decide,by decide,by decide,by decide,by decide,by decide,by decide,by decide,by decide,
      by decide,by decide +kernel⟩ (by decide)
  exact ⟨tm',time,eq,normal,epoch⟩

/-! ### The calendar of OSTime.c -/

/-- The fields as the calendar holds them. -/
def toRtc (tm : Tm) : OsRtc :=
  ⟨(tm.tmYear+year0).toNat,(tm.tmMon+1).toNat,tm.tmMday.toNat,tm.tmHour.toNat,tm.tmMin.toNat,
    tm.tmSec.toNat⟩

theorem Normal.toRtc_valid (h : tm.Normal) (nonneg : 0 ≤ tm.epoch) (lt : tm.epoch < 4294967296) :
    tm.toRtc.Valid ∧ (tm.toRtc.instant : ℤ) = tm.epoch+719528*86400 := by
  have epoch := h.epoch_eq
  have low := h.secondsOf_nonneg
  have high := h.secondsOf_lt
  have january : civil epochYr 0 0 = 719528 := rfl
  have days := h.date.civil_lt
  have begins := h.date.year_le
  have since : 0 ≤ tm.tmYear+year0 := by
    by_contra neg
    have := yearStart_mono (show tm.tmYear+year0+1 ≤ 0 by omega)
    have zero : yearStart 0 = 0 := rfl
    rw [dayno,january] at epoch
    omega
  have until_ : tm.tmYear+year0 < 65536 := by
    by_contra far
    have := yearStart_mono (show 65536 ≤ tm.tmYear+year0 by omega)
    have bound : yearStart 65536 = 23936532 := rfl
    rw [dayno,january] at epoch
    omega
  obtain ⟨sec,min,hour,mday,mon,year,wday,yday,isdst⟩ := tm
  obtain ⟨date,mon_nonneg,hour_nonneg,hour_lt,min_nonneg,min_lt,sec_nonneg,sec_lt⟩ := h
  have day_nonneg := date.day_nonneg
  simp only [toRtc,dayno,secondsOf] at *
  lift year+year0 to ℕ using since with y
  lift mon to ℕ using mon_nonneg
  obtain ⟨d,rfl⟩ : ∃ d : ℕ, mday = d+1 := ⟨(mday-1).toNat,by omega⟩
  simp only [add_sub_cancel_right,Int.toNat_natCast] at *
  have day := date.isDate
  have number := civil_natCast y mon d
  have month : ((mon : ℤ)+1).toNat = mon+1 := by omega
  have mday : ((d : ℤ)+1).toNat = d+1 := by omega
  refine ⟨⟨?_,by simp only; omega,by simp only; omega,by simp only; omega,by simp only; omega⟩,?_⟩
  · rw [month,mday]
    exact day
  · simp only [month,mday,OsRtc.instant]
    rw [epoch,january]
    push_cast
    omega

/-- A calendar that was set to the fields of a time holds those of every later time. -/
theorem gmtimeR_updates (c : Calendar) {t n : ℕ} (fits : t+n < 4294967296) :
    ∃ tm tm', gmtimeR t = some tm ∧ gmtimeR (t+n) = some tm' ∧
      ((Calendar.osUpdateCalendar^[n]) (c.setCalendar tm.toRtc)).osRtc = tm'.toRtc := by
  induction n with
  | zero =>
    obtain ⟨tm,eq,_⟩ := gmtimeR_spec t
    exact ⟨tm,tm,eq,by simpa using eq,rfl⟩
  | succ n ih =>
    obtain ⟨tm,tm₁,eq,eq₁,same⟩ := ih (by omega)
    obtain ⟨tm₁',again,normal₁,_,_,epoch₁⟩ := gmtimeR_spec (t+n)
    obtain ⟨tm₂,eq₂,normal₂,_,_,epoch₂⟩ := gmtimeR_spec (t+(n+1 : ℕ))
    rw [eq₁] at again
    cases again
    obtain ⟨valid₁,instant₁⟩ := normal₁.toRtc_valid (by omega) (by omega)
    obtain ⟨valid₂,instant₂⟩ := normal₂.toRtc_valid (by omega) (by omega)
    have far : (daysBeforeYear 65536 : ℤ) = 23936532 := (yearStart_natCast 65536).symm.trans rfl
    rw [← same] at valid₁ instant₁
    have later := Calendar.later_osUpdateCalendar valid₁ (by omega)
    refine ⟨tm,tm₂,eq,eq₂,?_⟩
    rw [Function.iterate_succ_apply']
    exact later.valid.eq_of_instant valid₂ (by have := later.instant; push_cast at *; omega)

theorem gmtimeR_updates_day : ∃ tm tm', gmtimeR 0 = some tm ∧ gmtimeR 86400 = some tm' ∧
    ((Calendar.osUpdateCalendar^[86400])
      (Calendar.setCalendar ⟨⟨0,0,0,0,0,0⟩,0⟩ tm.toRtc)).osRtc = tm'.toRtc :=
  gmtimeR_updates _ (t := 0) (n := 86400) (by decide)

end Tm
end Brtos
