import Mathlib.Tactic
import Mathlib.Algebra.BigOperators.Intervals

/-! The proleptic Gregorian calendar, with its days numbered from the first of January of the year
zero. -/
namespace Gregorian

/-- The year zero is a leap year. -/
def Leap (y : ℕ) : Prop := 4 ∣ y ∧ (100 ∣ y → 400 ∣ y)

instance (y : ℕ) : Decidable (Leap y) := inferInstanceAs (Decidable (_ ∧ _))

def yearLength (y : ℕ) : ℕ := if Leap y then 366 else 365

def monthLength (y : ℕ) : ℕ → ℕ
  | 2 => if Leap y then 29 else 28
  | 4 | 6 | 9 | 11 => 30
  | 1 | 3 | 5 | 7 | 8 | 10 | 12 => 31
  | _ => 0

def daysBeforeYear (y : ℕ) : ℕ := ∑ i ∈ Finset.range y, yearLength i

def daysBeforeMonth (y m : ℕ) : ℕ := ∑ i ∈ Finset.Ico 1 m, monthLength y i

/-- The days before the date. -/
def dayNumber (y m d : ℕ) : ℕ := daysBeforeYear y+daysBeforeMonth y m+(d-1)

/-- The date exists. -/
structure IsDate (y m d : ℕ) : Prop where
  month_pos : 1 ≤ m
  month_le : m ≤ 12
  day_pos : 1 ≤ d
  day_le : d ≤ monthLength y m

variable {y y' m m' d d' : ℕ}

theorem daysBeforeYear_succ (y : ℕ) : daysBeforeYear (y+1) = daysBeforeYear y+yearLength y :=
  Finset.sum_range_succ _ _

theorem daysBeforeYear_mono : Monotone daysBeforeYear := by
  intro y y' h
  exact Finset.sum_le_sum_of_subset (Finset.range_mono h)

theorem daysBeforeMonth_one (y : ℕ) : daysBeforeMonth y 1 = 0 := rfl

theorem daysBeforeMonth_succ (y : ℕ) (h : 1 ≤ m) :
    daysBeforeMonth y (m+1) = daysBeforeMonth y m+monthLength y m :=
  Finset.sum_Ico_succ_top h _

theorem daysBeforeMonth_mono (y : ℕ) : Monotone (daysBeforeMonth y) := by
  intro m m' h
  exact Finset.sum_le_sum_of_subset (Finset.Ico_subset_Ico_right h)

theorem daysBeforeMonth_end (y : ℕ) : daysBeforeMonth y 13 = yearLength y := by
  by_cases leap : Leap y <;>
    simp [daysBeforeMonth,yearLength,monthLength,leap,Finset.sum_Ico_eq_sum_range,
      Finset.sum_range_succ]

theorem IsDate.lt_month (h : IsDate y m d) : daysBeforeMonth y m+(d-1) < daysBeforeMonth y (m+1) := by
  have := h.day_pos
  have := h.day_le
  rw [daysBeforeMonth_succ y h.month_pos]
  omega

theorem IsDate.lt_year (h : IsDate y m d) : dayNumber y m d < daysBeforeYear (y+1) := by
  have inside := h.lt_month
  have within := daysBeforeMonth_mono y (Nat.add_le_add_right h.month_le 1)
  rw [daysBeforeMonth_end] at within
  rw [daysBeforeYear_succ,dayNumber]
  omega

theorem IsDate.eq_of_dayNumber (h : IsDate y m d) (h' : IsDate y' m' d')
    (same : dayNumber y m d = dayNumber y' m' d') : y = y' ∧ m = m' ∧ d = d' := by
  have after : ∀ {y y' m m' d d'}, IsDate y m d → y < y' → dayNumber y m d < dayNumber y' m' d' := by
    intro y y' m m' d d' h later
    have := h.lt_year
    have := daysBeforeYear_mono (show y+1 ≤ y' from later)
    simp only [dayNumber] at *
    omega
  have year : y = y' := by
    rcases Nat.lt_trichotomy y y' with later | eq | later
    · exact absurd same (after h later).ne
    · exact eq
    · exact absurd same (after h' later).ne'
  subst year
  have within : ∀ {m m' d d'}, IsDate y m d → m < m' →
      daysBeforeMonth y m+(d-1) < daysBeforeMonth y m'+(d'-1) := by
    intro m m' d d' h later
    have := h.lt_month
    have := daysBeforeMonth_mono y (show m+1 ≤ m' from later)
    omega
  have days : daysBeforeMonth y m+(d-1) = daysBeforeMonth y m'+(d'-1) := by
    simp only [dayNumber] at same
    omega
  have month : m = m' := by
    rcases Nat.lt_trichotomy m m' with later | eq | later
    · exact absurd days (within h later).ne
    · exact eq
    · exact absurd days (within h' later).ne'
  subst month
  have := h.day_pos
  have := h'.day_pos
  exact ⟨rfl,rfl,by omega⟩

/-! ### The next day -/

theorem dayNumber_next_day (h : 1 ≤ d) : dayNumber y m (d+1) = dayNumber y m d+1 := by
  simp only [dayNumber]
  omega

theorem dayNumber_next_month (h : IsDate y m d) (last : d = monthLength y m) :
    dayNumber y (m+1) 1 = dayNumber y m d+1 := by
  have := h.day_pos
  simp only [dayNumber,daysBeforeMonth_succ y h.month_pos]
  omega

theorem dayNumber_next_year (h : IsDate y 12 d) (last : d = monthLength y 12) :
    dayNumber (y+1) 1 1 = dayNumber y 12 d+1 := by
  have next := dayNumber_next_month h last
  have full : daysBeforeMonth y (12+1) = yearLength y := daysBeforeMonth_end y
  simp only [dayNumber,full] at next
  simp only [dayNumber,daysBeforeMonth_one,daysBeforeYear_succ]
  omega

theorem monthLength_pos (y : ℕ) (h : 1 ≤ m) (h' : m ≤ 12) : 1 ≤ monthLength y m := by
  interval_cases m <;> simp only [monthLength]
  case «2» => split_ifs <;> omega
  all_goals omega

theorem monthLength_le (y m : ℕ) : monthLength y m ≤ 31 := by
  unfold monthLength
  split
  · split_ifs <;> omega
  all_goals omega

theorem IsDate.first (y : ℕ) (h : 1 ≤ m) (h' : m ≤ 12) : IsDate y m 1 :=
  ⟨h,h',Nat.le_refl 1,monthLength_pos y h h'⟩

end Gregorian
