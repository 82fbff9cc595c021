import Brtos.Library.Gregorian

/-! The Gregorian calendar for years of any sign, with months and days counted from zero. -/
namespace Gregorian

/-- The year with the same months among the first four hundred. -/
def cycle (y : ℤ) : ℕ := (y%400).toNat

def lengthOf (y : ℤ) (m : ℕ) : ℕ := monthLength (cycle y) (m+1)

def yearStart (y : ℤ) : ℤ := 365*y+(y+3)/4-(y+99)/100+(y+399)/400

def monthStart (y : ℤ) (m : ℕ) : ℕ := ∑ i ∈ Finset.range m, lengthOf y i

/-- The days between the first of January of the year zero and the date. -/
def civil (y : ℤ) (m : ℕ) (d : ℤ) : ℤ := yearStart y+monthStart y m+d

/-- The date exists. -/
structure IsCivil (y : ℤ) (m : ℕ) (d : ℤ) : Prop where
  month_lt : m < 12
  day_nonneg : 0 ≤ d
  day_lt : d < lengthOf y m

section
variable {y y' : ℤ} {m m' : ℕ} {d d' : ℤ}

theorem leap_cycle : Leap (cycle y) ↔ (4 : ℤ)∣y ∧ ((100 : ℤ)∣y → (400 : ℤ)∣y) := by
  simp only [Leap,cycle]
  omega

theorem yearLength_cycle : yearLength (cycle y) =
    if (4 : ℤ)∣y ∧ ((100 : ℤ)∣y → (400 : ℤ)∣y) then 366 else 365 := by
  simp only [yearLength,leap_cycle]

theorem yearStart_succ (y : ℤ) : yearStart (y+1) = yearStart y+yearLength (cycle y) := by
  rw [yearLength_cycle]
  simp only [yearStart]
  split_ifs <;> push_cast <;> omega

theorem monthStart_succ (y : ℤ) (m : ℕ) : monthStart y (m+1) = monthStart y m+lengthOf y m :=
  Finset.sum_range_succ _ _

theorem monthStart_mono (y : ℤ) : Monotone (monthStart y) := by
  intro m m' h
  exact Finset.sum_le_sum_of_subset (Finset.range_mono h)

theorem monthStart_eq (y : ℤ) (m : ℕ) : monthStart y m = daysBeforeMonth (cycle y) (m+1) := by
  induction m with
  | zero => rfl
  | succ m ih => rw [monthStart_succ,ih,daysBeforeMonth_succ _ (Nat.le_add_left 1 m),lengthOf]

theorem monthStart_twelve (y : ℤ) : monthStart y 12 = yearLength (cycle y) := by
  rw [monthStart_eq,daysBeforeMonth_end]

theorem yearStart_succ_civil (y : ℤ) : yearStart (y+1) = civil y 12 0 := by
  rw [yearStart_succ,civil,monthStart_twelve,add_zero]

theorem yearStart_mono : Monotone yearStart := by
  intro y y' h
  simp only [yearStart]
  omega

theorem lengthOf_pos (y : ℤ) (h : m < 12) : 0 < lengthOf y m :=
  monthLength_pos _ (by omega) (by omega)

theorem lengthOf_le (y : ℤ) (m : ℕ) : lengthOf y m ≤ 31 :=
  monthLength_le _ _

/-! ### Dates and their numbers -/

theorem IsCivil.before_month (h : IsCivil y m d) : monthStart y m+d < monthStart y (m+1) := by
  have := h.day_lt
  rw [monthStart_succ]
  push_cast
  omega

theorem IsCivil.lt_year (h : IsCivil y m d) : monthStart y m+d < yearLength (cycle y) := by
  have inside := h.before_month
  have within := monthStart_mono y (show m+1 ≤ 12 from h.month_lt)
  rw [monthStart_twelve] at within
  omega

theorem IsCivil.year_le (h : IsCivil y m d) : yearStart y ≤ civil y m d := by
  have := h.day_nonneg
  simp only [civil]
  omega

theorem IsCivil.civil_lt (h : IsCivil y m d) : civil y m d < yearStart (y+1) := by
  have := h.lt_year
  rw [yearStart_succ,civil]
  omega

theorem IsCivil.eq_of_civil (h : IsCivil y m d) (h' : IsCivil y' m' d')
    (same : civil y m d = civil y' m' d') : y = y' ∧ m = m' ∧ d = d' := by
  have year : y = y' := by
    have low := h.year_le
    have high := h.civil_lt
    have low' := h'.year_le
    have high' := h'.civil_lt
    rcases lt_trichotomy y y' with later | eq | later
    · have := yearStart_mono (show y+1 ≤ y' from later)
      omega
    · exact eq
    · have := yearStart_mono (show y'+1 ≤ y from later)
      omega
  subst year
  have days : monthStart y m+d = monthStart y m'+d' := by
    simp only [civil] at same
    omega
  have inside := h.before_month
  have inside' := h'.before_month
  have nonneg := h.day_nonneg
  have nonneg' := h'.day_nonneg
  have month : m = m' := by
    rcases Nat.lt_trichotomy m m' with later | eq | later
    · have := monthStart_mono y (show m+1 ≤ m' from later)
      omega
    · exact eq
    · have := monthStart_mono y (show m'+1 ≤ m from later)
      omega
  subst month
  exact ⟨rfl,rfl,by omega⟩

/-! ### The years from zero on -/

theorem cycle_natCast (y : ℕ) : cycle y = y%400 := by
  simp only [cycle]
  omega

theorem leap_mod (y : ℕ) : Leap (y%400) ↔ Leap y := by
  simp only [Leap]
  omega

theorem yearLength_mod (y : ℕ) : yearLength (y%400) = yearLength y := by
  simp only [yearLength,leap_mod]

theorem lengthOf_natCast (y : ℕ) (m : ℕ) : lengthOf y m = monthLength y (m+1) := by
  simp only [lengthOf,cycle_natCast,monthLength,leap_mod]

theorem yearStart_natCast (y : ℕ) : yearStart y = daysBeforeYear y := by
  induction y with
  | zero => rfl
  | succ y ih =>
    rw [daysBeforeYear_succ,Nat.cast_add y 1,Nat.cast_one,yearStart_succ,cycle_natCast,
      yearLength_mod,ih]
    push_cast
    rfl

theorem monthStart_natCast (y m : ℕ) : monthStart y m = daysBeforeMonth y (m+1) := by
  induction m with
  | zero => rfl
  | succ m ih => rw [monthStart_succ,ih,daysBeforeMonth_succ _ (Nat.le_add_left 1 m),lengthOf_natCast]

theorem civil_natCast (y m d : ℕ) : civil y m d = dayNumber y (m+1) (d+1) := by
  simp only [civil,dayNumber,yearStart_natCast,monthStart_natCast]
  push_cast
  omega

theorem IsCivil.isDate {y m d : ℕ} (h : IsCivil y m d) : IsDate y (m+1) (d+1) := by
  have month := h.month_lt
  have day := h.day_lt
  rw [lengthOf_natCast] at day
  exact ⟨by omega,by omega,by omega,by omega⟩

end

end Gregorian
