import Mathlib.Tactic

/-! Binary search in an ascending table. Only the signs of the comparisons with the entry looked for
matter: negative in front of it and positive behind it. -/
namespace Bisection

/-- The entries in front of one that is not too large are too small. -/
def Ascending (sign : ℕ → ℤ) (n : ℕ) : Prop := ∀ i j, i < j → j < n → sign j ≤ 0 → sign i < 0

variable {sign : ℕ → ℤ} {n i j : ℕ} {inf sup : ℤ}

theorem Ascending.above (h : Ascending sign n) (lt : i < j) (hj : j < n) (le : 0 ≤ sign i) : 0 < sign j := by
  by_contra small
  have := h i j lt hj (not_lt.mp small)
  omega

/-- One entry at most is the one looked for. -/
theorem Ascending.unique (h : Ascending sign n) (hi : i < n) (hj : j < n) (zero : sign i = 0)
    (zero' : sign j = 0) : i = j := by
  rcases Nat.lt_trichotomy i j with lt | eq | gt
  · have := h.above lt hj zero.ge
    omega
  · exact eq
  · have := h.above gt hi zero'.ge
    omega

/-- Everything outside the range from `inf` to `sup` is too small or too large. -/
structure Brackets (sign : ℕ → ℤ) (n : ℕ) (inf sup : ℤ) : Prop where
  low : 0 ≤ inf
  high : sup < n
  le : inf ≤ sup+1
  below {i : ℕ} : (i : ℤ) < inf → i < n → sign i < 0
  above {i : ℕ} : sup < i → i < n → 0 < sign i

theorem brackets_all (sign : ℕ → ℤ) (n : ℕ) : Brackets sign n 0 (n-1) where
  low := le_rfl
  high := by omega
  le := by omega
  below h := by omega
  above h hi := by omega

namespace Brackets

/-- The middle lies in the table. -/
theorem mid (h : Brackets sign n inf sup) (le : inf ≤ sup) :
    inf ≤ (inf+sup)/2 ∧ (inf+sup)/2 ≤ sup ∧ 0 ≤ (inf+sup)/2 ∧ (inf+sup)/2 < n := by
  have := h.low
  have := h.high
  omega

/-- The entry is too small: the search goes on behind it. -/
theorem right (h : Brackets sign n inf sup) (ascending : Ascending sign n) (hj : j < n)
    (le : j ≤ sup) (small : sign j < 0) : Brackets sign n (j+1) sup where
  low := by omega
  high := h.high
  le := by omega
  below {i} lt hi := by
    rcases Nat.lt_or_ge i j with before | after
    · exact ascending i j before hj small.le
    · obtain rfl : i = j := by omega
      exact small
  above := h.above

/-- The entry is too large: the search goes on in front of it. -/
theorem left (h : Brackets sign n inf sup) (ascending : Ascending sign n) (hj : j < n)
    (le : inf ≤ j) (large : 0 < sign j) : Brackets sign n inf (j-1) where
  low := h.low
  high := by omega
  le := by omega
  below := h.below
  above {i} lt hi := by
    rcases Nat.lt_or_ge j i with behind | here
    · exact ascending.above behind hi large.le
    · obtain rfl : i = j := by omega
      exact large

/-- An empty range: the entry is not in the table. -/
theorem empty (h : Brackets sign n inf sup) (lt : sup < inf) (hi : i < n) : sign i ≠ 0 := by
  rcases Int.lt_or_le i inf with before | behind
  · exact (h.below before hi).ne
  · exact (h.above (by omega) hi).ne'

end Brackets
end Bisection
