import Mathlib.Tactic
import Mathlib.Data.Finset.Card

/-! Bit vectors read as finite sets of positions, and the highest position of such a set. -/
namespace Bitmap

/-- The positions of the set bits. -/
def bits {w : ℕ} (r : BitVec w) : Finset ℕ :=
  (Finset.range w).filter fun i => r.getLsbD i = true

@[simp] theorem mem_bits {w : ℕ} {r : BitVec w} {i : ℕ} : i ∈ bits r ↔ r.getLsbD i = true := by
  simp only [bits,Finset.mem_filter,Finset.mem_range]
  exact ⟨fun h => h.2,fun h => ⟨BitVec.lt_of_getLsbD h,h⟩⟩

theorem lt_of_mem_bits {w : ℕ} {r : BitVec w} {i : ℕ} (h : i ∈ bits r) : i < w :=
  BitVec.lt_of_getLsbD (mem_bits.mp h)

@[simp] theorem bits_zero (w : ℕ) : bits (0#w) = ∅ := by
  ext i
  simp

theorem bits_or_twoPow {w i : ℕ} (r : BitVec w) (h : i < w) :
    bits (r ||| BitVec.twoPow w i) = insert i (bits r) := by
  ext j
  simp only [mem_bits,BitVec.getLsbD_or,BitVec.getLsbD_twoPow,h,decide_true,Bool.true_and,
    Bool.or_eq_true,decide_eq_true_eq,Finset.mem_insert]
  tauto

theorem bits_and_not_twoPow {w : ℕ} (r : BitVec w) (i : ℕ) :
    bits (r &&& ~~~ BitVec.twoPow w i) = (bits r).erase i := by
  ext j
  simp only [mem_bits,BitVec.getLsbD_and,BitVec.getLsbD_not,BitVec.getLsbD_twoPow,
    Finset.mem_erase,Bool.and_eq_true,decide_eq_true_eq,Bool.not_eq_true']
  constructor
  · rintro ⟨hr,hj,hn⟩
    refine ⟨?_,hr⟩
    rintro rfl
    simp [hj] at hn
  · rintro ⟨hj,hr⟩
    have hw := BitVec.lt_of_getLsbD hr
    exact ⟨hr,hw,by simp [Ne.symm hj]⟩

theorem bits_and {w : ℕ} (r s : BitVec w) : bits (r &&& s) = bits r ∩ bits s := by
  ext j
  simp

theorem bits_eq_empty {w : ℕ} {r : BitVec w} : bits r = ∅ ↔ r = 0#w := by
  constructor
  · intro h
    apply BitVec.eq_of_getLsbD_eq
    intro i _
    have hi : i ∉ bits r := by simp [h]
    simpa using hi
  · rintro rfl
    exact bits_zero w

theorem and_twoPow_ne_zero {w i : ℕ} (r : BitVec w) (h : i < w) :
    r &&& BitVec.twoPow w i ≠ 0#w ↔ i ∈ bits r := by
  rw [Ne,← bits_eq_empty,← Ne,← Finset.nonempty_iff_ne_empty,mem_bits]
  constructor
  · rintro ⟨j,hj⟩
    simp only [mem_bits,BitVec.getLsbD_and,BitVec.getLsbD_twoPow,Bool.and_eq_true,
      decide_eq_true_eq] at hj
    obtain ⟨hr,_,rfl⟩ := hj
    exact hr
  · intro hr
    exact ⟨i,by simp [hr,h]⟩

/-- The highest set position, zero when there is none. -/
def highest {w : ℕ} (r : BitVec w) : ℕ := r.toNat.log2

theorem toNat_ne_zero {w : ℕ} {r : BitVec w} (h : (bits r).Nonempty) : r.toNat ≠ 0 := by
  intro h0
  have hr : r = 0#w := BitVec.eq_of_toNat_eq (by simpa using h0)
  simp [hr] at h

theorem highest_mem {w : ℕ} {r : BitVec w} (h : (bits r).Nonempty) : highest r ∈ bits r :=
  mem_bits.mpr (Nat.testBit_log2 (toNat_ne_zero h))

theorem le_highest {w : ℕ} {r : BitVec w} {i : ℕ} (h : i ∈ bits r) : i ≤ highest r := by
  have h0 := toNat_ne_zero ⟨i,h⟩
  by_contra hlt
  have hb : r.toNat < 2^i :=
    lt_of_lt_of_le Nat.lt_log2_self (Nat.pow_le_pow_right (by decide) (by simpa [highest] using hlt))
  have hf := Nat.testBit_lt_two_pow hb
  rw [mem_bits] at h
  change r.toNat.testBit i = true at h
  rw [hf] at h
  contradiction

theorem highest_of_empty {w : ℕ} {r : BitVec w} (h : bits r = ∅) : highest r = 0 := by
  rw [bits_eq_empty] at h
  simp [h,highest,Nat.log2_zero]

/-- A positive number has its highest set bit at `p` exactly between the two powers of two. -/
theorem highest_of_bounds {w p : ℕ} {r : BitVec w} (hl : 2^p ≤ r.toNat) (hu : r.toNat < 2^(p+1)) :
    highest r = p := by
  have h0 : r.toNat ≠ 0 := by
    have := Nat.one_le_two_pow (n := p)
    omega
  apply le_antisymm
  · exact Nat.lt_succ_iff.mp ((Nat.log2_lt h0).mpr hu)
  · exact (Nat.le_log2 h0).mpr hl

end Bitmap
