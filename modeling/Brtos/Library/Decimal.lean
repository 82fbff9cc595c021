import Mathlib.Tactic
import Mathlib.Data.Nat.Digits.Defs
import Mathlib.Data.Nat.Digits.Lemmas
import Mathlib.Data.List.GetD

/-! The decimal text of a number, as character codes, and texts in a memory of characters. -/
namespace Decimal

variable {n i j : ℕ} {c : ℤ} {w : List ℤ} {s : ℕ → ℤ}

/-- The digits of `n`, the highest first. -/
def text (n : ℕ) : List ℤ :=
  if n = 0 then [48] else ((Nat.digits 10 n).map fun d => 48+(d : ℤ)).reverse

/-- The same of an integer, with a minus in front where it is negative. -/
def signedText (n : ℤ) : List ℤ := if n < 0 then 45 :: text n.natAbs else text n.natAbs

theorem text_of_lt (h : n < 10) : text n = [48+(n : ℤ)] := by
  unfold text
  split_ifs with zero
  · simp [zero]
  · simp [Nat.digits_of_lt 10 n zero h]

theorem text_of_le (h : 10 ≤ n) : text n = text (n/10)++[48+((n%10 : ℕ) : ℤ)] := by
  have higher : n/10 ≠ 0 := by omega
  rw [text,text,if_neg (by omega),if_neg higher,Nat.digits_def' (by decide) (by omega)]
  simp

theorem text_ne_nil (n : ℕ) : text n ≠ [] := by
  rcases Nat.lt_or_ge n 10 with h | h
  · simp [text_of_lt h]
  · simp [text_of_le h]

theorem mem_text (h : c ∈ text n) : 48 ≤ c ∧ c ≤ 57 := by
  induction n using Nat.strong_induction_on with
  | _ n ih =>
    rcases Nat.lt_or_ge n 10 with small | large
    · rw [text_of_lt small,List.mem_singleton] at h
      omega
    · rw [text_of_le large,List.mem_append,List.mem_singleton] at h
      rcases h with h | h
      · exact ih (n/10) (by omega) h
      · omega

theorem text_length_pos (n : ℕ) : 0 < (text n).length := List.length_pos_iff.mpr (text_ne_nil n)

theorem text_length_le {k : ℕ} (h : n < 10^(k+1)) : (text n).length ≤ k+1 := by
  induction k generalizing n with
  | zero => simp [text_of_lt (show n < 10 by simpa using h)]
  | succ k ih =>
    rcases Nat.lt_or_ge n 10 with small | large
    · simp [text_of_lt small]
    · rw [text_of_le large,List.length_append,List.length_singleton]
      have := ih (n := n/10) (by rw [pow_succ] at h; omega)
      omega

/-- The number that a text of digits stands for, read from the left. -/
def value (w : List ℤ) : ℤ := w.foldl (fun k c => 10*k+(c-48)) 0

theorem value_concat (w : List ℤ) (c : ℤ) : value (w++[c]) = 10*value w+(c-48) := by
  simp [value]

theorem value_text (n : ℕ) : value (text n) = n := by
  induction n using Nat.strong_induction_on with
  | _ n ih =>
    rcases Nat.lt_or_ge n 10 with small | large
    · simp [text_of_lt small,value]
    · rw [text_of_le large,value_concat,ih (n/10) (by omega)]
      omega

theorem text_injective {m : ℕ} (h : text m = text n) : m = n := by
  have := congrArg value h
  rw [value_text,value_text] at this
  exact_mod_cast this

/-! ### Texts in memory -/

/-- The memory with `w` in the cells from `i` on. -/
def put (s : ℕ → ℤ) (i : ℕ) (w : List ℤ) : ℕ → ℤ :=
  fun j => if i ≤ j ∧ j < i+w.length then w.getD (j-i) 0 else s j

@[simp] theorem put_nil (s : ℕ → ℤ) (i : ℕ) : put s i [] = s := by
  funext j
  simp only [put,List.length_nil,if_neg (show ¬ (i ≤ j ∧ j < i+0) by omega)]

theorem put_inside (h : j < w.length) : put s i w (i+j) = w.getD j 0 := by
  rw [put,if_pos ⟨by omega,by omega⟩,Nat.add_sub_cancel_left]

theorem put_outside (h : ¬ (i ≤ j ∧ j < i+w.length)) : put s i w j = s j := if_neg h

theorem put_cons (s : ℕ → ℤ) (i : ℕ) (c : ℤ) (w : List ℤ) :
    put (Function.update s i c) (i+1) w = put s i (c :: w) := by
  funext j
  by_cases here : j = i
  · subst here
    rw [put_outside (by omega),Function.update_self]
    simp [put]
  · by_cases inside : i+1 ≤ j ∧ j < i+1+w.length
    · obtain ⟨k,rfl⟩ := Nat.exists_eq_add_of_le inside.1
      rw [put_inside (by omega),show i+1+k = i+(k+1) by omega,put_inside (by simp; omega)]
      simp
    · rw [put_outside inside,Function.update_of_ne here,put_outside (by simp; omega)]

/-- A cell stored just before the text, or just behind it. -/
theorem put_update (s : ℕ → ℤ) (i : ℕ) (c : ℤ) (w : List ℤ) :
    Function.update (put s (i+1) w) i c = put s i (c :: w) := by
  rw [← put_cons]
  funext j
  by_cases here : j = i
  · subst here
    rw [Function.update_self,put_outside (by omega),Function.update_self]
  · by_cases inside : i+1 ≤ j ∧ j < i+1+w.length
    · simp [put,inside,here]
    · rw [Function.update_of_ne here,put_outside inside,put_outside inside,Function.update_of_ne here]

theorem put_concat (s : ℕ → ℤ) (i : ℕ) (w : List ℤ) (c : ℤ) :
    Function.update (put s i w) (i+w.length) c = put s i (w++[c]) := by
  funext j
  by_cases last : j = i+w.length
  · subst last
    rw [Function.update_self,put_inside (by simp)]
    simp
  · rw [Function.update_of_ne last]
    by_cases inside : i ≤ j ∧ j < i+w.length
    · obtain ⟨k,rfl⟩ := Nat.exists_eq_add_of_le inside.1
      rw [put_inside (by omega),put_inside (by simp; omega),List.getD_append _ _ _ _ (by omega)]
    · rw [put_outside inside,put_outside (by simp; omega)]

/-- The cell behind the text, stored before the text was. -/
theorem put_behind (s : ℕ → ℤ) (i : ℕ) (w : List ℤ) (c : ℤ) :
    put (Function.update s (i+w.length) c) i w = put s i (w++[c]) := by
  rw [← put_concat]
  funext j
  by_cases last : j = i+w.length
  · subst last
    rw [put_outside (by omega),Function.update_self,Function.update_self]
  · rw [Function.update_of_ne last]
    unfold put
    rw [Function.update_of_ne last]

/-- A text in the middle of another one of the same length. -/
theorem put_put (s : ℕ → ℤ) {u v x w : List ℤ} (same : w.length = v.length) :
    put (put s 0 (u++(v++x))) u.length w = put s 0 (u++(w++x)) := by
  funext j
  by_cases middle : u.length ≤ j ∧ j < u.length+w.length
  · obtain ⟨k,rfl⟩ := Nat.exists_eq_add_of_le middle.1
    rw [put_inside (by omega),put,if_pos ⟨Nat.zero_le _,by simp; omega⟩,Nat.sub_zero,
      List.getD_append_right _ _ _ _ (by omega),Nat.add_sub_cancel_left,
      List.getD_append _ _ _ _ (by omega)]
  · rw [put_outside middle]
    unfold put
    by_cases inside : j < u.length+(w.length+x.length)
    · rw [if_pos (by simp; omega),if_pos (by simp; omega)]
      rcases Nat.lt_or_ge j u.length with before | after
      · rw [List.getD_append _ _ _ _ (by omega),List.getD_append _ _ _ _ (by omega)]
      · rw [List.getD_append_right _ _ _ _ (by omega),List.getD_append_right _ _ _ _ (by omega),
          List.getD_append_right _ _ _ _ (by omega),List.getD_append_right _ _ _ _ (by omega),same]
    · rw [if_neg (by simp; omega),if_neg (by simp; omega)]

/-- The text `w` and a NUL behind it stand at the beginning of the memory. -/
def Reads (s : ℕ → ℤ) (w : List ℤ) : Prop :=
  (∀ j, j < w.length → s j = w.getD j 0) ∧ s w.length = 0

theorem reads_put (s : ℕ → ℤ) (w : List ℤ) : Reads (put s 0 (w++[0])) w := by
  constructor
  · intro j hj
    have := put_inside (s := s) (i := 0) (w := w++[0]) (j := j) (by simp; omega)
    rw [Nat.zero_add] at this
    rw [this,List.getD_append _ _ _ _ hj]
  · have := put_inside (s := s) (i := 0) (w := w++[0]) (j := w.length) (by simp)
    rw [Nat.zero_add] at this
    rw [this]
    simp

end Decimal
