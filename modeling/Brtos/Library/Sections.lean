import Mathlib.Tactic

/-! Words of entries into sections and exits from them. One counter goes below zero where there are more
exits than entries, the other one, a mutex that only its owner can release, does not. -/
namespace Sections

inductive Op
  | enter
  | exit
  deriving DecidableEq, Repr

/-- Entries less exits. -/
def net (w : List Op) : ℤ := w.count .enter-w.count .exit

/-- How often a mutex is owned after the word. -/
def own : ℕ → List Op → ℕ
  | n,[] => n
  | n,.enter :: w => own (n+1) w
  | n,.exit :: w => own (n-1) w

/-- There are as many exits as entries, and no exit comes before its entry. -/
structure Nested (w : List Op) : Prop where
  balanced : w.count .exit = w.count .enter
  inside {p : List Op} : p <+: w → p.count .exit ≤ p.count .enter

variable {n : ℕ} {w p : List Op}

@[simp] theorem net_enter : net (.enter :: w) = net w+1 := by
  simp only [net,List.count_cons_self,List.count_cons_of_ne (show Op.enter ≠ .exit by decide)]
  push_cast
  ring

@[simp] theorem net_exit : net (.exit :: w) = net w-1 := by
  simp only [net,List.count_cons_self,List.count_cons_of_ne (show Op.exit ≠ .enter by decide)]
  push_cast
  ring

theorem net_append (v w : List Op) : net (v++w) = net v+net w := by
  simp only [net,List.count_append]
  push_cast
  ring

theorem own_append (n : ℕ) (v w : List Op) : own n (v++w) = own (own n v) w := by
  induction v generalizing n with
  | nil => rfl
  | cons o v ih => cases o <;> exact ih _

theorem net_le_own (n : ℕ) (w : List Op) : n+net w ≤ own n w := by
  induction w generalizing n with
  | nil => simp [net,own]
  | cons o w ih =>
    cases o with
    | enter =>
      have := ih (n+1)
      simp only [own,net_enter]
      omega
    | exit =>
      have := ih (n-1)
      simp only [own,net_exit]
      omega

theorem forall_prefix_cons {o : Op} {P : List Op → Prop} :
    (∀ p, p <+: o :: w → P p) ↔ P [] ∧ ∀ p, p <+: w → P (o :: p) := by
  constructor
  · intro h
    exact ⟨h [] List.nil_prefix,fun p hp => h (o :: p) (List.cons_prefix_cons.mpr ⟨rfl,hp⟩)⟩
  · rintro ⟨first,rest⟩ p hp
    cases p with
    | nil => exact first
    | cons x p =>
      obtain ⟨same,hp⟩ := List.cons_prefix_cons.mp hp
      exact same ▸ rest p hp

/-- The two counters agree where no exit finds the mutex without an owner. -/
theorem own_eq_iff (n : ℕ) (w : List Op) : own n w = n+net w ↔ ∀ p, p <+: w → 0 ≤ n+net p := by
  induction w generalizing n with
  | nil =>
    refine iff_of_true (by simp [net,own]) fun p hp => ?_
    obtain rfl := List.prefix_nil.mp hp
    simp [net]
  | cons o w ih =>
    rw [forall_prefix_cons]
    cases o with
    | enter =>
      have step := ih (n+1)
      simp only [own,net_enter] at step ⊢
      rw [show (own (n+1) w : ℤ) = n+(net w+1) ↔ (own (n+1) w : ℤ) = (n+1 : ℕ)+net w by omega,step]
      constructor
      · intro h
        exact ⟨by simp [net],fun p hp => by have := h p hp; omega⟩
      · rintro ⟨_,h⟩ p hp
        have := h p hp
        omega
    | exit =>
      cases n with
      | zero =>
        have above := net_le_own 0 w
        refine iff_of_false ?_ fun h => ?_
        · simp only [own,net_exit,Nat.zero_sub]
          omega
        · have := h.2 [] List.nil_prefix
          simp [net] at this
      | succ n =>
        have step := ih n
        simp only [own,net_exit,Nat.add_sub_cancel]
        rw [show (own n w : ℤ) = (n+1 : ℕ)+(net w-1) ↔ (own n w : ℤ) = n+net w by omega,step]
        constructor
        · intro h
          exact ⟨by simp [net]; omega,fun p hp => by have := h p hp; omega⟩
        · rintro ⟨_,h⟩ p hp
          have := h p hp
          omega

/-- A word is nested exactly where both counters are at their ends what they were, the mutex unowned. -/
theorem nested_iff : Nested w ↔ net w = 0 ∧ own 0 w = 0 := by
  have agree := own_eq_iff 0 w
  constructor
  · intro h
    have zero : net w = 0 := by
      have := h.balanced
      simp only [net]
      omega
    have same := agree.mpr fun p hp => by
      have := h.inside hp
      simp only [net]
      omega
    exact ⟨zero,by omega⟩
  · rintro ⟨zero,free⟩
    refine ⟨?_,fun {p} hp => ?_⟩
    · simp only [net] at zero
      omega
    · have := agree.mp (by omega) p hp
      simp only [net] at this
      omega

end Sections
