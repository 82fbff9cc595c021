import Mathlib.Tactic

/-! A bounded queue in a circular array. Both cursors run from 0 to the number of slots; one that
stands at the end goes back to the start just before it is used. -/
namespace Ring

/-- A circular array with the cursors of its reader and its writer. -/
structure Buffer (α : Type*) where
  slots : ℕ → α
  front : ℕ
  back : ℕ
  count : ℕ

variable {α : Type*} {n : ℕ} {b : Buffer α} {l : List α} {x : α}

/-- The slot that a cursor of an array of `n` slots uses next. -/
def wrap (n i : ℕ) : ℕ := if i = n then 0 else i

theorem wrap_lt {i : ℕ} (h : i ≤ n) (pos : 0 < n) : wrap n i < n := by
  unfold wrap
  split_ifs <;> omega

theorem wrap_eq_mod {i : ℕ} (h : i ≤ n) : wrap n i = i%n := by
  unfold wrap
  split_ifs with e
  · rw [e,Nat.mod_self]
  · exact (Nat.mod_eq_of_lt (lt_of_le_of_ne h e)).symm

namespace Buffer

def put (n : ℕ) (b : Buffer α) (x : α) : Buffer α :=
  { b with
    slots := Function.update b.slots (wrap n b.back) x, back := wrap n b.back+1, count := b.count+1 }

def get (n : ℕ) (b : Buffer α) : Buffer α × α :=
  ({ b with front := wrap n b.front+1, count := b.count-1 },b.slots (wrap n b.front))

def clear (b : Buffer α) : Buffer α := { b with front := 0, back := 0, count := 0 }

/-- The buffer of `n` slots contains the elements of the list, the oldest one first. -/
structure Holds (n : ℕ) (b : Buffer α) (l : List α) : Prop where
  front_le : b.front ≤ n
  back_le : b.back ≤ n
  count_eq : b.count = l.length
  fits : l.length ≤ n
  back_eq : b.back%n = (b.front+l.length)%n
  items {k : ℕ} (hk : k < l.length) : b.slots ((b.front+k)%n) = l[k]

theorem holds_clear (n : ℕ) (b : Buffer α) : b.clear.Holds n [] where
  front_le := Nat.zero_le n
  back_le := Nat.zero_le n
  count_eq := rfl
  fits := Nat.zero_le n
  back_eq := rfl
  items hk := absurd hk (Nat.not_lt_zero _)

/-- Positions less than a full turn apart are different slots. -/
theorem slot_injective {f j k : ℕ} (hj : j < n) (hk : k < n) (h : (f+j)%n = (f+k)%n) : j = k :=
  (Nat.ModEq.add_left_cancel' f h).eq_of_lt_of_lt hj hk

theorem Holds.put (h : b.Holds n l) (room : l.length < n) (x : α) : (b.put n x).Holds n (l++[x]) where
  front_le := h.front_le
  back_le := wrap_lt h.back_le (by omega)
  count_eq := by simp [Buffer.put,h.count_eq]
  fits := by simpa using room
  back_eq := by
    simp only [Buffer.put,wrap_eq_mod h.back_le,h.back_eq,List.length_append,List.length_singleton]
    rw [Nat.mod_add_mod,Nat.add_assoc]
  items {k} hk := by
    simp only [Buffer.put,wrap_eq_mod h.back_le,h.back_eq]
    by_cases old : k < l.length
    · have apart : (b.front+k)%n ≠ (b.front+l.length)%n := fun e =>
        old.ne (slot_injective (old.trans room) room e)
      rw [Function.update_of_ne apart,h.items old,List.getElem_append_left old]
    · obtain rfl : k = l.length := by
        simp only [List.length_append,List.length_singleton] at hk
        omega
      rw [Function.update_self,List.getElem_concat_length rfl]

theorem Holds.get (h : b.Holds n (x :: l)) : (b.get n).2 = x ∧ (b.get n).1.Holds n l := by
  have room := h.fits
  rw [List.length_cons] at room
  have pos : 0 < n := by omega
  refine ⟨?_,?_,h.back_le,?_,by omega,?_,?_⟩
  · have first := h.items (k := 0) (by simp)
    simpa [Buffer.get,wrap_eq_mod h.front_le] using first
  · exact wrap_lt h.front_le pos
  · simp [Buffer.get,h.count_eq]
  · simp only [Buffer.get,wrap_eq_mod h.front_le,h.back_eq,List.length_cons]
    rw [Nat.add_assoc,Nat.mod_add_mod,Nat.add_comm 1]
  · intro k hk
    have next := h.items (k := k+1) (by simpa using hk)
    simp only [Buffer.get,wrap_eq_mod h.front_le]
    rw [Nat.add_assoc,Nat.mod_add_mod,Nat.add_comm 1]
    simpa using next

end Buffer
end Ring
