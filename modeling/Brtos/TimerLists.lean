import Brtos.Timers

/-! What the operations on the timer lists do to a list whose entries are as its count says. -/
namespace Brtos
open Heap

section Checked
variable {ε α β : Type}

theorem ok_bind (a : α) (f : α → Except ε β) : (Except.ok a >>= f) = f a := rfl

theorem error_bind (e : ε) (f : α → Except ε β) :
    ((Except.error e : Except ε α) >>= f) = .error e := rfl

theorem bind_eq_ok {x : Except ε α} {f : α → Except ε β} {b : β} :
    (x >>= f) = .ok b ↔ ∃ a, x = .ok a ∧ f a = .ok b := by
  cases x with
  | error e => simp [error_bind]
  | ok a => simp [ok_bind]

end Checked

theorem int8_of_small {x : ℤ} (low : -128 ≤ x) (high : x ≤ 127) : int8 x = x := by
  unfold int8
  omega

theorem uint8_natCast {n : ℕ} (small : n < 256) : uint8 n = n := by
  unfold uint8
  omega

/-- The deadline behind an entry. -/
def due (mem : ℕ → Timer) (p : Option ℕ) : ℕ := (mem (p.getD 0)).timeout

@[simp] theorem due_some (mem : ℕ → Timer) (p : ℕ) : due mem (some p) = (mem p).timeout := rfl

namespace TimerList
variable {inside : ℕ → Bool} {l m : TimerList} {mem : ℕ → Timer} {n p : ℕ}

/-- The timers of the list, in no order. -/
def items (l : TimerList) : Multiset (Option ℕ) := Heap.items l.timers l.count.toNat

/-- The list has `n` entries, and these and no others are timers. -/
structure Filled (l : TimerList) (n : ℕ) : Prop where
  count : l.count = n
  some_iff (i : ℕ) : (l.timers i).isSome ↔ 1 ≤ i ∧ i ≤ n
  small : n ≤ 127

theorem Filled.count_unique {m : ℕ} (h : l.Filled n) (h' : l.Filled m) : n = m := by
  have := h.count.symm.trans h'.count
  omega

theorem Filled.items_eq (h : l.Filled n) : l.items = Heap.items l.timers n := by
  rw [items,h.count,Int.toNat_natCast]

theorem Filled.uint8_count (h : l.Filled n) : uint8 l.count = n := by
  have := h.small
  rw [h.count,uint8_natCast (by omega)]

theorem last_natCast (a : ℕ → Option ℕ) (n : ℕ) : last ⟨a,n⟩ = .ok n := by
  exact (if_neg (Int.not_lt.mpr (Int.natCast_nonneg n))).trans (by rw [Int.toNat_natCast])

theorem Filled.last (h : l.Filled n) : l.last = .ok n := by
  rw [TimerList.last,h.count,if_neg (by omega),Int.toNat_natCast]

theorem Filled.isNone (h : l.Filled n) {i : ℕ} (out : ¬ (1 ≤ i ∧ i ≤ n)) : l.timers i = none := by
  rw [← h.some_iff] at out
  simpa using out

theorem Filled.mem_items (h : l.Filled n) {x : Option ℕ} :
    x ∈ l.items ↔ ∃ i, 1 ≤ i ∧ i ≤ n ∧ l.timers i = x := by
  rw [h.items_eq,Heap.mem_items]

theorem Filled.of_shuffles (h : l.Filled n) {a : ℕ → Option ℕ} (same : Shuffles l.timers a n) :
    Filled { l with timers := a } n where
  count := h.count
  small := h.small
  some_iff i := by
    by_cases within : 1 ≤ i ∧ i ≤ n
    · obtain ⟨j,pos,le,he⟩ := same.exists_eq within.1 within.2
      simp only [he,(h.some_iff j).mpr ⟨pos,le⟩,within]
      simp
    · simp only [same.outside within,h.isNone within,within]
      simp

theorem items_of_shuffles (h : l.Filled n) {a : ℕ → Option ℕ} (same : Shuffles l.timers a n) :
    items { l with timers := a } = l.items := by
  rw [(h.of_shuffles same).items_eq,same.items_eq,h.items_eq]

/-! ### Single accesses -/

theorem read_ok {i : ℕ} (within : inside i) : l.read inside i = .ok (l.timers i) := if_pos within

theorem write_ok {i : ℕ} (within : inside i) (x : Option ℕ) :
    l.write inside i x = .ok { l with timers := Function.update l.timers i x } := if_pos within

theorem get_ok {i : ℕ} (within : inside i) (he : l.timers i = some p) : l.get inside i = .ok p := by
  rw [get,read_ok within,ok_bind,he]

theorem get_eq_ok {i : ℕ} : l.get inside i = .ok p ↔ inside i = true ∧ l.timers i = some p := by
  constructor
  · intro h
    obtain ⟨x,hx,hp⟩ := bind_eq_ok.mp h
    unfold read at hx
    split_ifs at hx with within
    obtain rfl := Except.ok.inj hx
    cases he : l.timers i with
    | none => simp [he] at hp
    | some q =>
      simp only [he,Except.ok.injEq] at hp
      exact ⟨within,congrArg some hp⟩
  · rintro ⟨within,he⟩
    exact get_ok within he

/-! ### The sifts -/

@[simp] theorem swap_timers (l : TimerList) (i j : ℕ) :
    (l.swap i j).timers = Heap.swap l.timers i j := rfl

theorem subir_eq {f i : ℕ} (full : ∀ j, 1 ≤ j → j ≤ i → (l.timers j).isSome)
    (within : ∀ j, 1 ≤ j → j ≤ i → inside j) (pos : 1 ≤ i) (fuel : i < 2^f) :
    subir inside mem f l i = .ok { l with timers := up (due mem) f l.timers i } := by
  induction f generalizing l i with
  | zero => omega
  | succ f ih =>
    rw [subir,up]
    rcases Nat.eq_or_lt_of_le pos with rfl | lt
    · rw [if_neg (by omega),if_neg (by omega)]
    · obtain ⟨p,hp⟩ := Option.isSome_iff_exists.mp (full (i/2) (by omega) (by omega))
      obtain ⟨q,hq⟩ := Option.isSome_iff_exists.mp (full i pos le_rfl)
      have half : pai i = i/2 := rfl
      rw [if_pos lt,half,get_ok (within _ (by omega) (by omega)) hp,ok_bind,
        get_ok (within i pos le_rfl) hq,ok_bind,hp,hq,due_some,due_some]
      by_cases less : (mem q).timeout < (mem p).timeout
      · rw [if_pos less,if_pos ⟨lt,less⟩,ih _ _ (by omega) (by rw [pow_succ] at fuel; omega)]
        · rfl
        · intro j hj hji
          obtain ⟨k,hk,hki,he⟩ := (shuffles_swap (a := l.timers) (n := i) (i := i/2) (j := i)
            (by omega) (by omega) pos le_rfl).exists_eq hj (by omega)
          rw [swap_timers,he]
          exact full k hk hki
        · exact fun j hj hji => within j hj (by omega)
      · rw [if_neg less,if_neg fun go => less go.2]

/-- Subir on an entry below the root that is no timer. -/
theorem subir_null {f i : ℕ} (lt : 1 < i) (he : l.timers i = none) (r : TimerList) :
    subir inside mem f l i ≠ .ok r := by
  cases f with
  | zero => simp [subir]
  | succ f =>
    rw [subir,if_pos lt]
    intro h
    obtain ⟨_,_,h⟩ := bind_eq_ok.mp h
    obtain ⟨q,hq,_⟩ := bind_eq_ok.mp h
    simp [get_eq_ok,he] at hq

theorem left_eq {i : ℕ} (small : i ≤ 127) : left i = 2*i := Nat.mod_eq_of_lt (by omega)

theorem right_eq {i : ℕ} (small : i ≤ 127) : right i = 2*i+1 := Nat.mod_eq_of_lt (by omega)

theorem son_eq {i : ℕ} (full : ∀ j, 1 ≤ j → j ≤ n → (l.timers j).isSome)
    (within : ∀ j, 1 ≤ j → j ≤ n → inside j) (small : i ≤ 127) (pos : 1 ≤ i) :
    l.son inside mem n i = .ok (Heap.son (due mem) l.timers n i) := by
  rw [TimerList.son,right_eq small,left_eq small]
  by_cases two : 2*i+1 ≤ n
  · obtain ⟨p,hp⟩ := Option.isSome_iff_exists.mp (full (2*i+1) (by omega) two)
    obtain ⟨q,hq⟩ := Option.isSome_iff_exists.mp (full (2*i) (by omega) (by omega))
    rw [if_pos two,get_ok (within _ (by omega) two) hp,ok_bind,
      get_ok (within _ (by omega) (by omega)) hq,ok_bind,Heap.son,hp,hq,due_some,due_some]
    simp only [two,true_and]
  · rw [if_neg two,Heap.son,if_neg fun h => two h.1]

theorem descer_eq {f i : ℕ} (full : ∀ j, 1 ≤ j → j ≤ n → (l.timers j).isSome)
    (within : ∀ j, 1 ≤ j → j ≤ n → inside j) (small : n ≤ 127) (pos : 1 ≤ i) (le : i ≤ max n 1)
    (fuel : n < i*2^f) :
    descer inside mem n (f+1) l i = .ok { l with timers := down (due mem) n (f+1) l.timers i } := by
  induction f generalizing l i with
  | zero =>
    have beyond := le_son (due mem) l.timers n i
    rw [descer,son_eq full within (by omega) pos,ok_bind,if_neg (by omega),down,
      if_neg fun h => by omega]
  | succ f ih =>
    rw [descer,son_eq full within (by omega) pos,ok_bind,down]
    have far := le_son (due mem) l.timers n i
    generalize Heap.son (due mem) l.timers n i = s at *
    by_cases inner : s ≤ n
    · obtain ⟨p,hp⟩ := Option.isSome_iff_exists.mp (full s (by omega) inner)
      obtain ⟨q,hq⟩ := Option.isSome_iff_exists.mp (full i pos (by omega))
      rw [if_pos inner,get_ok (within s (by omega) inner) hp,ok_bind,get_ok (within i pos (by omega)) hq,
        ok_bind,hp,hq,due_some,due_some]
      by_cases less : (mem p).timeout < (mem q).timeout
      · rw [if_pos less,if_pos ⟨inner,less⟩,ih _ (by omega) (by omega)]
        · rfl
        · calc n < 2*i*2^f := by rw [pow_succ] at fuel; linarith
            _ ≤ s*2^f := Nat.mul_le_mul_right _ far
        · intro j hj hjn
          obtain ⟨k,hk,hkn,he⟩ := (shuffles_swap (a := l.timers) (n := n) (i := s) (j := i)
            (by omega) inner pos (by omega)).exists_eq hj hjn
          rw [swap_timers,he]
          exact full k hk hkn
      · rw [if_neg less,if_neg fun go => less go.2]
    · rw [if_neg inner,if_neg fun go => inner go.1]

/-! ### Insertion and removal -/

/-- A new entry behind the last one. -/
theorem Filled.push (h : l.Filled n) (small : n+1 ≤ 127) (p : ℕ) :
    Filled ⟨Function.update l.timers (n+1) (some p),(n+1 : ℕ)⟩ (n+1) where
  count := rfl
  small := small
  some_iff i := by
    by_cases last : i = n+1
    · subst last
      simp
    · simp only [Function.update_of_ne last,h.some_iff]
      omega

/-- The list of `n` entries with one more. -/
def added (mem : ℕ → Timer) (l : TimerList) (p n : ℕ) : TimerList :=
  ⟨up (due mem) 8 (Function.update l.timers (n+1) (some p)) (n+1),(n+1 : ℕ)⟩

/-- An insertion that finds room. -/
theorem insert_eq (h : l.Filled n) (within : ∀ i, 1 ≤ i → i ≤ n+1 → inside i) (small : n+1 ≤ 127)
    (p : ℕ) : l.insert inside mem p = .ok (added mem l p n) := by
  have count : int8 (l.count+1) = (n+1 : ℕ) := by
    rw [h.count,int8_of_small (by omega) (by omega)]
    rfl
  rw [insert,count,last_natCast,ok_bind,write_ok (within _ (by omega) le_rfl),ok_bind,
    uint8_natCast (by omega)]
  exact subir_eq (fun i pos le => ((h.push small p).some_iff i).mpr ⟨pos,le⟩) within (by omega)
    (by omega)

/-- An insertion without room leaves the array. -/
theorem insert_fault (h : l.Filled n) (full : inside (n+1) = false ∨ n = 127) (p : ℕ) :
    l.insert inside mem p = .error .bounds := by
  rcases Nat.eq_or_lt_of_le h.small with top | small
  · have count : int8 (l.count+1) = -128 := by
      rw [h.count,top]
      rfl
    rw [insert,count]
    rfl
  · have count : int8 (l.count+1) = (n+1 : ℕ) := by
      rw [h.count,int8_of_small (by omega) (by omega)]
      rfl
    have outside : inside (n+1) = false := full.resolve_right (by omega)
    rw [insert,count,last_natCast,ok_bind,write,if_neg (by simp [outside]),error_bind]

/-- What an insertion keeps. -/
structure Inserted (mem : ℕ → Timer) (l : TimerList) (p n : ℕ) (r : TimerList) : Prop where
  filled : r.Filled (n+1)
  items : r.items = some p ::ₘ l.items
  ordered : Ordered (due mem) l.timers n → Ordered (due mem) r.timers (n+1)

theorem inserted (h : l.Filled n) (small : n+1 ≤ 127) (p : ℕ) :
    Inserted mem l p n (added mem l p n) := by
  have pushed := h.push small p
  have same := up_shuffles (due mem) 8 (Function.update l.timers (n+1) (some p)) (n+1)
  refine ⟨pushed.of_shuffles same,?_,fun order => up_ordered ?_ le_rfl (by omega)⟩
  · rw [added,items_of_shuffles pushed same,pushed.items_eq,items_succ,h.items_eq]
    change Function.update l.timers (n+1) (some p) (n+1) ::ₘ _ = _
    rw [Function.update_self]
    congr 1
    apply items_congr
    intro i _ le
    exact Function.update_of_ne (by omega) _ _
  · constructor
    · intro j lt le apart
      rw [Function.update_of_ne (by omega),Function.update_of_ne apart]
      exact order j lt (by omega)
    · intro j _ le child
      omega

/-- The list of `n` entries without the first one, and without the repair of the order. -/
def beheaded (l : TimerList) (n : ℕ) : TimerList := ⟨Heap.pop l.timers n none,(n-1 : ℕ)⟩

theorem Filled.pop (h : l.Filled n) (pos : 1 ≤ n) : (beheaded l n).Filled (n-1) where
  count := rfl
  small := (Nat.sub_le n 1).trans h.small
  some_iff i := by
    change (Heap.pop l.timers n none i).isSome ↔ _
    by_cases last : i = n
    · subst last
      simp only [Heap.pop,Function.update_self,Option.isSome_none,Bool.false_eq_true,false_iff]
      omega
    by_cases first : i = 1
    · subst first
      rw [pop_first (by omega),h.some_iff]
      omega
    · rw [Heap.pop,Function.update_of_ne last,Function.update_of_ne first,h.some_iff]
      omega

theorem removeFirst_eq (h : l.Filled n) (pos : 1 ≤ n) (within : ∀ i, 1 ≤ i → i ≤ n → inside i) :
    l.removeFirst inside = .ok (beheaded l n) := by
  have small := h.small
  have count : int8 (l.count-1) = (n-1 : ℕ) := by
    rw [h.count,int8_of_small (by omega) (by omega)]
    omega
  rw [removeFirst,h.last,ok_bind,read_ok (within n pos le_rfl),ok_bind,
    write_ok (within 1 le_rfl pos),ok_bind,write_ok (within n pos le_rfl),ok_bind]
  change Except.ok (⟨Heap.pop l.timers n none,int8 (l.count-1)⟩ : TimerList) = _
  rw [count]
  rfl

theorem items_removed (h : l.Filled n) (pos : 1 ≤ n) :
    l.timers 1 ::ₘ (beheaded l n).items = l.items := by
  have popped := (h.pop pos).items_eq
  rw [popped,h.items_eq]
  obtain ⟨m,rfl⟩ : ∃ m, n = m+1 := ⟨n-1,by omega⟩
  exact items_pop l.timers m none

/-- The list of `n` entries with the first one moved down. -/
def sunk (mem : ℕ → Timer) (l : TimerList) (n : ℕ) : TimerList :=
  { l with timers := down (due mem) n 256 l.timers 1 }

theorem reorder_eq (h : l.Filled n) (within : ∀ i, 1 ≤ i → i ≤ n → inside i) :
    l.reorder inside mem = .ok (sunk mem l n) := by
  have small := h.small
  rw [reorder,h.uint8_count]
  apply descer_eq (fun i pos le => (h.some_iff i).mpr ⟨pos,le⟩) within small le_rfl (le_max_right _ _)
  calc n < 2^7 := by omega
    _ ≤ 1*2^255 := by norm_num

/-- A count below zero sends Descer behind the entries. -/
theorem reorder_fault (count : l.count = -1) (empty : l.timers 3 = none) (r : TimerList) :
    l.reorder inside mem ≠ .ok r := by
  intro h
  rw [reorder,count,show uint8 (-1) = 255 from rfl,descer] at h
  obtain ⟨_,h,_⟩ := bind_eq_ok.mp h
  rw [TimerList.son,if_pos (by decide)] at h
  obtain ⟨p,hp,_⟩ := bind_eq_ok.mp h
  have := (get_eq_ok.mp hp).2
  rw [show right 1 = 3 from rfl,empty] at this
  simp at this

theorem down_first_shuffles (mem : ℕ → Timer) (a : ℕ → Option ℕ) (n : ℕ) :
    Shuffles a (down (due mem) n 256 a 1) n := by
  rcases Nat.eq_zero_or_pos n with rfl | pos
  · rw [down,if_neg]
    · exact .refl a 0
    · intro go
      have := le_son (due mem) a 0 1
      omega
  · exact down_shuffles _ _ _ le_rfl pos

theorem sunk_filled (mem : ℕ → Timer) (h : l.Filled n) : (sunk mem l n).Filled n ∧ (sunk mem l n).items = l.items :=
  ⟨h.of_shuffles (down_first_shuffles mem l.timers n),
    items_of_shuffles h (down_first_shuffles mem l.timers n)⟩

/-- A list whose first entry alone may be out of order. -/
theorem sunk_ordered (small : n ≤ 127) (ready : DownReady (due mem) l.timers n 1) :
    Ordered (due mem) (sunk mem l n).timers n := by
  apply down_ordered ready le_rfl
  calc n < 2^7 := by omega
    _ ≤ 1*2^256 := by norm_num

/-- What a removal of the first entry keeps. -/
structure Removed (mem : ℕ → Timer) (l : TimerList) (n : ℕ) (r : TimerList) : Prop where
  filled : r.Filled (n-1)
  items : l.timers 1 ::ₘ r.items = l.items
  ordered : (∀ i, 1 < i/2 → i ≤ n → due mem (l.timers (i/2)) ≤ due mem (l.timers i)) →
    Ordered (due mem) r.timers (n-1)

theorem removed (mem : ℕ → Timer) (h : l.Filled n) (pos : 1 ≤ n) :
    Removed mem l n (sunk mem (beheaded l n) (n-1)) := by
  obtain ⟨filled,items⟩ := sunk_filled mem (h.pop pos)
  refine ⟨filled,?_,fun order => ?_⟩
  · exact (congrArg _ items).trans (items_removed h pos)
  · apply sunk_ordered ((Nat.sub_le n 1).trans h.small)
    constructor
    · intro j lt le far
      change due mem (Heap.pop l.timers n none (j/2)) ≤ due mem (Heap.pop l.timers n none j)
      rw [pop_other (i := j/2) (by omega) (by omega),pop_other lt (by omega)]
      exact order j (by omega) (by omega)
    · intro lt
      omega

/-- The removal of the first entry of a list without entries does not come to its end. -/
theorem remove_fault (h : l.Filled 0) {r r' : TimerList} (begun : l.removeFirst inside = .ok r) :
    r.reorder inside mem ≠ .ok r' := by
  rw [removeFirst,h.last,ok_bind] at begun
  obtain ⟨x,hx,begun⟩ := bind_eq_ok.mp begun
  obtain ⟨l₁,h₁,begun⟩ := bind_eq_ok.mp begun
  obtain ⟨l₂,h₂,begun⟩ := bind_eq_ok.mp begun
  have readable := hx
  unfold read at hx
  unfold write at h₁ h₂
  split_ifs at hx h₁ h₂
  obtain rfl := Except.ok.inj hx
  obtain rfl := Except.ok.inj h₁
  obtain rfl := Except.ok.inj h₂
  obtain rfl := Except.ok.inj begun
  apply reorder_fault
  · change int8 (l.count-1) = -1
    rw [h.count]
    rfl
  · change Function.update (Function.update l.timers 1 (l.timers 0)) 0 none 3 = none
    rw [Function.update_of_ne (by omega),Function.update_of_ne (by omega),h.isNone (by omega)]

/-! ### An array of timers that is a heap but for one place -/

/-- The entries of an array of `n` timers, which begins at entry 1. -/
def entries (n i : ℕ) : Bool := decide (1 ≤ i ∧ i ≤ n)

theorem subir_repairs {i : ℕ} (small : n < 128) (full : ∀ j, 1 ≤ j → j ≤ n → (l.timers j).isSome)
    (pos : 1 ≤ i) (le : i ≤ n)
    (edge : ∀ j, 1 < j → j ≤ n → j ≠ i → due mem (l.timers (j/2)) ≤ due mem (l.timers j)) :
    ∃ r, subir (entries n) mem 8 l i = .ok r ∧ Heap.items r.timers n = Heap.items l.timers n ∧
      (Ordered (due mem) r.timers n ↔
        ∀ j, 1 < i → j ≤ n → j/2 = i → due mem (l.timers (i/2)) ≤ due mem (l.timers j)) := by
  have fuel : i < 2^8 := by omega
  refine ⟨_,subir_eq (fun j hj hji => full j hj (hji.trans le)) ?_ pos fuel,?_,?_⟩
  · intro j hj hji
    exact decide_eq_true ⟨hj,hji.trans le⟩
  · exact ((up_shuffles (due mem) 8 l.timers i).mono le).items_eq
  · exact up_ordered_iff edge le fuel

theorem descer_repairs (small : n < 128) (full : ∀ j, 1 ≤ j → j ≤ n → (l.timers j).isSome)
    (edge : ∀ j, 1 < j → j ≤ n → j/2 ≠ 1 → due mem (l.timers (j/2)) ≤ due mem (l.timers j)) :
    ∃ r, descer (entries n) mem n 256 l 1 = .ok r ∧ Heap.items r.timers n = Heap.items l.timers n ∧
      Ordered (due mem) r.timers n := by
  have fuel : n < 1*2^255 := by
    calc n < 2^7 := small
      _ ≤ 1*2^255 := by norm_num
  refine ⟨_,descer_eq full ?_ (by omega) le_rfl (le_max_right _ _) fuel,?_,?_⟩
  · intro j hj hjn
    exact decide_eq_true ⟨hj,hjn⟩
  · exact (down_first_shuffles mem l.timers n).items_eq
  · exact sunk_ordered (by omega) ⟨fun lt hj far => edge _ lt hj far,fun lt => absurd lt (by omega)⟩

/-- Subir and Descer on an array of `n` timers that is a heap but for one place. They end, look at the
entries of the array only and keep its timers. Descer leaves a heap, and so does Subir exactly when no
child of the entry belongs above the parent of the entry. -/
theorem repairs (mem : ℕ → Timer) (l : TimerList) (n : ℕ) (small : n < 128)
    (full : ∀ j, 1 ≤ j → j ≤ n → (l.timers j).isSome) :
    (∀ i, 1 ≤ i → i ≤ n →
      (∀ j, 1 < j → j ≤ n → j ≠ i → due mem (l.timers (j/2)) ≤ due mem (l.timers j)) →
      ∃ r, subir (entries n) mem 8 l i = .ok r ∧ Heap.items r.timers n = Heap.items l.timers n ∧
        (Ordered (due mem) r.timers n ↔
          ∀ j, 1 < i → j ≤ n → j/2 = i → due mem (l.timers (i/2)) ≤ due mem (l.timers j))) ∧
    ((∀ j, 1 < j → j ≤ n → j/2 ≠ 1 → due mem (l.timers (j/2)) ≤ due mem (l.timers j)) →
      ∃ r, descer (entries n) mem n 256 l 1 = .ok r ∧ Heap.items r.timers n = Heap.items l.timers n ∧
        Ordered (due mem) r.timers n) :=
  ⟨fun _ pos le edge => subir_repairs small full pos le edge,fun edge => descer_repairs small full edge⟩

/-- Four timers with these deadlines, in the entries 1 to 4. -/
def four (a b c d : ℕ) : ℕ → Timer := fun p => ⟨none,[a,b,c,d].getD p 0,.running⟩

def fourEntries : TimerList := ⟨fun i => if entries 4 i then some (i-1) else none,4⟩

theorem repairs_example :
    (∃ r, subir (entries 4) (four 2 3 4 1) 8 fourEntries 4 = .ok r ∧
      Ordered (due (four 2 3 4 1)) r.timers 4) ∧
    ∃ r, descer (entries 4) (four 5 3 2 4) 4 256 fourEntries 1 = .ok r ∧
      Ordered (due (four 5 3 2 4)) r.timers 4 := by
  have full : ∀ j, 1 ≤ j → j ≤ 4 → (fourEntries.timers j).isSome := by
    intro j pos le
    simp [fourEntries,entries,pos,le]
  constructor
  · obtain ⟨r,done,_,heap⟩ := (repairs (four 2 3 4 1) fourEntries 4 (by decide) full).1 4 (by decide)
      le_rfl (by intro j lt le apart; interval_cases j <;> first | decide | omega)
    exact ⟨r,done,heap.mpr fun j _ hj child => by omega⟩
  · obtain ⟨r,done,_,heap⟩ := (repairs (four 5 3 2 4) fourEntries 4 (by decide) full).2
      (by intro j lt le far; interval_cases j <;> first | decide | omega)
    exact ⟨r,done,heap⟩

/-- The second entry may be smaller than the first, but its child, which is smaller as well, ends below
the first. -/
theorem repairs_fails :
    ¬ ∀ (mem : ℕ → Timer) (l : TimerList) (n i : ℕ), n < 128 →
      (∀ j, 1 ≤ j → j ≤ n → (l.timers j).isSome) → 1 ≤ i → i ≤ n →
      (∀ j, 1 < j → j ≤ n → j ≠ i → due mem (l.timers (j/2)) ≤ due mem (l.timers j)) →
      ∃ r, subir (entries n) mem 8 l i = .ok r ∧ Ordered (due mem) r.timers n := by
  intro all
  obtain ⟨r,done,heap⟩ := all (four 10 1 10 5) fourEntries 4 2 (by decide)
    (by intro j pos le; simp [fourEntries,entries,pos,le]) (by decide) (by decide)
    (by intro j lt le apart; interval_cases j <;> first | decide | omega)
  obtain ⟨s,done',_,only⟩ := @subir_repairs fourEntries (four 10 1 10 5) 4 2
    (by decide) (by intro j pos le; simp [fourEntries,entries,pos,le]) (by decide) (by decide)
    (by intro j lt le apart; interval_cases j <;> first | decide | omega)
  obtain rfl := Except.ok.inj (done.symm.trans done')
  have child := only.mp heap 4 (by decide) le_rfl rfl
  exact absurd child (by decide)

/-! ### The search for a timer -/

/-- The search finds the first entry of the only timer in the state TIMER_SEARCH, or ends behind the
last entry. -/
theorem position_spec (h : l.Filled n) (within : ∀ i, 1 ≤ i → i ≤ n → inside i)
    (mark : ∀ q, (mem q).state = .search ↔ q = p) {f k : ℕ} (fuel : n+2 ≤ k+f) (pos : 1 ≤ k)
    (le : k ≤ n+1) (before : ∀ i, 1 ≤ i → i < k → l.timers i ≠ some p) :
    ∃ i, l.position inside mem f k = .ok i ∧ (1 ≤ i ∧ i ≤ n ∧ l.timers i = some p ∨
      i = n+1 ∧ some p ∉ l.items) := by
  have small := h.small
  induction f generalizing k with
  | zero => omega
  | succ f ih =>
    rw [position,h.count]
    by_cases there : k ≤ n
    · obtain ⟨q,hq⟩ := Option.isSome_iff_exists.mp ((h.some_iff k).mpr ⟨pos,there⟩)
      rw [if_pos (by omega),get_ok (within k pos there) hq,ok_bind]
      by_cases here : (mem q).state = .search
      · obtain rfl := (mark q).mp here
        exact ⟨k,if_pos here,Or.inl ⟨pos,there,hq⟩⟩
      · rw [if_neg here,Nat.mod_eq_of_lt (by omega)]
        apply ih (by omega) (by omega) (by omega)
        intro i hi lt
        rcases Nat.lt_succ_iff_lt_or_eq.mp lt with lt | rfl
        · exact before i hi lt
        · intro same
          rw [hq] at same
          exact here ((mark q).mpr (Option.some.inj same))
    · refine ⟨k,if_neg (by omega),Or.inr ⟨by omega,fun hp => ?_⟩⟩
      obtain ⟨i,hi,hin,he⟩ := h.mem_items.mp hp
      exact before i hi (by omega) he

end TimerList
end Brtos
