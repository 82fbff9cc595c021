import Mathlib.Tactic

/-! Binary min-heaps in the entries 1 to n of an array: entry i has the parent i/2. The sifts swap
entries along one path, and their fuel bounds the length of the path. -/
namespace Heap

variable {α κ : Type*} [LinearOrder κ] {key : α → κ} {a : ℕ → α} {i j n : ℕ}

def swap (a : ℕ → α) (i j : ℕ) : ℕ → α := a ∘ Equiv.swap i j

@[simp] theorem swap_left (a : ℕ → α) (i j : ℕ) : swap a i j i = a j := by simp [swap]

@[simp] theorem swap_right (a : ℕ → α) (i j : ℕ) : swap a i j j = a i := by simp [swap]

theorem swap_other {k : ℕ} (hi : k ≠ i) (hj : k ≠ j) : swap a i j k = a k := by
  simp [swap,Equiv.swap_apply_of_ne_of_ne hi hj]

/-- Every entry but the first is at least its parent. -/
def Ordered (key : α → κ) (a : ℕ → α) (n : ℕ) : Prop :=
  ∀ i, 1 < i → i ≤ n → key (a (i/2)) ≤ key (a i)

theorem Ordered.mono {m : ℕ} (h : Ordered key a n) (le : m ≤ n) : Ordered key a m :=
  fun i lt hi => h i lt (hi.trans le)

/-- The order depends on the entries and their keys only. -/
theorem Ordered.congr {β : Type*} {key' : β → κ} {b : ℕ → β} (h : Ordered key a n)
    (same : ∀ i, 1 ≤ i → i ≤ n → key' (b i) = key (a i)) : Ordered key' b n := by
  intro i lt le
  rw [same i (by omega) le,same (i/2) (by omega) (by omega)]
  exact h i lt le

/-! ### Moving an entry up -/

def up (key : α → κ) : ℕ → (ℕ → α) → ℕ → ℕ → α
  | 0,a,_ => a
  | f+1,a,i =>
    if 1 < i ∧ key (a i) < key (a (i/2)) then up key f (swap a (i/2) i) (i/2) else a

/-- Only the edge into `i` may be out of order, and the children of `i` may have its parent. -/
structure UpReady (key : α → κ) (a : ℕ → α) (n i : ℕ) : Prop where
  edge {j : ℕ} : 1 < j → j ≤ n → j ≠ i → key (a (j/2)) ≤ key (a j)
  grand {j : ℕ} : 1 < i → j ≤ n → j/2 = i → key (a (i/2)) ≤ key (a j)

theorem UpReady.swap (h : UpReady key a n i) (lt : 1 < i) (le : i ≤ n)
    (less : key (a i) < key (a (i/2))) : UpReady key (swap a (i/2) i) n (i/2) := by
  constructor
  · intro j hj hjn apart
    by_cases here : j = i
    · subst here
      rw [swap_left,swap_right]
      exact less.le
    rw [swap_other apart here]
    by_cases child : j/2 = i
    · rw [child,swap_right]
      exact h.grand lt hjn child
    by_cases sibling : j/2 = i/2
    · rw [sibling,swap_left]
      apply less.le.trans
      exact sibling ▸ h.edge hj hjn here
    · rw [swap_other sibling child]
      exact h.edge hj hjn here
  · intro j top hjn child
    have above : key (a (i/2/2)) ≤ key (a (i/2)) := h.edge top (by omega) (by omega)
    rw [swap_other (by omega) (by omega)]
    by_cases here : j = i
    · rw [here,swap_right]
      exact above
    · rw [swap_other (by omega) here]
      apply above.trans
      exact child ▸ h.edge (by omega) hjn here

theorem UpReady.ordered (h : UpReady key a n i) (stop : ¬ (1 < i ∧ key (a i) < key (a (i/2)))) :
    Ordered key a n := by
  intro j lt le
  by_cases here : j = i
  · subst here
    exact not_lt.mp fun less => stop ⟨lt,less⟩
  · exact h.edge lt le here

theorem up_ordered (h : UpReady key a n i) (le : i ≤ n) {f : ℕ} (fuel : i < 2^f) :
    Ordered key (up key f a i) n := by
  induction f generalizing a i with
  | zero => exact h.ordered (by omega)
  | succ f ih =>
    rw [up]
    split_ifs with go
    · apply ih (h.swap go.1 le go.2) (by omega)
      rw [pow_succ] at fuel
      omega
    · exact h.ordered go

/-- A heap in which the key of one entry went down. -/
theorem Ordered.lowered {key' : α → κ} (h : Ordered key a n) (le : i ≤ n)
    (same : ∀ j, 1 ≤ j → j ≤ n → j ≠ i → key' (a j) = key (a j)) (less : key' (a i) ≤ key (a i)) :
    UpReady key' a n i where
  edge {j} lt hj apart := by
    rw [same j (by omega) hj apart]
    by_cases child : j/2 = i
    · rw [child]
      exact less.trans (child ▸ h j lt hj)
    · rw [same _ (by omega) (by omega) child]
      exact h j lt hj
  grand {j} lt hj child := by
    rw [same _ (by omega) (by omega) (by omega),same j (by omega) hj (by omega)]
    exact (h i lt le).trans (child ▸ h j (by omega) hj)

/-! ### Moving an entry down -/

def son (key : α → κ) (a : ℕ → α) (n i : ℕ) : ℕ :=
  if 2*i+1 ≤ n ∧ key (a (2*i+1)) < key (a (2*i)) then 2*i+1 else 2*i

theorem son_div (key : α → κ) (a : ℕ → α) (n i : ℕ) : son key a n i/2 = i := by
  unfold son
  split_ifs <;> omega

theorem le_son (key : α → κ) (a : ℕ → α) (n i : ℕ) : 2*i ≤ son key a n i := by
  unfold son
  split_ifs <;> omega

/-- The chosen child is the lesser one. -/
theorem son_le (le : j ≤ n) (child : j/2 = i) : key (a (son key a n i)) ≤ key (a j) := by
  have two : j = 2*i ∨ j = 2*i+1 := by omega
  unfold son
  split_ifs with right
  · rcases two with rfl | rfl
    · exact right.2.le
    · exact le_rfl
  · rcases two with rfl | rfl
    · exact le_rfl
    · exact not_lt.mp fun less => right ⟨le,less⟩

def down (key : α → κ) (n : ℕ) : ℕ → (ℕ → α) → ℕ → ℕ → α
  | 0,a,_ => a
  | f+1,a,i =>
    if son key a n i ≤ n ∧ key (a (son key a n i)) < key (a i) then
      down key n f (swap a (son key a n i) i) (son key a n i)
    else a

/-- Only the edges out of `i` may be out of order, and the children of `i` may have its parent. -/
structure DownReady (key : α → κ) (a : ℕ → α) (n i : ℕ) : Prop where
  edge {j : ℕ} : 1 < j → j ≤ n → j/2 ≠ i → key (a (j/2)) ≤ key (a j)
  grand {j : ℕ} : 1 < i → j ≤ n → j/2 = i → key (a (i/2)) ≤ key (a j)

theorem DownReady.swap (h : DownReady key a n i) (pos : 1 ≤ i) (le : son key a n i ≤ n)
    (less : key (a (son key a n i)) < key (a i)) :
    DownReady key (swap a (son key a n i) i) n (son key a n i) := by
  have child := son_div key a n i
  have least : ∀ j, j ≤ n → j/2 = i → key (a (son key a n i)) ≤ key (a j) :=
    fun j => son_le
  generalize son key a n i = s at *
  constructor
  · intro j hj hjn apart
    by_cases here : j = s
    · subst here
      rw [child,swap_left,swap_right]
      exact less.le
    by_cases root : j = i
    · subst root
      rw [swap_right,swap_other apart (by omega)]
      exact h.grand hj le child
    rw [swap_other here root]
    by_cases sibling : j/2 = i
    · rw [sibling,swap_right]
      exact least j hjn sibling
    · rw [swap_other apart sibling]
      exact h.edge hj hjn sibling
  · intro j top hjn below
    rw [child,swap_right,swap_other (by omega) (by omega)]
    exact below ▸ h.edge (by omega) hjn (by omega)

theorem DownReady.ordered (h : DownReady key a n i)
    (stop : ¬ (son key a n i ≤ n ∧ key (a (son key a n i)) < key (a i))) : Ordered key a n := by
  intro j lt le
  by_cases child : j/2 = i
  · rw [child]
    have least : key (a (son key a n i)) ≤ key (a j) := son_le le child
    by_cases inside : son key a n i ≤ n
    · exact (not_lt.mp fun less => stop ⟨inside,less⟩).trans least
    · have := le_son key a n i
      unfold son at inside
      split_ifs at inside <;> omega
  · exact h.edge lt le child

theorem down_ordered (h : DownReady key a n i) (pos : 1 ≤ i) {f : ℕ} (fuel : n < i*2^f) :
    Ordered key (down key n f a i) n := by
  induction f generalizing a i with
  | zero =>
    intro j lt le
    exact h.edge lt le (by omega)
  | succ f ih =>
    rw [down]
    split_ifs with go
    · have far := le_son key a n i
      apply ih (h.swap pos go.1 go.2) (by omega)
      calc n < 2*i*2^f := by rw [pow_succ] at fuel; linarith
        _ ≤ son key a n i*2^f := Nat.mul_le_mul_right _ far
    · exact h.ordered go

/-- A heap in which the key of the first entry changed. -/
theorem Ordered.rekeyed {key' : α → κ} (h : Ordered key a n)
    (same : ∀ i, 1 < i → i ≤ n → key' (a i) = key (a i)) : DownReady key' a n 1 where
  edge lt le far := by
    rw [same _ lt le,same _ (by omega) (by omega)]
    exact h _ lt le
  grand lt := absurd lt (by omega)

/-! ### What the sifts leave in the array -/

/-- The entries of the heap, in no order. -/
def items (a : ℕ → α) (n : ℕ) : Multiset α := (Finset.Icc 1 n).val.map a

/-- `b` has the entries of `a` in another order, and outside the heap the same ones. -/
def Shuffles (a b : ℕ → α) (n : ℕ) : Prop :=
  ∃ σ : Equiv.Perm ℕ, (∀ i, σ i ≠ i → 1 ≤ i ∧ i ≤ n) ∧ b = a ∘ σ

theorem Shuffles.refl (a : ℕ → α) (n : ℕ) : Shuffles a a n := ⟨1,fun _ h => absurd rfl h,rfl⟩

theorem Shuffles.trans {b c : ℕ → α} (h : Shuffles a b n) (h' : Shuffles b c n) : Shuffles a c n := by
  obtain ⟨σ,inside,rfl⟩ := h
  obtain ⟨τ,inside',rfl⟩ := h'
  refine ⟨τ.trans σ,fun i moved => ?_,rfl⟩
  by_cases stays : τ i = i
  · apply inside i
    simpa [stays] using moved
  · exact inside' i stays

theorem Shuffles.mono {b : ℕ → α} {m : ℕ} (h : Shuffles a b n) (le : n ≤ m) : Shuffles a b m := by
  obtain ⟨σ,inside,rfl⟩ := h
  exact ⟨σ,fun i moved => ⟨(inside i moved).1,(inside i moved).2.trans le⟩,rfl⟩

theorem shuffles_swap (hi : 1 ≤ i) (hi' : i ≤ n) (hj : 1 ≤ j) (hj' : j ≤ n) :
    Shuffles a (swap a i j) n := by
  refine ⟨Equiv.swap i j,fun k moved => ?_,rfl⟩
  rcases Equiv.swap_apply_ne_self_iff.mp moved with ⟨_,rfl | rfl⟩
  · exact ⟨hi,hi'⟩
  · exact ⟨hj,hj'⟩

theorem Shuffles.outside {b : ℕ → α} (h : Shuffles a b n) (out : ¬ (1 ≤ i ∧ i ≤ n)) : b i = a i := by
  obtain ⟨σ,inside,rfl⟩ := h
  exact congrArg a (not_not.mp fun moved => out (inside i moved))

/-- An entry of the one is an entry of the other. -/
theorem Shuffles.exists_eq {b : ℕ → α} (h : Shuffles a b n) (pos : 1 ≤ i) (le : i ≤ n) :
    ∃ j, 1 ≤ j ∧ j ≤ n ∧ b i = a j := by
  obtain ⟨σ,inside,rfl⟩ := h
  by_cases stays : σ i = i
  · exact ⟨i,pos,le,congrArg a stays⟩
  · have moved : σ (σ i) ≠ σ i := fun same => stays (σ.injective same)
    exact ⟨σ i,(inside _ moved).1,(inside _ moved).2,rfl⟩

theorem Shuffles.items_eq {b : ℕ → α} (h : Shuffles a b n) : items b n = items a n := by
  obtain ⟨σ,inside,rfl⟩ := h
  have keeps : (Finset.Icc 1 n).map σ.toEmbedding = Finset.Icc 1 n := by
    apply Finset.map_perm
    intro i moved
    exact Finset.mem_coe.mpr (Finset.mem_Icc.mpr (inside i moved))
  calc items (a ∘ σ) n = (((Finset.Icc 1 n).map σ.toEmbedding).val).map a := by
        rw [items,Finset.map_val,Multiset.map_map]
        rfl
    _ = items a n := by rw [keeps,items]

theorem up_shuffles (key : α → κ) (f : ℕ) (a : ℕ → α) (i : ℕ) : Shuffles a (up key f a i) i := by
  induction f generalizing a i with
  | zero => exact .refl a i
  | succ f ih =>
    rw [up]
    split_ifs with go
    · have near : 1 ≤ i/2 ∧ i/2 ≤ i := by omega
      apply (shuffles_swap near.1 near.2 (by omega) le_rfl).trans
      exact (ih _ _).mono near.2
    · exact .refl a i

theorem down_shuffles (key : α → κ) (f : ℕ) (a : ℕ → α) (pos : 1 ≤ i) (le : i ≤ n) :
    Shuffles a (down key n f a i) n := by
  induction f generalizing a i with
  | zero => exact .refl a n
  | succ f ih =>
    rw [down]
    split_ifs with go
    · have far := le_son key a n i
      apply (shuffles_swap (a := a) (by omega) go.1 pos le).trans
      exact ih _ (by omega) go.1
    · exact .refl a n

/-- When only the edge into `i` is out of order, moving `i` up repairs the heap unless a child of `i`
belongs above the parent of `i`. -/
theorem up_ordered_iff (edge : ∀ j, 1 < j → j ≤ n → j ≠ i → key (a (j/2)) ≤ key (a j)) (le : i ≤ n)
    {f : ℕ} (fuel : i < 2^f) :
    Ordered key (up key f a i) n ↔ ∀ j, 1 < i → j ≤ n → j/2 = i → key (a (i/2)) ≤ key (a j) := by
  constructor
  · intro ordered j lt hj child
    by_contra above
    have below : key (a i) ≤ key (a j) := child ▸ edge j (by omega) hj (by omega)
    cases f with
    | zero => omega
    | succ f =>
      rw [up,if_pos ⟨lt,below.trans_lt (not_le.mp above)⟩] at ordered
      -- the parent of `i` is now at `i`, and the child is where it was
      have rest := up_shuffles key f (swap a (i/2) i) (i/2)
      have edge' := ordered j (by omega) hj
      rw [child,rest.outside (by omega),rest.outside (by omega),swap_right,
        swap_other (by omega) (by omega)] at edge'
      exact above edge'
  · intro grand
    exact up_ordered ⟨fun lt hj apart => edge _ lt hj apart,fun lt hj child => grand _ lt hj child⟩ le fuel

theorem mem_items {x : α} : x ∈ items a n ↔ ∃ i, 1 ≤ i ∧ i ≤ n ∧ a i = x := by
  simp [items,Multiset.mem_map,and_assoc]

theorem items_congr {b : ℕ → α} (same : ∀ i, 1 ≤ i → i ≤ n → a i = b i) : items a n = items b n := by
  apply Multiset.map_congr rfl
  intro i hi
  obtain ⟨pos,le⟩ := Finset.mem_Icc.mp (Finset.mem_val.mp hi)
  exact same i pos le

theorem items_succ (a : ℕ → α) (n : ℕ) : items a (n+1) = a (n+1) ::ₘ items a n := by
  rw [items,← Finset.insert_Icc_right_eq_Icc_add_one (by omega),Finset.insert_val_of_notMem (by simp),
    Multiset.map_cons]
  rfl

/-- Two places of an entry that the heap has at most once. -/
theorem eq_of_count_le_one [DecidableEq α] (once : (items a n).count (a i) ≤ 1) (hi : 1 ≤ i ∧ i ≤ n)
    (hj : 1 ≤ j ∧ j ≤ n) (same : a i = a j) : i = j := by
  have few : ((Finset.Icc 1 n).filter fun k => a i = a k).card ≤ 1 := by
    rwa [items,Multiset.count_map,← Finset.filter_val] at once
  apply Finset.card_le_one.mp few
  · exact Finset.mem_filter.mpr ⟨Finset.mem_Icc.mpr hi,rfl⟩
  · exact Finset.mem_filter.mpr ⟨Finset.mem_Icc.mpr hj,same⟩

/-- The last entry takes the place of the first. -/
def pop (a : ℕ → α) (n : ℕ) (x : α) : ℕ → α := Function.update (Function.update a 1 (a n)) n x

theorem pop_first (lt : 1 < n) (x : α) : pop a n x 1 = a n := by
  rw [pop,Function.update_of_ne (by omega),Function.update_self]

theorem pop_other (far : 1 < i) (ne : i ≠ n) (x : α) : pop a n x i = a i := by
  rw [pop,Function.update_of_ne ne,Function.update_of_ne (by omega)]

theorem items_pop (a : ℕ → α) (n : ℕ) (x : α) :
    a 1 ::ₘ items (pop a (n+1) x) n = items a (n+1) := by
  have split : ∀ b : ℕ → α, items b (n+1) = b 1 ::ₘ (Finset.Icc 2 (n+1)).val.map b := by
    intro b
    rw [items,← Finset.insert_Icc_succ_left_eq_Icc (by omega),Finset.insert_val_of_notMem (by simp),
      Multiset.map_cons]
    rfl
  rw [split a]
  congr 1
  cases n with
  | zero => simp [items]
  | succ m =>
    have ends : a (m+2) ::ₘ items (pop a (m+2) x) (m+1) =
        items (Function.update (pop a (m+2) x) (m+2) (a (m+2))) (m+2) := by
      rw [items_succ _ (m+1),Function.update_self]
      congr 1
      apply items_congr
      intro i _ le
      rw [Function.update_of_ne (by omega)]
    have starts := split (Function.update (pop a (m+2) x) (m+2) (a (m+2)))
    rw [Function.update_of_ne (by omega),pop_first (by omega)] at starts
    have := ends.trans starts
    rw [Multiset.cons_inj_right] at this
    rw [this]
    apply Multiset.map_congr rfl
    intro i hi
    obtain ⟨two,le⟩ := Finset.mem_Icc.mp (Finset.mem_val.mp hi)
    by_cases last : i = m+2
    · rw [last,Function.update_self]
    · rw [Function.update_of_ne last,pop_other (by omega) last]

/-! ### Where an entry that moves up ends -/

/-- The entries on the way from `i` to the first one have larger keys. -/
def Climbs (key : α → κ) (a : ℕ → α) (i : ℕ) : Prop :=
  ∀ m, 1 ≤ i/2^(m+1) → key (a i) < key (a (i/2^(m+1)))

theorem climbs_step (lt : 1 < i) (less : key (a i) < key (a (i/2))) :
    Climbs key (swap a (i/2) i) (i/2) ↔ Climbs key a i := by
  have move : ∀ m, i/2/2^(m+1) = i/2^(m+2) := by
    intro m
    rw [Nat.div_div_eq_div_mul,← pow_succ']
  have same : ∀ m, swap a (i/2) i (i/2^(m+2)) = a (i/2^(m+2)) := by
    intro m
    have far : i/2^(m+2) < i/2 := by
      rw [← move]
      exact Nat.div_lt_self (by omega) (Nat.one_lt_two_pow (by omega))
    exact swap_other (by omega) (by omega)
  constructor
  · intro h m low
    cases m with
    | zero => simpa using less
    | succ m =>
      have := h m (by rwa [move])
      rwa [move,same,swap_left] at this
  · intro h m low
    rw [move] at low ⊢
    rw [same,swap_left]
    exact h (m+1) low

/-- An entry that climbs becomes the first, and otherwise the first one stays. -/
theorem up_first (pos : 1 ≤ i) {f : ℕ} (fuel : i < 2^f) [Decidable (Climbs key a i)] :
    up key f a i 1 = if Climbs key a i then a i else a 1 := by
  induction f generalizing a i with
  | zero => omega
  | succ f ih =>
    rw [up]
    split_ifs with go climbs climbs
    · classical
      rw [ih (by omega) (by rw [pow_succ] at fuel; omega),if_pos ((climbs_step go.1 go.2).mpr climbs),
        swap_left]
    · classical
      have stuck := mt (climbs_step go.1 go.2).mp climbs
      have far : i/2 ≠ 1 := by
        intro one
        apply stuck
        intro m low
        have : 1/2^(m+1) < 1 := Nat.div_lt_self one_pos (Nat.one_lt_two_pow (by omega))
        rw [one] at low
        omega
      rw [ih (by omega) (by rw [pow_succ] at fuel; omega),if_neg stuck,swap_other (by omega) (by omega)]
    · rcases Nat.eq_or_lt_of_le pos with rfl | lt
      · rfl
      · have := climbs 0 (by simp; omega)
        exact absurd ⟨lt,by simpa using this⟩ go
    · rfl

end Heap
