import Mathlib.Tactic

/-! Doubly linked lists of cells that are known by their names: what appending a cell and taking
one out do to the list that the links spell. -/
namespace Chain

variable {α : Type*}

/-- The two ends of a list and the links of the cells, on the list or not. -/
structure Links (α : Type*) where
  first : Option α
  last : Option α
  succ : α → Option α
  pred : α → Option α

/-- Walk along the links for at most `n` cells. -/
def walk (f : α → Option α) : ℕ → Option α → List α
  | 0,_ => []
  | _+1,none => []
  | n+1,some x => x :: walk f n (f x)

/-- The links spell the list: each cell on it points to the one behind it and the one before it. -/
structure Links.Spells (k : Links α) (l : List α) : Prop where
  first : k.first = l.head?
  last : k.last = l.getLast?
  nodup : l.Nodup
  cell {a b : List α} {x : α} : l = a ++ x :: b → k.succ x = b.head? ∧ k.pred x = a.getLast?

theorem head_of_split {l a b : List α} {x : α} (nodup : l.Nodup) (split : l = a ++ x :: b) :
    l.head? = some x ↔ a = [] := by
  subst split
  cases a with
  | nil => simp
  | cons y a =>
    have ne : y ≠ x := by
      rintro rfl
      simp at nodup
    simp [ne]

theorem last_of_split {l a b : List α} {x : α} (nodup : l.Nodup) (split : l = a ++ x :: b) :
    l.getLast? = some x ↔ b = [] := by
  have back := head_of_split (List.nodup_reverse.mpr nodup) (a := b.reverse) (x := x) (b := a.reverse)
    (by simp [split])
  rwa [List.head?_reverse,List.reverse_eq_nil_iff] at back

theorem last_of_cons (x z : α) (c : List α) : (x :: (c ++ [z])).getLast? = some z := by
  rw [← List.cons_append,List.getLast?_concat]

namespace Links
variable {k : Links α} {l : List α} {x : α}

theorem spells_nil (first : k.first = none) (last : k.last = none) : k.Spells [] where
  first := first
  last := last
  nodup := List.nodup_nil
  cell h := by simp at h

/-- The links of other cells do not matter. -/
theorem Spells.congr (h : k.Spells l) {m : Links α} (first : m.first = k.first)
    (last : m.last = k.last) (succ : ∀ x ∈ l, m.succ x = k.succ x)
    (pred : ∀ x ∈ l, m.pred x = k.pred x) : m.Spells l where
  first := first.trans h.first
  last := last.trans h.last
  nodup := h.nodup
  cell {a b x} e := by
    have mem : x ∈ l := e ▸ by simp
    rw [succ x mem,pred x mem]
    exact h.cell e

/-- The way from the first cell along the links. -/
theorem Spells.forward (h : k.Spells l) {n : ℕ} (long : l.length < n) :
    walk k.succ n k.first = l := by
  have along : ∀ (b a : List α) (n : ℕ), l = a ++ b → b.length < n → walk k.succ n b.head? = b := by
    intro b
    induction b with
    | nil =>
      intro a n _ hn
      obtain ⟨n,rfl⟩ := Nat.exists_eq_add_one_of_ne_zero (by omega : n ≠ 0)
      rfl
    | cons y b ih =>
      intro a n split hn
      obtain ⟨n,rfl⟩ := Nat.exists_eq_add_one_of_ne_zero (by omega : n ≠ 0)
      have rest := ih (a ++ [y]) n (by simp [split]) (by simpa using hn)
      simp only [List.head?_cons,walk,(h.cell split).1,rest]
  rw [h.first]
  exact along l [] n rfl long

/-- The way from the last cell back. -/
theorem Spells.backward (h : k.Spells l) {n : ℕ} (long : l.length < n) :
    walk k.pred n k.last = l.reverse := by
  have along : ∀ (a b : List α) (n : ℕ), l = a.reverse ++ b → a.length < n →
      walk k.pred n a.head? = a := by
    intro a
    induction a with
    | nil =>
      intro b n _ hn
      obtain ⟨n,rfl⟩ := Nat.exists_eq_add_one_of_ne_zero (by omega : n ≠ 0)
      rfl
    | cons y a ih =>
      intro b n split hn
      obtain ⟨n,rfl⟩ := Nat.exists_eq_add_one_of_ne_zero (by omega : n ≠ 0)
      have split' : l = a.reverse ++ y :: b := by simp [split]
      have rest := ih (y :: b) n split' (by simpa using hn)
      simp only [List.head?_cons,walk,(h.cell split').2,List.getLast?_reverse,rest]
  rw [h.last,← List.head?_reverse]
  exact along l.reverse [] n (by simp) (by simpa using long)

/-- The links spell one list only. -/
theorem Spells.unique (h : k.Spells l) {m : List α} (hm : k.Spells m) : l = m := by
  rw [← h.forward (n := l.length+m.length+1) (by omega),
    hm.forward (n := l.length+m.length+1) (by omega)]

/-- While the way along the links still leads to a cell, they do not spell the list without it. -/
theorem Spells.not_without (h : k.Spells l) {a b : List α} (split : l = a ++ x :: b) {m : Links α}
    (first : m.first = k.first) (succ : ∀ y, y ≠ x → m.succ y = k.succ y) : ¬ m.Spells (a ++ b) := by
  intro without
  have nodup := List.nodup_middle.mp (split ▸ h.nodup)
  have far : b.head? ≠ some x := fun next =>
    (List.nodup_cons.mp nodup).1 (List.mem_append_right a (List.mem_of_mem_head? next))
  rcases List.eq_nil_or_concat a with rfl | ⟨c,z,rfl⟩
  · refine far (without.first.symm.trans (first.trans ?_))
    rw [h.first,split]
    rfl
  · have apart : z ≠ x := by
      rintro rfl
      simp at nodup
    have old := (h.cell (a := c) (x := z) (b := x :: b) (by simp [split])).1
    have new := (without.cell (a := c) (x := z) (b := b) (by simp)).1
    exact far (new.symm.trans ((succ z apart).trans old))

variable [DecidableEq α]

/-- A store through a pointer that may be null. -/
def store (f : α → Option α) (p v : Option α) : α → Option α :=
  match p with
  | some x => Function.update f x v
  | none => f

@[simp] theorem store_none (f : α → Option α) (v : Option α) : store f none v = f := rfl

@[simp] theorem store_some (f : α → Option α) (x : α) (v : Option α) :
    store f (some x) v = Function.update f x v := rfl

theorem store_of_ne {f : α → Option α} {p v : Option α} {x : α} (h : p ≠ some x) :
    store f p v x = f x := by
  cases p with
  | none => rfl
  | some y =>
    refine Function.update_of_ne ?_ _ _
    rintro rfl
    exact h rfl

/-- A new last cell. -/
def push (k : Links α) (x : α) : Links α where
  first := k.first.or (some x)
  last := some x
  succ := Function.update (store k.succ k.last (some x)) x none
  pred := Function.update k.pred x k.last

/-- The neighbours of a cell, or the ends of the list, are joined over it. -/
def remove (k : Links α) (x : α) : Links α where
  first := if k.first = some x then k.succ x else k.first
  last := if k.last = some x then k.pred x else k.last
  succ := store k.succ (k.pred x) (k.succ x)
  pred := store k.pred (k.succ x) (k.pred x)

theorem Spells.push (h : k.Spells l) (new : x ∉ l) : (k.push x).Spells (l ++ [x]) where
  first := by
    simp only [Links.push,h.first]
    cases l <;> rfl
  last := by simp [Links.push]
  nodup := by
    rw [← List.concat_eq_append]
    exact h.nodup.concat new
  cell {a b y} e := by
    -- the new cell is the last one, and the cell before it points to it
    rcases List.eq_nil_or_concat b with rfl | ⟨c,z,rfl⟩
    · obtain ⟨rfl,same⟩ := List.append_inj' e rfl
      obtain rfl := (List.cons.inj same).1
      exact ⟨by simp [Links.push],by simp [Links.push,h.last]⟩
    · have e' : l ++ [x] = (a ++ y :: c) ++ [z] := by simpa using e
      obtain ⟨split,same⟩ := List.append_inj' e' rfl
      obtain rfl := (List.cons.inj same).1
      have ne : y ≠ x := fun e => new (by simp [split,e])
      obtain ⟨hs,hp⟩ := h.cell split
      refine ⟨?_,by simpa [Links.push,ne] using hp⟩
      simp only [Links.push,Function.update_of_ne ne]
      cases c with
      | nil =>
        have last : k.last = some y := h.last.trans ((last_of_split h.nodup split).mpr rfl)
        simp [last]
      | cons w c =>
        have far : k.last ≠ some y := fun last => by
          simpa using (last_of_split h.nodup split).mp (h.last.symm.trans last)
        rw [store_of_ne far,hs]
        rfl

/-- Behind the removed cell. -/
theorem Spells.cell_behind (h : k.Spells l) {a m d : List α} {y : α}
    (split : l = a ++ x :: (m ++ y :: d)) :
    (k.remove x).succ y = d.head? ∧ (k.remove x).pred y = (a ++ m).getLast? := by
  obtain ⟨hs,hp⟩ := h.cell split
  obtain ⟨old,back⟩ := h.cell (a := a ++ x :: m) (x := y) (b := d) (by simp [split])
  have nodup := split ▸ h.nodup
  have far : a.getLast? ≠ some y := fun last => by
    have mem := List.mem_of_getLast? last
    exact (List.nodup_append.mp nodup).2.2 y mem y (by simp) rfl
  have front := head_of_split (x := y) (a := m) (b := d) ((List.nodup_append.mp nodup).2.1.of_cons) rfl
  simp only [Links.remove,hs,hp]
  refine ⟨(store_of_ne far).trans old,?_⟩
  by_cases first : m = []
  · subst first
    simp
  · rw [store_of_ne (mt front.mp first),back]
    obtain ⟨c,z,rfl⟩ := (List.eq_nil_or_concat m).resolve_left first
    simp [last_of_cons]

/-- Before the removed cell. -/
theorem Spells.cell_before (h : k.Spells l) {c m b : List α} {y : α}
    (split : l = c ++ y :: (m ++ x :: b)) :
    (k.remove x).succ y = (m ++ b).head? ∧ (k.remove x).pred y = c.getLast? := by
  have split' : l = (c ++ y :: m) ++ x :: b := by simp [split]
  obtain ⟨hs,hp⟩ := h.cell split'
  obtain ⟨old,back⟩ := h.cell split
  have nodup := split' ▸ h.nodup
  have far : b.head? ≠ some y := fun first => by
    have mem := List.mem_of_mem_head? first
    exact (List.nodup_append.mp nodup).2.2 y (by simp) y (by simp [mem]) rfl
  have rear := last_of_split (x := y) (a := c) (b := m) (List.nodup_append.mp nodup).1 rfl
  simp only [Links.remove,hs,hp]
  refine ⟨?_,(store_of_ne far).trans back⟩
  by_cases last : m = []
  · subst last
    simp
  · rw [store_of_ne (mt rear.mp last),old]
    obtain ⟨z,c,rfl⟩ := List.exists_cons_of_ne_nil last
    rfl

theorem Spells.remove (h : k.Spells l) {a b : List α} (split : l = a ++ x :: b) :
    (k.remove x).Spells (a ++ b) where
  first := by
    simp only [Links.remove,h.first,head_of_split h.nodup split,(h.cell split).1]
    split_ifs with e
    · simp [e]
    · obtain ⟨y,a,rfl⟩ := List.exists_cons_of_ne_nil e
      simp [split]
  last := by
    simp only [Links.remove,h.last,last_of_split h.nodup split,(h.cell split).2]
    split_ifs with e
    · simp [e]
    · obtain ⟨c,z,rfl⟩ := (List.eq_nil_or_concat b).resolve_left e
      simp [split,last_of_cons]
  nodup := (List.nodup_middle.mp (split ▸ h.nodup)).of_cons
  cell {c d y} e := by
    rcases List.append_eq_append_iff.mp e with ⟨m,rfl,rfl⟩ | ⟨m,rfl,same⟩
    · exact h.cell_behind split
    · cases m with
      | nil =>
        obtain rfl : y :: d = b := same
        simpa using h.cell_behind (m := []) (by simpa using split)
      | cons z m =>
        obtain ⟨rfl,rfl⟩ := List.cons.inj same
        exact h.cell_before (by simpa using split)

/-- The removed cell still points to what was behind it. -/
theorem Spells.remove_succ (h : k.Spells l) {a b : List α} (split : l = a ++ x :: b) :
    (k.remove x).succ x = b.head? := by
  obtain ⟨hs,hp⟩ := h.cell split
  have far : a.getLast? ≠ some x := fun last => by
    have nodup := List.nodup_append.mp (split ▸ h.nodup)
    exact nodup.2.2 x (List.mem_of_getLast? last) x (by simp) rfl
  simp only [Links.remove,hp]
  rw [store_of_ne far,hs]

end Links
end Chain
