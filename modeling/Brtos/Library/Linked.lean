import Mathlib.Tactic

/-! Doubly linked lists between two cells that are no members of them: what stores to single links do to
the cells on the way. -/
namespace Linked

variable {α : Type*} {next prev next' prev' : α → α} {a b c x z : α} {l r : List α}

/-- The one cell points to the other, and this one back to it. -/
def Joined (next prev : α → α) (x y : α) : Prop := next x = y ∧ prev y = x

/-- The cells on the way from `a` to `z`. -/
def Path (next prev : α → α) (a : α) (l : List α) (z : α) : Prop :=
  List.IsChain (Joined next prev) (a :: (l ++ [z]))

theorem path_nil : Path next prev a [] z ↔ next a = z ∧ prev z = a := by
  simp [Path,Joined]

theorem path_cons : Path next prev a (x :: l) z ↔ (next a = x ∧ prev x = a) ∧ Path next prev x l z := by
  simp [Path,Joined]

theorem path_append : Path next prev a (l ++ x :: r) z ↔ Path next prev a l x ∧ Path next prev x r z := by
  induction l generalizing a with
  | nil => rw [List.nil_append,path_cons,path_nil]
  | cons y l ih =>
    rw [List.cons_append,path_cons,path_cons,ih]
    exact and_assoc.symm

theorem path_concat : Path next prev a (l ++ [x]) z ↔ Path next prev a l x ∧ next x = z ∧ prev z = x := by
  rw [path_append,path_nil]

/-- Links that no cell of the way has do not matter. -/
theorem Path.congr (h : Path next prev a l z) (hn : ∀ y ∈ a :: l, next' y = next y)
    (hp : ∀ y ∈ l ++ [z], prev' y = prev y) : Path next' prev' a l z := by
  induction l generalizing a with
  | nil =>
    rw [path_nil] at h ⊢
    rw [hn a (by simp),hp z (by simp)]
    exact h
  | cons y l ih =>
    rw [path_cons] at h ⊢
    refine ⟨?_,ih h.2 (fun w hw => hn w (List.mem_cons_of_mem a hw)) fun w hw => hp w ?_⟩
    · rw [hn a List.mem_cons_self,hp y (by simp)]
      exact h.1
    · exact List.mem_cons_of_mem y hw

/-- What is behind the first cell. -/
theorem Path.next_eq (h : Path next prev a l z) : next a = (l ++ [z]).head (by simp) := by
  cases l with
  | nil => exact (path_nil.mp h).1
  | cons y l => exact (path_cons.mp h).1.1

theorem Path.prev_mem (h : Path next prev a l z) : prev z ∈ a :: l := by
  induction l generalizing a with
  | nil => simp [(path_nil.mp h).2]
  | cons y l ih => exact List.mem_cons_of_mem a (ih (path_cons.mp h).2)

theorem Path.next_mem (h : Path next prev a l z) : next a ∈ l ++ [z] := by
  rw [h.next_eq]
  exact List.head_mem _

theorem Path.prev_next (h : Path next prev a l z) : prev (next a) = a := by
  cases l with
  | nil => rw [(path_nil.mp h).1,(path_nil.mp h).2]
  | cons y l => rw [(path_cons.mp h).1.1,(path_cons.mp h).1.2]

/-- Every cell's way goes on to a cell behind it and has come from one before it. -/
theorem Path.next_mem_of_mem (h : Path next prev a l z) (hx : x ∈ a :: l) : next x ∈ l ++ [z] := by
  rcases List.mem_cons.mp hx with rfl | hx
  · exact h.next_mem
  · obtain ⟨s,t,rfl⟩ := List.append_of_mem hx
    have := (path_append.mp h).2.next_mem
    simp only [List.append_assoc,List.mem_append,List.cons_append,List.mem_cons] at this ⊢
    tauto

theorem Path.prev_next_of_mem (h : Path next prev a l z) (hx : x ∈ a :: l) : prev (next x) = x := by
  rcases List.mem_cons.mp hx with rfl | hx
  · exact h.prev_next
  · obtain ⟨s,t,rfl⟩ := List.append_of_mem hx
    exact (path_append.mp h).2.prev_next

theorem Path.prev_mem_of_mem (h : Path next prev a l z) (hx : x ∈ l ++ [z]) : prev x ∈ a :: l := by
  rcases List.mem_append.mp hx with hx | hx
  · obtain ⟨s,t,rfl⟩ := List.append_of_mem hx
    have := (path_append.mp h).1.prev_mem
    simp only [List.mem_append,List.mem_cons] at this ⊢
    tauto
  · rw [List.mem_singleton.mp hx]
    exact h.prev_mem

/-- No cell is its own neighbour. -/
theorem Path.prev_ne (h : Path next prev a l z) (nodup : (a :: (l ++ [z])).Nodup) (hx : x ∈ l ++ [z]) :
    prev x ≠ x := by
  rcases List.mem_append.mp hx with hx | hx
  · obtain ⟨s,t,rfl⟩ := List.append_of_mem hx
    have before := (path_append.mp h).1.prev_mem
    rw [List.append_assoc,← List.cons_append] at nodup
    exact (List.nodup_append.mp nodup).2.2 _ before x (by simp)
  · obtain rfl := List.mem_singleton.mp hx
    rw [← List.cons_append] at nodup
    exact (List.nodup_append.mp nodup).2.2 _ h.prev_mem x (by simp)

/-- The way leads to another last cell. -/
theorem Path.retarget (h : Path next prev a l x) (nodup : (a :: l).Nodup) (new : b ∉ l)
    (hn : next' (prev x) = b) (hp : prev' b = prev x)
    (hn' : ∀ y ∈ a :: l, y ≠ prev x → next' y = next y)
    (hp' : ∀ y ∈ l, y ≠ b → prev' y = prev y) : Path next' prev' a l b := by
  induction l generalizing a with
  | nil =>
    obtain ⟨-,back⟩ := path_nil.mp h
    rw [back] at hn hp
    exact path_nil.mpr ⟨hn,hp⟩
  | cons y l ih =>
    obtain ⟨⟨ahead,back⟩,rest⟩ := path_cons.mp h
    have apart : a ≠ prev x := fun e => (List.nodup_cons.mp nodup).1 (e ▸ rest.prev_mem)
    have other : y ≠ b := fun e => new (e ▸ List.mem_cons_self)
    refine path_cons.mpr ⟨⟨(hn' a List.mem_cons_self apart).trans ahead,
      (hp' y List.mem_cons_self other).trans back⟩,?_⟩
    exact ih rest nodup.of_cons (fun mem => new (List.mem_cons_of_mem y mem))
      (fun w hw => hn' w (List.mem_cons_of_mem a hw)) fun w hw => hp' w (List.mem_cons_of_mem y hw)

/-- The neighbours of a cell are joined over it. -/
theorem Path.unlink (h : Path next prev a (l ++ x :: r) z) (nodup : (a :: (l ++ x :: r) ++ [z]).Nodup)
    (hn : next' (prev x) = next x) (hp : prev' (next x) = prev x)
    (hn' : ∀ y, y ≠ prev x → next' y = next y) (hp' : ∀ y, y ≠ next x → prev' y = prev y) :
    Path next' prev' a (l ++ r) z := by
  obtain ⟨before,after⟩ := path_append.mp h
  have nodup' : (a :: l).Nodup ∧ (x :: (r ++ [z])).Nodup ∧
      ∀ u ∈ a :: l, ∀ v ∈ x :: (r ++ [z]), u ≠ v := by
    rw [show a :: (l ++ x :: r) ++ [z] = (a :: l) ++ (x :: (r ++ [z])) by simp] at nodup
    exact List.nodup_append.mp nodup
  have behind := after.next_mem
  have new : next x ∉ l := fun mem =>
    nodup'.2.2 _ (List.mem_cons_of_mem a mem) _ (List.mem_cons_of_mem x behind) rfl
  have first := before.retarget nodup'.1 new hn hp (fun y _ => hn' y) fun y _ => hp' y
  cases r with
  | nil =>
    obtain rfl : next x = z := (path_nil.mp after).1
    rw [List.append_nil]
    exact first
  | cons y r =>
    obtain ⟨⟨rfl,-⟩,rest⟩ := path_cons.mp after
    refine path_append.mpr ⟨first,rest.congr (fun y hy => hn' y ?_) fun y hy => hp' y ?_⟩
    · rintro rfl
      exact nodup'.2.2 _ before.prev_mem _ (List.mem_cons_of_mem x (List.mem_append_left [z] hy)) rfl
    · rintro rfl
      exact (List.nodup_cons.mp nodup'.2.1.of_cons).1 hy

/-- A new cell behind the first one. -/
theorem Path.insert_first (h : Path next prev a r z) (nodup : (a :: (r ++ [z])).Nodup)
    (new : c ∉ a :: (r ++ [z])) (ha : next' a = c) (hc : next' c = next a) (hp : prev' c = a)
    (hb : prev' (next a) = c) (hn' : ∀ y, y ≠ a → y ≠ c → next' y = next y)
    (hp' : ∀ y, y ≠ c → y ≠ next a → prev' y = prev y) : Path next' prev' a (c :: r) z := by
  refine path_cons.mpr ⟨⟨ha,hp⟩,?_⟩
  cases r with
  | nil =>
    obtain rfl : next a = z := (path_nil.mp h).1
    exact path_nil.mpr ⟨hc,hb⟩
  | cons y r =>
    obtain ⟨⟨rfl,-⟩,rest⟩ := path_cons.mp h
    refine path_cons.mpr ⟨⟨hc,hb⟩,rest.congr (fun y hy => hn' y ?_ ?_) fun y hy => hp' y ?_ ?_⟩
    · rintro rfl
      exact (List.nodup_cons.mp nodup).1 (List.mem_append_left _ hy)
    · rintro rfl
      exact new (List.mem_cons_of_mem a (List.mem_append_left _ hy))
    · rintro rfl
      exact new (List.mem_cons_of_mem a (List.mem_cons_of_mem _ hy))
    · rintro rfl
      exact (List.nodup_cons.mp nodup.of_cons).1 hy

/-- A new cell behind any other one. -/
theorem Path.insert (h : Path next prev a (l ++ x :: r) z) (nodup : (a :: (l ++ x :: r) ++ [z]).Nodup)
    (new : c ∉ a :: (l ++ x :: r) ++ [z]) (hx : next' x = c) (hc : next' c = next x) (hp : prev' c = x)
    (hb : prev' (next x) = c) (hn' : ∀ y, y ≠ x → y ≠ c → next' y = next y)
    (hp' : ∀ y, y ≠ c → y ≠ next x → prev' y = prev y) : Path next' prev' a (l ++ x :: c :: r) z := by
  obtain ⟨before,after⟩ := path_append.mp h
  have nodup' : (a :: l).Nodup ∧ (x :: (r ++ [z])).Nodup ∧
      ∀ u ∈ a :: l, ∀ v ∈ x :: (r ++ [z]), u ≠ v := by
    rw [show a :: (l ++ x :: r) ++ [z] = (a :: l) ++ (x :: (r ++ [z])) by simp] at nodup
    exact List.nodup_append.mp nodup
  refine path_append.mpr ⟨before.congr (fun y hy => hn' y ?_ ?_) fun y hy => hp' y ?_ ?_,
    after.insert_first nodup'.2.1 (fun mem => new ?_) hx hc hp hb hn' hp'⟩
  · exact nodup'.2.2 y hy x List.mem_cons_self
  · rintro rfl
    exact new (by simp only [List.cons_append,List.append_assoc,List.mem_append,List.mem_cons] at hy ⊢; tauto)
  · rintro rfl
    exact new (by simp only [List.cons_append,List.append_assoc,List.mem_append,List.mem_cons] at hy ⊢; tauto)
  · rintro rfl
    rcases List.mem_append.mp hy with hy | hy
    · exact nodup'.2.2 _ (List.mem_cons_of_mem a hy) _ (List.mem_cons_of_mem x after.next_mem) rfl
    · rw [List.mem_singleton] at hy
      exact (List.nodup_cons.mp nodup'.2.1).1 (hy ▸ after.next_mem)
  · simp only [List.cons_append,List.append_assoc,List.mem_append,List.mem_cons] at mem ⊢
    tauto

end Linked
