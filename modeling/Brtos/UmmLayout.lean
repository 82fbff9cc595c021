import Brtos.Library.Linked
import Mathlib.Data.List.Nodup

/-! The blocks of the heap in their order and the free list through them, and what the edits of the
allocator make of both. -/
namespace Brtos

/-- The heap's links lead from block 0 through the blocks `l` in ascending order to the end `z`, and
through the blocks of the free list `f` as well. -/
structure Layout (n : ℕ) (nb pb nf pf : ℕ → ℕ) (l f : List ℕ) (z : ℕ) : Prop where
  blocks : Linked.Path (fun b => nb b % 32768) pb 0 l z
  frees : Linked.Path nf pf 0 f z
  sorted : (0 :: (l ++ [z])).Pairwise (· < ·)
  small : n ≤ 32768
  room : z < n
  last : nb z = 0
  lastFree : nf z = 0
  first : nb 0 = 1
  nodup : f.Nodup
  subset : f ⊆ l
  marked : ∀ c ∈ l, 32768 ≤ nb c ↔ c ∈ f
  word : ∀ c ∈ l, nb c < 65536

/-- A number between two neighbours of an ascending list. -/
theorem pairwise_insert {c d : ℕ} {s t : List ℕ} (h : (s ++ c :: t).Pairwise (· < ·)) (lt : c < d)
    (behind : ∀ y ∈ t, d < y) : (s ++ c :: d :: t).Pairwise (· < ·) := by
  obtain ⟨hs,ht,st⟩ := List.pairwise_append.mp h
  refine List.pairwise_append.mpr ⟨hs,?_,fun x hx y hy => ?_⟩
  · refine List.pairwise_cons.mpr ⟨fun y hy => ?_,List.pairwise_cons.mpr ⟨behind,ht.of_cons⟩⟩
    rcases List.mem_cons.mp hy with rfl | hy
    · exact lt
    · exact (List.pairwise_cons.mp ht).1 y hy
  · have first := st x hx c List.mem_cons_self
    rcases List.mem_cons.mp hy with rfl | hy
    · exact first
    rcases List.mem_cons.mp hy with rfl | hy
    · exact first.trans lt
    · exact st x hx y (List.mem_cons_of_mem c hy)

namespace Layout
variable {n c k z : ℕ} {nb pb nf pf : ℕ → ℕ} {l l₁ l₂ f f₁ f₂ : List ℕ}

theorem nodup_all (h : Layout n nb pb nf pf l f z) : (0 :: (l ++ [z])).Nodup :=
  h.sorted.imp Nat.ne_of_lt

theorem nodup_blocks (h : Layout n nb pb nf pf l f z) : l.Nodup :=
  h.nodup_all.of_cons.of_append_left

theorem pos (h : Layout n nb pb nf pf l f z) (hc : c ∈ l) : 0 < c :=
  (List.pairwise_cons.mp h.sorted).1 c (List.mem_append_left [z] hc)

theorem lt_last (h : Layout n nb pb nf pf l f z) (hc : c ∈ l) : c < z :=
  (List.pairwise_append.mp h.sorted.of_cons).2.2 c hc z (List.mem_singleton_self z)

theorem last_pos (h : Layout n nb pb nf pf l f z) : 0 < z :=
  (List.pairwise_cons.mp h.sorted).1 z (by simp)

theorem last_notMem (h : Layout n nb pb nf pf l f z) : z ∉ l := fun hz => (h.lt_last hz).ne rfl

theorem zero_notMem (h : Layout n nb pb nf pf l f z) : 0 ∉ l := fun hz => (h.pos hz).ne rfl

/-- The blocks of the free list are apart from its two ends. -/
theorem nodup_frees (h : Layout n nb pb nf pf l f z) : (0 :: (f ++ [z])).Nodup := by
  have behind : (f ++ [z]).Nodup := by
    refine List.nodup_append.mpr ⟨h.nodup,List.nodup_singleton z,fun x hx y hy => ?_⟩
    rw [List.mem_singleton.mp hy]
    exact fun e => h.last_notMem (e ▸ h.subset hx)
  refine List.nodup_cons.mpr ⟨fun mem => ?_,behind⟩
  rcases List.mem_append.mp mem with mem | mem
  · exact h.zero_notMem (h.subset mem)
  · exact h.last_pos.ne (List.mem_singleton.mp mem)

/-- What is behind a block. -/
theorem after_mem (h : Layout n nb pb nf pf l f z) (hc : c ∈ l) : nb c % 32768 ∈ l ++ [z] :=
  h.blocks.next_mem_of_mem (List.mem_cons_of_mem 0 hc)

theorem le_last (h : Layout n nb pb nf pf l f z) (hc : c ∈ l ++ [z]) : c ≤ z := by
  rcases List.mem_append.mp hc with hc | hc
  · exact (h.lt_last hc).le
  · exact (List.mem_singleton.mp hc).le

theorem lt_after (h : Layout n nb pb nf pf l f z) (hc : c ∈ l) : c < nb c % 32768 := by
  obtain ⟨l₁,l₂,rfl⟩ := List.append_of_mem hc
  have after := (Linked.path_append.mp h.blocks).2.next_mem
  have sorted := h.sorted.of_cons
  rw [List.append_assoc] at sorted
  exact (List.pairwise_cons.mp (List.pairwise_append.mp sorted).2.1).1 _ after

/-- A block of the list ends where the next one begins. -/
theorem no_between (h : Layout n nb pb nf pf l f z) (hc : c ∈ l) {d : ℕ} (hd : d ∈ l ++ [z])
    (lt : c < d) : nb c % 32768 ≤ d := by
  obtain ⟨l₁,l₂,rfl⟩ := List.append_of_mem hc
  obtain ⟨-,after⟩ := Linked.path_append.mp h.blocks
  have sorted := h.sorted.of_cons
  rw [List.append_assoc] at sorted hd
  obtain ⟨-,tail,before⟩ := List.pairwise_append.mp sorted
  rcases List.mem_append.mp hd with hd | hd
  · exact absurd (before d hd c (by simp)) (by omega)
  rcases List.mem_cons.mp hd with rfl | hd
  · exact absurd lt (lt_irrefl d)
  cases l₂ with
  | nil =>
    have hd := List.mem_singleton.mp hd
    exact ((Linked.path_nil.mp after).1.trans hd.symm).le
  | cons x l₂ =>
    obtain ⟨⟨next,-⟩,-⟩ := Linked.path_cons.mp after
    change nb c % 32768 = x at next
    rw [next]
    rcases List.mem_cons.mp hd with rfl | hd
    · exact le_rfl
    · exact ((List.pairwise_cons.mp tail.of_cons).1 d hd).le

/-- A block leaves the free list. -/
theorem delist (h : Layout n nb pb nf pf l (f₁ ++ c :: f₂) z) :
    Layout n (Function.update nb c (nb c % 32768)) pb (Function.update nf (pf c) (nf c))
      (Function.update pf (nf c) (pf c)) l (f₁ ++ f₂) z := by
  have mem : c ∈ l := h.subset (by simp)
  have apart := List.nodup_append.mp h.nodup
  have gone : c ∉ f₁ ++ f₂ := fun hc => by
    rcases List.mem_append.mp hc with hc | hc
    · exact apart.2.2 c hc c (by simp) rfl
    · exact (List.nodup_cons.mp apart.2.1).1 hc
  have masked : ∀ b, Function.update nb c (nb c % 32768) b % 32768 = nb b % 32768 := fun b => by
    by_cases e : b = c
    · subst e
      simp
    · rw [Function.update_of_ne e]
  have behind : pf c ≠ z := fun e => by
    obtain ⟨before,-⟩ := Linked.path_append.mp h.frees
    have all := h.nodup_frees
    rw [List.append_assoc,← List.cons_append] at all
    exact (List.nodup_append.mp all).2.2 _ before.prev_mem z (by simp) e
  exact {
    blocks := h.blocks.congr (fun b _ => masked b) fun _ _ => rfl
    frees := h.frees.unlink h.nodup_frees (Function.update_self ..) (Function.update_self ..)
      (fun y hy => Function.update_of_ne hy ..) fun y hy => Function.update_of_ne hy ..
    sorted := h.sorted
    small := h.small
    room := h.room
    last := by rw [Function.update_of_ne (h.lt_last mem).ne',h.last]
    lastFree := by rw [Function.update_of_ne behind.symm,h.lastFree]
    first := by rw [Function.update_of_ne (h.pos mem).ne,h.first]
    nodup := h.nodup.sublist (List.Sublist.append_left (List.sublist_cons_self c f₂) f₁)
    subset := fun x hx => h.subset (by simp only [List.mem_append,List.mem_cons] at hx ⊢; tauto)
    marked := fun x hx => by
      by_cases e : x = c
      · subst e
        rw [Function.update_self]
        exact iff_of_false (by omega) gone
      · rw [Function.update_of_ne e,h.marked x hx]
        simp [e]
    word := fun x hx => by
      by_cases e : x = c
      · subst e
        rw [Function.update_self]
        omega
      · rw [Function.update_of_ne e]
        exact h.word x hx }

/-- A block is linked in as the first one of the free list. -/
theorem enlist (h : Layout n nb pb nf pf l f z) (hc : c ∈ l) (used : c ∉ f) :
    Layout n (Function.update nb c (nb c + 32768)) pb
      (Function.update (Function.update nf c (nf 0)) 0 c)
      (Function.update (Function.update pf (nf 0) c) c 0) l (c :: f) z := by
  have low : nb c < 32768 := by
    by_contra high
    exact used ((h.marked c hc).mp (by omega))
  have masked : ∀ b, Function.update nb c (nb c + 32768) b % 32768 = nb b % 32768 := fun b => by
    by_cases e : b = c
    · subst e
      simp
    · rw [Function.update_of_ne e]
  have first : c ≠ 0 := (h.pos hc).ne'
  have end_ : c ≠ z := (h.lt_last hc).ne
  have new : c ∉ 0 :: (f ++ [z]) := by simp [used,first,end_]
  have ahead : nf 0 ≠ c := fun e => new (List.mem_cons_of_mem 0 (e ▸ h.frees.next_mem))
  exact {
    blocks := h.blocks.congr (fun b _ => masked b) fun _ _ => rfl
    frees := h.frees.insert_first h.nodup_frees new (Function.update_self ..)
      (by rw [Function.update_of_ne first,Function.update_self]) (Function.update_self ..)
      (by rw [Function.update_of_ne ahead,Function.update_self])
      (fun y h0 hy => by rw [Function.update_of_ne h0,Function.update_of_ne hy])
      fun y hy h0 => by rw [Function.update_of_ne hy,Function.update_of_ne h0]
    sorted := h.sorted
    small := h.small
    room := h.room
    last := by rw [Function.update_of_ne end_.symm,h.last]
    lastFree := by rw [Function.update_of_ne h.last_pos.ne',Function.update_of_ne end_.symm,h.lastFree]
    first := by rw [Function.update_of_ne first.symm,h.first]
    nodup := List.nodup_cons.mpr ⟨used,h.nodup⟩
    subset := List.cons_subset.mpr ⟨hc,h.subset⟩
    marked := fun x hx => by
      by_cases e : x = c
      · subst e
        rw [Function.update_self]
        exact iff_of_true (by omega) List.mem_cons_self
      · rw [Function.update_of_ne e,h.marked x hx]
        simp [e]
    word := fun x hx => by
      by_cases e : x = c
      · subst e
        rw [Function.update_self]
        omega
      · rw [Function.update_of_ne e]
        exact h.word x hx }

/-- The last blocks of a free one become a block in use. -/
theorem split (h : Layout n nb pb nf pf (l₁ ++ c :: l₂) f z) (free : c ∈ f) (some_ : 0 < k)
    (inside : c + k < nb c % 32768) :
    Layout n (Function.update (Function.update nb (c + k) (nb c % 32768)) c (c + k + 32768))
      (Function.update (Function.update pb (c + k) c) (nb c % 32768) (c + k)) nf pf
      (l₁ ++ c :: (c + k) :: l₂) f z := by
  have hc : c ∈ l₁ ++ c :: l₂ := by simp
  have end_ : nb c % 32768 ≤ z := h.le_last (h.after_mem hc)
  have room := h.room
  have small := h.small
  have apart : c + k ≠ c := by omega
  have new : c + k ∉ 0 :: (l₁ ++ c :: l₂) ++ [z] := fun mem => by
    rw [List.cons_append] at mem
    rcases List.mem_cons.mp mem with e | mem
    · omega
    · exact absurd (h.no_between hc mem (by omega)) (by omega)
  have ends : c + k ≠ nb c % 32768 := inside.ne
  have later : c + k < z := inside.trans_le end_
  have notFree : c + k ∉ f := fun mem =>
    new (List.mem_cons_of_mem 0 (List.mem_append_left [z] (h.subset mem)))
  exact {
    blocks := h.blocks.insert (c := c + k) h.nodup_all new
      (by rw [Function.update_self]; omega)
      (by rw [Function.update_of_ne apart,Function.update_self,Nat.mod_mod])
      (by rw [Function.update_of_ne ends,Function.update_self]) (Function.update_self ..)
      (fun y hc hy => by rw [Function.update_of_ne hc,Function.update_of_ne hy])
      fun y hy he => by rw [Function.update_of_ne he,Function.update_of_ne hy]
    frees := h.frees
    sorted := by
      have sorted := h.sorted
      rw [List.append_assoc,List.cons_append,← List.cons_append] at sorted ⊢
      refine pairwise_insert sorted (by omega) fun y hy => ?_
      have mem : y ∈ (l₁ ++ c :: l₂) ++ [z] := by
        rw [List.append_assoc]
        exact List.mem_append_right l₁ (List.mem_cons_of_mem c hy)
      have behind := (List.pairwise_append.mp sorted).2.1
      exact inside.trans_le (h.no_between hc mem ((List.pairwise_cons.mp behind).1 y hy))
    small := h.small
    room := h.room
    last := by
      rw [Function.update_of_ne (h.lt_last hc).ne',Function.update_of_ne later.ne',h.last]
    lastFree := h.lastFree
    first := by
      rw [Function.update_of_ne (h.pos hc).ne,Function.update_of_ne (by omega),h.first]
    nodup := h.nodup
    subset := fun x hx => by
      have := h.subset hx
      simp only [List.mem_append,List.mem_cons] at this ⊢
      tauto
    marked := fun x hx => by
      by_cases e : x = c
      · subst e
        rw [Function.update_self]
        exact iff_of_true (by omega) free
      by_cases e' : x = c + k
      · subst e'
        rw [Function.update_of_ne e,Function.update_self]
        exact iff_of_false (by omega) notFree
      · rw [Function.update_of_ne e,Function.update_of_ne e']
        exact h.marked x (by simp only [List.mem_append,List.mem_cons] at hx ⊢; tauto)
    word := fun x hx => by
      by_cases e : x = c
      · subst e
        rw [Function.update_self]
        omega
      by_cases e' : x = c + k
      · subst e'
        rw [Function.update_of_ne e,Function.update_self]
        omega
      · rw [Function.update_of_ne e,Function.update_of_ne e']
        exact h.word x (by simp only [List.mem_append,List.mem_cons] at hx ⊢; tauto) }

/-- A block at the end of the heap. -/
theorem extend (h : Layout n nb pb nf pf l f z) (some_ : 0 < k) (room : z + k < n) :
    Layout n (Function.update (Function.update nb (z + k) (nb z)) z (z + k))
      (Function.update (Function.update pb (z + k) (pb z)) (z + k) z)
      (Function.update (Function.update nf (pf z) (z + k)) (z + k)
        (Function.update nf (pf z) (z + k) z))
      (Function.update pf (z + k) (pf z)) (l ++ [z]) f (z + k) := by
  have small := h.small
  have apart : z + k ≠ z := by omega
  have behind : pf z ∈ 0 :: f := h.frees.prev_mem
  have lt : ∀ x ∈ 0 :: f, x < z := fun x hx => by
    rcases List.mem_cons.mp hx with rfl | hx
    · exact h.last_pos
    · exact h.lt_last (h.subset hx)
  have ahead : pf z ≠ z + k := by have := lt _ behind; omega
  exact {
    blocks := by
      refine Linked.path_concat.mpr ⟨h.blocks.congr (fun y hy => ?_) fun y hy => ?_,?_,?_⟩
      · have : y < z := by
          rcases List.mem_cons.mp hy with rfl | hy
          · exact h.last_pos
          · exact h.lt_last hy
        rw [Function.update_of_ne this.ne,Function.update_of_ne (by omega)]
      · have := h.le_last hy
        rw [Function.update_of_ne (by omega),Function.update_of_ne (by omega)]
      · rw [Function.update_self]
        omega
      · rw [Function.update_self]
    frees := by
      refine h.frees.retarget (h.nodup_frees.sublist ?_) (fun mem => ?_) ?_
        (Function.update_self (z + k) (pf z) pf) (fun y hy other => ?_) fun y _ hy =>
          Function.update_of_ne hy ..
      · rw [← List.cons_append]
        exact List.sublist_append_left ..
      · have := lt _ (List.mem_cons_of_mem 0 mem)
        omega
      · rw [Function.update_of_ne ahead,Function.update_self]
      · have := lt y hy
        rw [Function.update_of_ne (by omega),Function.update_of_ne other]
    sorted := by
      rw [← List.cons_append,← List.cons_append]
      refine List.pairwise_append.mpr ⟨h.sorted,List.pairwise_singleton ..,fun x hx y hy => ?_⟩
      rw [List.mem_singleton.mp hy]
      rcases List.mem_cons.mp hx with rfl | hx
      · omega
      · have := h.le_last hx
        omega
    small := h.small
    room := room
    last := by rw [Function.update_of_ne apart,Function.update_self,h.last]
    lastFree := by
      rw [Function.update_self,Function.update_of_ne (lt _ behind).ne',h.lastFree]
    first := by
      rw [Function.update_of_ne h.last_pos.ne,Function.update_of_ne (by omega),h.first]
    nodup := h.nodup
    subset := fun x hx => List.mem_append_left [z] (h.subset hx)
    marked := fun x hx => by
      rcases List.mem_append.mp hx with hx | hx
      · have := h.lt_last hx
        rw [Function.update_of_ne this.ne,Function.update_of_ne (by omega),h.marked x hx]
      · rw [List.mem_singleton.mp hx,Function.update_self]
        exact iff_of_false (by omega) fun mem => h.last_notMem (h.subset mem)
    word := fun x hx => by
      rcases List.mem_append.mp hx with hx | hx
      · have := h.lt_last hx
        rw [Function.update_of_ne this.ne,Function.update_of_ne (by omega)]
        exact h.word x hx
      · rw [List.mem_singleton.mp hx,Function.update_self]
        omega }

/-- A block in use becomes part of the one before it. -/
theorem merge {v : ℕ} (h : Layout n nb pb nf pf (l₁ ++ c :: l₂) f z) (used : c ∉ f) (notFirst : pb c ≠ 0)
    (hv : v % 32768 = nb c % 32768) (mark : 32768 ≤ v ↔ pb c ∈ f) (word : v < 65536) :
    Layout n (Function.update nb (pb c) v) (Function.update pb (nb c % 32768) (pb c)) nf pf (l₁ ++ l₂) f
      z := by
  have hc : c ∈ l₁ ++ c :: l₂ := by simp
  obtain ⟨before,-⟩ := Linked.path_append.mp h.blocks
  have behind : pb c ∈ l₁ := (List.mem_cons.mp before.prev_mem).resolve_left notFirst
  have hp : pb c ∈ l₁ ++ c :: l₂ := List.mem_append_left _ behind
  have sub : (l₁ ++ l₂).Sublist (l₁ ++ c :: l₂) :=
    List.Sublist.append_left (List.sublist_cons_self c l₂) l₁
  exact {
    blocks := h.blocks.unlink h.nodup_all
      (by rw [Function.update_self,hv]) (Function.update_self ..)
      (fun y hy => by rw [Function.update_of_ne hy]) fun y hy => Function.update_of_ne hy ..
    frees := h.frees
    sorted := h.sorted.sublist ((sub.append_right [z]).cons_cons 0)
    small := h.small
    room := h.room
    last := by rw [Function.update_of_ne (h.lt_last hp).ne',h.last]
    lastFree := h.lastFree
    first := by rw [Function.update_of_ne notFirst.symm,h.first]
    nodup := h.nodup
    subset := fun x hx => by
      have := h.subset hx
      simp only [List.mem_append,List.mem_cons] at this ⊢
      rcases this with this | rfl | this
      · exact Or.inl this
      · exact absurd hx used
      · exact Or.inr this
    marked := fun x hx => by
      by_cases e : x = pb c
      · rw [e,Function.update_self,mark]
      · rw [Function.update_of_ne e,h.marked x (sub.subset hx)]
    word := fun x hx => by
      by_cases e : x = pb c
      · rw [e,Function.update_self]
        exact word
      · rw [Function.update_of_ne e]
        exact h.word x (sub.subset hx) }

end Layout
end Brtos
