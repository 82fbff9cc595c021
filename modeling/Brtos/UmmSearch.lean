import Brtos.UmmSteps

/-! The loop of umm_malloc over the free list: what it chooses, and what becomes of the choice. -/
namespace Brtos
namespace Umm
variable {n c z blocks : ℕ} {u : Umm n} {l l₁ l₂ f f₁ f₂ g : List ℕ}

/-- The number of blocks from a block to the next one. -/
def span (u : Umm n) (c : ℕ) : ℕ := u.nblock c % 32768 - c

/-- The free block that suits: the first one of the list that is large enough, or one of the smallest. -/
def Suits (u : Umm n) (f : List ℕ) (blocks c : ℕ) : Fit → Prop
  | .first => ∃ f₁ f₂, f = f₁ ++ c :: f₂ ∧ ∀ x ∈ f₁, u.span x < blocks
  | .best => ∀ x ∈ f, blocks ≤ u.span x → u.span c ≤ u.span x

theorem Laid.span_eq (h : u.Laid l f z) (hc : c ∈ l) : u16sub (u.nblock c % 32768) c = u.span c := by
  have := h.lt_after hc
  have := h.head_lt (List.mem_cons_of_mem 0 (h.after_mem hc))
  have := h.small
  unfold u16sub span
  omega

theorem Laid.span_lt (h : u.Laid l f z) (hc : c ∈ l) : u.span c < 0x7FFF := by
  have := h.pos hc
  have := h.head_lt (List.mem_cons_of_mem 0 (h.after_mem hc))
  have := h.small
  unfold span
  omega

theorem Laid.scan_last (h : u.Laid l f z) (fit : Fit) (fuel : ℕ) {s : Scan} (hs : s.cf = z) :
    u.scan fit blocks (fuel + 1) s = some s := by
  simp [scan,hs,load_eq h.room,h.lastFree]

/-- One step of the loop, at a block of the free list. -/
theorem Laid.scan_free (h : u.Laid l f z) (fit : Fit) (fuel : ℕ) {s : Scan} {x : ℕ} (hs : s.cf = x)
    (hx : x ∈ f) : u.scan fit blocks (fuel + 1) s = match fit with
      | .first =>
        if blocks ≤ u.span x then some {s with blockSize := u.span x}
        else u.scan .first blocks fuel {s with cf := u.nfree x,blockSize := u.span x}
      | .best =>
        u.scan .best blocks fuel (if blocks ≤ u.span x ∧ u.span x < s.bestSize then
          ⟨u.nfree x,u.span x,x,u.span x⟩ else {s with cf := u.nfree x,blockSize := u.span x}) := by
  have xlt := h.head_lt (List.mem_cons_of_mem 0 (List.mem_append_left [z] (h.subset hx)))
  have ahead := h.nfree_mem (List.mem_cons_of_mem 0 hx)
  have pos : u.nfree x ≠ 0 := by
    rcases List.mem_append.mp ahead with mem | mem
    · exact (h.pos (h.subset mem)).ne'
    · rw [List.mem_singleton.mp mem]
      exact h.last_pos.ne'
  simp only [scan,hs,load_eq xlt,Option.bind_eq_bind,Option.bind_some,if_pos pos,and_ummBlocknoMask,
    h.span_eq (h.subset hx)]
  cases fit with
  | first => rfl
  | best => split_ifs <;> rfl

/-- The rest of the free list from the cell `a` on. -/
theorem scan_first {a : ℕ} (h : u.Laid l f z) (sub : g ⊆ f) (path : Linked.Path u.nfree u.pfree a g z)
    {fuel : ℕ} (hf : g.length < fuel) (s : Scan) (hs : s.cf = u.nfree a) :
    ∃ s', u.scan .first blocks fuel s = some s' ∧ s'.bestSize = s.bestSize ∧
      (s'.cf = z ∧ (∀ x ∈ g, u.span x < blocks) ∨
        ∃ g₁ g₂, g = g₁ ++ s'.cf :: g₂ ∧ (∀ x ∈ g₁, u.span x < blocks) ∧
          s'.blockSize = u.span s'.cf ∧ blocks ≤ s'.blockSize) := by
  induction g generalizing a fuel s with
  | nil =>
    obtain ⟨fuel,rfl⟩ := Nat.exists_eq_add_of_lt hf
    have end_ : s.cf = z := hs.trans (Linked.path_nil.mp path).1
    exact ⟨s,h.scan_last .first _ end_,rfl,Or.inl ⟨end_,by simp⟩⟩
  | cons x g ih =>
    obtain ⟨fuel,rfl⟩ : ∃ m, fuel = m + 1 := Nat.exists_eq_add_one.mpr (by omega)
    obtain ⟨⟨next,-⟩,rest⟩ := Linked.path_cons.mp path
    rw [h.scan_free .first fuel (hs.trans next) (sub List.mem_cons_self)]
    by_cases fits : blocks ≤ u.span x
    · exact ⟨_,if_pos fits,rfl,Or.inr ⟨[],g,by simp [hs,next],by simp,by simp [hs,next],fits⟩⟩
    · simp only [if_neg fits]
      obtain ⟨s',eq,best,found⟩ := ih (List.Subset.trans (List.subset_cons_self ..) sub) rest
        (by simpa using hf) {s with cf := u.nfree x,blockSize := u.span x} rfl
      refine ⟨s',eq,best,?_⟩
      rcases found with ⟨end_,none_⟩ | ⟨g₁,g₂,rfl,before,size,enough⟩
      · exact Or.inl ⟨end_,List.forall_mem_cons.mpr ⟨by omega,none_⟩⟩
      · exact Or.inr ⟨x :: g₁,g₂,rfl,List.forall_mem_cons.mpr ⟨by omega,before⟩,size,enough⟩

theorem scan_best {a : ℕ} (h : u.Laid l f z) (sub : g ⊆ f) (path : Linked.Path u.nfree u.pfree a g z)
    {fuel : ℕ} (hf : g.length < fuel) (s : Scan) (hs : s.cf = u.nfree a) :
    ∃ s', u.scan .best blocks fuel s = some s' ∧ s'.cf = z ∧ s'.bestSize ≤ s.bestSize ∧
      (∀ x ∈ g, blocks ≤ u.span x → s'.bestSize ≤ u.span x) ∧
      (s'.bestSize < s.bestSize → s'.bestBlock ∈ g ∧ s'.bestSize = u.span s'.bestBlock ∧
        blocks ≤ s'.bestSize) ∧ (s'.bestSize = s.bestSize → s'.bestBlock = s.bestBlock) := by
  induction g generalizing a fuel s with
  | nil =>
    obtain ⟨fuel,rfl⟩ := Nat.exists_eq_add_of_lt hf
    have end_ : s.cf = z := hs.trans (Linked.path_nil.mp path).1
    exact ⟨s,h.scan_last .best _ end_,end_,le_rfl,by simp,fun lt => absurd lt (lt_irrefl _),fun _ => rfl⟩
  | cons x g ih =>
    obtain ⟨fuel,rfl⟩ : ∃ m, fuel = m + 1 := Nat.exists_eq_add_one.mpr (by omega)
    obtain ⟨⟨next,-⟩,rest⟩ := Linked.path_cons.mp path
    rw [h.scan_free .best fuel (hs.trans next) (sub List.mem_cons_self)]
    have sub' : g ⊆ f := List.Subset.trans (List.subset_cons_self ..) sub
    by_cases better : blocks ≤ u.span x ∧ u.span x < s.bestSize
    · simp only [if_pos better]
      obtain ⟨s',eq,end_,le,least,found,same⟩ := ih sub' rest (by simpa using hf)
        ⟨u.nfree x,u.span x,x,u.span x⟩ rfl
      simp only at le found same
      refine ⟨s',eq,end_,le.trans better.2.le,List.forall_mem_cons.mpr ⟨fun _ => le,least⟩,fun _ => ?_,
        fun e => by omega⟩
      rcases le.lt_or_eq with lt | e
      · obtain ⟨mem,size,enough⟩ := found lt
        exact ⟨List.mem_cons_of_mem x mem,size,enough⟩
      · have := same e
        rw [this]
        exact ⟨List.mem_cons_self,e,e ▸ better.1⟩
    · simp only [if_neg better]
      obtain ⟨s',eq,end_,le,least,found,same⟩ := ih sub' rest (by simpa using hf)
        {s with cf := u.nfree x,blockSize := u.span x} rfl
      simp only at le found same
      refine ⟨s',eq,end_,le,List.forall_mem_cons.mpr ⟨fun enough => by omega,least⟩,fun lt => ?_,same⟩
      obtain ⟨mem,rest⟩ := found lt
      exact ⟨List.mem_cons_of_mem x mem,rest⟩

/-- What the loop leaves: a free block that suits, or the end when none is large enough. -/
theorem scan_spec (h : u.Laid l f z) (fit : Fit) : ∃ s,
    u.scan fit blocks (n + 1) ⟨u.nfree 0,0,u.nfree 0,0x7FFF⟩ = some s ∧
      (s.choice.1 = z ∧ (∀ x ∈ f, u.span x < blocks) ∨
        s.choice.1 ∈ f ∧ s.choice.2 = u.span s.choice.1 ∧ blocks ≤ s.choice.2 ∧
          u.Suits f blocks s.choice.1 fit) := by
  have short : f.length < n + 1 := by
    have sub : f ⊆ List.range n := fun x hx =>
      List.mem_range.mpr (h.head_lt (h.free_head (List.mem_cons_of_mem 0 (List.mem_append_left [z] hx))))
    have := (List.subperm_of_subset h.nodup sub).length_le
    rw [List.length_range] at this
    omega
  cases fit with
  | first =>
    obtain ⟨s,eq,best,found⟩ := @scan_first _ _ blocks _ _ _ _ _ h (List.Subset.refl f) h.frees _ short
      ⟨u.nfree 0,0,u.nfree 0,0x7FFF⟩ rfl
    have choice : s.choice = (s.cf,s.blockSize) := if_neg (by simp [best])
    refine ⟨s,eq,?_⟩
    rw [choice]
    rcases found with found | ⟨f₁,f₂,e,before,size,enough⟩
    · exact Or.inl found
    · exact Or.inr ⟨by rw [e]; simp,size,enough,f₁,f₂,e,before⟩
  | best =>
    obtain ⟨s,eq,end_,le,least,found,same⟩ := @scan_best _ _ blocks _ _ _ _ _ h (List.Subset.refl f) h.frees _ short
      ⟨u.nfree 0,0,u.nfree 0,0x7FFF⟩ rfl
    simp only at le found same
    refine ⟨s,eq,?_⟩
    rcases le.lt_or_eq with lt | e
    · obtain ⟨mem,size,enough⟩ := found lt
      have choice : s.choice = (s.bestBlock,s.bestSize) := if_pos lt.ne'
      rw [choice]
      exact Or.inr ⟨mem,size,enough,fun x hx large => size ▸ least x hx large⟩
    · have choice : s.choice = (s.cf,s.blockSize) := if_neg (by simp [e])
      rw [choice]
      refine Or.inl ⟨end_,fun x hx => ?_⟩
      by_contra large
      have := least x hx (by omega)
      have := h.span_lt (h.subset hx)
      omega

/-! ### The two ways to a block -/

/-- What a call of `umm_malloc` does when it has a block to give. -/
structure Gives (u u' : Umm n) (l f : List ℕ) (z c blocks : ℕ) (l' f' : List ℕ) (z' : ℕ) : Prop where
  laid : u'.Laid l' f' z'
  apart : u'.Apart f'
  new : ¬ (c ∈ l ∧ c ∉ f)
  held : ∀ x, x ∈ l' ∧ x ∉ f' ↔ (x ∈ l ∧ x ∉ f) ∨ x = c
  size : u'.nblock c = c + blocks
  stores : Stores u u' (c :: z' :: 0 :: (l ++ [z])) (z' :: 0 :: (f ++ [z]))
  others : ∀ x ∈ l, x ∉ f → u'.nblock x = u.nblock x

theorem ummDisconnectFromFreeList_gives (h : u.Laid l (f₁ ++ c :: f₂) z)
    (apart : u.Apart (f₁ ++ c :: f₂)) : ∃ u', u.ummDisconnectFromFreeList c = some u' ∧
      Gives u u' l (f₁ ++ c :: f₂) z c (u.span c) l (f₁ ++ f₂) z := by
  obtain ⟨u',eq,laid,nb,pb,bodies⟩ := ummDisconnectFromFreeList_spec h
  have hc : c ∈ f₁ ++ c :: f₂ := by simp
  have after := h.lt_after (h.subset hc)
  have span : u.span c = u.nblock c % 32768 - c := rfl
  have gone := (List.nodup_cons.mp (List.nodup_middle.mp h.nodup)).1
  have sub : f₁ ++ f₂ ⊆ f₁ ++ c :: f₂ := (List.Sublist.append_left (List.sublist_cons_self ..) f₁).subset
  refine ⟨u',eq,?_⟩
  exact {
    laid := laid
    apart := fun x hx mem => by
      have ne : x ≠ c := fun e => gone (e ▸ hx)
      rw [nb,Function.update_of_ne ne] at mem
      exact apart x (sub hx) (sub mem)
    new := fun mem => mem.2 hc
    held := fun x => by
      have := h.subset hc
      by_cases e : x = c
      · subst e
        exact iff_of_true ⟨this,gone⟩ (Or.inr rfl)
      · simp [e]
    size := by
      rw [nb,Function.update_self]
      omega
    stores := ⟨fun b hb => by
        have := (ne_of_mem_of_not_mem List.mem_cons_self hb).symm
        rw [nb,Function.update_of_ne this],fun b _ => by rw [pb],
      fun b hb => (bodies b fun mem => hb (List.mem_cons_of_mem z mem)).1,
      fun b hb => (bodies b fun mem => hb (List.mem_cons_of_mem z mem)).2⟩
    others := fun x _ hx => by
      have ne : x ≠ c := fun e => hx (e ▸ hc)
      rw [nb,Function.update_of_ne ne] }

theorem ummMakeNewBlock_gives {k : ℕ} (h : u.Laid (l₁ ++ c :: l₂) f z) (apart : u.Apart f) (hc : c ∈ f)
    (some_ : 0 < k) (inside : c + k < u.nblock c % 32768) :
    ∃ u', u.ummMakeNewBlock c k ummFreelistMask = some u' ∧
      Gives u u' (l₁ ++ c :: l₂) f z (c + k) (u.span c - k) (l₁ ++ c :: (c + k) :: l₂) f z := by
  obtain ⟨u',eq,laid,nb,pb,nf,pf⟩ := ummMakeNewBlock_spec h hc some_ inside
  have small := h.small
  have alt := h.head_lt (List.mem_cons_of_mem 0 (h.after_mem (h.subset hc)))
  have span : u.span c = u.nblock c % 32768 - c := rfl
  have new : c + k ∉ l₁ ++ c :: l₂ := fun mem =>
    absurd (h.no_between (h.subset hc) (List.mem_append_left [z] mem) (by omega)) (by omega)
  have ne : c + k ≠ c := by omega
  have chead := List.mem_cons_of_mem 0 (List.mem_append_left [z] (h.subset hc))
  have ahead := List.mem_cons_of_mem 0 (h.after_mem (h.subset hc))
  refine ⟨u',eq,?_⟩
  exact {
    laid := laid
    apart := fun x hx mem => by
      have ne' : x ≠ c + k := fun e => new (h.subset (e ▸ hx))
      by_cases e : x = c
      · subst e
        rw [nb,Function.update_self] at mem
        have : (x + k + 32768) % 32768 = x + k := by omega
        exact new (h.subset (this ▸ mem))
      · rw [nb,Function.update_of_ne e,Function.update_of_ne ne'] at mem
        exact apart x hx mem
    new := fun mem => new mem.1
    held := fun x => by
      simp only [List.mem_append,List.mem_cons]
      by_cases e : x = c + k
      · exact iff_of_true ⟨by tauto,fun mem => new (h.subset (e ▸ mem))⟩ (Or.inr e)
      · simp [e]
    size := by
      rw [nb,Function.update_of_ne ne,Function.update_self]
      omega
    stores := ⟨fun b hb => by
        have hd := (ne_of_mem_of_not_mem List.mem_cons_self hb).symm
        have hc := (ne_of_mem_of_not_mem (List.mem_cons_of_mem _ (List.mem_cons_of_mem z chead)) hb).symm
        rw [nb,Function.update_of_ne hc,Function.update_of_ne hd],fun b hb => by
        have hd := (ne_of_mem_of_not_mem List.mem_cons_self hb).symm
        have ha := (ne_of_mem_of_not_mem (List.mem_cons_of_mem _ (List.mem_cons_of_mem z ahead)) hb).symm
        exact pb b hd ha,fun b _ => by rw [nf],fun b _ => by rw [pf]⟩
    others := fun x hx hf => by
      have e : x ≠ c := fun e => hf (e ▸ hc)
      have e' : x ≠ c + k := fun e => new (e ▸ hx)
      rw [nb,Function.update_of_ne e,Function.update_of_ne e'] }

theorem takeBlock_spec (h : u.Laid l f z) (apart : u.Apart f) (hc : c ∈ f) (some_ : 0 < blocks)
    (enough : blocks ≤ u.span c) : ∃ u' l' f',
      u.takeBlock c (u.span c) blocks = some (u',c + (u.span c - blocks)) ∧
        Gives u u' l f z (c + (u.span c - blocks)) blocks l' f' z := by
  have small := h.small
  have after := h.lt_after (h.subset hc)
  have alt := h.head_lt (List.mem_cons_of_mem 0 (h.after_mem (h.subset hc)))
  have span : u.span c = u.nblock c % 32768 - c := rfl
  by_cases exact_ : u.span c = blocks
  · obtain ⟨f₁,f₂,rfl⟩ := List.append_of_mem hc
    obtain ⟨u',eq,gives⟩ := ummDisconnectFromFreeList_gives h apart
    have whole : c + (u.span c - blocks) = c := by omega
    rw [whole]
    exact ⟨u',l,f₁ ++ f₂,by simp [takeBlock,if_pos exact_,eq],exact_ ▸ gives⟩
  · obtain ⟨l₁,l₂,rfl⟩ := List.append_of_mem (h.subset hc)
    obtain ⟨u',eq,gives⟩ := ummMakeNewBlock_gives h apart hc (k := u.span c - blocks) (by omega) (by omega)
    have rest : u16sub (u.span c) blocks = u.span c - blocks := by
      unfold u16sub
      omega
    have whole : u.span c - (u.span c - blocks) = blocks := by omega
    have short : (c + (u.span c - blocks)) % 65536 = c + (u.span c - blocks) := Nat.mod_eq_of_lt (by omega)
    refine ⟨u',_,_,?_,whole ▸ gives⟩
    simp only [takeBlock,if_neg exact_,rest,eq,short]
    rfl

theorem newBlock_gives (h : u.Laid l f z) (apart : u.Apart f) (some_ : 0 < blocks) (room : z + blocks < n) :
    ∃ u', u.newBlock z blocks = some u' ∧ Gives u u' l f z z blocks (l ++ [z]) f (z + blocks) := by
  obtain ⟨u',eq,laid,heads,size,bodies⟩ := newBlock_spec h some_ room
  refine ⟨u',eq,?_⟩
  have below : ∀ x ∈ l, x ≠ z ∧ x ≠ z + blocks := fun x hx => by
    have := h.lt_last hx
    omega
  have notFree : z ∉ f := fun mem => h.last_notMem (h.subset mem)
  exact {
    laid := laid
    apart := fun x hx mem => by
      obtain ⟨e,e'⟩ := below x (h.subset hx)
      rw [(heads x e e').1] at mem
      exact apart x hx mem
    new := fun mem => h.last_notMem mem.1
    held := fun x => by
      rw [List.mem_append,List.mem_singleton]
      by_cases e : x = z
      · exact iff_of_true ⟨Or.inr e,e ▸ notFree⟩ (Or.inr e)
      · simp [e]
    size := size
    stores := by
      refine ⟨fun b hb => ?_,fun b hb => ?_,fun b hb => ?_,fun b hb => ?_⟩
      · exact (heads b (by simp at hb; tauto) (by simp at hb; tauto)).1
      · exact (heads b (by simp at hb; tauto) (by simp at hb; tauto)).2
      · exact (bodies b (by simp at hb ⊢; tauto) (by simp at hb; tauto)).1
      · exact (bodies b (by simp at hb ⊢; tauto) (by simp at hb; tauto)).2
    others := fun x hx _ => (heads x (below x hx).1 (below x hx).2).1 }

theorem ummBlocks_pos {size : ℕ} (hs : size < 524277) : 0 < ummBlocks size := by
  unfold ummBlocks
  split_ifs <;> omega

/-- A request is met, or nothing is large enough and nothing has happened. -/
theorem ummMalloc_spec (h : u.Laid l f z) (apart : u.Apart f) (fit : Fit) {size : ℕ} (pos : 0 < size)
    (fits : size < 524277) :
    u.ummMalloc fit size = some (u,none) ∧ (∀ x ∈ f, u.span x < ummBlocks size) ∧
        n ≤ z + ummBlocks size + 1 ∨
      ∃ u' c l' f' z', u.ummMalloc fit size = some (u',some (data c)) ∧
        Gives u u' l f z c (ummBlocks size) l' f' z' ∧
        (z' = z ∧ (∃ x ∈ f, ummBlocks size ≤ u.span x ∧ u.Suits f (ummBlocks size) x fit ∧
            c = x + (u.span x - ummBlocks size)) ∨
          (∀ x ∈ f, u.span x < ummBlocks size) ∧ z + ummBlocks size + 1 < n ∧ c = z ∧
            z' = z + ummBlocks size) := by
  have small := h.small
  have zero := h.head_lt (List.mem_cons_self (a := 0))
  have blocks := ummBlocks_pos fits
  have wrap : n % 65536 = n := Nat.mod_eq_of_lt (by omega)
  obtain ⟨s,scan,choice⟩ := @scan_spec _ _ (ummBlocks size) _ _ _ h fit
  rcases e : s.choice with ⟨cf,blockSize⟩
  simp only [e] at choice
  simp only [ummMalloc,if_neg pos.ne',load_eq zero,Option.bind_eq_bind,Option.bind_some,scan,e,
    and_ummBlocknoMask]
  rcases choice with ⟨rfl,none_⟩ | ⟨free,rfl,enough,suits⟩
  · simp only [load_eq h.room,Option.bind_some,h.last,Nat.zero_mod,ne_eq,not_true_eq_false,if_false,wrap]
    by_cases room : n ≤ cf + ummBlocks size + 1
    · exact Or.inl ⟨if_pos room,none_,room⟩
    · obtain ⟨u',eq,gives⟩ := newBlock_gives h apart blocks (by omega)
      refine Or.inr ⟨u',cf,_,_,_,?_,gives,Or.inr ⟨none_,by omega,rfl,rfl⟩⟩
      simp [if_neg room,initBlock,h.last_pos.ne',eq]
  · have clt := h.head_lt (List.mem_cons_of_mem 0 (List.mem_append_left [z] (h.subset free)))
    have after := h.lt_after (h.subset free)
    obtain ⟨u',l',f',eq,gives⟩ := takeBlock_spec h apart free blocks enough
    refine Or.inr ⟨u',_,l',f',z,?_,gives,Or.inl ⟨rfl,cf,free,enough,suits,rfl⟩⟩
    have used : u.nblock cf % 32768 ≠ 0 := by omega
    simp only [load_eq clt,Option.bind_some,if_pos used,eq]
    rfl

/-- The heap of the first call once it is initialised. -/
theorem initBlock_spec (small : n ≤ 32768) (two : 1 < n) : ∃ u, (Umm.zero n).initBlock 0 = some (u,1) ∧
    u.Laid [] [] 1 := by
  refine ⟨((Umm.zero n).setNblock 0 1).setNfree 0 1,?_,?_⟩
  · simp [initBlock,store_eq (show 0 < n by omega)]
  · have zero : ∀ b, (Umm.zero n).nblock b = 0 ∧ (Umm.zero n).pblock b = 0 ∧ (Umm.zero n).nfree b = 0 ∧
        (Umm.zero n).pfree b = 0 := fun _ => ⟨rfl,rfl,rfl,rfl⟩
    exact {
      blocks := Linked.path_nil.mpr (by simp [zero])
      frees := Linked.path_nil.mpr (by simp [zero])
      sorted := by simp
      small := small
      room := two
      last := by simp [zero]
      lastFree := by simp [zero]
      first := by simp
      nodup := List.nodup_nil
      subset := List.Subset.refl []
      marked := by simp
      word := by simp }

/-- The first call of all. -/
theorem ummMalloc_zero (small : n ≤ 32768) (zero : 0 < n) (fit : Fit) {size : ℕ} (pos : 0 < size)
    (fits : size < 524277) :
    (Umm.zero n).ummMalloc fit size = some (Umm.zero n,none) ∧ n ≤ ummBlocks size + 1 ∨
      ∃ u u', u.Laid [] [] 1 ∧ (Umm.zero n).ummMalloc fit size = some (u',some (data 1)) ∧
        Gives u u' [] [] 1 1 (ummBlocks size) [1] [] (1 + ummBlocks size) ∧ ummBlocks size + 1 < n := by
  have blocks := ummBlocks_pos fits
  have wrap : n % 65536 = n := Nat.mod_eq_of_lt (by omega)
  have scan : (Umm.zero n).scan fit (ummBlocks size) (n + 1) ⟨0,0,0,0x7FFF⟩ = some ⟨0,0,0,0x7FFF⟩ := by
    simp [Umm.scan,load_eq zero,nfree,Umm.zero]
  have first : (Umm.zero n).nfree 0 = 0 := rfl
  have header : (Umm.zero n).nblock 0 = 0 := rfl
  simp only [ummMalloc,if_neg pos.ne',load_eq zero,Option.bind_eq_bind,Option.bind_some,first,scan,
    Scan.choice,ne_eq,not_true_eq_false,if_false,header,Nat.zero_and,wrap,Nat.zero_add]
  by_cases room : n ≤ ummBlocks size + 1
  · exact Or.inl ⟨if_pos room,room⟩
  · obtain ⟨u,init,laid⟩ := initBlock_spec (n := n) small (by omega)
    obtain ⟨u',eq,gives⟩ := newBlock_gives laid (by simp [Apart]) blocks (by omega)
    exact Or.inr ⟨u,u',laid,by simp [if_neg room,init,eq],gives,by omega⟩

end Umm
end Brtos
