import Brtos.Umm
import Brtos.UmmLayout

/-! Each function of the allocator makes one of the edits of the layout, or a few, without an access
outside the heap. -/
namespace Brtos

@[simp] theorem and_ummBlocknoMask (x : ℕ) : x &&& ummBlocknoMask = x % 32768 :=
  Nat.and_two_pow_sub_one_eq_mod x 15

theorem and_ummFreelistMask (x : ℕ) : x &&& ummFreelistMask ≠ 0 ↔ x.testBit 15 := by
  rw [show ummFreelistMask = 2 ^ 15 from rfl,Nat.and_two_pow]
  cases x.testBit 15 <;> simp

theorem testBit_of_lt {x : ℕ} (h : x < 65536) : x.testBit 15 = decide (32768 ≤ x) := by
  rw [Nat.testBit_eq_decide_div_mod_eq]
  exact decide_eq_decide.mpr (by omega)

theorem or_ummFreelistMask {x : ℕ} (h : x < 32768) : x ||| ummFreelistMask = x + 32768 := by
  have := Nat.two_pow_add_eq_or_of_lt (i := 15) h 1
  rw [Nat.lor_comm,show ummFreelistMask = 2 ^ 15 * 1 from rfl,← this]
  omega

namespace Umm
variable {n : ℕ} {u : Umm n} {b c v : ℕ}

/-- The block behind the block `b`. -/
def after (u : Umm n) (b : ℕ) : ℕ := u.nblock b % 32768

/-- The block `b` is marked free. -/
def Marked (u : Umm n) (b : ℕ) : Prop := 32768 ≤ u.nblock b

theorem load_eq {field : Umm n → ℕ → ℕ} (h : b < n) : u.load field b = some (field u b) := if_pos h

theorem store_eq {field : Umm n → ℕ → ℕ → Umm n} (h : b < n) :
    u.store field b v = some (field u b v) := if_pos h

@[simp] theorem setNblock_nblock :
    (u.setNblock b v).nblock = Function.update u.nblock b (v % 65536) := by
  funext x
  by_cases h : x = b <;> simp [setNblock,update,nblock,Function.update,h]

@[simp] theorem setNblock_pblock : (u.setNblock b v).pblock = u.pblock := by
  funext x
  by_cases h : x = b <;> simp [setNblock,update,pblock,Function.update,h]

@[simp] theorem setNblock_nfree : (u.setNblock b v).nfree = u.nfree := by
  funext x
  by_cases h : x = b <;> simp [setNblock,update,nfree,Function.update,h]

@[simp] theorem setNblock_pfree : (u.setNblock b v).pfree = u.pfree := by
  funext x
  by_cases h : x = b <;> simp [setNblock,update,pfree,Function.update,h]

@[simp] theorem setPblock_nblock : (u.setPblock b v).nblock = u.nblock := by
  funext x
  by_cases h : x = b <;> simp [setPblock,update,nblock,Function.update,h]

@[simp] theorem setPblock_pblock :
    (u.setPblock b v).pblock = Function.update u.pblock b (v % 65536) := by
  funext x
  by_cases h : x = b <;> simp [setPblock,update,pblock,Function.update,h]

@[simp] theorem setPblock_nfree : (u.setPblock b v).nfree = u.nfree := by
  funext x
  by_cases h : x = b <;> simp [setPblock,update,nfree,Function.update,h]

@[simp] theorem setPblock_pfree : (u.setPblock b v).pfree = u.pfree := by
  funext x
  by_cases h : x = b <;> simp [setPblock,update,pfree,Function.update,h]

@[simp] theorem setNfree_nblock : (u.setNfree b v).nblock = u.nblock := by
  funext x
  by_cases h : x = b <;> simp [setNfree,update,nblock,Function.update,h]

@[simp] theorem setNfree_pblock : (u.setNfree b v).pblock = u.pblock := by
  funext x
  by_cases h : x = b <;> simp [setNfree,update,pblock,Function.update,h]

@[simp] theorem setNfree_nfree :
    (u.setNfree b v).nfree = Function.update u.nfree b (v % 65536) := by
  funext x
  by_cases h : x = b <;> simp [setNfree,update,nfree,Function.update,h]

@[simp] theorem setNfree_pfree : (u.setNfree b v).pfree = u.pfree := by
  funext x
  by_cases h : x = b <;> simp [setNfree,update,pfree,Function.update,h]

@[simp] theorem setPfree_nblock : (u.setPfree b v).nblock = u.nblock := by
  funext x
  by_cases h : x = b <;> simp [setPfree,update,nblock,Function.update,h]

@[simp] theorem setPfree_pblock : (u.setPfree b v).pblock = u.pblock := by
  funext x
  by_cases h : x = b <;> simp [setPfree,update,pblock,Function.update,h]

@[simp] theorem setPfree_nfree : (u.setPfree b v).nfree = u.nfree := by
  funext x
  by_cases h : x = b <;> simp [setPfree,update,nfree,Function.update,h]

@[simp] theorem setPfree_pfree :
    (u.setPfree b v).pfree = Function.update u.pfree b (v % 65536) := by
  funext x
  by_cases h : x = b <;> simp [setPfree,update,pfree,Function.update,h]

@[simp] theorem update_nblock (x : UmmBlock) :
    (u.update b fun _ => x).nblock = Function.update u.nblock b x.next := by
  funext y
  by_cases h : y = b <;> simp [update,nblock,Function.update,h]

@[simp] theorem update_pblock (x : UmmBlock) :
    (u.update b fun _ => x).pblock = Function.update u.pblock b x.prev := by
  funext y
  by_cases h : y = b <;> simp [update,pblock,Function.update,h]

@[simp] theorem update_nfree (x : UmmBlock) :
    (u.update b fun _ => x).nfree = Function.update u.nfree b x.freeNext := by
  funext y
  by_cases h : y = b <;> simp [update,nfree,Function.update,h]

@[simp] theorem update_pfree (x : UmmBlock) :
    (u.update b fun _ => x).pfree = Function.update u.pfree b x.freePrev := by
  funext y
  by_cases h : y = b <;> simp [update,pfree,Function.update,h]

@[simp] theorem heap_next : (u.heap b).next = u.nblock b := rfl
@[simp] theorem heap_prev : (u.heap b).prev = u.pblock b := rfl
@[simp] theorem heap_freeNext : (u.heap b).freeNext = u.nfree b := rfl
@[simp] theorem heap_freePrev : (u.heap b).freePrev = u.pfree b := rfl

/-- The links of the heap are those of the layout. -/
def Laid (u : Umm n) (l f : List ℕ) (z : ℕ) : Prop :=
  Layout n u.nblock u.pblock u.nfree u.pfree l f z

variable {k z : ℕ} {l l₁ l₂ f f₁ f₂ : List ℕ}

theorem Laid.head_lt (h : u.Laid l f z) (hc : c ∈ 0 :: (l ++ [z])) : c < n := by
  have := h.room
  rcases List.mem_cons.mp hc with rfl | hc
  · omega
  · have := h.le_last hc
    omega

theorem Laid.free_head (h : u.Laid l f z) (hc : c ∈ 0 :: (f ++ [z])) : c ∈ 0 :: (l ++ [z]) := by
  have := h.subset (a := c)
  simp only [List.mem_cons,List.mem_append] at hc ⊢
  tauto

/-- The four neighbours of a free block. -/
theorem Laid.nfree_mem (h : u.Laid l f z) (hc : c ∈ 0 :: f) : u.nfree c ∈ f ++ [z] :=
  h.frees.next_mem_of_mem hc

theorem Laid.pfree_mem (h : u.Laid l f z) (hc : c ∈ f ++ [z]) : u.pfree c ∈ 0 :: f :=
  h.frees.prev_mem_of_mem hc

theorem Laid.pblock_mem (h : u.Laid l f z) (hc : c ∈ l ++ [z]) : u.pblock c ∈ 0 :: l :=
  h.blocks.prev_mem_of_mem hc

theorem ummDisconnectFromFreeList_spec (h : u.Laid l (f₁ ++ c :: f₂) z) :
    ∃ u', u.ummDisconnectFromFreeList c = some u' ∧ u'.Laid l (f₁ ++ f₂) z ∧
      u'.nblock = Function.update u.nblock c (u.nblock c % 32768) ∧ u'.pblock = u.pblock ∧
      ∀ b ∉ 0 :: (f₁ ++ c :: f₂ ++ [z]), u'.nfree b = u.nfree b ∧ u'.pfree b = u.pfree b := by
  have small := h.small
  have hc : c ∈ f₁ ++ c :: f₂ := by simp
  have next := h.nfree_mem (List.mem_cons_of_mem 0 hc)
  have prev := h.pfree_mem (List.mem_append_left [z] hc)
  have prev' : u.pfree c ∈ 0 :: (f₁ ++ c :: f₂ ++ [z]) := by
    rw [← List.cons_append]
    exact List.mem_append_left [z] prev
  have nlt := h.head_lt (h.free_head (List.mem_cons_of_mem 0 next))
  have plt := h.head_lt (h.free_head prev')
  have clt := h.head_lt (h.free_head (List.mem_cons_of_mem 0 (List.mem_append_left [z] hc)))
  have apart := h.frees.prev_ne h.nodup_frees (List.mem_append_left [z] hc)
  have n' : u.nfree c % 65536 = u.nfree c := Nat.mod_eq_of_lt (by omega)
  have p' : u.pfree c % 65536 = u.pfree c := Nat.mod_eq_of_lt (by omega)
  have a' : u.nblock c % 32768 % 65536 = u.nblock c % 32768 := Nat.mod_eq_of_lt (by omega)
  refine ⟨((u.setNfree (u.pfree c) (u.nfree c)).setPfree (u.nfree c) (u.pfree c)).setNblock c
    (u.nblock c % 32768),?_,?_,?_,?_,?_⟩
  · simp [ummDisconnectFromFreeList,load_eq,store_eq,clt,nlt,plt,apart.symm]
  · have := h.delist
    simpa [Laid,n',p',a'] using this
  · simp [a']
  · simp
  · rintro b hb
    have hn : b ≠ u.nfree c := fun e => hb (e ▸ List.mem_cons_of_mem 0 next)
    have hp : b ≠ u.pfree c := fun e => hb (e ▸ prev')
    simp [hn,hp]

theorem ummMakeNewBlock_spec (h : u.Laid (l₁ ++ c :: l₂) f z) (free : c ∈ f) (some_ : 0 < k)
    (inside : c + k < u.nblock c % 32768) :
    ∃ u', u.ummMakeNewBlock c k ummFreelistMask = some u' ∧ u'.Laid (l₁ ++ c :: (c + k) :: l₂) f z ∧
      u'.nblock = Function.update (Function.update u.nblock (c + k) (u.nblock c % 32768)) c
        (c + k + 32768) ∧
      (∀ b, b ≠ c + k → b ≠ u.nblock c % 32768 → u'.pblock b = u.pblock b) ∧
      u'.nfree = u.nfree ∧ u'.pfree = u.pfree := by
  have small := h.small
  have hc : c ∈ l₁ ++ c :: l₂ := by simp
  have clt := h.head_lt (List.mem_cons_of_mem 0 (List.mem_append_left [z] hc))
  have alt := h.head_lt (List.mem_cons_of_mem 0 (h.after_mem hc))
  have klt : c + k < n := inside.trans alt
  have apart : c ≠ c + k := by omega
  have a' : u.nblock c % 32768 % 65536 = u.nblock c % 32768 := Nat.mod_eq_of_lt (by omega)
  have k' : (c + k) % 65536 = c + k := Nat.mod_eq_of_lt (by omega)
  have c' : c % 65536 = c := Nat.mod_eq_of_lt (by omega)
  have m' : ((c + k) ||| ummFreelistMask) % 65536 = c + k + 32768 := by
    rw [or_ummFreelistMask (by omega)]
    omega
  refine ⟨(((u.setNblock (c + k) (u.nblock c % 32768)).setPblock (c + k) c).setPblock
    (u.nblock c % 32768) (c + k)).setNblock c ((c + k) ||| ummFreelistMask),?_,?_,?_,?_,?_,?_⟩
  · simp [ummMakeNewBlock,load_eq,store_eq,clt,alt,klt,Function.update_of_ne apart]
  · have := h.split free some_ inside
    simpa [Laid,a',k',c',m'] using this
  · simp [a',m']
  · intro b hk ha
    simp [hk,ha]
  · simp
  · simp

theorem newBlock_spec (h : u.Laid l f z) (some_ : 0 < k) (room : z + k < n) :
    ∃ u', u.newBlock z k = some u' ∧ u'.Laid (l ++ [z]) f (z + k) ∧
      (∀ b, b ≠ z → b ≠ z + k → u'.nblock b = u.nblock b ∧ u'.pblock b = u.pblock b) ∧
      u'.nblock z = z + k ∧
      ∀ b ∉ 0 :: f, b ≠ z + k → u'.nfree b = u.nfree b ∧ u'.pfree b = u.pfree b := by
  have small := h.small
  have zlt : z < n := by omega
  have klt : z + k < n := by omega
  have prev := h.pfree_mem (List.mem_append_right f (List.mem_singleton_self z))
  have plt : u.pfree z < n := by
    refine h.head_lt (h.free_head ?_)
    rw [← List.cons_append]
    exact List.mem_append_left [z] prev
  have k' : (z + k) % 65536 = z + k := Nat.mod_eq_of_lt (by omega)
  have z' : z % 65536 = z := Nat.mod_eq_of_lt (by omega)
  let w := u.setNfree (u.pfree z) (z + k)
  refine ⟨((w.update (z + k) fun _ => w.heap z).setNblock z (z + k)).setPblock (z + k) z,?_,?_,?_,?_,?_⟩
  · simp [newBlock,load_eq,store_eq,zlt,klt,plt,w]
  · have := h.extend some_ room
    simpa [Laid,w,k',z'] using this
  · intro b hz hk
    simp [w,hz,hk]
  · simp [k']
  · intro b hb hk
    have hp : b ≠ u.pfree z := fun e => hb (e ▸ prev)
    simp [w,hk,hp]

/-! ### The end of a block's use -/

/-- No block of the free list has another one behind it. -/
def Apart (u : Umm n) (f : List ℕ) : Prop := ∀ c ∈ f, u.nblock c % 32768 ∉ f

/-- The links that differ are those of the listed headers and bodies. -/
structure Stores (u u' : Umm n) (heads bodies : List ℕ) : Prop where
  nblock : ∀ b ∉ heads, u'.nblock b = u.nblock b
  pblock : ∀ b ∉ heads, u'.pblock b = u.pblock b
  nfree : ∀ b ∉ bodies, u'.nfree b = u.nfree b
  pfree : ∀ b ∉ bodies, u'.pfree b = u.pfree b

variable {u' u'' : Umm n} {H H' F F' : List ℕ}

theorem Stores.refl (u : Umm n) (H F : List ℕ) : Stores u u H F :=
  ⟨fun _ _ => rfl,fun _ _ => rfl,fun _ _ => rfl,fun _ _ => rfl⟩

theorem Stores.trans (h : Stores u u' H F) (h' : Stores u' u'' H' F') (hH : H' ⊆ H) (hF : F' ⊆ F) :
    Stores u u'' H F where
  nblock b hb := (h'.nblock b fun hb' => hb (hH hb')).trans (h.nblock b hb)
  pblock b hb := (h'.pblock b fun hb' => hb (hH hb')).trans (h.pblock b hb)
  nfree b hb := (h'.nfree b fun hb' => hb (hF hb')).trans (h.nfree b hb)
  pfree b hb := (h'.pfree b fun hb' => hb (hF hb')).trans (h.pfree b hb)

theorem Stores.mono (h : Stores u u' H' F') (hH : H' ⊆ H) (hF : F' ⊆ F) : Stores u u' H F :=
  (Stores.refl u H F).trans h hH hF

theorem Laid.unmarked (h : u.Laid l f z) (hc : c ∈ l) (used : c ∉ f) : u.nblock c < 32768 := by
  by_contra high
  exact used ((h.marked c hc).mp (by omega))

/-- The mark in a block's header tells whether it is free. -/
theorem Laid.mask_iff (h : u.Laid l f z) (hc : c ∈ 0 :: (l ++ [z])) :
    u.nblock c &&& ummFreelistMask ≠ 0 ↔ c ∈ f := by
  rw [and_ummFreelistMask]
  rcases List.mem_cons.mp hc with rfl | hc
  · rw [h.first]
    exact iff_of_false (by decide) fun mem => h.zero_notMem (h.subset mem)
  rcases List.mem_append.mp hc with hc | hc
  · rw [testBit_of_lt (h.word c hc),decide_eq_true_iff]
    exact h.marked c hc
  · rw [List.mem_singleton.mp hc,h.last]
    exact iff_of_false (by decide) fun mem => h.last_notMem (h.subset mem)

theorem heads_subset {m : List ℕ} (h : m ⊆ l) : 0 :: (m ++ [z]) ⊆ 0 :: (l ++ [z]) :=
  List.cons_subset_cons 0 (List.append_subset.mpr
    ⟨List.Subset.trans h (List.subset_append_left ..),List.subset_append_right ..⟩)

/-- The free block behind a block in use becomes part of it. -/
theorem ummAssimilateUp_spec (h : u.Laid l f z) (apart : u.Apart f) (hc : c ∈ l) (used : c ∉ f) :
    ∃ u' l' f', u.ummAssimilateUp c = some u' ∧ u'.Laid l' f' z ∧ u'.Apart f' ∧ c ∈ l' ∧ c ∉ f' ∧
      u'.nblock c % 32768 ∉ f' ∧ l' ⊆ l ∧ f' ⊆ f ∧
      (∀ x, x ∈ l' ∧ x ∉ f' ↔ x ∈ l ∧ x ∉ f) ∧
      Stores u u' (0 :: (l ++ [z])) (0 :: (f ++ [z])) ∧
      ∀ x ∈ l, x ∉ f → x ≠ c → u'.nblock x = u.nblock x := by
  have small := h.small
  have clt := h.head_lt (List.mem_cons_of_mem 0 (List.mem_append_left [z] hc))
  have low := h.unmarked hc used
  have next : u.nblock c % 32768 = u.nblock c := Nat.mod_eq_of_lt low
  have behind := h.after_mem hc
  rw [next] at behind
  have nlt := h.head_lt (List.mem_cons_of_mem 0 behind)
  have mask := h.mask_iff (List.mem_cons_of_mem 0 behind)
  by_cases free : u.nblock c ∈ f
  · obtain ⟨f₁,f₂,rfl⟩ := List.append_of_mem free
    obtain ⟨l₁,t,rfl⟩ := List.append_of_mem hc
    obtain ⟨-,path⟩ := Linked.path_append.mp h.blocks
    cases t with
    | nil =>
      have last := (Linked.path_nil.mp path).1
      simp only [next] at last
      exact absurd (h.subset free) (last ▸ h.last_notMem)
    | cons d l₂ =>
      obtain ⟨⟨hd,back⟩,-⟩ := Linked.path_cons.mp path
      simp only [next] at hd
      obtain ⟨w,eq,laid,nb,pb,bodies⟩ := ummDisconnectFromFreeList_spec h
      obtain rfl := hd
      have apart' : c ≠ u.nblock c := fun e => used (e ▸ free)
      have notFree : u.nblock c ∉ f₁ ++ f₂ := (List.nodup_cons.mp (List.nodup_middle.mp h.nodup)).1
      have sub : f₁ ++ f₂ ⊆ f₁ ++ u.nblock c :: f₂ :=
        (List.Sublist.append_left (List.sublist_cons_self ..) f₁).subset
      have alt := h.head_lt (List.mem_cons_of_mem 0 (h.after_mem (h.subset free)))
      have a' : u.nblock (u.nblock c) % 32768 % 65536 = u.nblock (u.nblock c) % 32768 :=
        Nat.mod_eq_of_lt (by omega)
      have c' : c % 65536 = c := Nat.mod_eq_of_lt (by omega)
      have wc : w.nblock c = u.nblock c := by rw [nb,Function.update_of_ne apart']
      have wn : w.nblock (u.nblock c) = u.nblock (u.nblock c) % 32768 := by rw [nb,Function.update_self]
      have split : l₁ ++ c :: u.nblock c :: l₂ = (l₁ ++ [c]) ++ u.nblock c :: l₂ := by simp
      rw [split] at laid
      have merged := laid.merge (v := u.nblock (u.nblock c) % 32768) notFree
        (by rw [pb,back]; exact (h.pos hc).ne') (by rw [wn]) (by
          rw [pb,back]
          exact iff_of_false (by omega) fun mem => used (sub mem)) (by omega)
      refine ⟨(w.setPblock (u.nblock (u.nblock c) % 32768) c).setNblock c
        (u.nblock (u.nblock c) % 32768),l₁ ++ [c] ++ l₂,f₁ ++ f₂,?_,?_,?_,by simp,fun mem => used (sub mem),
        ?_,?_,sub,?_,?_,?_⟩
      · have := mask.mpr free
        simp only [ummAssimilateUp,load_eq clt,Option.bind_eq_bind,Option.bind_some,load_eq nlt,if_pos this,
          eq,wc,wn,and_ummBlocknoMask,Nat.mod_mod,store_eq alt,setPblock_nblock,store_eq clt]
      · simpa [Laid,pb,back,a',c',wn] using merged
      · rintro x hx mem
        have ne : x ≠ c := fun e => used (sub (e ▸ hx))
        have ne' : x ≠ u.nblock c := fun e => notFree (e ▸ hx)
        rw [setNblock_nblock,Function.update_of_ne ne,setPblock_nblock,nb,Function.update_of_ne ne'] at mem
        exact apart x (sub hx) (sub mem)
      · rw [setNblock_nblock,Function.update_self,a',Nat.mod_mod]
        exact fun mem => apart _ free (sub mem)
      · intro x hx
        simp only [List.mem_append,List.mem_cons] at hx ⊢
        tauto
      · intro x
        have gone := (List.nodup_cons.mp (List.nodup_middle.mp (split ▸ h.nodup_blocks))).1
        constructor
        · rintro ⟨mem,nf⟩
          refine ⟨?_,fun mem' => ?_⟩
          · rw [split]
            simp only [List.mem_append,List.mem_cons] at mem ⊢
            tauto
          · simp only [List.mem_append,List.mem_cons] at mem' nf
            rcases mem' with mem' | rfl | mem'
            · exact nf (Or.inl mem')
            · exact gone mem
            · exact nf (Or.inr mem')
        · rintro ⟨mem,nf⟩
          refine ⟨?_,fun mem' => nf (sub mem')⟩
          have ne : x ≠ u.nblock c := fun e => nf (e ▸ free)
          simp only [List.mem_append,List.mem_cons] at mem ⊢
          tauto
      · have mem : u.nblock c ∈ l₁ ++ c :: u.nblock c :: l₂ := h.subset free
        have mem' := h.after_mem mem
        refine ⟨fun b hb => ?_,fun b hb => ?_,fun b hb => ?_,fun b hb => ?_⟩
        · have ne := ne_of_mem_of_not_mem (List.mem_cons_of_mem 0 (List.mem_append_left [z] hc)) hb
          have ne' := ne_of_mem_of_not_mem (List.mem_cons_of_mem 0 behind) hb
          rw [setNblock_nblock,Function.update_of_ne ne.symm,setPblock_nblock,nb,
            Function.update_of_ne ne'.symm]
        · have ne := ne_of_mem_of_not_mem (List.mem_cons_of_mem 0 mem') hb
          rw [setNblock_pblock,setPblock_pblock,Function.update_of_ne ne.symm,pb]
        · simp [(bodies b hb).1]
        · simp [(bodies b hb).2]
      · intro x hx hf hc
        have ne' : x ≠ u.nblock c := fun e => hf (e ▸ free)
        simp [nb,hc,ne']
  · refine ⟨u,l,f,?_,h,apart,hc,used,by rwa [next],List.Subset.refl l,List.Subset.refl f,fun _ => Iff.rfl,
      Stores.refl ..,fun _ _ _ _ => rfl⟩
    have := mt mask.mp free
    simp only [ummAssimilateUp,load_eq clt,Option.bind_eq_bind,Option.bind_some,load_eq nlt,if_neg this]
    rfl

/-- A block in use becomes part of the free one before it. -/
theorem ummAssimilateDown_spec (h : u.Laid (l₁ ++ c :: l₂) f z) (apart : u.Apart f) (used : c ∉ f)
    (free : u.pblock c ∈ f) (behind : u.nblock c % 32768 ∉ f) :
    ∃ u', u.ummAssimilateDown c ummFreelistMask = some (u',u.pblock c) ∧ u'.Laid (l₁ ++ l₂) f z ∧
      u'.Apart f ∧ Stores u u' (0 :: (l₁ ++ c :: l₂ ++ [z])) [] ∧
      ∀ x ∉ f, u'.nblock x = u.nblock x := by
  have small := h.small
  have hc : c ∈ l₁ ++ c :: l₂ := by simp
  have clt := h.head_lt (List.mem_cons_of_mem 0 (List.mem_append_left [z] hc))
  have low := h.unmarked hc used
  have next : u.nblock c % 32768 = u.nblock c := Nat.mod_eq_of_lt low
  have next_mem := h.after_mem hc
  rw [next] at next_mem behind
  have nlt := h.head_lt (List.mem_cons_of_mem 0 next_mem)
  have pmem := h.subset free
  have plt := h.head_lt (List.mem_cons_of_mem 0 (List.mem_append_left [z] pmem))
  have ne : c ≠ u.pblock c := fun e => used (e ▸ free)
  have ne' : c ≠ u.nblock c := (next ▸ h.lt_after hc).ne
  have v' : (u.nblock c ||| ummFreelistMask) % 65536 = u.nblock c + 32768 := by
    rw [or_ummFreelistMask low]
    omega
  have p' : u.pblock c % 65536 = u.pblock c := Nat.mod_eq_of_lt (by omega)
  have merged := h.merge (v := u.nblock c + 32768) used (h.pos pmem).ne' (by omega)
    (iff_of_true (by omega) free) (by omega)
  refine ⟨(u.setNblock (u.pblock c) (u.nblock c ||| ummFreelistMask)).setPblock (u.nblock c) (u.pblock c),
    ?_,?_,?_,?_,?_⟩
  · simp [ummAssimilateDown,load_eq,store_eq,clt,nlt,plt,Function.update_of_ne ne,Function.update_of_ne ne']
  · simpa [Laid,v',p',next] using merged
  · intro x hx
    by_cases e : x = u.pblock c
    · subst e
      simpa [v',next] using behind
    · simpa [e] using apart x hx
  · refine ⟨fun b hb => ?_,fun b hb => ?_,fun b _ => by simp,fun b _ => by simp⟩
    · have nep := ne_of_mem_of_not_mem (List.mem_cons_of_mem 0 (List.mem_append_left [z] pmem)) hb
      simp [nep.symm]
    · have nen := ne_of_mem_of_not_mem (List.mem_cons_of_mem 0 next_mem) hb
      simp [nen.symm]
  · intro x hx
    have nep : x ≠ u.pblock c := fun e => hx (e ▸ free)
    simp [nep]

/-- A block in use becomes the first one of the free list. -/
theorem addToFreeList_spec (h : u.Laid l f z) (apart : u.Apart f) (hc : c ∈ l) (used : c ∉ f)
    (notFree : u.pblock c ∉ f) (behind : u.nblock c % 32768 ∉ f) :
    ∃ u', u.addToFreeList c = some u' ∧ u'.Laid l (c :: f) z ∧ u'.Apart (c :: f) ∧
      Stores u u' (0 :: (l ++ [z])) (c :: 0 :: (f ++ [z])) ∧
      ∀ x, x ≠ c → u'.nblock x = u.nblock x := by
  have small := h.small
  have clt := h.head_lt (List.mem_cons_of_mem 0 (List.mem_append_left [z] hc))
  have zlt := h.head_lt (List.mem_cons_self (a := 0))
  have low := h.unmarked hc used
  have next := h.nfree_mem (List.mem_cons_self (a := 0))
  have nlt := h.head_lt (h.free_head (List.mem_cons_of_mem 0 next))
  have pos := (h.pos hc).ne'
  have v' : (u.nblock c ||| ummFreelistMask) % 65536 = u.nblock c + 32768 := by
    rw [or_ummFreelistMask low]
    omega
  have n' : u.nfree 0 % 65536 = u.nfree 0 := Nat.mod_eq_of_lt (by omega)
  have c' : c % 65536 = c := Nat.mod_eq_of_lt (by omega)
  refine ⟨((((u.setPfree (u.nfree 0) c).setNfree c (u.nfree 0)).setPfree c 0).setNfree 0 c).setNblock c
    (u.nblock c ||| ummFreelistMask),?_,?_,?_,?_,?_⟩
  · simp [addToFreeList,load_eq,store_eq,clt,zlt,nlt]
  · have := h.enlist hc used
    simpa [Laid,v',n',c'] using this
  · intro x hx mem
    rcases List.mem_cons.mp hx with rfl | hx
    · have after : (u.nblock x + 32768) % 32768 = u.nblock x % 32768 := by simp
      rw [setNblock_nblock,Function.update_self,v',after] at mem
      rcases List.mem_cons.mp mem with e | mem
      · exact (h.lt_after hc).ne' e
      · exact behind mem
    · have ne : x ≠ c := fun e => used (e ▸ hx)
      simp only [setNblock_nblock,Function.update_of_ne ne,setNfree_nblock,setPfree_nblock] at mem
      rcases List.mem_cons.mp mem with e | mem
      · have back := h.blocks.prev_next_of_mem (List.mem_cons_of_mem 0 (h.subset hx))
        have : u.pblock c = x := e ▸ back
        exact notFree (this ▸ hx)
      · exact apart x hx mem
  · refine ⟨fun b hb => ?_,fun b hb => by simp,fun b hb => ?_,fun b hb => ?_⟩
    · have ne := ne_of_mem_of_not_mem (List.mem_cons_of_mem 0 (List.mem_append_left [z] hc)) hb
      simp [ne.symm]
    · have ne := ne_of_mem_of_not_mem (List.mem_cons_self (a := c)) hb
      have ne' := ne_of_mem_of_not_mem (List.mem_cons_of_mem c (List.mem_cons_self (a := 0))) hb
      simp [ne.symm,ne'.symm]
    · have ne := ne_of_mem_of_not_mem (List.mem_cons_self (a := c)) hb
      have ne' := ne_of_mem_of_not_mem (List.mem_cons_of_mem c (List.mem_cons_of_mem 0 next)) hb
      simp [ne.symm,ne'.symm]
  · intro x hx
    simp [hx]

theorem freeBlock_spec (h : u.Laid l f z) (apart : u.Apart f) (hc : c ∈ l) (used : c ∉ f) :
    ∃ u' l' f', u.freeBlock c = some u' ∧ u'.Laid l' f' z ∧ u'.Apart f' ∧
      (∀ x, x ∈ l' ∧ x ∉ f' ↔ (x ∈ l ∧ x ∉ f) ∧ x ≠ c) ∧
      l' ⊆ l ∧ f' ⊆ c :: f ∧
      Stores u u' (0 :: (l ++ [z])) (c :: 0 :: (f ++ [z])) ∧
      ∀ x ∈ l, x ∉ f → x ≠ c → u'.nblock x = u.nblock x := by
  obtain ⟨w,m,g,eq,laid,apart',mem,used',behind,subl,subf,same,stores,others⟩ :=
    ummAssimilateUp_spec h apart hc used
  have small := h.small
  have clt := laid.head_lt (List.mem_cons_of_mem 0 (List.mem_append_left [z] mem))
  have pmem := laid.pblock_mem (List.mem_append_left [z] mem)
  have pmem' : w.pblock c ∈ 0 :: (m ++ [z]) := by
    rw [← List.cons_append]
    exact List.mem_append_left [z] pmem
  have plt := laid.head_lt pmem'
  have mask := laid.mask_iff pmem'
  by_cases free : w.pblock c ∈ g
  · obtain ⟨l₁,l₂,rfl⟩ := List.append_of_mem mem
    obtain ⟨u',eq',laid',apart'',stores',others'⟩ :=
      ummAssimilateDown_spec laid apart' used' free behind
    refine ⟨u',l₁ ++ l₂,g,?_,laid',apart'',?_,?_,?_,?_,?_⟩
    · have := mask.mpr free
      simp only [freeBlock,eq,Option.bind_eq_bind,Option.bind_some,load_eq clt,load_eq plt,if_pos this,eq']
      rfl
    · intro x
      have gone := (List.nodup_cons.mp (List.nodup_middle.mp laid.nodup_blocks)).1
      rw [← same x]
      constructor
      · rintro ⟨mem',nf⟩
        refine ⟨⟨?_,nf⟩,fun e => gone (e ▸ mem')⟩
        simp only [List.mem_append,List.mem_cons] at mem' ⊢
        tauto
      · rintro ⟨⟨mem',nf⟩,ne⟩
        refine ⟨?_,nf⟩
        simp only [List.mem_append,List.mem_cons] at mem' ⊢
        tauto
    · exact fun x hx => subl (by simp only [List.mem_append,List.mem_cons] at hx ⊢; tauto)
    · exact fun x hx => List.mem_cons_of_mem c (subf hx)
    · refine (stores.mono (List.Subset.refl _) (List.subset_cons_self c _)).trans stores'
        (heads_subset subl) (List.nil_subset _)
    · intro x hx hf ne
      rw [others' x ((same x).mpr ⟨hx,hf⟩).2,others x hx hf ne]
  · obtain ⟨u',eq',laid',apart'',stores',others'⟩ := addToFreeList_spec laid apart' mem used' free behind
    refine ⟨u',m,c :: g,?_,laid',apart'',?_,subl,List.cons_subset_cons c subf,?_,?_⟩
    · have := mt mask.mp free
      simp only [freeBlock,eq,Option.bind_eq_bind,Option.bind_some,load_eq clt,load_eq plt,if_neg this]
      exact eq'
    · intro x
      rw [← same x,List.mem_cons,not_or]
      tauto
    · refine (stores.mono (List.Subset.refl _) (List.subset_cons_self c _)).trans stores'
        (heads_subset subl) (List.cons_subset_cons c (heads_subset subf))
    · intro x hx hf ne
      rw [others' x ne,others x hx hf ne]

end Umm
end Brtos
