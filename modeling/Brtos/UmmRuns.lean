import Brtos.Library.Run
import Brtos.UmmSearch

/-! The allocator and its clients: whatever the clients ask for, give back and store, the calls return, the
regions they hold are apart, and what they have stored there stays. -/
namespace Brtos
namespace Umm
variable {n : ℕ}

/-! ### The heap as bytes -/

/-- The sixteen-bit words of a block. -/
def word (b : UmmBlock) : ℕ → ℕ
  | 0 => b.next
  | 1 => b.prev
  | 2 => b.freeNext
  | _ => b.freePrev

def setWord (b : UmmBlock) (i v : ℕ) : UmmBlock :=
  match i with
  | 0 => {b with next := v}
  | 1 => {b with prev := v}
  | 2 => {b with freeNext := v}
  | _ => {b with freePrev := v}

/-- The byte at an offset from the start of the heap. -/
def peek (u : Umm n) (a : ℕ) : ℕ :=
  word (u.heap (a / 8)) (a % 8 / 2) / 256 ^ (a % 2) % 256

/-- A word with another low or high byte. -/
def setByte (w i v : ℕ) : ℕ := if i = 0 then w / 256 * 256 + v % 256 else w % 256 + v % 256 * 256

def poke (u : Umm n) (a v : ℕ) : Umm n :=
  u.update (a / 8) fun b => setWord b (a % 8 / 2) (setByte (word b (a % 8 / 2)) (a % 2) v)

variable {u u' : Umm n} {a b i j v w c z : ℕ} {H F l f : List ℕ}

theorem word_setWord (x : UmmBlock) (hi : i < 4) (hj : j < 4) :
    word (setWord x i v) j = if j = i then v else word x j := by
  interval_cases i <;> interval_cases j <;> rfl

theorem setByte_byte (hi : i < 2) (hj : j < 2) :
    setByte w i v / 256 ^ j % 256 = if j = i then v % 256 else w / 256 ^ j % 256 := by
  interval_cases i <;> interval_cases j <;> simp [setByte] <;> omega

theorem poke_peek : (u.poke a v).peek b = if b = a then v % 256 else u.peek b := by
  unfold peek poke update
  by_cases block : b / 8 = a / 8
  · simp only [block,Function.update_self,word_setWord _ (show a % 8 / 2 < 4 by omega)
      (show b % 8 / 2 < 4 by omega)]
    by_cases field : b % 8 / 2 = a % 8 / 2
    · rw [if_pos field,field,setByte_byte (Nat.mod_lt a two_pos) (Nat.mod_lt b two_pos)]
      exact if_congr (by omega) rfl rfl
    · rw [if_neg field,if_neg (by omega)]
  · simp only [Function.update_of_ne block]
    rw [if_neg (by omega)]

/-- What is stored elsewhere does not show in a byte. -/
theorem Stores.peek (h : Stores u u' H F) (head : a % 8 < 4 → a / 8 ∉ H) (body : 4 ≤ a % 8 → a / 8 ∉ F) :
    u'.peek a = u.peek a := by
  have same : word (u'.heap (a / 8)) (a % 8 / 2) = word (u.heap (a / 8)) (a % 8 / 2) := by
    have := Nat.mod_lt a (show 0 < 8 by omega)
    rcases Nat.lt_or_ge (a % 8) 4 with lt | ge
    · rcases Nat.lt_or_ge (a % 8) 2 with lt' | ge
      · rw [show a % 8 / 2 = 0 by omega]
        exact h.nblock _ (head lt)
      · rw [show a % 8 / 2 = 1 by omega]
        exact h.pblock _ (head lt)
    · rcases Nat.lt_or_ge (a % 8) 6 with lt | ge'
      · rw [show a % 8 / 2 = 2 by omega]
        exact h.nfree _ (body ge)
      · rw [show a % 8 / 2 = 3 by omega]
        exact h.pfree _ (body ge)
  unfold Umm.peek
  rw [same]

/-- A byte's store is one to a header or to a body. -/
theorem poke_stores (u : Umm n) (a v : ℕ) : Stores u (u.poke a v) (if a % 8 < 4 then [a / 8] else [])
    (if a % 8 < 4 then [] else [a / 8]) := by
  have other : ∀ b j, j < 4 → (b = a / 8 → j ≠ a % 8 / 2) →
      word ((u.poke a v).heap b) j = word (u.heap b) j := fun b j hj ne => by
    unfold poke update
    by_cases e : b = a / 8
    · subst e
      simp only [Function.update_self]
      rw [word_setWord _ (by omega) hj,if_neg (ne rfl)]
    · simp only [Function.update_of_ne e]
  have head : ∀ b ∉ (if a % 8 < 4 then [a / 8] else []), b = a / 8 → 2 ≤ a % 8 / 2 := fun b hb e => by
    split_ifs at hb with low
    · exact absurd (List.mem_singleton.mpr e) hb
    · omega
  have body : ∀ b ∉ (if a % 8 < 4 then [] else [a / 8]), b = a / 8 → a % 8 / 2 < 2 := fun b hb e => by
    split_ifs at hb with low
    · omega
    · exact absurd (List.mem_singleton.mpr e) hb
  exact {
    nblock := fun b hb => other b 0 (by omega) fun e => by have := head b hb e; omega
    pblock := fun b hb => other b 1 (by omega) fun e => by have := head b hb e; omega
    nfree := fun b hb => other b 2 (by omega) fun e => by have := body b hb e; omega
    pfree := fun b hb => other b 3 (by omega) fun e => by have := body b hb e; omega }

/-- The layout is in the headers and in the bodies of the free blocks. -/
theorem Laid.congr (h : u.Laid l f z) (stores : Stores u u' H F) (heads : ∀ b ∈ 0 :: (l ++ [z]), b ∉ H)
    (bodies : ∀ b ∈ 0 :: (f ++ [z]), b ∉ F) : u'.Laid l f z := by
  have zero := heads 0 List.mem_cons_self
  have last : z ∈ 0 :: (l ++ [z]) := by simp
  have inner : ∀ b ∈ l, b ∉ H := fun b hb =>
    heads b (List.mem_cons_of_mem 0 (List.mem_append_left [z] hb))
  exact {
    blocks := by
      refine h.blocks.congr (fun b hb => ?_) fun b hb => ?_
      · have : b ∈ 0 :: (l ++ [z]) := by
          rw [← List.cons_append]
          exact List.mem_append_left [z] hb
        rw [stores.nblock b (heads b this)]
      · exact stores.pblock b (heads b (List.mem_cons_of_mem 0 hb))
    frees := by
      refine h.frees.congr (fun b hb => ?_) fun b hb => ?_
      · have : b ∈ 0 :: (f ++ [z]) := by
          rw [← List.cons_append]
          exact List.mem_append_left [z] hb
        exact stores.nfree b (bodies b this)
      · exact stores.pfree b (bodies b (List.mem_cons_of_mem 0 hb))
    sorted := h.sorted
    small := h.small
    room := h.room
    last := by rw [stores.nblock z (heads z last),h.last]
    lastFree := by rw [stores.nfree z (bodies z (by simp)),h.lastFree]
    first := by rw [stores.nblock 0 zero,h.first]
    nodup := h.nodup
    subset := h.subset
    marked := fun b hb => by rw [stores.nblock b (inner b hb),h.marked b hb]
    word := fun b hb => by rw [stores.nblock b (inner b hb)]; exact h.word b hb }

end Umm

/-- A region that a client holds: where it begins and how many bytes have been asked for. -/
structure Region where
  ptr : ℕ
  size : ℕ
  deriving Repr,DecidableEq

def Region.Has (r : Region) (a : ℕ) : Prop := r.ptr ≤ a ∧ a < r.ptr + r.size

instance (r : Region) (a : ℕ) : Decidable (r.Has a) := inferInstanceAs (Decidable (_ ∧ _))

/-- The heap, the regions that are in use, what has been stored there by those who use them, and the end of
the highest block that has been in use so far. -/
structure World (n : ℕ) where
  heap : Umm n
  held : List Region
  wrote : ℕ → Option ℕ
  top : ℕ

/-- What the clients of the allocator do. -/
inductive Use
  | malloc (size : ℕ)
  | free (ptr : Option ℕ)
  | store (a v : ℕ)
  deriving Repr,DecidableEq

namespace World
variable {n : ℕ}

def start (n : ℕ) : World n := ⟨Umm.zero n,[],fun _ => none,0⟩

/-- Clients free what they hold, once, and store nowhere else. The number of blocks of a request fits its
sixteen bits. -/
def Allowed (w : World n) : Use → Prop
  | .malloc size => size < 524277
  | .free none => True
  | .free (some p) => ∃ r ∈ w.held, r.ptr = p
  | .store a _ => ∃ r ∈ w.held, r.Has a

instance (w : World n) (x : Use) : Decidable (w.Allowed x) := by
  rcases x with _ | ⟨_ | _⟩ | _ <;> unfold Allowed <;> infer_instance

/-- A region has been given out; what it holds is not its new owner's. -/
def hand (w : World n) (u : Umm n) (size p : ℕ) : World n where
  heap := u
  held := ⟨p,size⟩ :: w.held
  wrote a := if (Region.mk p size).Has a then none else w.wrote a
  top := max w.top (p / 8 + Umm.ummBlocks size)

def perform (fit : Fit) (w : World n) : Use → Option (World n)
  | .malloc size => do
    match ← w.heap.ummMalloc fit size with
    | (u,none) => return {w with heap := u}
    | (u,some p) => return w.hand u size p
  | .free p => do
    return {w with heap := ← w.heap.ummFree p,held := w.held.filter fun r => some r.ptr ≠ p}
  | .store a v =>
    some {w with heap := w.heap.poke a v,wrote := Function.update w.wrote a (some (v % 256))}

variable {fit : Fit} {w w' : World n} {l f : List ℕ} {z c : ℕ} {r s : Region} {a v : ℕ} {x : Use}

/-- The states that the clients' calls and stores lead to. -/
def Reached (fit : Fit) (w : World n) : Prop := Run.Reach (perform fit) Allowed (start n) w

/-- The blocks in use are the ones that are held, each of the size that has been asked for, and what has
been stored there is there. -/
structure Kept (w : World n) (l f : List ℕ) (z : ℕ) : Prop where
  laid : w.heap.Laid l f z
  top : w.top = z
  apart : w.heap.Apart f
  used : ∀ c, c ∈ l ∧ c ∉ f ↔ ∃ r ∈ w.held, r.ptr = Umm.data c
  size : ∀ r ∈ w.held, ∀ c, r.ptr = Umm.data c → w.heap.nblock c = c + Umm.ummBlocks r.size
  asked : ∀ r ∈ w.held, 0 < r.size ∧ r.size < 524277
  data : ∀ r ∈ w.held, ∃ c, r.ptr = Umm.data c
  distinct : w.held.Pairwise fun r s => r.ptr ≠ s.ptr
  wrote : ∀ r ∈ w.held, ∀ a, r.Has a → ∀ v, w.wrote a = some v → w.heap.peek a = v

theorem ummBlocks_enough {size : ℕ} (fits : size < 524277) : size + 4 ≤ 8 * Umm.ummBlocks size := by
  unfold Umm.ummBlocks
  split_ifs <;> omega

/-- Where the bytes of a region are. -/
theorem Kept.has (h : w.Kept l f z) (hr : r ∈ w.held) (ptr : r.ptr = Umm.data c) (ha : r.Has a) :
    a / 8 = c ∧ 4 ≤ a % 8 ∨ c < a / 8 ∧ a / 8 < w.heap.nblock c := by
  have size := h.size r hr c ptr
  have enough := ummBlocks_enough (h.asked r hr).2
  obtain ⟨lo,hi⟩ := ha
  rw [ptr] at lo hi
  unfold Umm.data at lo hi
  omega

theorem Kept.block (h : w.Kept l f z) (hr : r ∈ w.held) (ptr : r.ptr = Umm.data c) : c ∈ l ∧ c ∉ f :=
  (h.used c).mpr ⟨r,hr,ptr⟩

theorem Kept.after (h : w.Kept l f z) (hr : r ∈ w.held) (ptr : r.ptr = Umm.data c) :
    w.heap.nblock c % 32768 = w.heap.nblock c := by
  obtain ⟨mem,used⟩ := h.block hr ptr
  exact Nat.mod_eq_of_lt (h.laid.unmarked mem used)

/-- No link of another block is in a region. -/
theorem Kept.outside (h : w.Kept l f z) (hr : r ∈ w.held) (ptr : r.ptr = Umm.data c) (ha : r.Has a)
    {b : ℕ} (hb : b ∈ 0 :: (l ++ [z])) (same : a / 8 = b) : b = c := by
  rcases h.has hr ptr ha with ⟨e,-⟩ | ⟨lt,lt'⟩
  · omega
  · obtain ⟨mem,-⟩ := h.block hr ptr
    rcases List.mem_cons.mp hb with rfl | hb
    · omega
    · have := h.laid.no_between mem hb (by omega)
      rw [h.after hr ptr] at this
      omega

/-- The bytes of a region that no store touches. -/
theorem Kept.peek (h : w.Kept l f z) {u : Umm n} {H F : List ℕ} (stores : Umm.Stores w.heap u H F)
    (hr : r ∈ w.held) (ptr : r.ptr = Umm.data c)
    (heads : ∀ b ∈ H, c < b → w.heap.nblock c ≤ b) (bodies : ∀ b ∈ F, c ≤ b → w.heap.nblock c ≤ b)
    (ha : r.Has a) : u.peek a = w.heap.peek a := by
  obtain ⟨mem,-⟩ := h.block hr ptr
  have after := h.laid.lt_after mem
  rw [h.after hr ptr] at after
  refine stores.peek (fun low mem => ?_) fun high mem => ?_
  · rcases h.has hr ptr ha with ⟨-,ge⟩ | ⟨lt,lt'⟩
    · omega
    · exact absurd (heads _ mem lt) (by omega)
  · rcases h.has hr ptr ha with ⟨e,-⟩ | ⟨lt,lt'⟩
    · exact absurd (bodies _ mem e.ge) (by omega)
    · exact absurd (bodies _ mem lt.le) (by omega)

/-- Regions are apart. -/
theorem Kept.separate (h : w.Kept l f z) (hr : r ∈ w.held) (hs : s ∈ w.held) (ne : r.ptr ≠ s.ptr)
    (ha : r.Has a) : ¬ s.Has a := by
  intro ha'
  obtain ⟨c,pc⟩ := h.data r hr
  obtain ⟨d,pd⟩ := h.data s hs
  have inside := h.has hr pc ha
  have inside' := h.has hs pd ha'
  obtain ⟨mc,-⟩ := h.block hr pc
  obtain ⟨md,-⟩ := h.block hs pd
  have hc := h.outside hr pc ha (b := d) (by simp [md])
  have hd := h.outside hs pd ha' (b := c) (by simp [mc])
  have ac := h.after hr pc
  have ad := h.after hs pd
  have ne : c ≠ d := fun e => ne (by rw [pc,pd,e])
  rcases Nat.lt_or_gt_of_ne ne with lt | lt
  · have := h.laid.no_between mc (List.mem_append_left [z] md) lt
    omega
  · have := h.laid.no_between md (List.mem_append_left [z] mc) lt
    omega

/-- No header stands between the one of a region and its end. -/
theorem Kept.behind (h : w.Kept l f z) (hr : r ∈ w.held) (ptr : r.ptr = Umm.data c) {b : ℕ}
    (hb : b ∈ 0 :: (l ++ [z])) (lt : c < b) : w.heap.nblock c ≤ b := by
  rcases List.mem_cons.mp hb with rfl | hb
  · exact absurd lt (Nat.not_lt_zero c)
  · rw [← h.after hr ptr]
    exact h.laid.no_between (h.block hr ptr).1 hb lt

theorem Kept.body (h : w.Kept l f z) (hr : r ∈ w.held) (ptr : r.ptr = Umm.data c) {b : ℕ}
    (hb : b ∈ 0 :: (f ++ [z])) (le : c ≤ b) : w.heap.nblock c ≤ b := by
  obtain ⟨mem,used⟩ := h.block hr ptr
  refine h.behind hr ptr (h.laid.free_head hb) (lt_of_le_of_ne le fun e => ?_)
  subst e
  rcases List.mem_cons.mp hb with rfl | hb
  · exact h.laid.zero_notMem mem
  rcases List.mem_append.mp hb with hb | hb
  · exact used hb
  · exact h.laid.last_notMem (List.mem_singleton.mp hb ▸ mem)

theorem data_inj {c d : ℕ} (h : Umm.data c = Umm.data d) : c = d := by
  unfold Umm.data at h
  omega

/-- A store to a region is one to no link. -/
theorem Kept.store (h : w.Kept l f z) (hr : r ∈ w.held) (ha : r.Has a) (v : ℕ) :
    Kept {w with heap := w.heap.poke a v,wrote := Function.update w.wrote a (some (v % 256))} l f z := by
  obtain ⟨c,ptr⟩ := h.data r hr
  have stores := Umm.poke_stores w.heap a v
  have heads : ∀ b ∈ 0 :: (l ++ [z]), b ∉ (if a % 8 < 4 then [a / 8] else []) := fun b hb mem => by
    split_ifs at mem with low
    · have e := List.mem_singleton.mp mem
      have := h.outside hr ptr ha hb e.symm
      have := h.has hr ptr ha
      omega
    · exact List.not_mem_nil mem
  have bodies : ∀ b ∈ 0 :: (f ++ [z]), b ∉ (if a % 8 < 4 then [] else [a / 8]) := fun b hb mem => by
    split_ifs at mem with low
    · exact List.not_mem_nil mem
    · have e := List.mem_singleton.mp mem
      have e' := h.outside hr ptr ha (h.laid.free_head hb) e.symm
      have := h.body hr ptr hb e'.ge
      have := h.size r hr c ptr
      have := Umm.ummBlocks_pos (h.asked r hr).2
      omega
  have same : ∀ b ∈ l, (w.heap.poke a v).nblock b = w.heap.nblock b := fun b hb =>
    stores.nblock b (heads b (List.mem_cons_of_mem 0 (List.mem_append_left [z] hb)))
  exact {
    laid := h.laid.congr stores heads bodies
    top := h.top
    apart := fun b hb => by
      rw [same b (h.laid.subset hb)]
      exact h.apart b hb
    used := h.used
    size := fun s hs d pd => by rw [same d (h.block hs pd).1,h.size s hs d pd]
    asked := h.asked
    data := h.data
    distinct := h.distinct
    wrote := fun s hs b hb u hu => by
      have hu : Function.update w.wrote a (some (v % 256)) b = some u := hu
      rw [Umm.poke_peek]
      by_cases e : b = a
      · subst e
        rw [Function.update_self] at hu
        rw [if_pos rfl]
        exact Option.some.inj hu
      · rw [Function.update_of_ne e] at hu
        rw [if_neg e]
        exact h.wrote s hs b hb u hu }

/-- A call of `umm_free` for a pointer that is held returns, and only its region is given back. -/
theorem Kept.free (h : w.Kept l f z) (hr : r ∈ w.held) : ∃ u l' f',
    w.heap.ummFree (some r.ptr) = some u ∧
      Kept {w with heap := u,held := w.held.filter fun s => some s.ptr ≠ some r.ptr} l' f' z := by
  obtain ⟨c,ptr⟩ := h.data r hr
  obtain ⟨mem,used⟩ := h.block hr ptr
  obtain ⟨u,l',f',eq,laid,apart,used',-,-,stores,others⟩ := Umm.freeBlock_spec h.laid h.apart mem used
  have clt := h.laid.head_lt (List.mem_cons_of_mem 0 (List.mem_append_left [z] mem))
  have small := h.laid.small
  have block : r.ptr / 8 % 65536 = c := by
    rw [ptr]
    unfold Umm.data
    omega
  have left : ∀ s ∈ w.held.filter (fun s => some s.ptr ≠ some r.ptr), s ∈ w.held ∧ s.ptr ≠ r.ptr :=
    fun s hs => by simpa using hs
  have ne : ∀ s ∈ w.held, s.ptr ≠ r.ptr → ∀ d, s.ptr = Umm.data d → d ≠ c := fun s _ ne d pd e =>
    ne (by rw [pd,ptr,e])
  refine ⟨u,l',f',?_,?_⟩
  · simp only [Umm.ummFree,block,eq]
  exact {
    laid := laid
    top := h.top
    apart := apart
    used := fun d => by
      rw [used' d,h.used d]
      constructor
      · rintro ⟨⟨s,hs,pd⟩,ne⟩
        have : s.ptr ≠ r.ptr := fun e => ne (data_inj (by rw [← pd,e,ptr]))
        exact ⟨s,by simpa using ⟨hs,this⟩,pd⟩
      · rintro ⟨s,hs,pd⟩
        obtain ⟨hs,apart⟩ := left s hs
        exact ⟨⟨s,hs,pd⟩,ne s hs apart d pd⟩
    size := fun s hs d pd => by
      obtain ⟨hs,apart⟩ := left s hs
      obtain ⟨md,ud⟩ := h.block hs pd
      exact (others d md ud (ne s hs apart d pd)).trans (h.size s hs d pd)
    asked := fun s hs => h.asked s (left s hs).1
    data := fun s hs => h.data s (left s hs).1
    distinct := h.distinct.filter _
    wrote := fun s hs b hb v hv => by
      obtain ⟨hs,apart⟩ := left s hs
      obtain ⟨d,pd⟩ := h.data s hs
      have same := h.peek stores hs pd (fun b mem => h.behind hs pd mem) (fun b mem' le => by
        rcases List.mem_cons.mp mem' with rfl | mem'
        · exact h.behind hs pd (List.mem_cons_of_mem 0 (List.mem_append_left [z] mem))
            (lt_of_le_of_ne le (ne s hs apart d pd))
        · exact h.body hs pd mem' le) hb
      exact same.trans (h.wrote s hs b hb v hv) }

/-- The region that a call of `umm_malloc` hands out. -/
theorem Kept.hand (h : w.Kept l f z) {u : Umm n} {size : ℕ} {l' f' : List ℕ} {z' : ℕ} (pos : 0 < size)
    (fits : size < 524277) (gives : Umm.Gives w.heap u l f z c (Umm.ummBlocks size) l' f' z')
    (end_ : z' = z ∧ c + Umm.ummBlocks size ≤ z ∨ z' = c + Umm.ummBlocks size ∧ z ≤ z') :
    (w.hand u size (Umm.data c)).Kept l' f' z' := by
  have fresh : ∀ s ∈ w.held, s.ptr ≠ Umm.data c := fun s hs e => gives.new ((h.used c).mpr ⟨s,hs,e⟩)
  have mine : c ∈ l' ∧ c ∉ f' := (gives.held c).mpr (Or.inr rfl)
  exact {
    laid := gives.laid
    top := by
      have : Umm.data c / 8 = c := by
        unfold Umm.data
        omega
      simp only [World.hand,this,h.top]
      omega
    apart := gives.apart
    used := fun d => by
      rw [gives.held d,h.used d]
      constructor
      · rintro (⟨s,hs,pd⟩ | rfl)
        · exact ⟨s,List.mem_cons_of_mem _ hs,pd⟩
        · exact ⟨_,List.mem_cons_self,rfl⟩
      · rintro ⟨s,hs,pd⟩
        rcases List.mem_cons.mp hs with rfl | hs
        · exact Or.inr (data_inj pd).symm
        · exact Or.inl ⟨s,hs,pd⟩
    size := fun s hs d pd => by
      rcases List.mem_cons.mp hs with rfl | hs
      · obtain rfl := data_inj pd
        exact gives.size
      · obtain ⟨md,ud⟩ := h.block hs pd
        exact (gives.others d md ud).trans (h.size s hs d pd)
    asked := fun s hs => by
      rcases List.mem_cons.mp hs with rfl | hs
      · exact ⟨pos,fits⟩
      · exact h.asked s hs
    data := fun s hs => by
      rcases List.mem_cons.mp hs with rfl | hs
      · exact ⟨c,rfl⟩
      · exact h.data s hs
    distinct := List.pairwise_cons.mpr ⟨fun s hs => (fresh s hs).symm,h.distinct⟩
    wrote := fun s hs b hb v hv => by
      dsimp only [World.hand] at hv
      split_ifs at hv with new
      rcases List.mem_cons.mp hs with rfl | hs
      · exact absurd hb new
      obtain ⟨d,pd⟩ := h.data s hs
      obtain ⟨md,ud⟩ := h.block hs pd
      obtain ⟨md',ud'⟩ := (gives.held d).mpr (Or.inl ⟨md,ud⟩)
      have kept := gives.others d md ud
      have later : ∀ b ∈ l' ++ [z'], d < b → w.heap.nblock d ≤ b := fun b mem lt => by
        have := gives.laid.no_between md' mem lt
        rwa [kept,h.after hs pd] at this
      have end_ : d < z' := gives.laid.lt_last md'
      have same := h.peek gives.stores hs pd (fun b mem lt => by
        rcases List.mem_cons.mp mem with rfl | mem
        · exact later b (List.mem_append_left [z'] mine.1) lt
        rcases List.mem_cons.mp mem with rfl | mem
        · exact later b (by simp) lt
        · exact h.behind hs pd mem lt) (fun b mem le => by
        rcases List.mem_cons.mp mem with rfl | mem
        · exact later b (by simp) end_
        · exact h.body hs pd mem le) hb
      exact same.trans (h.wrote s hs b hb v hv) }

/-- A heap that is initialised and not used. -/
theorem Kept.empty {u : Umm n} (laid : u.Laid [] [] 1) (held : w.held = []) :
    Kept {w with heap := u,top := 1} [] [] 1 where
  laid := laid
  top := rfl
  apart := by simp [Umm.Apart]
  used := by simp [held]
  size := by simp [held]
  asked := by simp [held]
  data := by simp [held]
  distinct := by simp [held]
  wrote := by simp [held]

/-! ### Runs -/

/-- Nothing has been handed out yet, or the layout holds. -/
def Fine (w : World n) : Prop :=
  w = start n ∨ ∃ l f z, w.Kept l f z

/-- Each legitimate call returns and leaves the heap in order. -/
theorem Fine.step (small : n ≤ 32768) (zero : 0 < n) (fit : Fit) (h : w.Fine) (hx : w.Allowed x) :
    ∃ w', w.perform fit x = some w' ∧ w'.Fine := by
  cases x with
  | malloc size =>
    rcases Nat.eq_zero_or_pos size with rfl | pos
    · exact ⟨w,by simp [perform,Umm.ummMalloc],h⟩
    rcases h with rfl | ⟨l,f,z,h⟩
    · rcases Umm.ummMalloc_zero small zero fit pos hx with ⟨eq,-⟩ | ⟨u,u',laid,eq,gives,-⟩
      · exact ⟨start n,by simp [perform,start,eq],Or.inl rfl⟩
      · refine ⟨(start n).hand u' size (Umm.data 1),by simp [perform,start,eq],
          Or.inr ⟨[1],[],1 + Umm.ummBlocks size,?_⟩⟩
        have kept := (Kept.empty (w := start n) laid rfl).hand pos hx gives (Or.inr ⟨rfl,by omega⟩)
        have same : max 1 (Umm.data 1 / 8 + Umm.ummBlocks size) =
            max 0 (Umm.data 1 / 8 + Umm.ummBlocks size) := by
          unfold Umm.data
          omega
        simpa [hand,start,same] using kept
    · rcases Umm.ummMalloc_spec h.laid h.apart fit pos hx with ⟨eq,-⟩ | ⟨u,c,l',f',z',eq,gives,way⟩
      · exact ⟨w,by simp [perform,eq],Or.inr ⟨l,f,z,h⟩⟩
      · refine ⟨w.hand u size (Umm.data c),by simp [perform,eq],Or.inr ⟨l',f',z',h.hand pos hx gives ?_⟩⟩
        rcases way with ⟨e,y,hy,enough,-,rfl⟩ | ⟨-,-,rfl,e⟩
        · have := h.laid.le_last (h.laid.after_mem (h.laid.subset hy))
          have := h.laid.lt_after (h.laid.subset hy)
          have span : w.heap.span y = w.heap.nblock y % 32768 - y := rfl
          exact Or.inl ⟨e,by omega⟩
        · exact Or.inr ⟨e,by omega⟩
  | free p =>
    cases p with
    | none => exact ⟨w,by simp [perform,Umm.ummFree],h⟩
    | some p =>
      obtain ⟨r,hr,rfl⟩ := hx
      rcases h with rfl | ⟨l,f,z,h⟩
      · exact absurd hr List.not_mem_nil
      · obtain ⟨u,l',f',eq,kept⟩ := h.free hr
        exact ⟨_,by simp only [perform,eq]; rfl,Or.inr ⟨l',f',z,kept⟩⟩
  | store a v =>
    obtain ⟨r,hr,ha⟩ := hx
    rcases h with rfl | ⟨l,f,z,h⟩
    · exact absurd hr List.not_mem_nil
    · exact ⟨_,rfl,Or.inr ⟨l,f,z,h.store hr ha v⟩⟩

theorem Reached.fine (small : n ≤ 32768) (zero : 0 < n) (h : Reached fit w) : w.Fine :=
  h.invariant (Or.inl rfl) fun w x w' hw hx next => by
    obtain ⟨v,eq,fine⟩ := hw.step small zero fit hx
    exact Option.some.inj (next.symm.trans eq) ▸ fine

/-- Every legitimate call of every run returns, without an access outside the heap and without an endless
loop. -/
theorem reached_perform (small : n ≤ 32768) (zero : 0 < n) (h : Reached fit w) (hx : w.Allowed x) :
    ∃ w', w.perform fit x = some w' :=
  let ⟨w',eq,_⟩ := (h.fine small zero).step small zero fit hx
  ⟨w',eq⟩

theorem reached_perform_twice : ∃ w : World 8, Reached .first w ∧ w.held = [⟨12,20⟩] ∧
    ∃ w', w.perform .first (.free (some 12)) = some w' := by
  obtain ⟨w,run,held⟩ := Run.exists_reach_of_exec (perform .first) Allowed (start 8) [.malloc 20,.store 31 7]
    (fun w => w.held = [⟨12,20⟩]) (by decide)
  refine ⟨w,run,held,reached_perform (by decide) (by decide) run ?_⟩
  exact ⟨⟨12,20⟩,by simp [held],rfl⟩

/-- The regions in use are in the heap, on addresses of four bytes, and apart; they read as their users have
written them. -/
theorem reached_regions (small : n ≤ 32768) (zero : 0 < n) (h : Reached fit w) :
    (∀ r ∈ w.held, r.ptr % 4 = 0 ∧ 8 ≤ r.ptr ∧ r.ptr + r.size ≤ 8 * n) ∧
      (w.held.Pairwise fun r s => ∀ a, r.Has a → ¬ s.Has a) ∧
      ∀ r ∈ w.held, ∀ a, r.Has a → ∀ v, w.wrote a = some v → w.heap.peek a = v := by
  rcases h.fine small zero with rfl | ⟨l,f,z,kept⟩
  · exact ⟨by simp [start],List.Pairwise.nil,by simp [start]⟩
  refine ⟨fun r hr => ?_,?_,kept.wrote⟩
  · obtain ⟨c,ptr⟩ := kept.data r hr
    obtain ⟨mem,-⟩ := kept.block hr ptr
    have first := kept.laid.pos mem
    have size := kept.size r hr c ptr
    have enough := ummBlocks_enough (kept.asked r hr).2
    have after := kept.laid.head_lt (List.mem_cons_of_mem 0 (kept.laid.after_mem mem))
    rw [kept.after hr ptr] at after
    rw [ptr]
    unfold Umm.data
    omega
  · exact kept.distinct.imp_of_mem fun hr hs ne a ha => kept.separate hr hs ne ha

theorem reached_regions_two : ∃ w : World 8, Reached .best w ∧ w.held = [⟨36,4⟩,⟨12,20⟩] ∧
    w.wrote 31 = some 7 ∧ w.heap.peek 31 = 7 := by
  obtain ⟨w,run,held,wrote⟩ := Run.exists_reach_of_exec (perform .best) Allowed (start 8)
    [.malloc 20,.store 31 7,.malloc 4,.store 36 1] (fun w => w.held = [⟨36,4⟩,⟨12,20⟩] ∧ w.wrote 31 = some 7)
    (by decide)
  refine ⟨w,run,held,wrote,?_⟩
  exact (reached_regions (by decide) (by decide) run).2.2 ⟨12,20⟩ (by simp [held]) 31 (by decide) 7 wrote

end World
end Brtos
