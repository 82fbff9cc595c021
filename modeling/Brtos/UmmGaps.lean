import Brtos.UmmRuns

/-! What of the heap is free: which requests are refused, and what umm_info counts. -/
namespace Brtos

namespace Umm
variable {n a b c z : ℕ} {u : Umm n} {l f g : List ℕ}

/-- What the loop adds up from the blocks of the list `g` on. -/
def tally (u : Umm n) (f g : List ℕ) (h : HeapInfo) (rest : ℕ) : HeapInfo :=
  let used := g.filter (· ∉ f)
  let free := g.filter (· ∈ f)
  { totalEntries := h.totalEntries + g.length
    usedEntries := h.usedEntries + used.length
    freeEntries := h.freeEntries + free.length
    totalBlocks := h.totalBlocks + (g.map u.span).sum + rest
    usedBlocks := h.usedBlocks + (used.map u.span).sum
    freeBlocks := h.freeBlocks + (free.map u.span).sum + rest }

/-- The counters of a walk that has come to the block `b` have room for the rest of the heap. -/
structure Roomy (n b : ℕ) (h : HeapInfo) : Prop where
  blocks : h.usedBlocks + h.freeBlocks = h.totalBlocks
  entries : h.usedEntries + h.freeEntries = h.totalEntries
  short : h.totalEntries ≤ h.totalBlocks
  room : h.totalBlocks + (n - b) < 65536

/-- A counted block. -/
theorem Roomy.count {i : HeapInfo} {k : ℕ} (h : Roomy n b i) (pos : 0 < k) (lt : b + k < n)
    (free : Bool) : Roomy n (b + k) (i.count free k) ∧ i.count free k =
      { totalEntries := i.totalEntries + 1
        usedEntries := i.usedEntries + if free then 0 else 1
        freeEntries := i.freeEntries + if free then 1 else 0
        totalBlocks := i.totalBlocks + k
        usedBlocks := i.usedBlocks + if free then 0 else k
        freeBlocks := i.freeBlocks + if free then k else 0 } := by
  obtain ⟨blocks,entries,short,room⟩ := h
  have value : i.count free k =
      { totalEntries := i.totalEntries + 1
        usedEntries := i.usedEntries + if free then 0 else 1
        freeEntries := i.freeEntries + if free then 1 else 0
        totalBlocks := i.totalBlocks + k
        usedBlocks := i.usedBlocks + if free then 0 else k
        freeBlocks := i.freeBlocks + if free then k else 0 } := by
    cases free <;> simp [HeapInfo.count] <;> omega
  refine ⟨?_,value⟩
  rw [value]
  cases free <;> constructor <;> simp <;> omega

theorem tally_cons (i : HeapInfo) (rest : ℕ) :
    u.tally f (c :: g) i rest = u.tally f g
      { totalEntries := i.totalEntries + 1
        usedEntries := i.usedEntries + if decide (c ∈ f) then 0 else 1
        freeEntries := i.freeEntries + if decide (c ∈ f) then 1 else 0
        totalBlocks := i.totalBlocks + u.span c
        usedBlocks := i.usedBlocks + if decide (c ∈ f) then 0 else u.span c
        freeBlocks := i.freeBlocks + if decide (c ∈ f) then u.span c else 0 } rest := by
  by_cases free : c ∈ f <;> simp [tally,free,Nat.add_assoc,Nat.add_comm,Nat.add_left_comm]

theorem infoLoop_spec (h : u.Laid l f z) {ptr : Option ℕ} (hp : ∀ p, ptr = some p → p % 8 ≠ 0)
    (sub : g ⊆ l) (path : Linked.Path (fun b => u.nblock b % 32768) u.pblock a g z)
    {fuel : ℕ} (hf : g.length < fuel) (hb : u.nblock a % 32768 = b) (i : HeapInfo) (roomy : Roomy n b i) :
    u.infoLoop ptr fuel b i = some (u.tally f g i (n - z),none) := by
  have small := h.small
  induction g generalizing a b fuel i with
  | nil =>
    obtain ⟨fuel,rfl⟩ : ∃ m, fuel = m + 1 := Nat.exists_eq_add_one.mpr (by omega)
    obtain rfl : b = z := hb.symm.trans (Linked.path_nil.mp path).1
    have room := h.room
    have rest : u16sub (n % 65536) b = n - b := by
      unfold u16sub
      omega
    obtain ⟨blocks,-,-,room'⟩ := roomy
    have free : (i.freeBlocks + (n - b)) % 65536 = i.freeBlocks + (n - b) := Nat.mod_eq_of_lt (by omega)
    have total : (i.totalBlocks + (n - b)) % 65536 = i.totalBlocks + (n - b) := Nat.mod_eq_of_lt (by omega)
    simp [infoLoop,load_eq room,h.last,rest,free,total,tally]
  | cons x g ih =>
    obtain ⟨fuel,rfl⟩ : ∃ m, fuel = m + 1 := Nat.exists_eq_add_one.mpr (by omega)
    obtain ⟨⟨ahead,-⟩,rest⟩ := Linked.path_cons.mp path
    obtain rfl : b = x := hb.symm.trans ahead
    have mem : b ∈ l := sub List.mem_cons_self
    have blt := h.head_lt (List.mem_cons_of_mem 0 (List.mem_append_left [z] mem))
    have after := h.lt_after mem
    have alt := h.head_lt (List.mem_cons_of_mem 0 (h.after_mem mem))
    have next : u.nblock b % 32768 ≠ 0 := by omega
    have other : ptr ≠ some (8 * b) := fun e => hp _ e (by omega)
    have span : u.span b = u.nblock b % 32768 - b := rfl
    have mask : decide (u.nblock b &&& ummFreelistMask ≠ 0) = decide (b ∈ f) :=
      decide_eq_decide.mpr (h.mask_iff (List.mem_cons_of_mem 0 (List.mem_append_left [z] mem)))
    have ends : b + u.span b = u.nblock b % 32768 := by omega
    obtain ⟨roomy',value⟩ := roomy.count (k := u.span b) (by omega) (by omega) (decide (b ∈ f))
    rw [tally_cons,← value]
    rw [ends] at roomy'
    simp only [infoLoop,load_eq blt,Option.bind_eq_bind,Option.bind_some,and_ummBlocknoMask,if_pos next,mask,
      h.span_eq mem,other,and_false,if_false]
    exact ih (List.Subset.trans (List.subset_cons_self ..) sub) rest (by simpa using hf) rfl _ roomy'

theorem ummInfo_spec (h : u.Laid l f z) {ptr : Option ℕ} (hp : ∀ p, ptr = some p → p % 8 ≠ 0) :
    u.ummInfo ptr = some (u.tally f l ⟨0,0,0,0,0,0⟩ (n - z),none) := by
  have small := h.small
  have zero := h.head_lt (List.mem_cons_self (a := 0))
  have short : l.length < n + 1 := by
    have sub : l ⊆ List.range n := fun x hx =>
      List.mem_range.mpr (h.head_lt (List.mem_cons_of_mem 0 (List.mem_append_left [z] hx)))
    have := (List.subperm_of_subset h.nodup_blocks sub).length_le
    rw [List.length_range] at this
    omega
  simp only [ummInfo,load_eq zero,Option.bind_eq_bind,Option.bind_some,and_ummBlocknoMask]
  exact infoLoop_spec h hp (List.Subset.refl l) h.blocks short rfl _ ⟨rfl,rfl,le_rfl,by
    simp only
    omega⟩

/-- The blocks up to the end of the heap. -/
theorem Laid.span_sum (h : u.Laid l f z) (sub : g ⊆ l)
    (path : Linked.Path (fun b => u.nblock b % 32768) u.pblock a g z) :
    (g.map u.span).sum + u.nblock a % 32768 = z := by
  induction g generalizing a with
  | nil => simpa using (Linked.path_nil.mp path).1
  | cons x g ih =>
    obtain ⟨⟨ahead,-⟩,rest⟩ := Linked.path_cons.mp path
    have := ih (List.Subset.trans (List.subset_cons_self ..) sub) rest
    have := h.lt_after (sub List.mem_cons_self)
    have span : u.span x = u.nblock x % 32768 - x := rfl
    rw [List.map_cons,List.sum_cons,ahead]
    omega

/-- Between two free blocks there is one in use. -/
theorem Apart.free_le (apart : u.Apart f)
    (path : Linked.Path (fun b => u.nblock b % 32768) u.pblock a g z) :
    (g.filter (· ∈ f)).length ≤ (g.filter (· ∉ f)).length + if a ∈ f then 0 else 1 := by
  induction g generalizing a with
  | nil => simp
  | cons x g ih =>
    obtain ⟨⟨ahead,-⟩,rest⟩ := Linked.path_cons.mp path
    have := ih rest
    by_cases free : x ∈ f
    · have : a ∉ f := fun mem => apart a mem (ahead ▸ free)
      simp [free,this] at *
      omega
    · simp [free] at *
      omega

theorem split_sum (F : List ℕ) (k : ℕ → ℕ) :
    ((g.filter (· ∉ F)).map k).sum + ((g.filter (· ∈ F)).map k).sum = (g.map k).sum := by
  induction g with
  | nil => rfl
  | cons x g ih => by_cases hx : x ∈ F <;> simp [hx] at * <;> omega

end Umm

namespace World
variable {n : ℕ} {fit : Fit} {w : World n} {l f : List ℕ} {z : ℕ}

/-- The blocks in use are those of the regions. -/
theorem Kept.perm (h : w.Kept l f z) :
    (w.held.map fun r => r.ptr / 8).Perm (l.filter (· ∉ f)) := by
  have block : ∀ c, Umm.data c / 8 = c := fun c => by
    unfold Umm.data
    omega
  refine (List.perm_ext_iff_of_nodup ?_ (h.laid.nodup_blocks.filter _)).mpr fun c => ?_
  · refine List.pairwise_map.mpr (h.distinct.imp_of_mem fun {r s} hr hs ne e => ?_)
    obtain ⟨c,pc⟩ := h.data r hr
    obtain ⟨d,pd⟩ := h.data s hs
    rw [pc,pd,block,block] at e
    exact ne (by rw [pc,pd,e])
  · rw [List.mem_map,List.mem_filter]
    simp only [decide_eq_true_eq]
    rw [h.used c]
    constructor
    · rintro ⟨r,hr,rfl⟩
      obtain ⟨d,pd⟩ := h.data r hr
      exact ⟨r,hr,by rw [pd,block]⟩
    · rintro ⟨r,hr,ptr⟩
      exact ⟨r,hr,by rw [ptr,block]⟩

theorem Kept.used_sum (h : w.Kept l f z) :
    ((l.filter (· ∉ f)).map w.heap.span).sum = (w.held.map fun r => Umm.ummBlocks r.size).sum := by
  rw [← (h.perm.map w.heap.span).sum_eq,List.map_map]
  refine congrArg List.sum (List.map_congr_left fun r hr => ?_)
  obtain ⟨c,ptr⟩ := h.data r hr
  have block : r.ptr / 8 = c := by
    rw [ptr]
    unfold Umm.data
    omega
  have := h.after hr ptr
  have := h.size r hr c ptr
  simp only [Function.comp,block,Umm.span]
  omega

/-- What umm_info reports: the regions in use with their blocks, and the rest of the heap as free; a pointer
that umm_malloc has given out it never finds. -/
theorem reached_info (small : n ≤ 32768) (zero : 0 < n) (h : Reached fit w) {ptr : Option ℕ}
    (hp : ∀ p, ptr = some p → p % 8 ≠ 0) : ∃ i, w.heap.ummInfo ptr = some (i,none) ∧
      i.usedEntries = w.held.length ∧ i.usedBlocks = (w.held.map fun r => Umm.ummBlocks r.size).sum ∧
      i.usedBlocks + i.freeBlocks = i.totalBlocks ∧ i.totalBlocks = (if w.top = 0 then n else n - 1) ∧
      i.usedEntries + i.freeEntries = i.totalEntries ∧ i.freeEntries ≤ i.usedEntries + 1 := by
  rcases h.fine small zero with rfl | ⟨l,f,z,kept⟩
  · have first : (start n).heap.nblock 0 = 0 := rfl
    have rest : Umm.u16sub n 0 % 65536 = n := by
      unfold Umm.u16sub
      omega
    have wrap : n % 65536 = n := Nat.mod_eq_of_lt (by omega)
    refine ⟨⟨0,0,0,n,0,n⟩,?_,by simp [start]⟩
    simp [Umm.ummInfo,Umm.infoLoop,Umm.load_eq zero,first,rest,wrap]
  · refine ⟨_,Umm.ummInfo_spec kept.laid hp,?_⟩
    have sum := kept.laid.span_sum (List.Subset.refl l) kept.laid.blocks
    rw [kept.laid.first] at sum
    have parts := Umm.split_sum (g := l) f w.heap.span
    have count := Umm.split_sum (g := l) f fun _ => 1
    simp only [List.map_const',List.sum_replicate,smul_eq_mul,mul_one] at count
    have free := kept.apart.free_le kept.laid.blocks
    have notFree : 0 ∉ f := fun mem => kept.laid.zero_notMem (kept.laid.subset mem)
    rw [if_neg notFree] at free
    have len := kept.perm.length_eq
    rw [List.length_map] at len
    have last := kept.laid.last_pos
    have room := kept.laid.room
    have used := kept.used_sum
    rw [kept.top,if_neg last.ne']
    simp only [Umm.tally,Nat.zero_add]
    exact ⟨len.symm,used,by omega,by omega,count,free⟩

theorem reached_info_two : ∃ w : World 12, Reached .first w ∧ w.held = [⟨36,9⟩] ∧
    ∃ i, w.heap.ummInfo (some 36) = some (i,none) ∧ i.usedBlocks = 2 ∧ i.totalBlocks = 11 := by
  obtain ⟨w,run,held,top⟩ := Run.exists_reach_of_exec (perform .first) Allowed (start 12)
    [.malloc 20,.malloc 9,.free (some 12)] (fun w => w.held = [⟨36,9⟩] ∧ w.top = 6) (by decide)
  obtain ⟨i,eq,-,used,-,total,-⟩ := @reached_info 12 .first w (by decide) (by decide) run (some 36)
    (by rintro p ⟨⟩; decide)
  refine ⟨w,run,held,i,eq,?_,?_⟩
  · rw [used,held]
    decide
  · rw [total,top]
    decide

/-! ### Refusals -/

end World
end Brtos
