import Brtos.Filing

/-! Blocking and unblocking the tasks of a range of handles. -/
namespace Brtos
open Bitmap

namespace Kernel
variable {cfg : Config} {k : Kernel cfg} {a n p t : ℕ}

/-- The tasks that a call for a range of handles is about. -/
def Meant (k : Kernel cfg) (a n t : ℕ) : Prop := k.Installed t ∧ a ≤ t ∧ t < a+n ∧ t ≠ k.currentTask

/-- The bits of OSBlockedList that stand for them. -/
def MeantBit (k : Kernel cfg) (a n p : ℕ) : Prop := ∃ t, k.Meant a n t ∧ (k.contextTask t).priority = p

/-- What the loops read: an index into ContextTask and one into PriorityMask. -/
def rangeReads (k : Kernel cfg) (a n : ℕ) : List (ℕ × ℕ) :=
  ((taskRange a n).filter fun t => t ≠ k.currentTask).map fun t => (t,(k.contextTask t).priority)

def withBlocked (k : Kernel cfg) (r : PriorityType cfg) : Kernel cfg := { k with osBlockedList := r }

/-- The two calls do what they are for, whatever is blocked before. -/
structure Ranges (k : Kernel cfg) (a n : ℕ) : Prop where
  block (r : PriorityType cfg) (p : ℕ) :
    p ∈ bits ((k.withBlocked r).osBlockMultipleTask a n).1.osBlockedList ↔ p ∈ bits r ∧ ¬ k.MeantBit a n p
  unblock (r : PriorityType cfg) (p : ℕ) :
    p ∈ bits ((k.withBlocked r).osUnBlockMultipleTask a n).1.osBlockedList ↔ p ∈ bits r ∨ k.MeantBit a n p
  restores (r : PriorityType cfg) (free : ∀ p, k.MeantBit a n p → p ∈ bits r) :
    ((k.withBlocked ((k.withBlocked r).osBlockMultipleTask a n).1.osBlockedList).osUnBlockMultipleTask
      a n).1.osBlockedList = r
  inside : ∀ q ∈ k.rangeReads a n, q.1 ≤ cfg.numberOfTasks ∧ q.2 < cfg.width

/-- No handle of the range is free; handle 0 stands for Idle where Idle is in the range. A range behind
handle 255 has no task. -/
def Covered (k : Kernel cfg) (a n : ℕ) : Prop :=
  if a+n < 256 then ∀ t, a ≤ t → t < a+n → t ≠ k.currentTask → k.Installed t ∨ t = 0 ∧ k.MeantBit a n 0
  else ∀ t, k.Installed t → a ≤ t → t = k.currentTask

theorem mem_taskRange (small : a+n < 256) : t ∈ taskRange a n ↔ a ≤ t ∧ t < a+n := by
  rw [taskRange,Nat.mod_eq_of_lt small,List.mem_range'_1]
  omega

theorem taskRange_of_wrap (ha : a ≤ 255) (hn : n ≤ 255) (wraps : ¬ a+n < 256) : taskRange a n = [] := by
  have sum : (a+n)%256 = a+n-256 := by omega
  rw [taskRange,sum,List.range'_eq_nil_iff]
  omega

/-- The loop clears the bits of the priorities that it meets. -/
theorem foldl_setBlocked (l : List ℕ) (k : Kernel cfg)
    (fits : ∀ t ∈ l, t ≠ k.currentTask → (k.contextTask t).priority < cfg.width) :
    p ∈ bits (l.foldl (fun k iTask =>
      if iTask ≠ k.currentTask then k.setBlocked (k.contextTask iTask).priority else k) k).osBlockedList ↔
      p ∈ bits k.osBlockedList ∧ ∀ t ∈ l, t ≠ k.currentTask → (k.contextTask t).priority ≠ p := by
  induction l generalizing k with
  | nil => simp
  | cons t l ih =>
    have rest := fun u hu => fits u (List.mem_cons_of_mem t hu)
    rw [List.foldl_cons]
    split_ifs with other
    · have here := fits t List.mem_cons_self other
      rw [ih (k.setBlocked (k.contextTask t).priority) rest]
      simp only [setBlocked,bits_and_not_mask _ here,Finset.mem_erase,List.forall_mem_cons]
      constructor
      · rintro ⟨⟨hne,hp⟩,tail⟩
        exact ⟨hp,fun _ => hne.symm,tail⟩
      · rintro ⟨hp,head,tail⟩
        exact ⟨⟨(head other).symm,hp⟩,tail⟩
    · rw [ih k rest]
      simp [other]

theorem foldl_clearBlocked (l : List ℕ) (k : Kernel cfg)
    (fits : ∀ t ∈ l, t ≠ k.currentTask → (k.contextTask t).priority < cfg.width) :
    p ∈ bits (l.foldl (fun k iTask =>
      if iTask ≠ k.currentTask then k.clearBlocked (k.contextTask iTask).priority else k) k).osBlockedList ↔
      p ∈ bits k.osBlockedList ∨ ∃ t ∈ l, t ≠ k.currentTask ∧ (k.contextTask t).priority = p := by
  induction l generalizing k with
  | nil => simp
  | cons t l ih =>
    have rest := fun u hu => fits u (List.mem_cons_of_mem t hu)
    rw [List.foldl_cons]
    split_ifs with other
    · have here := fits t List.mem_cons_self other
      rw [ih (k.clearBlocked (k.contextTask t).priority) rest]
      simp only [clearBlocked,bits_or_mask _ here,Finset.mem_insert,List.exists_mem_cons_iff]
      constructor
      · rintro ((rfl | hp) | later)
        · exact .inr (.inl ⟨other,rfl⟩)
        · exact .inl hp
        · exact .inr (.inr later)
      · rintro (hp | ⟨-,rfl⟩ | later)
        · exact .inl (.inr hp)
        · exact .inl (.inl rfl)
        · exact .inr later
    · rw [ih k rest]
      simp [other]

theorem enterTask_blocked (k : Kernel cfg) : k.enterTask.osBlockedList = k.osBlockedList := by
  unfold enterTask
  split_ifs <;> rfl

theorem exitTask_blocked (k : Kernel cfg) : k.exitTask.osBlockedList = k.osBlockedList := by
  unfold exitTask
  split_ifs <;> rfl

theorem changeContextUnnested_blocked (k : Kernel cfg) :
    k.changeContextUnnested.osBlockedList = k.osBlockedList := by
  unfold changeContextUnnested
  split_ifs <;> rfl

/-- The tasks that the loops read have their bits in the lists. -/
theorem fits_of_rangeReads (inside : ∀ q ∈ k.rangeReads a n, q.2 < cfg.width) :
    ∀ t ∈ taskRange a n, t ≠ k.enterTask.currentTask →
      (k.enterTask.contextTask t).priority < cfg.width := by
  intro t ht other
  rw [show k.enterTask.contextTask = k.contextTask by simp]
  refine inside (t,(k.contextTask t).priority) ?_
  simp only [rangeReads,List.mem_map,List.mem_filter,decide_eq_true_eq]
  exact ⟨t,⟨ht,currentTask_of_vital k.enterTask_vital ▸ other⟩,rfl⟩

/-- What OSBlockMultipleTask clears when its reads are inside. -/
theorem osBlockMultipleTask_bits (calm : k.iNesting = 0) (inside : ∀ q ∈ k.rangeReads a n, q.2 < cfg.width) :
    p ∈ bits (k.osBlockMultipleTask a n).1.osBlockedList ↔ p ∈ bits k.osBlockedList ∧
      ∀ t ∈ taskRange a n, t ≠ k.currentTask → (k.contextTask t).priority ≠ p := by
  have current := currentTask_of_vital k.enterTask_vital
  have tables : k.enterTask.contextTask = k.contextTask := by simp
  have idle : ¬ 0 < k.iNesting := by omega
  have loop := foldl_setBlocked (p := p) (taskRange a n) k.enterTask (fits_of_rangeReads inside)
  rw [current,tables,enterTask_blocked] at loop
  simp only [osBlockMultipleTask,if_neg idle,exitTask_blocked]
  exact loop

theorem osUnBlockMultipleTask_bits (calm : k.iNesting = 0)
    (inside : ∀ q ∈ k.rangeReads a n, q.2 < cfg.width) :
    p ∈ bits (k.osUnBlockMultipleTask a n).1.osBlockedList ↔ p ∈ bits k.osBlockedList ∨
      ∃ t ∈ taskRange a n, t ≠ k.currentTask ∧ (k.contextTask t).priority = p := by
  have current := currentTask_of_vital k.enterTask_vital
  have tables : k.enterTask.contextTask = k.contextTask := by simp
  have idle : ¬ 0 < k.iNesting := by omega
  have loop := foldl_clearBlocked (p := p) (taskRange a n) k.enterTask (fits_of_rangeReads inside)
  rw [current,tables,enterTask_blocked] at loop
  simp only [osUnBlockMultipleTask,if_neg idle]
  split_ifs
  · rw [← loop]
    simp only [osExitCritical,changeContextUnnested_blocked]
  · exact loop

/-- The reads of a range that is covered. -/
theorem Covered.inside (filed : k.Filed) (covered : k.Covered a n) (ha : a ≤ 255) (hn : n ≤ 255) :
    ∀ q ∈ k.rangeReads a n, q.1 ≤ cfg.numberOfTasks ∧ q.2 < cfg.width := by
  intro q hq
  simp only [rangeReads,List.mem_map,List.mem_filter,decide_eq_true_eq] at hq
  obtain ⟨t,⟨ht,other⟩,rfl⟩ := hq
  by_cases small : a+n < 256
  · rw [mem_taskRange small] at ht
    rw [Covered,if_pos small] at covered
    rcases covered t ht.1 ht.2 other with inst | ⟨rfl,-⟩
    · exact ⟨filed.inside inst,filed.prio fun _ _ => inst⟩
    · simp only [filed.zero]
      exact ⟨Nat.zero_le _,cfg.width_pos⟩
  · simp [taskRange_of_wrap ha hn small] at ht

/-- The priorities that the loops meet are those that are meant. -/
theorem Covered.met (filed : k.Filed) (covered : k.Covered a n) (ha : a ≤ 255) (hn : n ≤ 255) :
    (∃ t ∈ taskRange a n, t ≠ k.currentTask ∧ (k.contextTask t).priority = p) ↔ k.MeantBit a n p := by
  by_cases small : a+n < 256
  · simp only [mem_taskRange small]
    rw [Covered,if_pos small] at covered
    constructor
    · rintro ⟨t,⟨low,high⟩,other,prio⟩
      rcases covered t low high other with inst | ⟨rfl,idle⟩
      · exact ⟨t,⟨inst,low,high,other⟩,prio⟩
      · rwa [← prio,filed.zero]
    · rintro ⟨t,⟨_,low,high,other⟩,prio⟩
      exact ⟨t,⟨low,high⟩,other,prio⟩
  · rw [taskRange_of_wrap ha hn small]
    rw [Covered,if_neg small] at covered
    refine iff_of_false (by simp) ?_
    rintro ⟨t,⟨inst,low,_,other⟩,-⟩
    exact other (covered t inst low)

theorem Covered.ranges (filed : k.Filed) (calm : k.iNesting = 0) (covered : k.Covered a n)
    (ha : a ≤ 255) (hn : n ≤ 255) : k.Ranges a n := by
  have inside := covered.inside filed ha hn
  have fits : ∀ q ∈ k.rangeReads a n, q.2 < cfg.width := fun q hq => (inside q hq).2
  have block : ∀ r p, p ∈ bits ((k.withBlocked r).osBlockMultipleTask a n).1.osBlockedList ↔
      p ∈ bits r ∧ ¬ k.MeantBit a n p := by
    intro r p
    rw [osBlockMultipleTask_bits (k := k.withBlocked r) calm fits,← covered.met filed ha hn]
    simp [withBlocked]
  have unblock : ∀ r p, p ∈ bits ((k.withBlocked r).osUnBlockMultipleTask a n).1.osBlockedList ↔
      p ∈ bits r ∨ k.MeantBit a n p := by
    intro r p
    rw [osUnBlockMultipleTask_bits (k := k.withBlocked r) calm fits,← covered.met filed ha hn]
    rfl
  refine ⟨block,unblock,fun r free => ?_,inside⟩
  refine BitVec.eq_of_getLsbD_eq fun p _ => ?_
  have same := unblock ((k.withBlocked r).osBlockMultipleTask a n).1.osBlockedList p
  rw [block,mem_bits,mem_bits] at same
  have before := free p
  rw [mem_bits] at before
  rw [Bool.eq_iff_iff,same]
  tauto

theorem Ranges.covered (filed : k.Filed) (calm : k.iNesting = 0) (h : k.Ranges a n)
    (ha : a ≤ 255) (hn : n ≤ 255) : k.Covered a n := by
  have fits : ∀ q ∈ k.rangeReads a n, q.2 < cfg.width := fun q hq => (h.inside q hq).2
  have meets := fun p => (h.block (BitVec.allOnes cfg.width) p).symm.trans
    (osBlockMultipleTask_bits (k := k.withBlocked (BitVec.allOnes cfg.width)) calm fits)
  have all : ∀ p, p < cfg.width → p ∈ bits (BitVec.allOnes cfg.width) := fun p hp => by simp [hp]
  unfold Covered
  split_ifs with small
  · intro t low high other
    have read : (t,(k.contextTask t).priority) ∈ k.rangeReads a n := by
      simp only [rangeReads,List.mem_map,List.mem_filter,decide_eq_true_eq]
      exact ⟨t,⟨(mem_taskRange small).mpr ⟨low,high⟩,other⟩,rfl⟩
    obtain ⟨last,mask⟩ := h.inside _ read
    by_cases zero : t = 0
    · refine .inr ⟨zero,?_⟩
      subst zero
      by_contra unmeant
      have kept := ((meets 0).mp ⟨all 0 cfg.width_pos,unmeant⟩).2 0 ((mem_taskRange small).mpr ⟨low,high⟩) other
      exact kept filed.zero
    · refine .inl ?_
      by_contra free
      -- the mask of EMPTY_PRIO is behind the table
      have past := cfg.width_le
      rw [filed.free (Nat.pos_of_ne_zero zero) last free] at mask
      simp only [emptyPrio] at mask
      omega
  · intro t inst low
    by_contra other
    have fit := filed.prio (t := t) fun _ _ => inst
    have meant : k.MeantBit a n (k.contextTask t).priority :=
      ⟨t,⟨inst,low,by have := inst.2.1; omega,other⟩,rfl⟩
    refine ((meets (k.contextTask t).priority).mpr ⟨all _ fit,?_⟩).2 meant
    simp [taskRange_of_wrap ha hn small]

end Kernel

namespace System
variable {cfg : Config} {s : System cfg} {a n : ℕ}

/-- In every state of every run, OSBlockMultipleTask and OSUnBlockMultipleTask do what they are for exactly
when the range is covered by tasks. -/
theorem ranges_iff (run : Run.Reach step (fun _ _ => True) (init cfg) s) (calm : s.iNesting = 0)
    (ha : a ≤ 255) (hn : n ≤ 255) : s.toKernel.Ranges a n ↔ s.toKernel.Covered a n :=
  ⟨fun h => h.covered (filed_of_reach run).kernel calm ha hn,
    fun h => h.ranges (filed_of_reach run).kernel calm ha hn⟩

theorem ranges_example : ∃ s : System .port, s.Running ∧ s.currentTask = 2 ∧ s.toKernel.Ranges 1 3 := by
  obtain ⟨s,run,running,current,first,idle⟩ := Run.exists_reach_of_exec step (fun _ _ => True) (init .port)
    [.main (.install (.user 1) 16 3),.main (.install (.user 2) 16 5),.start]
    (fun s => s.Running ∧ s.currentTask = 2 ∧ s.Installed 1 ∧ s.Installed 3) (by decide +kernel)
  refine ⟨s,running,current,(ranges_iff run running.2.1 (by decide) (by decide)).mpr ?_⟩
  intro t low high other
  have task : t = 1 ∨ t = 3 := by omega
  rcases task with rfl | rfl
  · exact .inl first
  · exact .inl idle

/-- The range of task 1, Idle and the free control block 3: its priority EMPTY_PRIO is an index behind
PriorityMask. -/
theorem ranges_fails : ∃ s : System .port, Run.Reach step (fun _ _ => True) (init .port) s ∧ s.Running ∧
    ¬ s.toKernel.Ranges 1 3 := by
  obtain ⟨s,run,running,outside⟩ := Run.exists_reach_of_exec step (fun _ _ => True) (init .port)
    [.main (.install (.user 1) 16 3),.start]
    (fun s => s.Running ∧ (3,emptyPrio) ∈ s.toKernel.rangeReads 1 3) (by decide +kernel)
  exact ⟨s,run,running,fun h => absurd (h.inside _ outside).2 (by decide)⟩

end System
end Brtos
