import Brtos.Ceiling

/-! When a service that makes another task the highest eligible one requests a context switch. -/
namespace Brtos
open Bitmap

namespace Kernel
variable {cfg : Config} (k : Kernel cfg)

/-- What the scheduler's choice depends on: the two bitmaps and the priorities. -/
def stage : PriorityType cfg × PriorityType cfg × (ℕ → ℕ) :=
  (k.osReadyList,k.osBlockedList,fun t => (k.contextTask t).priority)

@[simp] theorem osEnterCritical_stage : k.osEnterCritical.stage = k.stage := rfl
@[simp] theorem osExitCritical_stage : k.osExitCritical.stage = k.stage := rfl
@[simp] theorem changeContext_stage : k.changeContext.stage = k.stage := rfl
@[simp] theorem setEvent_stage (o : Obj) (f : OsEvent cfg → OsEvent cfg) :
    (k.setEvent o f).stage = k.stage := rfl
@[simp] theorem allocEvent_stage (o : Obj) : (k.allocEvent o).stage = k.stage := rfl
@[simp] theorem freeEvent_stage (o : Obj) : (k.freeEvent o).stage = k.stage := rfl
@[simp] theorem unlist_stage (o : Obj) (p : ℕ) : (k.unlist o p).stage = k.stage := rfl
@[simp] theorem setMutex_stage (i : ℕ) (f : BrtosMutex → BrtosMutex) :
    (k.setMutex i f).stage = k.stage := rfl
@[simp] theorem setSem_stage (i : ℕ) (f : BrtosSem → BrtosSem) : (k.setSem i f).stage = k.stage := rfl
@[simp] theorem setMbox_stage (i : ℕ) (f : BrtosMbox → BrtosMbox) :
    (k.setMbox i f).stage = k.stage := rfl
@[simp] theorem setPriorityVector_stage (p t : ℕ) : (k.setPriorityVector p t).stage = k.stage := rfl

@[simp] theorem setQueue_stage (d : QueueKind) (i : ℕ) (q : OsQueue) :
    (k.setQueue d i q).stage = k.stage := by
  cases d <;> rfl

@[simp] theorem enterNesting_stage : k.enterNesting.stage = k.stage := by
  unfold enterNesting
  split_ifs <;> rfl

@[simp] theorem exitNesting_stage : k.exitNesting.stage = k.stage := by
  unfold exitNesting
  split_ifs <;> rfl

@[simp] theorem enterTask_stage : k.enterTask.stage = k.stage := by
  unfold enterTask
  split_ifs <;> rfl

@[simp] theorem exitTask_stage : k.exitTask.stage = k.stage := by
  unfold exitTask
  split_ifs <;> rfl

@[simp] theorem changeContextUnnested_stage : k.changeContextUnnested.stage = k.stage := by
  unfold changeContextUnnested
  split_ifs <;> rfl

theorem setTask_stage (t : ℕ) (f : ContextType → ContextType)
    (h : (f (k.contextTask t)).priority = (k.contextTask t).priority) :
    (k.setTask t f).stage = k.stage := by
  simp only [stage,setTask,map_update_same ContextType.priority _ _ _ h]

@[simp] theorem setTimeToWait_stage (t d : ℕ) : (k.setTimeToWait t d).stage = k.stage :=
  k.setTask_stage t _ rfl

@[simp] theorem setNext_stage (p q : Option ℕ) : (k.setNext p q).stage = k.stage := by
  cases p with
  | none => rfl
  | some t => exact k.setTask_stage t _ rfl

@[simp] theorem setPrevious_stage (p q : Option ℕ) : (k.setPrevious p q).stage = k.stage := by
  cases p with
  | none => rfl
  | some t => exact k.setTask_stage t _ rfl

@[simp] theorem removeFromDelayList_stage (t : ℕ) : (k.removeFromDelayList t).stage = k.stage := by
  unfold removeFromDelayList
  split_ifs
  · rfl
  · exact setPrevious_stage _ _ _
  · exact setNext_stage _ _ _
  · exact (setNext_stage _ _ _).trans (setPrevious_stage _ _ _)

@[simp] theorem wakeUp_stage (o : Obj) (p w : ℕ) : (k.wakeUp o p w).1.stage = k.stage := by
  simp only [wakeUp]
  split_ifs <;> simp

/-- The priority of `t` is the highest eligible one. -/
def Foremost (t : ℕ) : Prop :=
  (k.contextTask t).priority ∈ bits k.osReadyList ∩ bits k.osBlockedList ∧
    ∀ q ∈ bits k.osReadyList ∩ bits k.osBlockedList, q ≤ (k.contextTask t).priority

variable {k} {l : Kernel cfg} {t p : ℕ}

theorem Foremost.congr (h : k.Foremost t) (hs : l.stage = k.stage) : l.Foremost t := by
  simp only [stage,Prod.mk.injEq] at hs
  have hp := congrFun hs.2.2 t
  simp only [Foremost,hs.1,hs.2.1] at h ⊢
  rw [hp]
  exact h

/-- A task becomes ready at `p`. -/
theorem Foremost.ready_iff (h : k.Foremost t)
    (ready : bits l.osReadyList = insert p (bits k.osReadyList))
    (blocked : l.osBlockedList = k.osBlockedList)
    (prio : (l.contextTask t).priority = (k.contextTask t).priority) :
    l.Foremost t ↔ (p ∈ bits k.osBlockedList → p ≤ (k.contextTask t).priority) := by
  simp only [Foremost,ready,blocked,prio,Finset.mem_inter,Finset.mem_insert] at h ⊢
  constructor
  · exact fun hl hp => hl.2 p ⟨Or.inl rfl,hp⟩
  · refine fun hp => ⟨⟨Or.inr h.1.1,h.1.2⟩,fun q hq => ?_⟩
    rcases hq with ⟨rfl | hr,hb⟩
    · exact hp hb
    · exact h.2 q ⟨hr,hb⟩

/-- The priority `p` is no longer blocked. -/
theorem Foremost.unblock_iff (h : k.Foremost t)
    (ready : l.osReadyList = k.osReadyList)
    (blocked : bits l.osBlockedList = insert p (bits k.osBlockedList))
    (prio : (l.contextTask t).priority = (k.contextTask t).priority) :
    l.Foremost t ↔ (p ∈ bits k.osReadyList → p ≤ (k.contextTask t).priority) := by
  simp only [Foremost,ready,blocked,prio,Finset.mem_inter,Finset.mem_insert] at h ⊢
  constructor
  · exact fun hl hp => hl.2 p ⟨hp,Or.inl rfl⟩
  · refine fun hp => ⟨⟨h.1.1,Or.inr h.1.2⟩,fun q hq => ?_⟩
    rcases hq with ⟨hr,rfl | hb⟩
    · exact hp hr
    · exact h.2 q ⟨hr,hb⟩

/-- The priority of another task is blocked. -/
theorem Foremost.block (h : k.Foremost t) (ready : l.osReadyList = k.osReadyList)
    (blocked : bits l.osBlockedList = (bits k.osBlockedList).erase p)
    (prio : (l.contextTask t).priority = (k.contextTask t).priority)
    (other : (k.contextTask t).priority ≠ p) : l.Foremost t := by
  simp only [Foremost,ready,blocked,prio,Finset.mem_inter,Finset.mem_erase] at h ⊢
  exact ⟨⟨h.1.1,other,h.1.2⟩,fun q hq => h.2 q ⟨hq.1,hq.2.2⟩⟩

/-- The task itself moves to the priority `p`. -/
theorem foremost_move_iff
    (ready : bits l.osReadyList = insert p ((bits k.osReadyList).erase (k.contextTask t).priority))
    (blocked : l.osBlockedList = k.osBlockedList) (prio : (l.contextTask t).priority = p) :
    l.Foremost t ↔ p ∈ bits k.osBlockedList ∧
      ∀ q ∈ bits k.osReadyList ∩ bits k.osBlockedList, q ≠ (k.contextTask t).priority → q ≤ p := by
  simp only [Foremost,ready,blocked,prio,Finset.mem_inter,Finset.mem_insert,Finset.mem_erase]
  constructor
  · rintro ⟨⟨-,hb⟩,hq⟩
    exact ⟨hb,fun q hr hne => hq q ⟨Or.inr ⟨hne,hr.1⟩,hr.2⟩⟩
  · rintro ⟨hb,hq⟩
    refine ⟨⟨Or.inl trivial,hb⟩,fun q hr => ?_⟩
    rcases hr with ⟨rfl | ⟨hne,hr⟩,hb'⟩
    · exact le_rfl
    · exact hq q ⟨hr,hb'⟩ hne

/-- OSInstallTask finds room for the stack, the priority and the control block. -/
def Room (k : Kernel cfg) (stack p : ℕ) : Prop :=
  cfg.numberMinOfStackedBytes ≤ stack-stack%cfg.sizeofCpuType ∧
    k.iStackAddress+(stack-stack%cfg.sizeofCpuType)/cfg.sizeofCpuType ≤
      cfg.heapSize/cfg.sizeofCpuType ∧
    p < cfg.width ∧ k.priorityVector p = emptyPrio ∧ k.findTcb ≠ none

instance (k : Kernel cfg) (stack p : ℕ) : Decidable (k.Room stack p) := by
  unfold Room
  infer_instance

theorem osInstallTask_ok (k : Kernel cfg) (e : Entry) (stack : ℕ) (hp : p ≠ 0) :
    (k.osInstallTask e stack p).2.1 = ok ↔ k.Room stack p := by
  have slots : k.enterTask.priorityVector = k.priorityVector := by simp
  have tcb : k.enterTask.findTcb = k.findTcb := by
    unfold findTcb
    simp
  have stack' : k.enterTask.iStackAddress = k.iStackAddress := by
    unfold enterTask
    split_ifs <;> rfl
  have pos := cfg.width_pos
  simp only [osInstallTask,Room,slots,tcb,stack']
  generalize stack-stack%cfg.sizeofCpuType = n
  by_cases h1 : n < cfg.numberMinOfStackedBytes
  · rw [if_pos h1]
    exact ⟨fun h => absurd h (by decide : stackSizeTooSmall ≠ ok),fun h => absurd h.1 (not_le.mpr h1)⟩
  by_cases h2 : k.iStackAddress+n/cfg.sizeofCpuType > cfg.heapSize/cfg.sizeofCpuType
  · rw [if_neg h1,if_pos h2]
    exact ⟨fun h => absurd h (by decide : noMemory ≠ ok),fun h => absurd h.2.1 (not_le.mpr h2)⟩
  by_cases h3 : p ≠ 0 ∧ p > cfg.width-1
  · rw [if_neg h1,if_neg h2,if_pos h3]
    exact ⟨fun h => absurd h (by decide : endOfAvailablePriorities ≠ ok),fun h => by omega⟩
  by_cases h4 : p ≠ 0 ∧ k.priorityVector p ≠ emptyPrio
  · rw [if_neg h1,if_neg h2,if_neg h3,if_pos h4]
    exact ⟨fun h => absurd h (by decide : busyPriority ≠ ok),fun h => absurd h.2.2.2.1 h4.2⟩
  rw [if_neg h1,if_neg h2,if_neg h3,if_neg h4,if_neg (by simp [hp])]
  cases k.findTcb with
  | none => exact ⟨fun h => absurd h (by decide : endOfAvailableTcb ≠ ok),fun h => absurd rfl h.2.2.2.2⟩
  | some i =>
    have free : k.priorityVector p = emptyPrio := by_contra fun hne => h4 ⟨hp,hne⟩
    exact ⟨fun _ => ⟨not_lt.mp h1,not_lt.mp h2,by omega,free,by simp⟩,fun _ => rfl⟩

end Kernel

/-- Creation, deletion and the queue services that look at no wait list. -/
def Call.onTables : Call → Bool
  | .semCreate _ | .semBinaryCreate _ | .semDelete _ | .mutexCreate _ | .mutexDelete _ => true
  | .mboxCreate _ | .mboxDelete _ | .queueCreate _ | .dqueueCreate _ _ _ | .dqueueDelete _ => true
  | .queueClean _ _ | .queueWrite _ _ | .queueRead _ => true
  | _ => false

namespace System
variable {cfg : Config} (s : System cfg)

/-- A task that becomes ready at `p` has to run at once. -/
def Preempts (p : ℕ) : Prop := p ∈ bits s.osBlockedList ∧ s.currentPriority < p

/-- A task blocked at `p` that is ready has to run as soon as it is unblocked. -/
def Waits (p : ℕ) : Prop := p ∈ bits s.osReadyList ∧ s.currentPriority < p

/-- A post selects a task that has to run at once. -/
def Selects (o : Obj) : Prop :=
  s.notCreated o = false ∧ (s.event o).osEventWait ≠ 0 ∧ s.Preempts (s.highestWaiting o)

/-- The move up to the ceiling takes the running task to a blocked priority. -/
def RaisesToBlocked (i : ℕ) : Prop :=
  s.currentPriority < (s.brtosMutexTable i).osMaxPriority ∧
    (s.brtosMutexTable i).osMaxPriority ∉ bits s.osBlockedList

/-- The calls that make another task the highest eligible one and request no context switch. The
first three do so on every port, the others where OSEnterCritical increments iNesting. -/
def Unrequested : Call → Prop
  | .install _ stack p => s.Room stack p ∧ s.Preempts p
  | .mutexAcquire i _ => (s.brtosMutexTable i).osEventOwner ≠ s.currentTask ∧
    (s.brtosMutexTable i).osEventState = availableResource ∧ s.RaisesToBlocked i
  | .mutexRelease i => (s.brtosMutexTable i).osEventOwner = s.currentTask ∧
    (s.event (.mutex i)).osEventWait = 0 ∧
    (s.brtosMutexTable i).osOriginalPriority ≠ s.currentPriority ∧
    ((s.brtosMutexTable i).osOriginalPriority ∉ bits s.osBlockedList ∨
      ∃ p ∈ bits s.osReadyList ∩ bits s.osBlockedList, p ≠ s.currentPriority ∧
        (s.brtosMutexTable i).osOriginalPriority < p)
  | .semPost i => cfg.criticalNests = true ∧ s.Selects (.sem i)
  | .mboxPost i _ => cfg.criticalNests = true ∧ s.Selects (.mbox i)
  | .queuePost i _ => cfg.criticalNests = true ∧ s.Selects (.queue i) ∧
    (s.brtosOsQueueTable i).osqEntries < (s.brtosOsQueueTable i).osqLength
  | .dqueuePost i _ => cfg.criticalNests = true ∧ s.Selects (.dqueue i) ∧
    (s.osDqueue i).osqEntries < (s.osDqueue i).osqLength
  | .unBlockPriority p => cfg.criticalNests = true ∧ s.Waits p
  | .unBlockTask t => cfg.criticalNests = true ∧ s.Waits (s.contextTask t).priority
  | .unBlockMultipleTask a n => cfg.criticalNests = true ∧
    ∃ t ∈ Kernel.taskRange a n, t ≠ s.currentTask ∧ s.Waits (s.contextTask t).priority
  | _ => False

instance (p : ℕ) : Decidable (s.Preempts p) := by unfold Preempts; infer_instance
instance (p : ℕ) : Decidable (s.Waits p) := by unfold Waits; infer_instance
instance (o : Obj) : Decidable (s.Selects o) := by unfold Selects; infer_instance
instance (i : ℕ) : Decidable (s.RaisesToBlocked i) := by unfold RaisesToBlocked; infer_instance
instance (c : Call) : Decidable (s.Unrequested c) := by
  rcases c <;> unfold Unrequested <;> infer_instance

variable {s}

/-- The state of a task that runs and is the one the scheduler would choose. -/
structure Leads (s : System cfg) : Prop extends Inv s where
  running : s.Running
  user : s.inst s.currentTask ≠ 0
  foremost : s.Foremost s.currentTask

/-- The running task need not give way, or it will. -/
def Prompt (s : System cfg) (k : Kernel cfg) : Prop :=
  k.Foremost s.currentTask ∨ k.switchPending = true

theorem Leads.same (h : s.Leads) {k : Kernel cfg} (hk : k.stage = s.stage) : s.Prompt k :=
  Or.inl (h.foremost.congr hk)

theorem Leads.nesting (h : s.Leads) :
    s.enterNesting.iNesting = if cfg.criticalNests then 1 else 0 := by
  unfold Kernel.enterNesting Kernel.osEnterCritical
  rw [if_pos (Or.inr h.running.2.1)]
  simp only [h.running.2.1]

theorem prompt_congr {k l : Kernel cfg} (stage : l.stage = k.stage)
    (pend : l.pendingInterrupts = k.pendingInterrupts) : s.Prompt l ↔ s.Prompt k := by
  have head : l.Foremost s.currentTask ↔ k.Foremost s.currentTask :=
    ⟨fun h => h.congr stage.symm,fun h => h.congr stage⟩
  simp only [Prompt,head,Kernel.switchPending,pend]

@[simp] theorem prompt_osExitCritical (k : Kernel cfg) : s.Prompt k.osExitCritical ↔ s.Prompt k :=
  prompt_congr rfl rfl

@[simp] theorem prompt_exitNesting (k : Kernel cfg) : s.Prompt k.exitNesting ↔ s.Prompt k :=
  prompt_congr (by simp) (by unfold Kernel.exitNesting; split_ifs <;> rfl)

@[simp] theorem prompt_exitTask (k : Kernel cfg) : s.Prompt k.exitTask ↔ s.Prompt k :=
  prompt_congr (by simp) (by unfold Kernel.exitTask; split_ifs <;> rfl)

/-- A service that has not requested a switch by then has to leave its caller the foremost task. -/
theorem Leads.prompt_iff (h : s.Leads) {k : Kernel cfg}
    (pend : k.pendingInterrupts = s.pendingInterrupts) :
    s.Prompt k ↔ k.Foremost s.currentTask := by
  have quiet : k.switchPending = false :=
    (congrArg (BitVec.getLsbD · Kernel.interruptSwc) pend).trans h.running.2.2
  simp [Prompt,quiet]

/-- The end of a service that requests a switch unless it is nested. -/
theorem Leads.request_iff (h : s.Leads) {k : Kernel cfg} {A : Prop}
    (nest : k.iNesting = if cfg.criticalNests then 1 else 0)
    (pend : k.pendingInterrupts = s.pendingInterrupts) (head : k.Foremost s.currentTask ↔ A) :
    s.Prompt k.changeContextUnnested ↔ ¬ (cfg.criticalNests = true ∧ ¬ A) := by
  cases hc : cfg.criticalNests with
  | false =>
    have requested : k.changeContextUnnested = k.changeContext := if_pos (by simpa [hc] using nest)
    rw [requested]
    simp [Prompt]
  | true =>
    have skipped : k.changeContextUnnested = k := if_neg (by simp [nest,hc])
    rw [skipped,h.prompt_iff pend,head]
    simp

/-! ### Services that make nobody eligible -/

theorem Leads.quiet {c : Call} (prompt : s.Prompt (s.serve c).1) (idle : ¬ s.Unrequested c) :
    s.Prompt (s.serve c).1 ↔ ¬ s.Unrequested c := by
  simp [idle,prompt]

theorem Leads.awake (h : s.Leads) : s.currentTask ≠ 0 := by
  have := (h.sound.handle (h.current h.running.1)).1
  omega

theorem tables_stage {c : Call} (hc : c.onTables = true) : (s.serve c).1.stage = s.stage := by
  cases c with
  | semCreate | semBinaryCreate | semDelete =>
    simp only [Kernel.serve,Kernel.osSemCreate,Kernel.osSemBinaryCreate,Kernel.osSemDelete]
    repeat' split
    all_goals simp
  | mutexCreate | mutexDelete =>
    simp only [Kernel.serve,Kernel.osMutexCreate,Kernel.osMutexDelete]
    repeat' split
    all_goals simp
  | mboxCreate | mboxDelete =>
    simp only [Kernel.serve,Kernel.osMboxCreate,Kernel.osMboxDelete]
    repeat' split
    all_goals simp
  | queueCreate =>
    simp only [Kernel.serve,Kernel.osQueueCreate]
    repeat' split
    all_goals simp only [Kernel.exitTask_stage,Kernel.allocEvent_stage,Kernel.setQueue_stage]
    all_goals exact s.enterTask_stage
  | dqueueCreate | dqueueDelete =>
    simp only [Kernel.serve,Kernel.osDQueueCreate,Kernel.osDQueueDelete]
    repeat' split
    all_goals simp
  | queueClean | queueWrite | queueRead =>
    simp only [Kernel.serve,Kernel.queueClean,Kernel.osWQueue,Kernel.osRQueue]
    repeat' split
    all_goals simp
  | _ => simp [Call.onTables] at hc

/-! ### Pends and delays -/

theorem suspend_prompt (k : Kernel cfg) (o : Obj) (w : ℕ) : s.Prompt (k.suspend o w).1 :=
  Or.inr (suspend_switchPending _ _ _)

theorem semPend_prompt (h : s.Leads) (i w : ℕ) : s.Prompt (s.osSemPend i w).1 := by
  simp only [Kernel.osSemPend]
  split_ifs
  · exact h.same rfl
  · exact h.same rfl
  · exact h.same rfl
  · exact h.same rfl
  · exact suspend_prompt _ _ _

theorem mboxPend_prompt (h : s.Leads) (i w : ℕ) : s.Prompt (s.osMboxPend i w).1 := by
  simp only [Kernel.osMboxPend,Kernel.takeMail]
  split_ifs
  · exact h.same rfl
  · exact h.same rfl
  · exact h.same rfl
  · exact h.same rfl
  · exact suspend_prompt _ _ _

theorem queuePend_prompt (h : s.Leads) (d : Kernel.QueueKind) (i w : ℕ) :
    s.Prompt (s.queuePend d i w).1 := by
  simp only [Kernel.queuePend]
  split_ifs
  · exact h.same rfl
  · exact h.same rfl
  · exact h.same (by simp)
  · exact h.same rfl
  · exact suspend_prompt _ _ _

theorem delayTask_prompt (h : s.Leads) (w : ℕ) : s.Prompt (s.osDelayTask w).1 := by
  simp only [Kernel.osDelayTask]
  split_ifs
  · exact h.same rfl
  · exact h.same rfl
  · exact h.same rfl
  · exact Or.inr (changeContext_switchPending _)

/-! ### Posts -/

theorem wakeHighest_ready (k : Kernel cfg) (o : Obj) (hp : k.highestWaiting o < cfg.width) :
    bits (k.wakeHighest o).osReadyList = insert (k.highestWaiting o) (bits k.osReadyList) :=
  bits_or_mask _ hp

/-- The end of a post that has found a waiting task. -/
theorem Leads.post_iff (h : s.Leads) (o : Obj) (wait : (s.event o).osEventWait ≠ 0)
    {k : Kernel cfg} (nest : k.iNesting = s.enterNesting.iNesting)
    (pend : k.pendingInterrupts = s.pendingInterrupts)
    (stage : k.stage = (s.wakeHighest o).stage) :
    s.Prompt k.changeContextUnnested ↔
      ¬ (cfg.criticalNests = true ∧ s.Preempts (s.highestWaiting o)) := by
  have some_ : (s.view.waiting o).Nonempty := by
    rw [← Finset.card_pos,← h.sound.count o]
    exact Nat.pos_of_ne_zero wait
  have lt := s.highestWaiting_lt s.point s.inst s.held o some_
  have woken := h.foremost.ready_iff (l := s.wakeHighest o) (wakeHighest_ready _ o lt) rfl rfl
  have head : k.Foremost s.currentTask ↔ (s.highestWaiting o ∈ bits s.osBlockedList →
      s.highestWaiting o ≤ s.currentPriority) :=
    ⟨fun hk => woken.mp (hk.congr stage.symm),fun hb => (woken.mpr hb).congr stage⟩
  rw [h.request_iff (nest.trans h.nesting) pend head]
  simp only [Preempts,Classical.not_imp,not_le]

theorem enterNesting_notCreated (o : Obj) : s.enterNesting.notCreated o = s.notCreated o := by
  simp [Kernel.notCreated]

theorem enterNesting_pending : s.enterNesting.pendingInterrupts = s.pendingInterrupts := by
  unfold Kernel.enterNesting
  split_ifs <;> rfl

theorem enterNesting_wakeHighest_stage (o : Obj) :
    (s.enterNesting.wakeHighest o).stage = (s.wakeHighest o).stage := by
  unfold Kernel.enterNesting
  split_ifs <;> rfl

theorem semPost_iff (h : s.Leads) (i : ℕ) :
    s.Prompt (s.osSemPost i).1 ↔ ¬ (cfg.criticalNests = true ∧ s.Selects (.sem i)) := by
  have wait' : (s.enterNesting.event (.sem i)).osEventWait = (s.event (.sem i)).osEventWait := by simp
  simp only [Kernel.osSemPost,enterNesting_notCreated,Selects,wait']
  cases created : s.notCreated (.sem i) with
  | true => simpa using h.same (k := s.enterNesting.exitNesting) (by simp)
  | false =>
    by_cases wait : (s.event (.sem i)).osEventWait = 0
    · simp only [wait,ne_eq,not_true,if_false,false_and,and_false,not_false_iff,iff_true,
        Bool.false_eq_true]
      split_ifs <;> exact h.same (by simp)
    · have := h.post_iff (.sem i) wait (k := s.enterNesting.wakeHighest (.sem i)) rfl
        enterNesting_pending (enterNesting_wakeHighest_stage _)
      simpa [wait] using this

theorem mboxPost_iff (h : s.Leads) (i m : ℕ) :
    s.Prompt (s.osMboxPost i m).1 ↔ ¬ (cfg.criticalNests = true ∧ s.Selects (.mbox i)) := by
  have wait' : (s.enterNesting.event (.mbox i)).osEventWait = (s.event (.mbox i)).osEventWait := by
    simp
  simp only [Kernel.osMboxPost,enterNesting_notCreated,Selects,wait']
  cases created : s.notCreated (.mbox i) with
  | true => simpa using h.same (k := s.enterNesting.exitNesting) (by simp)
  | false =>
    by_cases wait : (s.event (.mbox i)).osEventWait = 0
    · have same := h.same (k := (s.enterNesting.setMbox i fun _ => ⟨availableMessage,m⟩).exitNesting)
        (by simp)
      simpa [wait] using same
    · have := h.post_iff (.mbox i) wait
        (k := (s.enterNesting.wakeHighest (.mbox i)).setMbox i fun _ => ⟨availableMessage,m⟩) rfl
        enterNesting_pending (enterNesting_wakeHighest_stage _)
      simpa [wait] using this

theorem write_isSome (q : OsQueue) (bytes : List ℕ) :
    (q.write bytes).isSome ↔ q.osqEntries < q.osqLength := by
  unfold OsQueue.write
  split_ifs with h <;> simp [h]

theorem queuePost_iff (h : s.Leads) (d : Kernel.QueueKind) (i : ℕ) (bytes : List ℕ) :
    s.Prompt (s.queuePost d i bytes).1 ↔ ¬ (cfg.criticalNests = true ∧ s.Selects (d.obj i) ∧
      (s.queue d i).osqEntries < (s.queue d i).osqLength) := by
  have queue' : s.enterNesting.queue d i = s.queue d i := by
    unfold Kernel.enterNesting
    split_ifs <;> rfl
  simp only [Kernel.queuePost,enterNesting_notCreated,Selects,queue']
  cases created : s.notCreated (d.obj i) with
  | true => simpa using h.same (k := s.enterNesting.exitNesting) (by simp)
  | false =>
    have room := write_isSome (s.queue d i) bytes
    cases hw : (s.queue d i).write bytes with
    | none =>
      rw [hw] at room
      have full : ¬ (s.queue d i).osqEntries < (s.queue d i).osqLength := by simpa using room
      simpa [full] using h.same (k := s.enterNesting.exitNesting) (by simp)
    | some q =>
      rw [hw] at room
      have free : (s.queue d i).osqEntries < (s.queue d i).osqLength := by simpa using room
      have wait' : ((s.enterNesting.setQueue d i q).event (d.obj i)).osEventWait =
          (s.event (d.obj i)).osEventWait := by simp
      by_cases wait : (s.event (d.obj i)).osEventWait = 0
      · have same := h.same (k := (s.enterNesting.setQueue d i q).exitNesting) (by simp)
        simpa [wait',wait] using same
      · have := h.post_iff (d.obj i) wait
          (k := (s.enterNesting.setQueue d i q).wakeHighest (d.obj i)) (by cases d <;> rfl)
          (by cases d <;> exact enterNesting_pending)
          (by cases d <;> exact enterNesting_wakeHighest_stage _)
        simpa [wait',wait,free] using this

/-! ### Blocking -/

theorem Leads.prio_lt (h : s.Leads) {t : ℕ} (ht : s.Installed t) :
    (s.contextTask t).priority < cfg.width := h.sound.prio_lt ht

/-- Another task has another priority. -/
theorem Leads.prio_ne (h : s.Leads) {t : ℕ} (ht : s.Installed t) (hne : s.currentTask ≠ t) :
    (s.contextTask s.currentTask).priority ≠ (s.contextTask t).priority :=
  fun e => hne (h.sound.prio_inj (h.current h.running.1) ht e)

theorem unBlock_iff (h : s.Leads) {p : ℕ} (hp : p < cfg.width) :
    s.Prompt (s.enterNesting.clearBlocked p).changeContextUnnested ↔
      ¬ (cfg.criticalNests = true ∧ s.Waits p) := by
  have stage : (s.enterNesting.clearBlocked p).stage = (s.clearBlocked p).stage := by
    unfold Kernel.enterNesting
    split_ifs <;> rfl
  have freed := h.foremost.unblock_iff (l := s.clearBlocked p) rfl (bits_or_mask _ hp) rfl
  have head : (s.enterNesting.clearBlocked p).Foremost s.currentTask ↔
      (p ∈ bits s.osReadyList → p ≤ s.currentPriority) :=
    ⟨fun hk => freed.mp (hk.congr stage.symm),fun hb => (freed.mpr hb).congr stage⟩
  rw [h.request_iff (k := s.enterNesting.clearBlocked p) h.nesting enterNesting_pending head]
  simp only [Waits,Classical.not_imp,not_le]

theorem unBlockPriority_iff (h : s.Leads) {p : ℕ} (hp : p < cfg.width) :
    s.Prompt (s.osUnBlockPriority p).1 ↔ ¬ (cfg.criticalNests = true ∧ s.Waits p) := by
  have current : s.enterNesting.currentTask ≠ 0 := by
    have := Kernel.currentTask_of_vital (Kernel.vital_of_shell s.enterNesting_shell)
    exact this ▸ h.awake
  simp only [Kernel.osUnBlockPriority,prompt_exitNesting]
  rw [if_pos (show (s.enterNesting.clearBlocked p).currentTask ≠ 0 from current)]
  exact unBlock_iff h hp

theorem unBlockTask_iff (h : s.Leads) {t : ℕ} (ht : s.Installed t) :
    s.Prompt (s.osUnBlockTask t).1 ↔
      ¬ (cfg.criticalNests = true ∧ s.Waits (s.contextTask t).priority) := by
  have same : s.osUnBlockTask t = s.osUnBlockPriority (s.contextTask t).priority := by
    simp [Kernel.osUnBlockTask,Kernel.osUnBlockPriority]
  rw [same]
  exact unBlockPriority_iff h (h.prio_lt ht)

theorem enterTask_nesting (h : s.Leads) :
    s.enterTask.iNesting = if cfg.criticalNests then 1 else 0 := by
  unfold Kernel.enterTask Kernel.osEnterCritical
  rw [if_pos h.awake]
  simp only [h.running.2.1]

theorem enterTask_pending : s.enterTask.pendingInterrupts = s.pendingInterrupts := by
  unfold Kernel.enterTask
  split_ifs <;> rfl

theorem enterTask_current : s.enterTask.currentTask = s.currentTask :=
  Kernel.currentTask_of_vital s.enterTask_vital

theorem blockPriority_prompt (h : s.Leads) {p : ℕ} (hp : p < cfg.width) :
    s.Prompt (s.osBlockPriority p).1 := by
  simp only [Kernel.osBlockPriority]
  rw [if_neg (by simp [h.running.2.1]),prompt_exitTask]
  split_ifs with he
  · exact Or.inr (changeContext_switchPending _)
  · have blocked := h.foremost.block (l := s.setBlocked p) rfl (bits_and_not_mask _ hp) rfl fun e => by
      refine he ?_
      change s.enterTask.currentTask = s.enterTask.priorityVector p
      rw [enterTask_current,Kernel.enterTask_toCore,← e]
      exact (h.sound.slot (h.current h.running.1)).symm
    refine Or.inl (blocked.congr ?_)
    unfold Kernel.enterTask
    split_ifs <;> rfl

theorem blockTask_prompt (h : s.Leads) {t : ℕ} (ht : t = 0 ∨ s.Installed t) :
    s.Prompt (s.osBlockTask t).1 := by
  simp only [Kernel.osBlockTask]
  rw [if_neg (by simp [h.running.2.1]),enterTask_current,if_neg (by simp [h.awake]),prompt_exitTask]
  split_ifs with h0 he he
  · exact Or.inr (changeContext_switchPending _)
  · exact absurd enterTask_current he
  · exact Or.inr (changeContext_switchPending _)
  · have hi := ht.resolve_left h0
    have hne : s.currentTask ≠ t := fun e => he (enterTask_current.trans e)
    have blocked := h.foremost.block (l := s.setBlocked (s.contextTask t).priority) rfl
      (bits_and_not_mask _ (h.prio_lt hi)) rfl (h.prio_ne hi hne)
    refine Or.inl (blocked.congr ?_)
    unfold Kernel.enterTask
    split_ifs <;> rfl

/-- The loop of OSBlockMultipleTask. -/
theorem foldl_setBlocked {l : List ℕ} {t : ℕ} {k : Kernel cfg}
    (hl : ∀ u ∈ l, (k.contextTask u).priority < cfg.width)
    (other : ∀ u ∈ l, u ≠ k.currentTask →
      (k.contextTask t).priority ≠ (k.contextTask u).priority) (h : k.Foremost t) :
    (l.foldl (fun k iTask => if iTask ≠ k.currentTask then
      k.setBlocked (k.contextTask iTask).priority else k) k).Foremost t := by
  induction l generalizing k with
  | nil => exact h
  | cons u l ih =>
    rw [List.foldl_cons]
    by_cases e : u ≠ k.currentTask
    · rw [if_pos e]
      refine ih (k := k.setBlocked (k.contextTask u).priority)
        (fun x hx => hl x (by simp [hx])) (fun x hx => other x (by simp [hx])) ?_
      exact h.block rfl (bits_and_not_mask _ (hl u (by simp))) rfl (other u (by simp) e)
    · rw [if_neg e]
      exact ih (fun x hx => hl x (by simp [hx])) (fun x hx => other x (by simp [hx])) h

theorem blockMultiple_prompt (h : s.Leads) {a n : ℕ}
    (ht : ∀ t ∈ Kernel.taskRange a n, s.Installed t) : s.Prompt (s.osBlockMultipleTask a n).1 := by
  simp only [Kernel.osBlockMultipleTask]
  rw [if_neg (by simp [h.running.2.1]),prompt_exitTask]
  refine Or.inl (foldl_setBlocked (k := s.enterTask) ?_ ?_ (h.foremost.congr s.enterTask_stage))
  · simpa using fun u hu => h.prio_lt (ht u hu)
  · simpa [enterTask_current] using fun u hu hne => h.prio_ne (ht u hu) (Ne.symm hne)

/-- What the loop of OSUnBlockMultipleTask leaves. -/
structure Unblocked (k l : Kernel cfg) (tasks : List ℕ) : Prop where
  toCore : l.toCore = k.toCore
  current : l.currentTask = k.currentTask
  nesting : l.iNesting = k.iNesting
  pending : l.pendingInterrupts = k.pendingInterrupts
  blocked (q : ℕ) : q ∈ bits l.osBlockedList ↔ q ∈ bits k.osBlockedList ∨
    ∃ t ∈ tasks, t ≠ k.currentTask ∧ (k.contextTask t).priority = q

theorem foldl_clearBlocked {l : List ℕ} {k : Kernel cfg}
    (hl : ∀ u ∈ l, (k.contextTask u).priority < cfg.width) : Unblocked k
      (l.foldl (fun k iTask => if iTask ≠ k.currentTask then
        k.clearBlocked (k.contextTask iTask).priority else k) k) l := by
  induction l generalizing k with
  | nil => exact ⟨rfl,rfl,rfl,rfl,by simp⟩
  | cons u l ih =>
    rw [List.foldl_cons]
    by_cases e : u ≠ k.currentTask
    · rw [if_pos e]
      have rest := ih (k := k.clearBlocked (k.contextTask u).priority) fun x hx => hl x (by simp [hx])
      have first : bits (k.clearBlocked (k.contextTask u).priority).osBlockedList =
          insert (k.contextTask u).priority (bits k.osBlockedList) :=
        bits_or_mask _ (hl u (by simp))
      refine ⟨rest.toCore,rest.current,rest.nesting,rest.pending,fun q => ?_⟩
      rw [rest.blocked,first,Finset.mem_insert,List.exists_mem_cons_iff]
      change ((q = _ ∨ _) ∨ ∃ t ∈ l, t ≠ k.currentTask ∧ (k.contextTask t).priority = q) ↔ _
      constructor
      · rintro ((rfl | hq) | hq)
        · exact Or.inr (Or.inl ⟨e,rfl⟩)
        · exact Or.inl hq
        · exact Or.inr (Or.inr hq)
      · rintro (hq | ⟨_,rfl⟩ | hq)
        · exact Or.inl (Or.inr hq)
        · exact Or.inl (Or.inl rfl)
        · exact Or.inr hq
    · rw [if_neg e]
      have rest := ih fun x hx => hl x (by simp [hx])
      refine ⟨rest.toCore,rest.current,rest.nesting,rest.pending,fun q => ?_⟩
      rw [rest.blocked,List.exists_mem_cons_iff]
      simp only [e,false_and,false_or]

theorem unBlockMultiple_iff (h : s.Leads) {a n : ℕ}
    (ht : ∀ t ∈ Kernel.taskRange a n, s.Installed t) : s.Prompt (s.osUnBlockMultipleTask a n).1 ↔
      ¬ (cfg.criticalNests = true ∧ ∃ t ∈ Kernel.taskRange a n, t ≠ s.currentTask ∧
        s.Waits (s.contextTask t).priority) := by
  have freed := foldl_clearBlocked (l := Kernel.taskRange a n) (k := s.enterTask)
    (by simpa using fun u hu => h.prio_lt (ht u hu))
  simp only [Kernel.osUnBlockMultipleTask]
  rw [if_neg (by simp [h.running.2.1])]
  revert freed
  generalize (Kernel.taskRange a n).foldl (fun k iTask => if iTask ≠ k.currentTask then
    k.clearBlocked (k.contextTask iTask).priority else k) s.enterTask = k
  intro freed
  have current : k.currentTask ≠ 0 := by
    rw [freed.current,enterTask_current]
    exact h.awake
  rw [if_pos current,prompt_osExitCritical]
  have blocked := freed.blocked
  have core := freed.toCore.trans s.enterTask_toCore
  have old : s.enterTask.osBlockedList = s.osBlockedList := by
    unfold Kernel.enterTask
    split_ifs <;> rfl
  rw [enterTask_current,Kernel.enterTask_toCore,old] at blocked
  have head : k.Foremost s.currentTask ↔ ¬ ∃ t ∈ Kernel.taskRange a n, t ≠ s.currentTask ∧
      s.Waits (s.contextTask t).priority := by
    have hf := h.foremost
    simp only [Kernel.Foremost,Finset.mem_inter,blocked,core] at hf ⊢
    constructor
    · rintro ⟨_,hk⟩ ⟨t,ht,hne,hr,hlt⟩
      exact absurd (hk _ ⟨hr,Or.inr ⟨t,ht,hne,rfl⟩⟩) (not_le.mpr hlt)
    · refine fun none_ => ⟨⟨hf.1.1,Or.inl hf.1.2⟩,fun q hq => ?_⟩
      rcases hq.2 with hb | ⟨t,ht,hne,rfl⟩
      · exact hf.2 q ⟨hq.1,hb⟩
      · by_contra hlt
        exact none_ ⟨t,ht,hne,hq.1,not_le.mp hlt⟩
  rw [h.request_iff ((freed.nesting).trans (enterTask_nesting h))
    (freed.pending.trans enterTask_pending) head,not_not]

/-! ### Installation and mutexes -/

theorem install_iff (h : s.Leads) (e : Entry) (stack : ℕ) {p : ℕ} (hp : p ≠ 0) :
    s.Prompt (s.osInstallTask e stack p).1 ↔ ¬ (s.Room stack p ∧ s.Preempts p) := by
  have room := s.osInstallTask_ok e stack hp
  rcases osInstallTask_cases s.toKernel e stack p with
    ⟨code,hc,he⟩ | ⟨i,n,hf,lt,_,_,he⟩ <;> rw [he] at room ⊢
  · have full : ¬ s.Room stack p := fun hr => hc (room.mpr hr)
    simpa [full] using h.same (k := s.enterTask) (by simp)
  · have free : s.Room stack p := room.mp rfl
    have fresh := (findTcb_free hf).2
    rw [Kernel.enterTask_toCore] at fresh
    have hne : s.currentTask ≠ i+1 := fun hc => fresh (hc ▸ h.current h.running.1)
    have pend : (s.enterTask.installInto (i+1) n p).pendingInterrupts = s.pendingInterrupts :=
      enterTask_pending
    have woken := h.foremost.ready_iff (l := s.enterTask.installInto (i+1) n p) (p := p) ?_ ?_ ?_
    · simp only [prompt_exitTask]
      rw [h.prompt_iff pend,woken]
      simp only [free,true_and,Preempts,not_and,not_lt]
      rfl
    · exact (bits_or_mask s.enterTask.osReadyList lt).trans (by rw [Kernel.enterTask_toCore])
    · change s.enterTask.osBlockedList = s.osBlockedList
      unfold Kernel.enterTask
      split_ifs <;> rfl
    · simp [Kernel.installInto,Kernel.setReady,Kernel.setTask,Kernel.setPriorityVector,hne]

/-- The move up to the ceiling by the running task. -/
theorem raise_iff (h : s.Leads) {k : Kernel cfg} (i : ℕ) (stage : k.stage = s.stage)
    (current : k.currentTask = s.currentTask) (pend : k.pendingInterrupts = s.pendingInterrupts)
    (ceil : (k.brtosMutexTable i).osMaxPriority = (s.brtosMutexTable i).osMaxPriority) :
    s.Prompt (k.raise i s.currentPriority) ↔ ¬ s.RaisesToBlocked i := by
  have hp : s.currentPriority < cfg.width := h.prio_lt (h.current h.running.1)
  have hc : (k.brtosMutexTable i).osMaxPriority < cfg.width := ceil ▸ ceiling_lt h.sound i
  have hk := h.foremost.congr stage
  have prio : (k.contextTask s.currentTask).priority = s.currentPriority := by
    simp only [Kernel.stage,Prod.mk.injEq] at stage
    exact congrFun stage.2.2 s.currentTask
  have blocked : k.osBlockedList = s.osBlockedList := by
    simp only [Kernel.stage,Prod.mk.injEq] at stage
    exact stage.2.1
  have pend' : (k.raise i s.currentPriority).pendingInterrupts = s.pendingInterrupts := by
    simp only [Kernel.raise]
    split_ifs <;> exact pend
  rw [h.prompt_iff pend']
  have same : ((k.setMutex i fun m => { m with
      osOriginalPriority := s.currentPriority }).brtosMutexTable i).osMaxPriority =
        (k.brtosMutexTable i).osMaxPriority := by simp [Kernel.setMutex]
  simp only [Kernel.raise,same,RaisesToBlocked,← ceil,← blocked]
  by_cases hlt : s.currentPriority < (k.brtosMutexTable i).osMaxPriority
  · rw [if_pos hlt]
    refine (Kernel.foremost_move_iff (k := k) (p := (k.brtosMutexTable i).osMaxPriority)
      ?_ ?_ ?_).trans ?_
    · change bits ((k.osReadyList &&& ~~~ priorityMask cfg s.currentPriority) |||
        priorityMask cfg (k.brtosMutexTable i).osMaxPriority) = _
      rw [bits_or_mask _ hc,bits_and_not_mask _ hp,prio]
    · rfl
    · simp [Kernel.setReady,Kernel.clearReady,Kernel.setPriorityVector,Kernel.setTask,
        Kernel.setMutex,current]
    · have below : ∀ q ∈ bits k.osReadyList ∩ bits k.osBlockedList,
          q ≠ (k.contextTask s.currentTask).priority → q ≤ (k.brtosMutexTable i).osMaxPriority :=
        fun q hq _ => ((hk.2 q hq).trans_eq prio).trans hlt.le
      simp only [hlt,true_and,not_not]
      exact ⟨And.left,fun hb => ⟨hb,below⟩⟩
  · rw [if_neg hlt]
    simp only [hlt,false_and,not_false_iff,iff_true]
    exact hk.congr rfl

theorem mutexAcquire_iff (h : s.Leads) {i : ℕ} (legal : s.Created (.mutex i)) (w : ℕ) :
    s.Prompt (s.osMutexAcquire i w).1 ↔ ¬ s.Unrequested (.mutexAcquire i w) := by
  have created : s.osEnterCritical.notCreated (.mutex i) = false := by
    have := legal.resolve_left (by simp [Obj.onHeap])
    simp [Kernel.notCreated,this]
  simp only [Kernel.osMutexAcquire,Unrequested]
  rw [if_neg (by simp [h.running.2.1]),if_neg (by simp [created])]
  by_cases ho : s.currentTask = (s.brtosMutexTable i).osEventOwner
  · rw [if_pos (show s.osEnterCritical.currentTask = (s.osEnterCritical.brtosMutexTable i).osEventOwner from ho)]
    simp only [ne_eq,ho.symm,not_true,false_and,not_false_iff,iff_true]
    exact h.same rfl
  rw [if_neg (show ¬ s.osEnterCritical.currentTask = (s.osEnterCritical.brtosMutexTable i).osEventOwner from ho)]
  by_cases hf : (s.brtosMutexTable i).osEventState = availableResource
  · rw [if_pos (show (s.osEnterCritical.brtosMutexTable i).osEventState = _ from hf)]
    rw [prompt_osExitCritical]
    refine (raise_iff h (k := s.osEnterCritical.setMutex i fun m => { m with
      osEventState := busyResource, osEventOwner := s.currentTask }) i rfl rfl rfl
        (by simp [Kernel.setMutex])).trans ?_
    simp only [ne_eq,Ne.symm ho,hf,not_false_iff,true_and]
  rw [if_neg (show ¬ (s.osEnterCritical.brtosMutexTable i).osEventState = _ from hf)]
  simp only [hf,false_and,and_false,not_false_iff,iff_true]
  split_ifs
  · exact h.same rfl
  · exact suspend_prompt _ _ _

theorem stage_prio {k l : Kernel cfg} (h : k.stage = l.stage) (t : ℕ) :
    (k.contextTask t).priority = (l.contextTask t).priority := by
  simp only [Kernel.stage,Prod.mk.injEq] at h
  exact congrFun h.2.2 t

/-- The way back to the priority that the mutex has kept. -/
theorem restore_iff (h : s.Leads) {k : Kernel cfg} (i : ℕ) (stage : k.stage = s.stage)
    (current : k.currentTask = s.currentTask)
    (lt : (k.brtosMutexTable i).osOriginalPriority < cfg.width) :
    (k.restore i).Foremost s.currentTask ↔
      ¬ ((k.brtosMutexTable i).osOriginalPriority ≠ s.currentPriority ∧
        ((k.brtosMutexTable i).osOriginalPriority ∉ bits s.osBlockedList ∨
          ∃ p ∈ bits s.osReadyList ∩ bits s.osBlockedList, p ≠ s.currentPriority ∧
            (k.brtosMutexTable i).osOriginalPriority < p)) := by
  have prio : k.currentPriority = s.currentPriority := by
    unfold Kernel.currentPriority
    rw [current,stage_prio stage]
  have hp : s.currentPriority < cfg.width := h.prio_lt (h.current h.running.1)
  have maps : k.osReadyList = s.osReadyList ∧ k.osBlockedList = s.osBlockedList := by
    simp only [Kernel.stage,Prod.mk.injEq] at stage
    exact ⟨stage.1,stage.2.1⟩
  simp only [Kernel.restore,prio]
  by_cases hne : s.currentPriority = (k.brtosMutexTable i).osOriginalPriority
  · rw [if_neg (not_not.mpr hne)]
    simp only [hne,ne_eq,not_true,false_and,not_false_iff,iff_true]
    exact h.foremost.congr stage
  · rw [if_pos hne]
    refine (Kernel.foremost_move_iff (k := s.toKernel)
      (p := (k.brtosMutexTable i).osOriginalPriority) ?_ ?_ ?_).trans ?_
    · change bits ((k.osReadyList &&& ~~~ priorityMask cfg s.currentPriority) |||
        priorityMask cfg (k.brtosMutexTable i).osOriginalPriority) = _
      rw [bits_or_mask _ lt,bits_and_not_mask _ hp,maps.1]
      rfl
    · exact maps.2
    · simp [Kernel.setTask,current]
    · simp only [ne_eq,Ne.symm hne,not_false_iff,true_and,not_or,not_not,not_exists,not_and,not_lt]
      rfl

theorem mutexRelease_iff (h : s.Leads) {i : ℕ} (legal : s.Created (.mutex i))
    (lt : (s.brtosMutexTable i).osEventOwner = s.currentTask →
      (s.brtosMutexTable i).osOriginalPriority < cfg.width) :
    s.Prompt (s.osMutexRelease i).1 ↔ ¬ s.Unrequested (.mutexRelease i) := by
  have created : s.osEnterCritical.notCreated (.mutex i) = false := by
    have := legal.resolve_left (by simp [Obj.onHeap])
    simp [Kernel.notCreated,this]
  simp only [Kernel.osMutexRelease,Unrequested]
  rw [if_neg (by simp [h.running.2.1]),if_neg (by simp [created])]
  by_cases ho : (s.brtosMutexTable i).osEventOwner = s.currentTask
  · rw [if_neg (show ¬ (s.osEnterCritical.brtosMutexTable i).osEventOwner ≠
      s.osEnterCritical.currentTask from not_not.mpr ho)]
    have event : (s.osEnterCritical.restore i).event = s.event := by
      simp only [Kernel.restore]
      split_ifs <;> rfl
    have pend : (s.osEnterCritical.restore i).pendingInterrupts = s.pendingInterrupts := by
      simp only [Kernel.restore]
      split_ifs <;> rfl
    rw [show ((s.osEnterCritical.restore i).setMutex i fun m => { m with osEventOwner := 0 }).event =
      s.event from event]
    by_cases hw : (s.event (.mutex i)).osEventWait = 0
    · rw [if_neg (not_not.mpr hw)]
      simp only [prompt_osExitCritical]
      have same : s.Prompt (((s.osEnterCritical.restore i).setMutex i fun m =>
          { m with osEventOwner := 0 }).makeAvailable i) ↔ s.Prompt (s.osEnterCritical.restore i) := by
        refine prompt_congr ?_ ?_
        · simp only [Kernel.makeAvailable]
          split_ifs <;> rfl
        · simp only [Kernel.makeAvailable]
          split_ifs <;> rfl
      rw [same,h.prompt_iff pend,restore_iff h (k := s.osEnterCritical) i rfl rfl (lt ho)]
      simp only [ho,hw,true_and]
      rfl
    · rw [if_pos hw]
      simp only [hw,false_and,and_false,not_false_iff,iff_true]
      exact Or.inr (changeContext_switchPending _)
  · rw [if_pos (show (s.osEnterCritical.brtosMutexTable i).osEventOwner ≠
      s.osEnterCritical.currentTask from ho)]
    simp only [ho,false_and,not_false_iff,iff_true]
    exact h.same rfl

/-! ### Every service -/

/-- What each service does about the scheduler's choice: unless the call is one of those listed, the
caller stays the foremost task or a context switch has been requested. -/
theorem serve_iff (h : s.Leads) (run : s.point s.currentTask = .run) {c : Call}
    (ok : s.Proper .restoring s.currentTask c) : s.Prompt (s.serve c).1 ↔ ¬ s.Unrequested c := by
  have legal := ok.legal
  have noIdle := ok.notIdle
  cases c with
  | install e stack p =>
    cases e with
    | idle => simp [Call.installsIdle] at noIdle
    | user n =>
      by_cases hp : p = 0
      · subst hp
        have hc : ∃ code, s.osInstallTask (.user n) stack 0 = (s.enterTask.exitTask,code,none) := by
          rcases osInstallTask_cases s.toKernel (.user n) stack 0 with
            ⟨code,_,he⟩ | ⟨_,_,_,_,_,hu,_⟩
          · exact ⟨code,he⟩
          · simp at hu
        obtain ⟨code,he⟩ := hc
        refine Leads.quiet ?_ fun hu => absurd hu.2.2 (Nat.not_lt_zero _)
        simp only [Kernel.serve,he]
        exact h.same (by simp)
      · exact install_iff h _ stack hp
  | blockPriority p => exact Leads.quiet (blockPriority_prompt h legal) id
  | unBlockPriority p => exact unBlockPriority_iff h legal
  | blockTask u => exact Leads.quiet (blockTask_prompt h legal) id
  | unBlockTask u => exact unBlockTask_iff h legal
  | blockMultipleTask a n => exact Leads.quiet (blockMultiple_prompt h legal) id
  | unBlockMultipleTask a n => exact unBlockMultiple_iff h legal
  | delayTask w => exact Leads.quiet (delayTask_prompt h w) id
  | semPend i w => exact Leads.quiet (semPend_prompt h i w) id
  | semPost i => exact semPost_iff h i
  | mutexAcquire i w => exact mutexAcquire_iff h legal w
  | mutexRelease i =>
    refine mutexRelease_iff h legal fun ho => ?_
    have caller := h.caller h.running.1 run h.user
    exact restorable_lt h.sound caller.inst (ok.meets (held_of_owner h.sound caller ho))
  | mboxPend i w => exact Leads.quiet (mboxPend_prompt h i w) id
  | mboxPost i m => exact mboxPost_iff h i m
  | queuePend d i w => exact Leads.quiet (queuePend_prompt h d i w) id
  | queuePost i b => exact queuePost_iff h .static i [b]
  | dqueuePost i pdata => exact queuePost_iff h .dynamic i _
  | _ => exact Leads.quiet (h.same (tables_stage rfl)) id

end System
end Brtos
