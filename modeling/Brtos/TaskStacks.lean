import Brtos.Removal
import Brtos.UmmQueues

/-! The stacks of dynamic tasks, on the heap that umm_malloc.c keeps: who has which part of it while
tasks come and go. -/
namespace Brtos

namespace Kernel
variable {cfg : Config} (k : Kernel cfg)

/-- Which control blocks are taken, and where their stacks begin. -/
def stackInits : BitVec 32 × (ℕ → ℕ) := (k.taskAlloc,fun t => (k.contextTask t).stackInit)

theorem stackInits_congr {k l : Kernel cfg} (h : k.toCore = l.toCore) : k.stackInits = l.stackInits := by
  simp only [stackInits,h]

theorem setTask_stackInits (t : ℕ) (f : ContextType → ContextType)
    (h : (f (k.contextTask t)).stackInit = (k.contextTask t).stackInit) :
    (k.setTask t f).stackInits = k.stackInits := by
  simp only [stackInits,setTask,map_update_same ContextType.stackInit _ _ _ h]

@[simp] theorem osEnterCritical_stackInits : k.osEnterCritical.stackInits = k.stackInits := rfl
@[simp] theorem osExitCritical_stackInits : k.osExitCritical.stackInits = k.stackInits := rfl
@[simp] theorem changeContext_stackInits : k.changeContext.stackInits = k.stackInits := rfl
@[simp] theorem setTimeToWait_stackInits (t d : ℕ) : (k.setTimeToWait t d).stackInits = k.stackInits :=
  k.setTask_stackInits t _ rfl
@[simp] theorem setReady_stackInits (p : ℕ) : (k.setReady p).stackInits = k.stackInits := rfl
@[simp] theorem clearReady_stackInits (p : ℕ) : (k.clearReady p).stackInits = k.stackInits := rfl
@[simp] theorem setPriorityVector_stackInits (p t : ℕ) : (k.setPriorityVector p t).stackInits = k.stackInits := rfl
@[simp] theorem setEvent_stackInits (o : Obj) (f : OsEvent cfg → OsEvent cfg) :
    (k.setEvent o f).stackInits = k.stackInits := rfl
@[simp] theorem allocEvent_stackInits (o : Obj) : (k.allocEvent o).stackInits = k.stackInits := rfl
@[simp] theorem freeEvent_stackInits (o : Obj) : (k.freeEvent o).stackInits = k.stackInits := rfl
@[simp] theorem unlist_stackInits (o : Obj) (p : ℕ) : (k.unlist o p).stackInits = k.stackInits := rfl
@[simp] theorem wakeHighest_stackInits (o : Obj) : (k.wakeHighest o).stackInits = k.stackInits := rfl
@[simp] theorem setSem_stackInits (i : ℕ) (f : BrtosSem → BrtosSem) : (k.setSem i f).stackInits = k.stackInits := rfl
@[simp] theorem setMutex_stackInits (i : ℕ) (f : BrtosMutex → BrtosMutex) :
    (k.setMutex i f).stackInits = k.stackInits := rfl
@[simp] theorem setMbox_stackInits (i : ℕ) (f : BrtosMbox → BrtosMbox) :
    (k.setMbox i f).stackInits = k.stackInits := rfl

@[simp] theorem setQueue_stackInits (d : QueueKind) (i : ℕ) (q : OsQueue) :
    (k.setQueue d i q).stackInits = k.stackInits := stackInits_congr (by simp)
@[simp] theorem enterTask_stackInits : k.enterTask.stackInits = k.stackInits := stackInits_congr (by simp)
@[simp] theorem exitTask_stackInits : k.exitTask.stackInits = k.stackInits := stackInits_congr (by simp)
@[simp] theorem enterNesting_stackInits : k.enterNesting.stackInits = k.stackInits := stackInits_congr (by simp)
@[simp] theorem exitNesting_stackInits : k.exitNesting.stackInits = k.stackInits := stackInits_congr (by simp)
@[simp] theorem changeContextUnnested_stackInits : k.changeContextUnnested.stackInits = k.stackInits :=
  stackInits_congr (by simp)

@[simp] theorem setNext_stackInits (p q : Option ℕ) : (k.setNext p q).stackInits = k.stackInits := by
  cases p with
  | none => rfl
  | some t => exact k.setTask_stackInits t _ rfl

@[simp] theorem setPrevious_stackInits (p q : Option ℕ) : (k.setPrevious p q).stackInits = k.stackInits := by
  cases p with
  | none => rfl
  | some t => exact k.setTask_stackInits t _ rfl

@[simp] theorem includeTaskIntoDelayList_stackInits (t : ℕ) :
    (k.includeTaskIntoDelayList t).stackInits = k.stackInits := by
  unfold includeTaskIntoDelayList
  split_ifs
  · rw [setNext_stackInits]
    exact (setPrevious_stackInits _ _ _).trans (setNext_stackInits _ _ _)
  · rw [setPrevious_stackInits,setNext_stackInits]
    rfl

@[simp] theorem removeFromDelayList_stackInits (t : ℕ) :
    (k.removeFromDelayList t).stackInits = k.stackInits := by
  unfold removeFromDelayList
  split_ifs
  · rfl
  · exact setPrevious_stackInits _ _ _
  · exact setNext_stackInits _ _ _
  · exact (setNext_stackInits _ _ _).trans (setPrevious_stackInits _ _ _)

@[simp] theorem suspend_stackInits (o : Obj) (w : ℕ) : (k.suspend o w).1.stackInits = k.stackInits := by
  simp only [suspend,osExitCritical_stackInits,changeContext_stackInits]
  split_ifs <;> simp

@[simp] theorem wakeUp_stackInits (o : Obj) (p w : ℕ) : (k.wakeUp o p w).1.stackInits = k.stackInits := by
  simp only [wakeUp]
  split_ifs <;> simp

@[simp] theorem expire_stackInits (t : ℕ) : (k.expire t).stackInits = k.stackInits := by
  simp only [expire,removeFromDelayList_stackInits]
  split_ifs <;> simp

theorem tickLoop_stackInits {k l : Kernel cfg} {fuel : ℕ} {p : Option ℕ}
    (h : tickLoop fuel p k = some l) : l.stackInits = k.stackInits := by
  induction fuel generalizing p k with
  | zero =>
    cases p with
    | none => exact congrArg stackInits (Option.some.inj h).symm
    | some t => simp [tickLoop] at h
  | succ n ih =>
    cases p with
    | none => exact congrArg stackInits (Option.some.inj h).symm
    | some t =>
      rw [tickLoop] at h
      rw [ih h]
      split_ifs <;> simp

theorem tick_stackInits {l : Kernel cfg} {fuel : ℕ} (h : k.tick fuel = some l) : l.stackInits = k.stackInits :=
  (tickLoop_stackInits (k := k.osIncCounter) h).trans rfl

@[simp] theorem raise_stackInits (i p : ℕ) : (k.raise i p).stackInits = k.stackInits := by
  simp only [raise]
  split_ifs
  · rw [setReady_stackInits,clearReady_stackInits,setPriorityVector_stackInits,setTask_stackInits _ _ _ rfl,setMutex_stackInits]
  · exact k.setMutex_stackInits i _

@[simp] theorem restore_stackInits (i : ℕ) : (k.restore i).stackInits = k.stackInits := by
  simp only [restore]
  split_ifs
  · rw [setTask_stackInits _ _ _ rfl,setReady_stackInits,clearReady_stackInits]
  · rfl

@[simp] theorem passOn_stackInits (i : ℕ) : (k.passOn i).stackInits = k.stackInits := rfl

@[simp] theorem makeAvailable_stackInits (i : ℕ) : (k.makeAvailable i).stackInits = k.stackInits := by
  simp only [makeAvailable]
  split_ifs <;> simp

theorem queuePost_stackInits (d : QueueKind) (i : ℕ) (bytes : List ℕ) :
    (k.queuePost d i bytes).1.stackInits = k.stackInits := by
  simp only [queuePost]
  repeat' split
  all_goals simp

/-- No service but OSInstallTask has to do with the stacks. -/
theorem serve_stackInits {c : Call} (h : ∀ f n p, c ≠ .install f n p) : (k.serve c).1.stackInits = k.stackInits := by
  cases c with
  | install f n p => exact absurd rfl (h f n p)
  | blockPriority | unBlockPriority =>
    simp only [serve,osBlockPriority,osUnBlockPriority]
    split_ifs <;> exact stackInits_congr (by simp)
  | blockTask | unBlockTask =>
    simp only [serve,osBlockTask,osUnBlockTask]
    split_ifs <;> exact stackInits_congr (by simp)
  | blockMultipleTask a n => exact stackInits_congr (System.blockMultiple_toCore k a n)
  | unBlockMultipleTask a n => exact stackInits_congr (System.unBlockMultiple_toCore k a n)
  | delayTask w =>
    simp only [serve,osDelayTask]
    split_ifs <;> simp
  | semCreate | semBinaryCreate | semDelete =>
    simp only [serve,osSemCreate,osSemBinaryCreate,osSemDelete]
    repeat' split
    all_goals simp
  | semPend | semPost =>
    simp only [serve,osSemPend,osSemPost]
    split_ifs <;> simp
  | mutexCreate | mutexDelete =>
    simp only [serve,osMutexCreate,osMutexDelete]
    repeat' split
    all_goals simp
  | mutexAcquire | mutexRelease =>
    simp only [serve,osMutexAcquire,osMutexRelease]
    split_ifs <;> simp
  | mboxCreate | mboxDelete =>
    simp only [serve,osMboxCreate,osMboxDelete]
    repeat' split
    all_goals simp
  | mboxPend | mboxPost =>
    simp only [serve,osMboxPend,osMboxPost,takeMail]
    split_ifs <;> simp
  | queueCreate =>
    simp only [serve,osQueueCreate]
    repeat' split
    all_goals simp only [exitTask_stackInits,setQueue_stackInits,allocEvent_stackInits]
    all_goals exact k.enterTask_stackInits
  | dqueueCreate | dqueueDelete =>
    simp only [serve,osDQueueCreate,osDQueueDelete]
    repeat' split
    all_goals simp
  | queueClean | queueWrite | queueRead =>
    simp only [serve,queueClean,osWQueue,osRQueue]
    repeat' split
    all_goals simp
  | queuePend d i w =>
    simp only [serve,queuePend]
    split_ifs <;> simp
  | queuePost i b => exact k.queuePost_stackInits .static i [b]
  | dqueuePost i pdata => exact k.queuePost_stackInits .dynamic i _

theorem resumePend_stackInits (o : Obj) (p w : ℕ) : (k.resumePend o p w).1.stackInits = k.stackInits := by
  cases o <;>
    simp only [resumePend,resumeSemPend,resumeMutexAcquire,resumeMboxPend,resumeQueuePend,takeMail] <;>
    split_ifs <;> simp

end Kernel

namespace System
variable {cfg : Config} {s t : System cfg} {a : Action}

theorem enter_stackInits (who : Option ℕ) {c : Call} (h : ∀ f n p, c ≠ .install f n p) :
    (s.enter who c).stackInits = s.stackInits := by
  have served := s.serve_stackInits h
  unfold enter
  split
  · exact served
  · exact served

theorem process_stackInits {fuel i data : ℕ} (next : s.process fuel i data = some t) :
    t.stackInits = s.stackInits := by
  unfold process at next
  obtain ⟨u,ticked,rfl⟩ := Option.map_eq_some_iff.mp next
  have same : u.stackInits = s.stackInits := by
    split_ifs at ticked
    · obtain ⟨k,eq,rfl⟩ := Option.map_eq_some_iff.mp ticked
      have later := Kernel.tick_stackInits _ eq
      exact later
    · obtain rfl := Option.some.inj ticked
      rfl
  dsimp only
  split_ifs
  · exact (enter_stackInits none fun _ _ _ => Call.noConfusion).trans same
  · exact same

/-- A step that the two builds have in common leaves the stacks alone. -/
theorem step_stackInits (common : a.common = true) (next : s.step a = some t) :
    t.stackInits = s.stackInits := by
  cases a with
  | main c =>
    simp only [step] at next
    split_ifs at next
    obtain rfl := Option.some.inj next
    exact enter_stackInits none fun f n p e => by simp [e,Action.common] at common
  | start => simp [Action.common] at common
  | call c =>
    simp only [step] at next
    split_ifs at next
    obtain rfl := Option.some.inj next
    exact enter_stackInits _ fun f n p e => by simp [e,Action.common] at common
  | resume =>
    simp only [step] at next
    split_ifs at next
    unfold proceed at next
    split at next
    · simp at next
    · obtain rfl := Option.some.inj next
      rfl
    · obtain rfl := Option.some.inj next
      exact s.resumePend_stackInits _ _ _
  | isrEnter =>
    simp only [step] at next
    split_ifs at next
    obtain rfl := Option.some.inj next
    rfl
  | isrTick fuel =>
    simp only [step] at next
    split_ifs at next
    obtain ⟨k,eq,rfl⟩ := Option.map_eq_some_iff.mp next
    exact s.tick_stackInits eq
  | isrCall c =>
    simp only [step] at next
    split_ifs at next with fits
    obtain rfl := Option.some.inj next
    exact enter_stackInits none fun f n p e => by simp [e,Call.fromIsr] at fits
  | isrExit =>
    simp only [step] at next
    split_ifs at next <;> obtain rfl := Option.some.inj next <;> rfl
  | switch =>
    simp only [step] at next
    split_ifs at next
    obtain rfl := Option.some.inj next
    rfl
  | raise n =>
    simp only [step] at next
    split_ifs at next
    obtain rfl := Option.some.inj next
    rfl
  | process fuel i data =>
    simp only [step] at next
    split_ifs at next
    exact process_stackInits next

end System
end Brtos
