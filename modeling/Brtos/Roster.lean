import Brtos.Ceiling

/-! The tables that tell which task has which priority, and the services that leave them alone. -/
namespace Brtos

namespace Kernel
variable {cfg : Config} (k : Kernel cfg)

/-- PriorityVector, the priorities of the tasks, which control blocks are taken, and the mutexes. -/
def roster : (ℕ → ℕ) × (ℕ → ℕ) × BitVec 32 × (ℕ → ℕ) × (ℕ → BrtosMutex) :=
  (k.priorityVector,fun t => (k.contextTask t).priority,k.taskAlloc,
    fun m => (k.event (.mutex m)).osEventAllocated,k.brtosMutexTable)

theorem roster_congr {k l : Kernel cfg} (h : k.toCore = l.toCore) : k.roster = l.roster := by
  simp only [roster,h]

theorem setEvent_roster (o : Obj) (f : OsEvent cfg → OsEvent cfg)
    (h : (f (k.event o)).osEventAllocated = (k.event o).osEventAllocated) :
    (k.setEvent o f).roster = k.roster := by
  have same : (fun m => ((k.setEvent o f).event (.mutex m)).osEventAllocated) =
      fun m => (k.event (.mutex m)).osEventAllocated := by
    funext m
    exact congrFun (map_update_same OsEvent.osEventAllocated k.event o _ h) (.mutex m)
  simp only [roster,same]
  rfl

theorem setTask_roster (t : ℕ) (f : ContextType → ContextType)
    (h : (f (k.contextTask t)).priority = (k.contextTask t).priority) :
    (k.setTask t f).roster = k.roster := by
  simp only [roster,setTask,map_update_same ContextType.priority _ _ _ h]

@[simp] theorem osEnterCritical_roster : k.osEnterCritical.roster = k.roster := rfl
@[simp] theorem osExitCritical_roster : k.osExitCritical.roster = k.roster := rfl
@[simp] theorem changeContext_roster : k.changeContext.roster = k.roster := rfl
@[simp] theorem setTimeToWait_roster (t d : ℕ) : (k.setTimeToWait t d).roster = k.roster :=
  k.setTask_roster t _ rfl
@[simp] theorem setReady_roster (p : ℕ) : (k.setReady p).roster = k.roster := rfl
@[simp] theorem clearReady_roster (p : ℕ) : (k.clearReady p).roster = k.roster := rfl
@[simp] theorem setSem_roster (i : ℕ) (f : BrtosSem → BrtosSem) :
    (k.setSem i f).roster = k.roster := rfl
@[simp] theorem setMbox_roster (i : ℕ) (f : BrtosMbox → BrtosMbox) :
    (k.setMbox i f).roster = k.roster := rfl
@[simp] theorem unlist_roster (o : Obj) (p : ℕ) : (k.unlist o p).roster = k.roster :=
  k.setEvent_roster o _ rfl
@[simp] theorem wakeHighest_roster (o : Obj) : (k.wakeHighest o).roster = k.roster :=
  k.unlist_roster o _

@[simp] theorem setQueue_roster (d : QueueKind) (i : ℕ) (q : OsQueue) :
    (k.setQueue d i q).roster = k.roster := roster_congr (by simp)
@[simp] theorem enterTask_roster : k.enterTask.roster = k.roster := roster_congr (by simp)
@[simp] theorem exitTask_roster : k.exitTask.roster = k.roster := roster_congr (by simp)
@[simp] theorem enterNesting_roster : k.enterNesting.roster = k.roster := roster_congr (by simp)
@[simp] theorem exitNesting_roster : k.exitNesting.roster = k.roster := roster_congr (by simp)
@[simp] theorem changeContextUnnested_roster : k.changeContextUnnested.roster = k.roster :=
  roster_congr (by simp)

@[simp] theorem setNext_roster (p q : Option ℕ) : (k.setNext p q).roster = k.roster := by
  cases p with
  | none => rfl
  | some t => exact k.setTask_roster t _ rfl

@[simp] theorem setPrevious_roster (p q : Option ℕ) : (k.setPrevious p q).roster = k.roster := by
  cases p with
  | none => rfl
  | some t => exact k.setTask_roster t _ rfl

@[simp] theorem includeTaskIntoDelayList_roster (t : ℕ) :
    (k.includeTaskIntoDelayList t).roster = k.roster := by
  unfold includeTaskIntoDelayList
  split_ifs
  · rw [setNext_roster]
    exact (setPrevious_roster _ _ _).trans (setNext_roster _ _ _)
  · rw [setPrevious_roster,setNext_roster]
    rfl

@[simp] theorem removeFromDelayList_roster (t : ℕ) :
    (k.removeFromDelayList t).roster = k.roster := by
  unfold removeFromDelayList
  split_ifs
  · rfl
  · exact setPrevious_roster _ _ _
  · exact setNext_roster _ _ _
  · exact (setNext_roster _ _ _).trans (setPrevious_roster _ _ _)

@[simp] theorem suspend_roster (o : Obj) (w : ℕ) : (k.suspend o w).1.roster = k.roster := by
  have joined := k.setEvent_roster o (fun e => { e with
    osEventWait := (e.osEventWait+1)%256
    osEventWaitList := e.osEventWaitList ||| priorityMask cfg k.currentPriority }) rfl
  simp only [suspend,osExitCritical_roster,changeContext_roster]
  split_ifs
  · simp only [includeTaskIntoDelayList_roster,setTimeToWait_roster,clearReady_roster,joined]
  · simp only [setTimeToWait_roster,clearReady_roster,joined]

@[simp] theorem wakeUp_roster (o : Obj) (p w : ℕ) : (k.wakeUp o p w).1.roster = k.roster := by
  simp only [wakeUp]
  split_ifs <;> simp

@[simp] theorem expire_roster (t : ℕ) : (k.expire t).roster = k.roster := by
  simp only [expire,removeFromDelayList_roster]
  split_ifs <;> simp

theorem tickLoop_roster {k l : Kernel cfg} {fuel : ℕ} {p : Option ℕ}
    (h : tickLoop fuel p k = some l) : l.roster = k.roster := by
  induction fuel generalizing p k with
  | zero =>
    cases p with
    | none => exact congrArg roster (Option.some.inj h).symm
    | some t => simp [tickLoop] at h
  | succ n ih =>
    cases p with
    | none => exact congrArg roster (Option.some.inj h).symm
    | some t =>
      rw [tickLoop] at h
      rw [ih h]
      split_ifs <;> simp

theorem tick_roster {l : Kernel cfg} {fuel : ℕ} (h : k.tick fuel = some l) : l.roster = k.roster :=
  (tickLoop_roster (k := k.osIncCounter) h).trans rfl

theorem allocEvent_roster {o : Obj} (other : ∀ m, o ≠ .mutex m) :
    (k.allocEvent o).roster = k.roster := by
  simp only [roster,allocEvent,setEvent,Function.update_of_ne (Ne.symm (other _))]

theorem freeEvent_roster {o : Obj} (other : ∀ m, o ≠ .mutex m) :
    (k.freeEvent o).roster = k.roster := by
  simp only [roster,freeEvent,setEvent,Function.update_of_ne (Ne.symm (other _))]

end Kernel

/-- The services that install a task or move its priority. -/
def Call.books : Call → Bool
  | .install _ _ _ | .mutexCreate _ | .mutexDelete _ | .mutexAcquire _ _ | .mutexRelease _ => true
  | _ => false

namespace Kernel
variable {cfg : Config} (k : Kernel cfg)

theorem queuePost_roster (d : QueueKind) (i : ℕ) (bytes : List ℕ) :
    (k.queuePost d i bytes).1.roster = k.roster := by
  simp only [queuePost]
  repeat' split
  all_goals simp

theorem serve_roster {c : Call} (h : c.books = false) : (k.serve c).1.roster = k.roster := by
  cases c with
  | blockPriority | unBlockPriority =>
    simp only [serve,osBlockPriority,osUnBlockPriority]
    split_ifs <;> exact roster_congr (by simp)
  | blockTask | unBlockTask =>
    simp only [serve,osBlockTask,osUnBlockTask]
    split_ifs <;> exact roster_congr (by simp)
  | blockMultipleTask a n => exact roster_congr (System.blockMultiple_toCore k a n)
  | unBlockMultipleTask a n => exact roster_congr (System.unBlockMultiple_toCore k a n)
  | delayTask w =>
    simp only [serve,osDelayTask]
    split_ifs <;> simp
  | semCreate | semBinaryCreate | semDelete =>
    simp only [serve,osSemCreate,osSemBinaryCreate,osSemDelete]
    repeat' split
    all_goals simp [allocEvent_roster,freeEvent_roster]
  | semPend | semPost =>
    simp only [serve,osSemPend,osSemPost]
    split_ifs <;> simp
  | mboxCreate | mboxDelete =>
    simp only [serve,osMboxCreate,osMboxDelete]
    repeat' split
    all_goals simp [allocEvent_roster,freeEvent_roster]
  | mboxPend | mboxPost =>
    simp only [serve,osMboxPend,osMboxPost,takeMail]
    split_ifs <;> simp
  | queueCreate =>
    simp only [serve,osQueueCreate]
    repeat' split
    all_goals simp only [exitTask_roster,setQueue_roster,
      allocEvent_roster _ (o := .queue _) (fun _ => Obj.noConfusion)]
    all_goals exact k.enterTask_roster
  | dqueueCreate | dqueueDelete =>
    simp only [serve,osDQueueCreate,osDQueueDelete]
    repeat' split
    all_goals simp [freeEvent_roster,setEvent_roster]
  | queueClean | queueWrite | queueRead =>
    simp only [serve,queueClean,osWQueue,osRQueue]
    repeat' split
    all_goals simp
  | queuePend d i w =>
    simp only [serve,queuePend]
    split_ifs <;> simp
  | queuePost i b => exact k.queuePost_roster .static i [b]
  | dqueuePost i pdata => exact k.queuePost_roster .dynamic i _
  | install | mutexCreate | mutexDelete | mutexAcquire | mutexRelease => simp [Call.books] at h

end Kernel
end Brtos
