import Brtos.Reservation

/-! Each event's own data, and which services touch it. -/
namespace Brtos

/-- The part of a control block that depends on its kind. -/
inductive Body
  | sem (b : BrtosSem)
  | mutex (b : BrtosMutex)
  | mbox (b : BrtosMbox)
  | queue (q : OsQueue)

namespace Kernel
variable {cfg : Config} (k : Kernel cfg)

def body : Obj → Body
  | .sem i => .sem (k.brtosSemTable i)
  | .mutex i => .mutex (k.brtosMutexTable i)
  | .mbox i => .mbox (k.brtosMboxTable i)
  | .queue i => .queue (k.brtosOsQueueTable i)
  | .dqueue i => .queue (k.osDqueue i)

/-- Everything that belongs to one event. -/
def cell (o : Obj) : OsEvent cfg × Body := (k.event o,k.body o)

variable {k} {o : Obj}

@[simp] theorem osEnterCritical_cell : k.osEnterCritical.cell o = k.cell o := by cases o <;> rfl
@[simp] theorem osExitCritical_cell : k.osExitCritical.cell o = k.cell o := by cases o <;> rfl
@[simp] theorem changeContext_cell : k.changeContext.cell o = k.cell o := by cases o <;> rfl
@[simp] theorem setTask_cell (t : ℕ) (f : ContextType → ContextType) :
    (k.setTask t f).cell o = k.cell o := by cases o <;> rfl
@[simp] theorem setTimeToWait_cell (t d : ℕ) : (k.setTimeToWait t d).cell o = k.cell o := by
  cases o <;> rfl
@[simp] theorem setReady_cell (p : ℕ) : (k.setReady p).cell o = k.cell o := by cases o <;> rfl
@[simp] theorem clearReady_cell (p : ℕ) : (k.clearReady p).cell o = k.cell o := by cases o <;> rfl
@[simp] theorem setBlocked_cell (p : ℕ) : (k.setBlocked p).cell o = k.cell o := by cases o <;> rfl
@[simp] theorem clearBlocked_cell (p : ℕ) : (k.clearBlocked p).cell o = k.cell o := by
  cases o <;> rfl
@[simp] theorem setPriorityVector_cell (p v : ℕ) : (k.setPriorityVector p v).cell o = k.cell o := by
  cases o <;> rfl
@[simp] theorem installInto_cell (t n p : ℕ) : (k.installInto t n p).cell o = k.cell o := by
  cases o <;> rfl

@[simp] theorem enterTask_cell : k.enterTask.cell o = k.cell o := by
  unfold enterTask
  split_ifs <;> simp

@[simp] theorem exitTask_cell : k.exitTask.cell o = k.cell o := by
  unfold exitTask
  split_ifs <;> simp

@[simp] theorem enterNesting_cell : k.enterNesting.cell o = k.cell o := by
  unfold enterNesting
  split_ifs <;> simp

@[simp] theorem exitNesting_cell : k.exitNesting.cell o = k.cell o := by
  unfold exitNesting
  split_ifs <;> simp

@[simp] theorem changeContextUnnested_cell : k.changeContextUnnested.cell o = k.cell o := by
  unfold changeContextUnnested
  split_ifs <;> simp

@[simp] theorem setNext_cell (p q : Option ℕ) : (k.setNext p q).cell o = k.cell o := by
  cases p
  · rfl
  · exact setTask_cell _ _

@[simp] theorem setPrevious_cell (p q : Option ℕ) : (k.setPrevious p q).cell o = k.cell o := by
  cases p
  · rfl
  · exact setTask_cell _ _

theorem withTail_cell (p : Option ℕ) : ({ k with tail := p } : Kernel cfg).cell o = k.cell o := by
  cases o <;> rfl

theorem withHead_cell (p : Option ℕ) : ({ k with head := p } : Kernel cfg).cell o = k.cell o := by
  cases o <;> rfl

theorem withEnds_cell (p q : Option ℕ) :
    ({ k with tail := p, head := q } : Kernel cfg).cell o = k.cell o := by cases o <;> rfl

theorem withAddress_cell (n : ℕ) : ({ k with iQueueAddress := n } : Kernel cfg).cell o = k.cell o := by
  cases o <;> rfl

@[simp] theorem includeTaskIntoDelayList_cell (t : ℕ) :
    (k.includeTaskIntoDelayList t).cell o = k.cell o := by
  unfold includeTaskIntoDelayList
  split_ifs
  · rw [setNext_cell,withTail_cell,setPrevious_cell,setNext_cell]
  · rw [setPrevious_cell,setNext_cell,withEnds_cell]

@[simp] theorem removeFromDelayList_cell (t : ℕ) : (k.removeFromDelayList t).cell o = k.cell o := by
  unfold removeFromDelayList
  split_ifs
  · exact withEnds_cell _ _
  · rw [setPrevious_cell,withHead_cell]
  · rw [setNext_cell,withTail_cell]
  · simp

@[simp] theorem expire_cell (t : ℕ) : (k.expire t).cell o = k.cell o := by
  simp only [expire,removeFromDelayList_cell]
  split_ifs <;> simp

/-! Updates of one event's data, seen from another one. -/

theorem setEvent_cell {q : Obj} (h : o ≠ q) (f : OsEvent cfg → OsEvent cfg) :
    (k.setEvent q f).cell o = k.cell o := by
  cases o <;> simp only [cell,body,setEvent,Function.update_of_ne h]

theorem setSem_cell {i : ℕ} (h : o ≠ .sem i) (f : BrtosSem → BrtosSem) :
    (k.setSem i f).cell o = k.cell o := by
  cases o with
  | sem j =>
    have hne : j ≠ i := fun e => h (e ▸ rfl)
    simp only [cell,body,setSem,Function.update_of_ne hne]
  | _ => rfl

theorem setMutex_cell {i : ℕ} (h : o ≠ .mutex i) (f : BrtosMutex → BrtosMutex) :
    (k.setMutex i f).cell o = k.cell o := by
  cases o with
  | mutex j =>
    have hne : j ≠ i := fun e => h (e ▸ rfl)
    simp only [cell,body,setMutex,Function.update_of_ne hne]
  | _ => rfl

theorem setMbox_cell {i : ℕ} (h : o ≠ .mbox i) (f : BrtosMbox → BrtosMbox) :
    (k.setMbox i f).cell o = k.cell o := by
  cases o with
  | mbox j =>
    have hne : j ≠ i := fun e => h (e ▸ rfl)
    simp only [cell,body,setMbox,Function.update_of_ne hne]
  | _ => rfl

theorem setQueue_cell {d : QueueKind} {i : ℕ} (h : o ≠ d.obj i) (q : OsQueue) :
    (k.setQueue d i q).cell o = k.cell o := by
  cases d with
  | static =>
    cases o with
    | queue j =>
      have hne : j ≠ i := fun e => h (e ▸ rfl)
      simp only [cell,body,setQueue,Function.update_of_ne hne]
    | _ => rfl
  | dynamic =>
    cases o with
    | dqueue j =>
      have hne : j ≠ i := fun e => h (e ▸ rfl)
      simp only [cell,body,setQueue,Function.update_of_ne hne]
    | _ => rfl

theorem allocEvent_cell {q : Obj} (h : o ≠ q) : (k.allocEvent q).cell o = k.cell o :=
  setEvent_cell h _

theorem freeEvent_cell {q : Obj} (h : o ≠ q) : (k.freeEvent q).cell o = k.cell o :=
  setEvent_cell h _

theorem wakeHighest_cell {q : Obj} (h : o ≠ q) : (k.wakeHighest q).cell o = k.cell o := by
  simp only [wakeHighest,setReady_cell,unlist]
  exact setEvent_cell h _

theorem suspend_cell {q : Obj} (h : o ≠ q) (w : ℕ) : (k.suspend q w).1.cell o = k.cell o := by
  simp only [suspend,osExitCritical_cell,changeContext_cell]
  split_ifs <;> simp [setEvent_cell h]

theorem wakeUp_cell {q : Obj} (h : o ≠ q) (p w : ℕ) : (k.wakeUp q p w).1.cell o = k.cell o := by
  simp only [wakeUp,unlist]
  split_ifs <;> simp [setEvent_cell h]

theorem raise_cell {i : ℕ} (h : o ≠ .mutex i) (p : ℕ) : (k.raise i p).cell o = k.cell o := by
  simp only [raise]
  split_ifs <;> simp [setMutex_cell h]

theorem restore_cell (i : ℕ) : (k.restore i).cell o = k.cell o := by
  simp only [restore]
  split_ifs <;> simp

theorem passOn_cell {i : ℕ} (h : o ≠ .mutex i) : (k.passOn i).cell o = k.cell o := by
  simp only [passOn,setMutex_cell h,wakeHighest_cell h]

theorem makeAvailable_cell {i : ℕ} (h : o ≠ .mutex i) : (k.makeAvailable i).cell o = k.cell o := by
  simp only [makeAvailable]
  split_ifs <;> simp [setMutex_cell h]

theorem takeMail_cell {i : ℕ} (h : o ≠ .mbox i) : (k.takeMail i).1.cell o = k.cell o :=
  setMbox_cell h _

theorem tickLoop_cell {k l : Kernel cfg} {fuel : ℕ} {p : Option ℕ}
    (h : tickLoop fuel p k = some l) : l.cell o = k.cell o := by
  induction fuel generalizing p k with
  | zero =>
    cases p with
    | none => exact congrArg (cell · o) (Option.some.inj h).symm
    | some t => simp [tickLoop] at h
  | succ n ih =>
    cases p with
    | none => exact congrArg (cell · o) (Option.some.inj h).symm
    | some t =>
      rw [tickLoop] at h
      rw [ih h]
      split_ifs <;> simp

theorem tick_cell {l : Kernel cfg} {fuel : ℕ} (h : k.tick fuel = some l) : l.cell o = k.cell o :=
  (tickLoop_cell (k := k.osIncCounter) h).trans (by cases o <;> rfl)

/-! The wait lists are not part of the bodies. -/

theorem body_of_cell {l : Kernel cfg} (h : l.cell o = k.cell o) : l.body o = k.body o :=
  congrArg Prod.snd h

theorem setEvent_body (q : Obj) (f : OsEvent cfg → OsEvent cfg) : (k.setEvent q f).body o = k.body o := by
  cases o <;> rfl

theorem wakeHighest_body (q : Obj) : (k.wakeHighest q).body o = k.body o :=
  (body_of_cell (setReady_cell _)).trans (setEvent_body _ _)

theorem suspend_body (q : Obj) (w : ℕ) : (k.suspend q w).1.body o = k.body o := by
  simp only [suspend]
  refine (body_of_cell (osExitCritical_cell.trans changeContext_cell)).trans ?_
  split_ifs
  · refine (body_of_cell (includeTaskIntoDelayList_cell _)).trans ?_
    refine (body_of_cell ((setTimeToWait_cell _ _).trans (clearReady_cell _))).trans ?_
    exact setEvent_body _ _
  · refine (body_of_cell ((setTimeToWait_cell _ _).trans (clearReady_cell _))).trans ?_
    exact setEvent_body _ _

theorem wakeUp_body (q : Obj) (p w : ℕ) : (k.wakeUp q p w).1.body o = k.body o := by
  simp only [wakeUp]
  split_ifs
  · rfl
  · exact setEvent_body _ _
  · rfl
  · exact body_of_cell ((removeFromDelayList_cell _).trans (setTimeToWait_cell _ _))

/-! No task creates or deletes an event by waiting for it. -/

theorem event_of_cell {l : Kernel cfg} (h : l.cell o = k.cell o) : l.event o = k.event o :=
  congrArg Prod.fst h

theorem setEvent_allocated (q : Obj) {f : OsEvent cfg → OsEvent cfg}
    (h : ∀ e, (f e).osEventAllocated = e.osEventAllocated) :
    ((k.setEvent q f).event o).osEventAllocated = (k.event o).osEventAllocated := by
  by_cases e : o = q
  · subst e
    simp [setEvent,h]
  · simp [setEvent,e]

theorem wakeHighest_allocated (q : Obj) :
    ((k.wakeHighest q).event o).osEventAllocated = (k.event o).osEventAllocated := by
  rw [wakeHighest,event_of_cell (setReady_cell _),unlist]
  exact setEvent_allocated q fun _ => rfl

theorem suspend_allocated (q : Obj) (w : ℕ) :
    ((k.suspend q w).1.event o).osEventAllocated = (k.event o).osEventAllocated := by
  simp only [suspend]
  rw [event_of_cell (osExitCritical_cell.trans changeContext_cell)]
  split_ifs
  · rw [event_of_cell (includeTaskIntoDelayList_cell _),event_of_cell (setTimeToWait_cell _ _),
      event_of_cell (clearReady_cell _)]
    exact setEvent_allocated q fun _ => rfl
  · rw [event_of_cell (setTimeToWait_cell _ _),event_of_cell (clearReady_cell _)]
    exact setEvent_allocated q fun _ => rfl

theorem wakeUp_allocated (q : Obj) (p w : ℕ) :
    ((k.wakeUp q p w).1.event o).osEventAllocated = (k.event o).osEventAllocated := by
  simp only [wakeUp]
  split_ifs
  · rfl
  · exact setEvent_allocated q fun _ => rfl
  · rfl
  · rw [event_of_cell (removeFromDelayList_cell _)]
    rfl

/-- A task that has been woken finds nothing to do on the wait list. -/
theorem wakeUp_event {q : Obj} {p w : ℕ} (h : (k.wakeUp q p w).2 = false) :
    (k.wakeUp q p w).1.event o = k.event o := by
  simp only [wakeUp] at h ⊢
  split_ifs at h ⊢
  · rfl
  · rfl
  · exact event_of_cell ((removeFromDelayList_cell _).trans (setTimeToWait_cell _ _))

/-! ### The services -/

variable (k) in
/-- The events whose own data a service may change. -/
def Touches (o : Obj) : Call → Prop
  | .semCreate _ | .semBinaryCreate _ =>
    ∃ i, k.findEvent .sem cfg.brtosMaxSem = some i ∧ o = .sem i
  | .mutexCreate _ => ∃ i, k.findEvent .mutex cfg.brtosMaxMutex = some i ∧ o = .mutex i
  | .mboxCreate _ => ∃ i, k.findEvent .mbox cfg.brtosMaxMbox = some i ∧ o = .mbox i
  | .queueCreate _ => ∃ i, k.findEvent .queue cfg.brtosMaxQueue = some i ∧ o = .queue i
  | .dqueueCreate a _ _ => ∃ i, a.handler = some i ∧ o = .dqueue i
  | .semDelete i | .semPend i _ | .semPost i => o = .sem i
  | .mutexDelete i | .mutexAcquire i _ | .mutexRelease i => o = .mutex i
  | .mboxDelete i | .mboxPend i _ | .mboxPost i _ => o = .mbox i
  | .dqueueDelete i | .dqueuePost i _ => o = .dqueue i
  | .queueWrite i _ | .queueRead i | .queuePost i _ => o = .queue i
  | .queueClean d i | .queuePend d i _ => o = d.obj i
  | _ => False

theorem queuePost_cell {d : QueueKind} {i : ℕ} (h : o ≠ d.obj i) (bytes : List ℕ) :
    (k.queuePost d i bytes).1.cell o = k.cell o := by
  simp only [queuePost]
  repeat' split
  all_goals simp [setQueue_cell h,wakeHighest_cell h]

theorem osInstallTask_cell (e : Entry) (stack p : ℕ) :
    (k.osInstallTask e stack p).1.cell o = k.cell o := by
  rcases System.osInstallTask_cases k e stack p with ⟨code,_,he⟩ | ⟨i,n,_,_,_,_,he⟩
  · simp [he]
  · simp [he]

theorem osMutexCreate_cell {p : ℕ} (h : ¬ k.Touches o (.mutexCreate p)) :
    (k.osMutexCreate p).1.cell o = k.cell o := by
  have same : (if 0 < p then k.enterTask.setPriorityVector p mutexPrio else k.enterTask).findEvent
      .mutex cfg.brtosMaxMutex = k.findEvent .mutex cfg.brtosMaxMutex := by
    rw [← k.enterTask_findEvent .mutex]
    split_ifs <;> rfl
  have first : (if 0 < p then k.enterTask.setPriorityVector p mutexPrio else k.enterTask).cell o =
      k.cell o := by
    split_ifs <;> simp
  simp only [osMutexCreate,same]
  split_ifs
  · rfl
  · simp
  all_goals
    cases hf : k.findEvent .mutex cfg.brtosMaxMutex with
    | none => simp
    | some i =>
      have apart : o ≠ .mutex i := fun e => h ⟨i,hf,e⟩
      simp [setMutex_cell apart,allocEvent_cell apart]

/-- A service leaves the data of the other events alone. -/
theorem serve_cell {c : Call} (h : ¬ k.Touches o c) : (k.serve c).1.cell o = k.cell o := by
  cases c with
  | install e stack p => exact osInstallTask_cell e stack p
  | blockPriority | unBlockPriority =>
    simp only [serve,osBlockPriority,osUnBlockPriority]
    split_ifs <;> simp
  | blockTask | unBlockTask =>
    simp only [serve,osBlockTask,osUnBlockTask]
    split_ifs <;> simp
  | blockMultipleTask a n =>
    simp only [serve,osBlockMultipleTask]
    split_ifs
    · rfl
    · rw [exitTask_cell,foldl_keeps (g := fun k : Kernel cfg => k.cell o)
        (fun k t => by split_ifs <;> simp),enterTask_cell]
  | unBlockMultipleTask a n =>
    have loop := foldl_keeps (g := fun k : Kernel cfg => k.cell o)
      (f := fun (k : Kernel cfg) iTask => if iTask ≠ k.currentTask then
        k.clearBlocked (k.contextTask iTask).priority else k) (fun k t => by split_ifs <;> simp)
      (taskRange a n) k.enterTask
    simp only [serve,osUnBlockMultipleTask]
    split_ifs
    · rfl
    · rw [osExitCritical_cell,changeContextUnnested_cell,loop,enterTask_cell]
    · rw [loop,enterTask_cell]
  | delayTask w =>
    simp only [serve,osDelayTask]
    split_ifs <;> simp
  | semCreate | semBinaryCreate =>
    simp only [serve,osSemCreate,osSemBinaryCreate,enterTask_findEvent]
    split_ifs
    · rfl
    all_goals
      cases hf : k.findEvent .sem cfg.brtosMaxSem with
      | none => simp
      | some i =>
        have apart : o ≠ .sem i := fun e => h ⟨i,hf,e⟩
        simp [setSem_cell apart,allocEvent_cell apart]
  | mutexCreate p => exact osMutexCreate_cell h
  | mboxCreate =>
    simp only [serve,osMboxCreate,enterTask_findEvent]
    split_ifs
    · rfl
    all_goals
      cases hf : k.findEvent .mbox cfg.brtosMaxMbox with
      | none => simp
      | some i =>
        have apart : o ≠ .mbox i := fun e => h ⟨i,hf,e⟩
        simp [setMbox_cell apart,allocEvent_cell apart]
  | queueCreate =>
    simp only [serve,osQueueCreate,enterTask_findEvent]
    split_ifs
    · rfl
    all_goals try exact exitTask_cell.trans enterTask_cell
    all_goals
      cases hf : k.findEvent .queue cfg.brtosMaxQueue with
      | none => simp
      | some i =>
        have apart : o ≠ .queue i := fun e => h ⟨i,hf,e⟩
        simp only [exitTask_cell,allocEvent_cell apart,setQueue_cell (d := .static) apart]
        exact (withAddress_cell _).trans enterTask_cell
  | dqueueCreate a l t =>
    simp only [serve,osDQueueCreate]
    by_cases h1 : 0 < k.iNesting
    · rw [if_pos h1]
    by_cases h2 : 0 < l ∧ 0 < t
    · rw [if_neg h1,if_pos h2]
      split
      · rename_i i start hi _
        have apart : o ≠ .dqueue i := fun e => h ⟨i,hi,e⟩
        split_ifs <;> simp [setQueue_cell (d := .dynamic) apart,setEvent_cell apart]
      · simp
    · rw [if_neg h1,if_neg h2]
      simp
  | semDelete | semPend | semPost =>
    simp only [serve,osSemDelete,osSemPend,osSemPost]
    split_ifs <;> simp [setSem_cell h,freeEvent_cell h,suspend_cell h,wakeHighest_cell h]
  | mutexDelete | mutexAcquire | mutexRelease =>
    simp only [serve,osMutexDelete,osMutexAcquire,osMutexRelease]
    split_ifs <;> simp [setMutex_cell h,freeEvent_cell h,suspend_cell h,raise_cell h,restore_cell,
      passOn_cell h,makeAvailable_cell h]
  | mboxDelete | mboxPend | mboxPost =>
    simp only [serve,osMboxDelete,osMboxPend,osMboxPost]
    split_ifs <;> simp [setMbox_cell h,freeEvent_cell h,suspend_cell h,wakeHighest_cell h,
      takeMail_cell h]
  | dqueueDelete =>
    simp only [serve,osDQueueDelete]
    split_ifs <;> simp [freeEvent_cell h]
  | queueClean => simp [serve,queueClean,setQueue_cell h]
  | queueWrite | queueRead =>
    simp only [serve,osWQueue,osRQueue]
    repeat' split
    all_goals simp [setQueue_cell (d := .static) h]
  | queuePend =>
    simp only [serve,queuePend]
    split_ifs <;> simp [setQueue_cell h,suspend_cell h]
  | queuePost i b => exact queuePost_cell (d := .static) h [b]
  | dqueuePost i pdata => exact queuePost_cell (d := .dynamic) h _

/-- The rest of a suspended pend touches its own event only. -/
theorem resumePend_cell {q : Obj} (h : o ≠ q) (p w : ℕ) :
    (k.resumePend q p w).1.cell o = k.cell o := by
  cases q with
  | sem i =>
    simp only [resumePend,resumeSemPend]
    split_ifs <;> simp [wakeUp_cell h]
  | mutex i =>
    simp only [resumePend,resumeMutexAcquire]
    split_ifs <;> simp [wakeUp_cell h,raise_cell h]
  | mbox i =>
    simp only [resumePend,resumeMboxPend]
    split_ifs <;> simp [wakeUp_cell h,takeMail_cell h]
  | queue i =>
    simp only [resumePend,resumeQueuePend]
    split_ifs <;> simp [setQueue_cell (d := .static) h,wakeUp_cell (q := QueueKind.obj .static i) h]
  | dqueue i =>
    simp only [resumePend,resumeQueuePend]
    split_ifs <;> simp [setQueue_cell (d := .dynamic) h,wakeUp_cell (q := QueueKind.obj .dynamic i) h]

end Kernel
end Brtos
