import Brtos.Refine

/-! What the updates leave as it was: everything outside the scheduler's data and the critical
sections, and but for the caller the set of tasks that the delay list leads to. -/
namespace Brtos

/-- Some pointer of the delay list leads to the task. -/
def Core.Linked {cfg : Config} (c : Core cfg) (t : ℕ) : Prop :=
  c.head = some t ∨ c.tail = some t ∨
    ∃ u, (c.contextTask u).next = some t ∨ (c.contextTask u).previous = some t

namespace Kernel
variable {cfg : Config} (k : Kernel cfg)

/-- iNesting, where critical sections do not count. -/
def handlers : ℕ := if cfg.criticalNests then 0 else k.iNesting

/-- The pending interrupts other than the context switch. -/
def devices : BitVec 32 := k.pendingInterrupts &&& ~~~ (1#32 <<< interruptSwc)

/-- The kernel without the scheduler's data, its critical sections and its requests of a switch. -/
def shell : Kernel cfg :=
  { k with
    toCore := (zeroed cfg).toCore, critical := 0, interruptEventMutex := 0, iNesting := k.handlers
    pendingInterrupts := k.devices }

@[simp] theorem osEnterCritical_shell : k.osEnterCritical.shell = k.shell := by
  simp only [shell,handlers,osEnterCritical]
  split_ifs <;> rfl

@[simp] theorem osExitCritical_shell : k.osExitCritical.shell = k.shell := by
  simp only [shell,handlers,osExitCritical]
  split_ifs <;> rfl

@[simp] theorem changeContext_shell : k.changeContext.shell = k.shell := by
  have same : k.changeContext.devices = k.devices := by
    apply BitVec.eq_of_getLsbD_eq
    intro i _
    simp only [devices,changeContext,BitVec.getLsbD_and,BitVec.getLsbD_or,BitVec.getLsbD_not]
    cases (1#32 <<< interruptSwc).getLsbD i <;> simp
  simp only [shell,same]
  rfl

@[simp] theorem setTask_shell (t : ℕ) (f : ContextType → ContextType) :
    (k.setTask t f).shell = k.shell := rfl
@[simp] theorem setEvent_shell (o : Obj) (f : OsEvent cfg → OsEvent cfg) :
    (k.setEvent o f).shell = k.shell := rfl
@[simp] theorem setMutex_shell (i : ℕ) (f : BrtosMutex → BrtosMutex) :
    (k.setMutex i f).shell = k.shell := rfl
@[simp] theorem setPriorityVector_shell (p v : ℕ) :
    (k.setPriorityVector p v).shell = k.shell := rfl
@[simp] theorem setReady_shell (p : ℕ) : (k.setReady p).shell = k.shell := rfl
@[simp] theorem clearReady_shell (p : ℕ) : (k.clearReady p).shell = k.shell := rfl
@[simp] theorem setTimeToWait_shell (t d : ℕ) : (k.setTimeToWait t d).shell = k.shell := rfl
@[simp] theorem unlist_shell (o : Obj) (p : ℕ) : (k.unlist o p).shell = k.shell := rfl
@[simp] theorem wakeHighest_shell (o : Obj) : (k.wakeHighest o).shell = k.shell := rfl
@[simp] theorem allocEvent_shell (o : Obj) : (k.allocEvent o).shell = k.shell := rfl
@[simp] theorem freeEvent_shell (o : Obj) : (k.freeEvent o).shell = k.shell := rfl

@[simp] theorem enterNesting_shell : k.enterNesting.shell = k.shell := by
  unfold enterNesting
  split_ifs <;> simp

@[simp] theorem exitNesting_shell : k.exitNesting.shell = k.shell := by
  unfold exitNesting
  split_ifs <;> simp

@[simp] theorem enterTask_shell : k.enterTask.shell = k.shell := by
  unfold enterTask
  split_ifs <;> simp

@[simp] theorem exitTask_shell : k.exitTask.shell = k.shell := by
  unfold exitTask
  split_ifs <;> simp

@[simp] theorem changeContextUnnested_shell : k.changeContextUnnested.shell = k.shell := by
  unfold changeContextUnnested
  split_ifs <;> simp

@[simp] theorem setNext_shell (p q : Option ℕ) : (k.setNext p q).shell = k.shell := by
  cases p <;> rfl

@[simp] theorem setPrevious_shell (p q : Option ℕ) : (k.setPrevious p q).shell = k.shell := by
  cases p <;> rfl

@[simp] theorem includeTaskIntoDelayList_shell (t : ℕ) :
    (k.includeTaskIntoDelayList t).shell = k.shell := by
  unfold includeTaskIntoDelayList
  split_ifs
  · rw [setNext_shell]
    exact (setPrevious_shell _ _ _).trans (setNext_shell _ _ _)
  · rw [setPrevious_shell,setNext_shell]
    rfl

@[simp] theorem removeFromDelayList_shell (t : ℕ) :
    (k.removeFromDelayList t).shell = k.shell := by
  unfold removeFromDelayList
  split_ifs
  · rfl
  · exact setPrevious_shell _ _ _
  · exact setNext_shell _ _ _
  · exact (setNext_shell _ _ _).trans (setPrevious_shell _ _ _)

@[simp] theorem suspend_shell (o : Obj) (w : ℕ) : (k.suspend o w).1.shell = k.shell := by
  simp only [suspend,osExitCritical_shell,changeContext_shell]
  split_ifs <;> simp

@[simp] theorem wakeUp_shell (o : Obj) (p w : ℕ) : (k.wakeUp o p w).1.shell = k.shell := by
  simp only [wakeUp]
  split_ifs <;> simp

@[simp] theorem raise_shell (i p : ℕ) : (k.raise i p).shell = k.shell := by
  simp only [raise]
  split_ifs <;> simp

@[simp] theorem restore_shell (i : ℕ) : (k.restore i).shell = k.shell := by
  simp only [restore]
  split_ifs <;> simp

@[simp] theorem passOn_shell (i : ℕ) : (k.passOn i).shell = k.shell := rfl

@[simp] theorem makeAvailable_shell (i : ℕ) : (k.makeAvailable i).shell = k.shell := by
  simp only [makeAvailable]
  split_ifs <;> simp

@[simp] theorem setSem_shell (i : ℕ) (f : BrtosSem → BrtosSem) :
    (k.setSem i f).shell = k.shell.setSem i f := rfl
@[simp] theorem setMbox_shell (i : ℕ) (f : BrtosMbox → BrtosMbox) :
    (k.setMbox i f).shell = k.shell.setMbox i f := rfl
@[simp] theorem setBlocked_shell (p : ℕ) : (k.setBlocked p).shell = k.shell.setBlocked p := rfl
@[simp] theorem clearBlocked_shell (p : ℕ) :
    (k.clearBlocked p).shell = k.shell.clearBlocked p := rfl

@[simp] theorem setQueue_shell (d : QueueKind) (i : ℕ) (q : OsQueue) :
    (k.setQueue d i q).shell = k.shell.setQueue d i q := by
  cases d <;> rfl

/-- The running task, the tick counter and the interrupts at work: no service changes them. -/
def vital : ℕ × ℕ × ℕ × BitVec 32 := (k.currentTask,k.osTickCounter,k.handlers,k.devices)

@[simp] theorem shell_vital : k.shell.vital = k.vital := by
  have handlers' : k.shell.handlers = k.handlers := by
    simp only [handlers,shell]
    split_ifs <;> rfl
  have devices' : k.shell.devices = k.devices := by
    simp only [devices,shell,BitVec.and_assoc,BitVec.and_self]
  simp only [vital,handlers',devices']
  rfl

theorem vital_of_shell {k l : Kernel cfg} (h : k.shell = l.shell) : k.vital = l.vital := by
  rw [← shell_vital k,h,shell_vital]

theorem currentTask_of_vital {k l : Kernel cfg} (h : k.vital = l.vital) :
    k.currentTask = l.currentTask := by
  simp only [vital,Prod.mk.injEq] at h
  exact h.1

theorem osTickCounter_of_vital {k l : Kernel cfg} (h : k.vital = l.vital) :
    k.osTickCounter = l.osTickCounter := by
  simp only [vital,Prod.mk.injEq] at h
  exact h.2.1

theorem handlers_of_vital {k l : Kernel cfg} (h : k.vital = l.vital) : k.handlers = l.handlers := by
  simp only [vital,Prod.mk.injEq] at h
  exact h.2.2.1

theorem handlers_of_port (port : cfg.criticalNests = false) : k.handlers = k.iNesting :=
  if_neg (by simp [port])

@[simp] theorem osEnterCritical_vital : k.osEnterCritical.vital = k.vital := by
  rw [← shell_vital,osEnterCritical_shell,shell_vital]

@[simp] theorem enterTask_vital : k.enterTask.vital = k.vital := by
  rw [← shell_vital,enterTask_shell,shell_vital]

@[simp] theorem setSem_vital (i : ℕ) (f : BrtosSem → BrtosSem) :
    (k.setSem i f).vital = k.vital := rfl
@[simp] theorem setMbox_vital (i : ℕ) (f : BrtosMbox → BrtosMbox) :
    (k.setMbox i f).vital = k.vital := rfl
@[simp] theorem setBlocked_vital (p : ℕ) : (k.setBlocked p).vital = k.vital := rfl
@[simp] theorem clearBlocked_vital (p : ℕ) : (k.clearBlocked p).vital = k.vital := rfl

@[simp] theorem setQueue_vital (d : QueueKind) (i : ℕ) (q : OsQueue) :
    (k.setQueue d i q).vital = k.vital := by
  cases d <;> rfl

@[simp] theorem includeTaskIntoDelayList_vital (t : ℕ) :
    (k.includeTaskIntoDelayList t).vital = k.vital := by
  rw [← shell_vital,includeTaskIntoDelayList_shell,shell_vital]

@[simp] theorem includeTaskIntoDelayList_currentPriority (t : ℕ) :
    (k.includeTaskIntoDelayList t).currentPriority = k.currentPriority := by
  have hv := k.includeTaskIntoDelayList_view (fun _ => .run) (fun _ => 0) (fun _ => []) t
  have hc : (k.includeTaskIntoDelayList t).currentTask = k.currentTask :=
    congrArg Prod.fst (k.includeTaskIntoDelayList_vital t)
  simp only [currentPriority,hc]
  exact congrFun (congrArg View.prio hv) k.currentTask

@[simp] theorem setTimeToWait_currentPriority (t d : ℕ) :
    (k.setTimeToWait t d).currentPriority = k.currentPriority := by
  by_cases e : k.currentTask = t <;>
    simp [currentPriority,setTimeToWait,setTask,e]

theorem enterTask_findEvent (obj : ℕ → Obj) (max : ℕ) :
    k.enterTask.findEvent obj max = k.findEvent obj max := by
  simp [findEvent]

@[simp] theorem installInto_vital (t n p : ℕ) : (k.installInto t n p).vital = k.vital := rfl

@[simp] theorem exitTask_vital : k.exitTask.vital = k.vital := by
  rw [← shell_vital,exitTask_shell,shell_vital]

/-- No service changes the running task, the tick counter, the handlers or the devices. -/
theorem serve_vital (c : Call) : (k.serve c).1.vital = k.vital := by
  cases c with
  | blockMultipleTask a n =>
    simp only [serve,osBlockMultipleTask]
    split_ifs
    · rfl
    · rw [exitTask_vital,foldl_keeps (g := vital) (fun k t => by split_ifs <;> simp),enterTask_vital]
  | unBlockMultipleTask a n =>
    simp only [serve,osUnBlockMultipleTask]
    split_ifs
    · rfl
    · rw [← shell_vital,osExitCritical_shell,changeContextUnnested_shell,shell_vital,
        foldl_keeps (g := vital) (fun k t => by split_ifs <;> simp),enterTask_vital]
    · rw [foldl_keeps (g := vital) (fun k t => by split_ifs <;> simp),enterTask_vital]
  | queueCreate size =>
    rw [← shell_vital]
    simp only [serve,osQueueCreate]
    repeat' split
    all_goals try simp
    all_goals exact k.enterTask_vital
  | _ =>
    rw [← shell_vital]
    simp only [serve,osInstallTask,osBlockPriority,osUnBlockPriority,osBlockTask,osUnBlockTask,
      osDelayTask,osSemCreate,osSemBinaryCreate,osSemDelete,osSemPend,osSemPost,osMutexCreate,
      osMutexDelete,osMutexAcquire,osMutexRelease,osMboxCreate,osMboxDelete,osMboxPend,osMboxPost,
      osDQueueCreate,osDQueueDelete,queueClean,osWQueue,osRQueue,queuePend,osQueuePost,osDQueuePost,
      queuePost,takeMail]
    repeat' split
    all_goals simp

/-! ### The pointers of the delay list -/

/-- The pointers of `k` lead to tasks of `L` only. -/
def LinksIn (L : ℕ → Prop) : Prop := ∀ t, k.Linked t → L t

variable {k} {L : ℕ → Prop}

theorem LinksIn.setTask (h : k.LinksIn L) (t : ℕ) (f : ContextType → ContextType)
    (next : ∀ u, (f (k.contextTask t)).next = some u → L u)
    (previous : ∀ u, (f (k.contextTask t)).previous = some u → L u) :
    (k.setTask t f).LinksIn L := by
  rintro u (hu | hu | ⟨s,hu⟩)
  · exact h u (Or.inl hu)
  · exact h u (Or.inr (Or.inl hu))
  · by_cases e : s = t
    · subst e
      simp only [Kernel.setTask,Function.update_self] at hu
      exact hu.elim (next u) (previous u)
    · simp only [Kernel.setTask,Function.update_of_ne e] at hu
      exact h u (Or.inr (Or.inr ⟨s,hu⟩))

theorem LinksIn.keep (h : k.LinksIn L) (t : ℕ) (f : ContextType → ContextType)
    (next : ∀ c, (f c).next = c.next) (previous : ∀ c, (f c).previous = c.previous) :
    (k.setTask t f).LinksIn L :=
  h.setTask t f (fun u hu => h u (Or.inr (Or.inr ⟨t,Or.inl (next _ ▸ hu)⟩)))
    (fun u hu => h u (Or.inr (Or.inr ⟨t,Or.inr (previous _ ▸ hu)⟩)))

theorem LinksIn.setNext (h : k.LinksIn L) {p q : Option ℕ} (hq : ∀ u, q = some u → L u) :
    (k.setNext p q).LinksIn L := by
  cases p with
  | none => exact h
  | some t => exact h.setTask t _ hq fun u hu => h u (Or.inr (Or.inr ⟨t,Or.inr hu⟩))

theorem LinksIn.setPrevious (h : k.LinksIn L) {p q : Option ℕ} (hq : ∀ u, q = some u → L u) :
    (k.setPrevious p q).LinksIn L := by
  cases p with
  | none => exact h
  | some t => exact h.setTask t _ (fun u hu => h u (Or.inr (Or.inr ⟨t,Or.inl hu⟩))) hq

theorem LinksIn.ends (h : k.LinksIn L) {p q : Option ℕ} (hp : ∀ u, p = some u → L u)
    (hq : ∀ u, q = some u → L u) :
    ({ k with head := p, tail := q } : Kernel cfg).LinksIn L := by
  rintro u (hu | hu | hu)
  · exact hp u hu
  · exact hq u hu
  · exact h u (Or.inr (Or.inr hu))

theorem LinksIn.include (h : k.LinksIn L) {t : ℕ} (ht : L t) :
    (k.includeTaskIntoDelayList t).LinksIn L := by
  have self : ∀ u, some t = some u → L u := by
    rintro u ⟨⟩
    exact ht
  have none' : ∀ u, none = some u → L u := by simp
  have tail : ∀ u, k.tail = some u → L u := fun u hu => h u (Or.inr (Or.inl hu))
  have head : ∀ u, k.head = some u → L u := fun u hu => h u (Or.inl hu)
  unfold includeTaskIntoDelayList
  split_ifs with hn
  · have h1 := h.setNext (p := k.tail) self
    have h2 := h1.setPrevious (p := some t) (q := (k.setNext k.tail (some t)).tail)
      fun u hu => h1 u (Or.inr (Or.inl hu))
    exact (h2.ends (fun u hu => h2 u (Or.inl hu)) self).setNext none'
  · exact ((h.ends self self).setNext none').setPrevious none'

theorem LinksIn.remove (h : k.LinksIn L) (t : ℕ) : (k.removeFromDelayList t).LinksIn L := by
  have none' : ∀ u, none = some u → L u := by simp
  have tail : ∀ u, k.tail = some u → L u := fun u hu => h u (Or.inr (Or.inl hu))
  have head : ∀ u, k.head = some u → L u := fun u hu => h u (Or.inl hu)
  have next : ∀ s u, (k.contextTask s).next = some u → L u :=
    fun s u hu => h u (Or.inr (Or.inr ⟨s,Or.inl hu⟩))
  have previous : ∀ s u, (k.contextTask s).previous = some u → L u :=
    fun s u hu => h u (Or.inr (Or.inr ⟨s,Or.inr hu⟩))
  unfold removeFromDelayList
  split_ifs
  · exact h.ends none' none'
  · exact (h.ends (next t) tail).setPrevious none'
  · exact (h.ends head (previous t)).setNext none'
  · have h1 := h.setPrevious (p := (k.contextTask t).next) (previous t)
    exact h1.setNext fun u hu => h1 u (Or.inr (Or.inr ⟨t,Or.inl hu⟩))

theorem LinksIn.setTimeToWait (h : k.LinksIn L) (t d : ℕ) : (k.setTimeToWait t d).LinksIn L :=
  h.keep t (fun c => { c with timeToWait := d }) (fun _ => rfl) fun _ => rfl

theorem LinksIn.setPriority (h : k.LinksIn L) (t p : ℕ) :
    (k.setTask t fun c => { c with priority := p }).LinksIn L :=
  h.keep t _ (fun _ => rfl) fun _ => rfl

theorem LinksIn.suspend (h : k.LinksIn L) (ht : L k.currentTask) (o : Obj) (w : ℕ) :
    (k.suspend o w).1.LinksIn L := by
  have joined : ((k.setEvent o fun e => { e with
      osEventWait := (e.osEventWait+1)%256
      osEventWaitList := e.osEventWaitList ||| priorityMask cfg k.currentPriority }).clearReady
        k.currentPriority).LinksIn L := h
  simp only [LinksIn,Kernel.suspend,osExitCritical_toCore,changeContext_toCore]
  split_ifs
  · exact (joined.setTimeToWait _ _).include ht
  · exact joined.setTimeToWait _ _

theorem LinksIn.wakeUp (h : k.LinksIn L) (o : Obj) (p w : ℕ) : (k.wakeUp o p w).1.LinksIn L := by
  simp only [Kernel.wakeUp]
  split_ifs
  · exact h
  · exact h
  · exact h
  · exact (h.setTimeToWait _ _).remove _

theorem LinksIn.raise (h : k.LinksIn L) (i p : ℕ) : (k.raise i p).LinksIn L := by
  have saved : (k.setMutex i fun m => { m with osOriginalPriority := p }).LinksIn L := h
  simp only [Kernel.raise]
  split_ifs
  · exact saved.setPriority _ _
  · exact saved

theorem LinksIn.restore (h : k.LinksIn L) (i : ℕ) : (k.restore i).LinksIn L := by
  have moved : ((k.clearReady k.currentPriority).setReady
      (k.brtosMutexTable i).osOriginalPriority).LinksIn L := h
  simp only [Kernel.restore]
  split_ifs
  · exact moved.setPriority _ _
  · exact h

theorem LinksIn.makeAvailable (h : k.LinksIn L) (i : ℕ) : (k.makeAvailable i).LinksIn L := by
  simp only [Kernel.makeAvailable]
  split_ifs <;> exact h

theorem LinksIn.setReady (h : k.LinksIn L) (p : ℕ) : (k.setReady p).LinksIn L := h

theorem LinksIn.installInto (h : k.LinksIn L) (t n p : ℕ) : (k.installInto t n p).LinksIn L := by
  have alloc : ({ k with
      taskAlloc := k.taskAlloc ||| BitVec.twoPow 32 (t-1)
      numberOfInstalledTasks := (k.numberOfInstalledTasks+1)%256 } : Kernel cfg).LinksIn L := h
  have named := alloc.keep t (fun c => { c with
    stackPoint :=
      if cfg.stackGrowth then k.stackAddress+cfg.numberMinOfStackedBytes
      else k.stackAddress+(n-cfg.numberMinOfStackedBytes)
    stackInit := if cfg.stackGrowth then k.stackAddress else k.stackAddress+n
    priority := p }) (fun _ => rfl) fun _ => rfl
  simp only [Kernel.installInto]
  refine LinksIn.setReady (LinksIn.setTask ?_ t _ (by simp) (by simp)) p
  exact named

end Kernel
end Brtos
