import Brtos.Sound

/-! The kernel's own updates, read as updates of the view. -/
namespace Brtos
open Bitmap

/-- Dynamic queues live on the heap and do not use OSEventAllocated. -/
def Obj.onHeap : Obj → Bool
  | .dqueue _ => true
  | _ => false

namespace Core
variable {cfg : Config} (c : Core cfg)

def Installed (t : ℕ) : Prop := 1 ≤ t ∧ t ≤ 32 ∧ c.taskAlloc.getLsbD (t-1) = true

instance (t : ℕ) : Decidable (c.Installed t) := by unfold Installed; infer_instance

def Created (o : Obj) : Prop := o.onHeap = true ∨ (c.event o).osEventAllocated = 1

instance (o : Obj) : Decidable (c.Created o) := by unfold Created; infer_instance

/-- The kernel's data together with the bookkeeping of the tasks. -/
def view (point : ℕ → Point) (inst : ℕ → ℕ) (held : ℕ → List ℕ) : View where
  installed := c.Installed
  slot := c.priorityVector
  prio t := (c.contextTask t).priority
  wake t := (c.contextTask t).timeToWait
  ready := bits c.osReadyList
  waiting o := bits (c.event o).osEventWaitList
  count o := (c.event o).osEventWait
  created := c.Created
  mutex := c.brtosMutexTable
  point := point
  inst := inst
  held := held

end Core

/-- What every round of a loop keeps the loop keeps. -/
theorem foldl_keeps {σ α β : Type*} {f : σ → α → σ} {g : σ → β} (h : ∀ k t, g (f k t) = g k)
    (l : List α) (k : σ) : g (l.foldl f k) = g k := by
  induction l generalizing k with
  | nil => rfl
  | cons t l ih => exact (ih (f k t)).trans (h k t)

/-- A function of an updated table is the updated function of the table. -/
theorem map_update {α β γ : Type*} [DecidableEq α] (g : β → γ) (f : α → β) (a : α) (b : β) :
    (fun x => g (Function.update f a b x)) = Function.update (fun x => g (f x)) a (g b) :=
  funext fun x => Function.apply_update (fun _ => g) f a b x

theorem map_update_same {α β γ : Type*} [DecidableEq α] (g : β → γ) (f : α → β) (a : α) (b : β)
    (h : g b = g (f a)) : (fun x => g (Function.update f a b x)) = fun x => g (f x) := by
  rw [map_update,h,Function.update_eq_self]

namespace Kernel
variable {cfg : Config} (k : Kernel cfg)

/-! ### What leaves the scheduler's data alone -/

@[simp] theorem osEnterCritical_toCore : k.osEnterCritical.toCore = k.toCore := rfl
@[simp] theorem osExitCritical_toCore : k.osExitCritical.toCore = k.toCore := rfl
@[simp] theorem changeContext_toCore : k.changeContext.toCore = k.toCore := rfl
@[simp] theorem setBlocked_toCore (p : ℕ) : (k.setBlocked p).toCore = k.toCore := rfl
@[simp] theorem clearBlocked_toCore (p : ℕ) : (k.clearBlocked p).toCore = k.toCore := rfl
@[simp] theorem osIncCounter_toCore : k.osIncCounter.toCore = k.toCore := rfl
@[simp] theorem setSem_toCore (i : ℕ) (f : BrtosSem → BrtosSem) :
    (k.setSem i f).toCore = k.toCore := rfl
@[simp] theorem setMbox_toCore (i : ℕ) (f : BrtosMbox → BrtosMbox) :
    (k.setMbox i f).toCore = k.toCore := rfl

@[simp] theorem setQueue_toCore (d : QueueKind) (i : ℕ) (q : OsQueue) :
    (k.setQueue d i q).toCore = k.toCore := by
  cases d <;> rfl

@[simp] theorem enterNesting_toCore : k.enterNesting.toCore = k.toCore := by
  unfold enterNesting
  split_ifs <;> rfl

@[simp] theorem exitNesting_toCore : k.exitNesting.toCore = k.toCore := by
  unfold exitNesting
  split_ifs <;> rfl

@[simp] theorem enterTask_toCore : k.enterTask.toCore = k.toCore := by
  unfold enterTask
  split_ifs <;> rfl

@[simp] theorem exitTask_toCore : k.exitTask.toCore = k.toCore := by
  unfold exitTask
  split_ifs <;> rfl

@[simp] theorem changeContextUnnested_toCore : k.changeContextUnnested.toCore = k.toCore := by
  unfold changeContextUnnested
  split_ifs <;> rfl

/-! ### Updates of the view -/

variable (point : ℕ → Point) (inst : ℕ → ℕ) (held : ℕ → List ℕ)

theorem setTask_view (t : ℕ) (f : ContextType → ContextType) :
    (k.setTask t f).view point inst held = { k.view point inst held with
      prio := Function.update (k.view point inst held).prio t (f (k.contextTask t)).priority
      wake := Function.update (k.view point inst held).wake t (f (k.contextTask t)).timeToWait } := by
  simp only [Core.view,setTask,map_update ContextType.priority,map_update ContextType.timeToWait]
  rfl

@[simp] theorem setTimeToWait_view (t d : ℕ) :
    (k.setTimeToWait t d).view point inst held = { k.view point inst held with
      wake := Function.update (k.view point inst held).wake t d } := by
  simp only [setTimeToWait,setTask_view]
  simp [Core.view]

theorem setPriority_view (t p : ℕ) :
    (k.setTask t fun c => { c with priority := p }).view point inst held =
      { k.view point inst held with
        prio := Function.update (k.view point inst held).prio t p } := by
  simp only [setTask_view]
  simp [Core.view]

@[simp] theorem setNext_view (p q : Option ℕ) :
    (k.setNext p q).view point inst held = k.view point inst held := by
  cases p with
  | none => rfl
  | some t =>
    simp only [setNext,setTask_view]
    simp [Core.view]

@[simp] theorem setPrevious_view (p q : Option ℕ) :
    (k.setPrevious p q).view point inst held = k.view point inst held := by
  cases p with
  | none => rfl
  | some t =>
    simp only [setPrevious,setTask_view]
    simp [Core.view]

@[simp] theorem includeTaskIntoDelayList_view (t : ℕ) :
    (k.includeTaskIntoDelayList t).view point inst held = k.view point inst held := by
  unfold includeTaskIntoDelayList
  split_ifs <;> simp only [setNext_view,setPrevious_view]
  · exact (setPrevious_view _ _ _ _ _ _).trans (setNext_view _ _ _ _ _ _)
  · rfl

@[simp] theorem removeFromDelayList_view (t : ℕ) :
    (k.removeFromDelayList t).view point inst held = k.view point inst held := by
  unfold removeFromDelayList
  split_ifs <;> simp only [setNext_view,setPrevious_view] <;> rfl

theorem setReady_view {p : ℕ} (hp : p < cfg.width) :
    (k.setReady p).view point inst held = { k.view point inst held with
      ready := insert p (k.view point inst held).ready } := by
  simp only [Core.view,setReady,bits_or_mask _ hp]
  rfl

theorem clearReady_view {p : ℕ} (hp : p < cfg.width) :
    (k.clearReady p).view point inst held = { k.view point inst held with
      ready := (k.view point inst held).ready.erase p } := by
  simp only [Core.view,clearReady,bits_and_not_mask _ hp]
  rfl

@[simp] theorem setPriorityVector_view (p t : ℕ) :
    (k.setPriorityVector p t).view point inst held = { k.view point inst held with
      slot := Function.update (k.view point inst held).slot p t } := rfl

@[simp] theorem setMutex_view (i : ℕ) (f : BrtosMutex → BrtosMutex) :
    (k.setMutex i f).view point inst held = { k.view point inst held with
      mutex := Function.update (k.view point inst held).mutex i (f (k.brtosMutexTable i)) } := rfl

/-- An update of a control block that leaves its allocation alone. -/
theorem setEvent_view (o : Obj) (f : OsEvent cfg → OsEvent cfg)
    (h : (f (k.event o)).osEventAllocated = (k.event o).osEventAllocated) :
    (k.setEvent o f).view point inst held = { k.view point inst held with
      waiting := Function.update (k.view point inst held).waiting o
        (bits (f (k.event o)).osEventWaitList)
      count := Function.update (k.view point inst held).count o (f (k.event o)).osEventWait } := by
  have created : (k.setEvent o f).Created = k.Created := by
    funext q
    simp only [Core.Created,setEvent]
    rw [Function.apply_update (fun _ e => OsEvent.osEventAllocated e),h,Function.update_eq_self]
  simp only [Core.view,created]
  simp only [setEvent,map_update OsEvent.osEventWait,
    map_update (fun e : OsEvent cfg => bits e.osEventWaitList)]
  rfl

theorem unlist_view (o : Obj) {p : ℕ} (hp : p < cfg.width) :
    (k.unlist o p).view point inst held = { k.view point inst held with
      waiting := Function.update (k.view point inst held).waiting o
        (((k.view point inst held).waiting o).erase p)
      count := Function.update (k.view point inst held).count o
        (((k.view point inst held).count o+255)%256) } := by
  unfold unlist
  rw [setEvent_view]
  · simp only [bits_and_not_mask _ hp]
    rfl
  · rfl

theorem allocEvent_view (o : Obj) :
    (k.allocEvent o).view point inst held = (k.view point inst held).establish o := by
  have created : (k.allocEvent o).Created = fun q => k.Created q ∨ q = o := by
    funext q
    by_cases e : q = o <;> simp [Core.Created,allocEvent,setEvent,e]
  simp only [Core.view,created]
  simp only [allocEvent,setEvent,map_update OsEvent.osEventWait,
    map_update (fun e : OsEvent cfg => bits e.osEventWaitList),bits_zero]
  rfl

theorem freeEvent_view (o : Obj) (h : o.onHeap = false) :
    (k.freeEvent o).view point inst held = (k.view point inst held).abolish o := by
  have created : (k.freeEvent o).Created = fun q => k.Created q ∧ q ≠ o := by
    funext q
    by_cases e : q = o
    · subst e
      simp [Core.Created,freeEvent,setEvent,h]
    · simp [Core.Created,freeEvent,setEvent,e]
  simp only [Core.view,created]
  simp only [freeEvent,setEvent,map_update OsEvent.osEventWait,
    map_update (fun e : OsEvent cfg => bits e.osEventWaitList),bits_zero]
  rfl

/-! ### The shared parts of the services -/

/-- The scheduler's choice among the waiting tasks is the highest of them. -/
theorem highestWaiting_isTop (o : Obj) (h : ((k.view point inst held).waiting o).Nonempty) :
    (k.view point inst held).IsTop o (k.highestWaiting o) := by
  unfold highestWaiting
  rw [saScheduler_eq_highest]
  exact ⟨highest_mem h,fun q hq => le_highest hq⟩

theorem highestWaiting_lt (o : Obj) (h : ((k.view point inst held).waiting o).Nonempty) :
    k.highestWaiting o < cfg.width :=
  lt_of_mem_bits (k.highestWaiting_isTop point inst held o h).1

theorem wakeHighest_view (o : Obj) (h : ((k.view point inst held).waiting o).Nonempty) :
    (k.wakeHighest o).view point inst held =
      (k.view point inst held).rouse o (k.highestWaiting o) := by
  have hp := k.highestWaiting_lt point inst held o h
  unfold wakeHighest
  rw [setReady_view _ _ _ _ hp,unlist_view _ _ _ _ _ hp]
  rfl

/-- The tick at which the caller of a pend is woken, or the mark of a wait without an end. -/
def sleepUntil (timeWait : ℕ) : ℕ := if timeWait ≠ 0 then k.deadline timeWait else cfg.noTimeout

theorem suspend_view (o : Obj) (timeWait : ℕ) (hp : k.currentPriority < cfg.width) :
    (k.suspend o timeWait).1.view
        (Function.update point k.currentTask (.pend o k.currentPriority timeWait)) inst held =
      (k.view point inst held).sleep k.currentTask o timeWait (k.sleepUntil timeWait) := by
  have joined : ∀ pt : ℕ → Point, (((k.setEvent o fun e => { e with
      osEventWait := (e.osEventWait+1)%256
      osEventWaitList := e.osEventWaitList ||| priorityMask cfg k.currentPriority }).clearReady
        k.currentPriority).view pt inst held) = { k.view pt inst held with
      waiting := Function.update (k.view pt inst held).waiting o
        (insert k.currentPriority ((k.view pt inst held).waiting o))
      count := Function.update (k.view pt inst held).count o
        (((k.view pt inst held).count o+1)%256)
      ready := (k.view pt inst held).ready.erase k.currentPriority } := by
    intro pt
    rw [clearReady_view _ _ _ _ hp,setEvent_view]
    · simp only [bits_or_mask _ hp]
      rfl
    · rfl
  simp only [suspend,osExitCritical_toCore,changeContext_toCore]
  split_ifs with hw
  · simp only [includeTaskIntoDelayList_view,setTimeToWait_view,joined]
    simp only [sleepUntil,if_pos hw]
    rfl
  · simp only [setTimeToWait_view,joined]
    simp only [sleepUntil,if_neg hw]
    rfl

/-- What the awakened task leaves in TimeToWait. -/
def wakeMark (timeWait : ℕ) : ℕ :=
  if timeWait = 0 ∨ (k.contextTask k.currentTask).timeToWait = cfg.exitByTimeout then
    (k.contextTask k.currentTask).timeToWait
  else cfg.noTimeout

theorem wakeUp_view_false {o : Obj} {p w : ℕ} (h : (k.wakeUp o p w).2 = false) :
    (k.wakeUp o p w).1.view (Function.update point k.currentTask .run) inst held =
      (k.view point inst held).goOn k.currentTask (k.wakeMark w) := by
  have keep : (k.view (Function.update point k.currentTask .run) inst held) =
      (k.view point inst held).goOn k.currentTask (k.contextTask k.currentTask).timeToWait := by
    simp [Core.view,View.goOn]
  simp only [wakeUp] at h ⊢
  by_cases hw : w = 0
  · simpa [wakeMark,hw] using keep
  by_cases hx : (k.contextTask k.currentTask).timeToWait = cfg.exitByTimeout
  · simp only [if_neg hw,if_pos hx] at h ⊢
    split_ifs at h ⊢
    simpa [wakeMark,hx] using keep
  · simp only [if_neg hw,if_neg hx,removeFromDelayList_view,setTimeToWait_view]
    simp only [wakeMark,hw,hx,or_self,if_false]
    rfl

theorem wakeUp_view_true {o : Obj} {p w : ℕ} (hp : p < cfg.width)
    (h : (k.wakeUp o p w).2 = true) :
    (k.wakeUp o p w).1.view (Function.update point k.currentTask .run) inst held =
      (k.view point inst held).giveUp k.currentTask o p := by
  simp only [wakeUp] at h ⊢
  split_ifs at h ⊢
  rw [unlist_view _ _ _ _ _ hp]
  rfl

/-- A wait ends in a timeout exactly when it has a limit, the limit has passed and no post has
selected the task. -/
theorem wakeUp_late {o : Obj} {p w : ℕ} (hp : p < cfg.width) : (k.wakeUp o p w).2 = true ↔
    w ≠ 0 ∧ (k.contextTask k.currentTask).timeToWait = cfg.exitByTimeout ∧
      p ∈ (k.view point inst held).waiting o := by
  have hm := and_mask_ne_zero (k.event o).osEventWaitList hp
  simp only [wakeUp]
  split_ifs with hw hx hm'
  · simp [hw]
  · exact ⟨fun _ => ⟨hw,hx,hm.mp hm'⟩,fun _ => rfl⟩
  · exact ⟨fun h => by simp at h,fun h => absurd (hm.mpr h.2.2) hm'⟩
  · simp [hx]

/-- The move up to the ceiling, for a task whose own priority is the one to be saved. -/
theorem raise_view (i : ℕ) (hp : k.currentPriority < cfg.width)
    (hc : (k.brtosMutexTable i).osMaxPriority < cfg.width) :
    (k.raise i k.currentPriority).view point inst held =
      ((k.view point inst held).save k.currentTask i).lift k.currentTask i := by
  have saved : (k.setMutex i fun m => { m with osOriginalPriority := k.currentPriority }).view
      point inst held = (k.view point inst held).save k.currentTask i := rfl
  have ceil : ((k.setMutex i fun m => { m with
      osOriginalPriority := k.currentPriority }).brtosMutexTable i).osMaxPriority =
        (k.brtosMutexTable i).osMaxPriority := by simp [setMutex]
  have ceil' : ((k.view point inst held).save k.currentTask i).ceiling i =
      (k.brtosMutexTable i).osMaxPriority := by simp [View.save,View.ceiling,Core.view]
  simp only [raise,ceil,View.lift,ceil']
  by_cases h : k.currentPriority < (k.brtosMutexTable i).osMaxPriority
  · rw [if_pos h,if_pos (show ((k.view point inst held).save k.currentTask i).prio k.currentTask <
      (k.brtosMutexTable i).osMaxPriority from h),setReady_view _ _ _ _ hc,
      clearReady_view _ _ _ _ hp,setPriorityVector_view,setPriority_view,saved]
    rfl
  · rw [if_neg h,if_neg (show ¬ ((k.view point inst held).save k.currentTask i).prio
      k.currentTask < (k.brtosMutexTable i).osMaxPriority from h),saved]

theorem restore_view (i : ℕ) (hp : k.currentPriority < cfg.width)
    (hs : (k.brtosMutexTable i).osOriginalPriority < cfg.width) :
    (k.restore i).view point inst held = (k.view point inst held).restore k.currentTask i := by
  simp only [restore,View.restore]
  by_cases h : k.currentPriority = (k.brtosMutexTable i).osOriginalPriority
  · rw [if_neg (not_not.mpr h),if_pos (show (k.view point inst held).prio k.currentTask =
      (k.view point inst held).saved i from h)]
  · rw [if_pos h,if_neg (show ¬ (k.view point inst held).prio k.currentTask =
      (k.view point inst held).saved i from h),setPriority_view,setReady_view _ _ _ _ hs,
      clearReady_view _ _ _ _ hp]
    rfl

theorem passOn_view (t i : ℕ)
    (h : ((k.view point inst held).waiting (.mutex i)).Nonempty) :
    ((k.setMutex i fun m => { m with osEventOwner := 0 }).passOn i).view point inst
        (Function.update held t ((held t).erase i)) =
      (k.view point inst held).handOver t i (k.highestWaiting (.mutex i)) := by
  have woken := (k.setMutex i fun m => { m with osEventOwner := 0 }).wakeHighest_view point inst
    (Function.update held t ((held t).erase i)) (.mutex i) h
  simp only [passOn,setMutex_view,woken,View.handOver,View.rouse]
  simp only [wakeHighest,unlist,setReady,setEvent,setMutex,Core.view,Function.update_self,
    Function.update_idem]
  rfl

theorem makeAvailable_view (t i : ℕ) :
    ((k.setMutex i fun m => { m with osEventOwner := 0 }).makeAvailable i).view point inst
        (Function.update held t ((held t).erase i)) = (k.view point inst held).drop t i := by
  have freed : ((k.setMutex i fun m => { m with osEventOwner := 0 }).setMutex i fun m =>
      { m with osEventState := availableResource }) = k.setMutex i fun m =>
        { m with osEventState := availableResource, osEventOwner := 0 } := by
    simp [setMutex]
  have ceil : ((k.setMutex i fun m => { m with
      osEventState := availableResource, osEventOwner := 0 }).brtosMutexTable i).osMaxPriority =
        (k.brtosMutexTable i).osMaxPriority := by simp [setMutex]
  simp only [makeAvailable,freed,ceil,View.drop]
  by_cases h : 0 < (k.brtosMutexTable i).osMaxPriority
  · rw [if_pos h,if_pos (show 0 < (k.view point inst held).ceiling i from h),
      setPriorityVector_view,setMutex_view]
    rfl
  · rw [if_neg h,if_neg (show ¬ 0 < (k.view point inst held).ceiling i from h),setMutex_view]
    rfl

theorem installed_or (t : ℕ) (ht : 1 ≤ t ∧ t ≤ 32) :
    ({ k with taskAlloc := k.taskAlloc ||| BitVec.twoPow 32 (t-1) } : Kernel cfg).Installed =
      fun u => k.Installed u ∨ u = t := by
  funext u
  simp only [Core.Installed,BitVec.getLsbD_or,BitVec.getLsbD_twoPow,Bool.or_eq_true,
    Bool.and_eq_true,decide_eq_true_eq,eq_iff_iff]
  constructor
  · rintro ⟨h1,h2,h | ⟨_,h⟩⟩
    · exact Or.inl ⟨h1,h2,h⟩
    · right
      omega
  · rintro (⟨h1,h2,h⟩ | rfl)
    · exact ⟨h1,h2,Or.inl h⟩
    · exact ⟨ht.1,ht.2,Or.inr ⟨by omega,rfl⟩⟩

theorem installInto_view (t stack p : ℕ) (ht : 1 ≤ t ∧ t ≤ 32) (hp : p < cfg.width) :
    (k.installInto t stack p).view point (Function.update inst t p) held =
      (k.view point inst held).enroll t p cfg.noTimeout := by
  have hi := k.installed_or t ht
  simp only [installInto,Core.view,View.enroll,View.mk.injEq]
  refine ⟨hi,rfl,?_,?_,bits_or_mask _ hp,rfl,rfl,rfl,rfl,trivial,trivial,trivial⟩
  · funext u
    by_cases e : u = t <;> simp [setReady,setTask,setPriorityVector,e]
  · funext u
    by_cases e : u = t <;> simp [setReady,setTask,setPriorityVector,e]

end Kernel
end Brtos
