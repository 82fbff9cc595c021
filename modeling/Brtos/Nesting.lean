import Brtos.Uninstall
import Brtos.WideQueue
import Brtos.LongDelay
import Brtos.Library.Sections

/-! Entries into critical sections and exits from them along the services of the kernel. -/
namespace Brtos
open Sections

namespace Kernel
variable {cfg : Config} (k : Kernel cfg)

/-! ### What the updates do to the sections -/

/-- The counters of the critical sections, and what the tests around an entry or an exit look at. -/
def sections : ℤ × ℕ × ℕ × ℕ := (k.critical,k.interruptEventMutex,k.iNesting,k.currentTask)

section
variable {k} {l : Kernel cfg}

theorem critical_of_sections (h : l.sections = k.sections) : l.critical = k.critical := congrArg (·.1) h

theorem mutex_of_sections (h : l.sections = k.sections) : l.interruptEventMutex = k.interruptEventMutex :=
  congrArg (·.2.1) h

theorem iNesting_of_sections (h : l.sections = k.sections) : l.iNesting = k.iNesting := congrArg (·.2.2.1) h

theorem currentTask_of_sections (h : l.sections = k.sections) : l.currentTask = k.currentTask :=
  congrArg (·.2.2.2) h

end

@[simp] theorem changeContext_sections : k.changeContext.sections = k.sections := rfl
@[simp] theorem setTask_sections (t : ℕ) (f : ContextType → ContextType) :
    (k.setTask t f).sections = k.sections := rfl
@[simp] theorem setEvent_sections (o : Obj) (f : OsEvent cfg → OsEvent cfg) :
    (k.setEvent o f).sections = k.sections := rfl
@[simp] theorem setMutex_sections (i : ℕ) (f : BrtosMutex → BrtosMutex) :
    (k.setMutex i f).sections = k.sections := rfl
@[simp] theorem setSem_sections (i : ℕ) (f : BrtosSem → BrtosSem) :
    (k.setSem i f).sections = k.sections := rfl
@[simp] theorem setMbox_sections (i : ℕ) (f : BrtosMbox → BrtosMbox) :
    (k.setMbox i f).sections = k.sections := rfl
@[simp] theorem setPriorityVector_sections (p v : ℕ) : (k.setPriorityVector p v).sections = k.sections := rfl
@[simp] theorem setReady_sections (p : ℕ) : (k.setReady p).sections = k.sections := rfl
@[simp] theorem clearReady_sections (p : ℕ) : (k.clearReady p).sections = k.sections := rfl
@[simp] theorem setBlocked_sections (p : ℕ) : (k.setBlocked p).sections = k.sections := rfl
@[simp] theorem clearBlocked_sections (p : ℕ) : (k.clearBlocked p).sections = k.sections := rfl
@[simp] theorem setTimeToWait_sections (t v : ℕ) : (k.setTimeToWait t v).sections = k.sections := rfl
@[simp] theorem unlist_sections (o : Obj) (p : ℕ) : (k.unlist o p).sections = k.sections := rfl
@[simp] theorem wakeHighest_sections (o : Obj) : (k.wakeHighest o).sections = k.sections := rfl
@[simp] theorem allocEvent_sections (o : Obj) : (k.allocEvent o).sections = k.sections := rfl
@[simp] theorem freeEvent_sections (o : Obj) : (k.freeEvent o).sections = k.sections := rfl
@[simp] theorem passOn_sections (i : ℕ) : (k.passOn i).sections = k.sections := rfl
@[simp] theorem takeMail_sections (i : ℕ) : (k.takeMail i).1.sections = k.sections := rfl
@[simp] theorem installInto_sections (t n p : ℕ) : (k.installInto t n p).sections = k.sections := rfl
@[simp] theorem installOnHeap_sections (t s v p : ℕ) : (k.installOnHeap t s v p).sections = k.sections := rfl

@[simp] theorem setQueue_sections (d : QueueKind) (i : ℕ) (q : OsQueue) :
    (k.setQueue d i q).sections = k.sections := by
  cases d <;> rfl

@[simp] theorem changeContextUnnested_sections : k.changeContextUnnested.sections = k.sections := by
  unfold changeContextUnnested
  split_ifs <;> rfl

@[simp] theorem setNext_sections (p v : Option ℕ) : (k.setNext p v).sections = k.sections := by
  cases p <;> rfl

@[simp] theorem setPrevious_sections (p v : Option ℕ) : (k.setPrevious p v).sections = k.sections := by
  cases p <;> rfl

@[simp] theorem removeFromDelayList_sections (t : ℕ) : (k.removeFromDelayList t).sections = k.sections := by
  unfold removeFromDelayList
  split_ifs
  · rfl
  · exact setPrevious_sections _ _ _
  · exact setNext_sections _ _ _
  · exact (setNext_sections _ _ _).trans (setPrevious_sections _ _ _)

@[simp] theorem includeTaskIntoDelayList_sections (t : ℕ) :
    (k.includeTaskIntoDelayList t).sections = k.sections := by
  unfold includeTaskIntoDelayList
  split_ifs
  · refine (setNext_sections _ _ _).trans ?_
    exact (setPrevious_sections (k.setNext k.tail (some t)) _ _).trans (setNext_sections _ _ _)
  · rfl

@[simp] theorem raise_sections (i p : ℕ) : (k.raise i p).sections = k.sections := by
  simp only [raise]
  split_ifs <;> rfl

@[simp] theorem restore_sections (i : ℕ) : (k.restore i).sections = k.sections := by
  simp only [restore]
  split_ifs <;> rfl

@[simp] theorem makeAvailable_sections (i : ℕ) : (k.makeAvailable i).sections = k.sections := by
  simp only [makeAvailable]
  split_ifs <;> rfl

@[simp] theorem wakeUp_sections (o : Obj) (p w : ℕ) : (k.wakeUp o p w).1.sections = k.sections := by
  simp only [wakeUp]
  split_ifs <;> simp

/-! ### Exits that match an entry -/

/-- iNesting, where the sections count in it, has room for one more of them. -/
def Roomy : Prop := cfg.criticalNests = true → k.iNesting < 255

variable {k} {l : Kernel cfg}

theorem Roomy.of_sections (room : k.Roomy) (same : l.sections = k.sections) : l.Roomy := by
  simp only [Roomy,iNesting_of_sections same]
  exact room

theorem osExitCritical_of (room : k.Roomy) (same : l.sections = k.osEnterCritical.sections) :
    l.osExitCritical.sections = k.sections := by
  have critical : l.critical = k.critical+1 := critical_of_sections same
  have mutex : l.interruptEventMutex = k.interruptEventMutex+1 := mutex_of_sections same
  have nesting := iNesting_of_sections same
  have current : l.currentTask = k.currentTask := (currentTask_of_sections same).trans rfl
  have back : (if cfg.criticalNests then l.iNesting-1 else l.iNesting) = k.iNesting := by
    rw [nesting]
    simp only [osEnterCritical]
    split_ifs with nests
    · have := room nests
      rw [Nat.mod_eq_of_lt (by omega),Nat.add_sub_cancel]
    · rfl
  simp only [sections,osExitCritical,critical,mutex,current,back,add_sub_cancel_right,Nat.add_sub_cancel]

theorem exitTask_of (room : k.Roomy) (same : l.sections = k.enterTask.sections) :
    l.exitTask.sections = k.sections := by
  have current := currentTask_of_sections same
  unfold enterTask at same current
  unfold exitTask
  by_cases task : k.currentTask ≠ 0
  · rw [if_pos task] at same current
    rw [if_pos (current.trans_ne task)]
    exact osExitCritical_of room same
  · rw [if_neg task] at same current
    rw [if_neg (current ▸ task)]
    exact same

theorem exitNesting_of (room : k.Roomy) (same : l.sections = k.enterNesting.sections) :
    l.exitNesting.sections = k.sections := by
  have nests := cfg.nests_ok
  have nesting := iNesting_of_sections same
  unfold enterNesting at same nesting
  unfold exitNesting
  by_cases enters : cfg.nestingInt = true ∨ k.iNesting = 0
  · rw [if_pos enters] at same nesting
    have leaves : cfg.nestingInt = true ∨ l.iNesting = 0 := by
      by_cases counts : cfg.criticalNests = true
      · exact Or.inl (nests counts)
      · exact enters.imp_right fun calm => by simpa [osEnterCritical,counts,calm] using nesting
    rw [if_pos leaves]
    exact osExitCritical_of room same
  · rw [if_neg enters] at same nesting
    rw [if_neg (nesting ▸ enters)]
    exact same

/-! ### The services -/

theorem osInstallTask_sections (room : k.Roomy) (f : Entry) (n p : ℕ) :
    (k.osInstallTask f n p).1.sections = k.sections := by
  simp only [osInstallTask]
  repeat' split
  all_goals exact exitTask_of room rfl

theorem osInstallTaskDynamic_sections (room : k.Roomy) (stack : StackBlock) (f : Entry) (n p : ℕ) :
    (k.osInstallTaskDynamic stack f n p).1.sections = k.sections := by
  simp only [osInstallTaskDynamic]
  repeat' split
  all_goals exact exitTask_of room rfl

theorem osBlockPriority_sections (room : k.Roomy) (p : ℕ) : (k.osBlockPriority p).1.sections = k.sections := by
  simp only [osBlockPriority]
  split_ifs
  · rfl
  all_goals exact exitTask_of room rfl

theorem osUnBlockPriority_sections (room : k.Roomy) (p : ℕ) :
    (k.osUnBlockPriority p).1.sections = k.sections := by
  simp only [osUnBlockPriority]
  split_ifs
  all_goals exact exitNesting_of room (by simp)

/-- A handle that stands for nobody. -/
def Nobody (k : Kernel cfg) (taskHandle : ℕ) : Prop := taskHandle = 0 ∧ k.currentTask = 0

instance (h : ℕ) : Decidable (k.Nobody h) := inferInstanceAs (Decidable (_ ∧ _))

theorem enterTask_nobody {h : ℕ} (none_ : k.Nobody h) : k.enterTask = k := if_neg (not_not.mpr none_.2)

theorem nobody_enterTask (h : ℕ) : (h = 0 ∧ k.enterTask.currentTask = 0) ↔ k.Nobody h := by
  unfold enterTask
  split_ifs <;> rfl

/-- The exit for a handle that stands for nobody has no entry. -/
theorem osBlockTask_sections (room : k.Roomy) (h : ℕ) : (k.osBlockTask h).1.sections =
    if k.iNesting = 0 ∧ k.Nobody h then k.osExitCritical.sections else k.sections := by
  simp only [osBlockTask,nobody_enterTask]
  by_cases busy : 0 < k.iNesting
  · rw [if_pos busy,if_neg (by omega)]
  have calm : k.iNesting = 0 := by omega
  rw [if_neg busy]
  by_cases none_ : k.Nobody h
  · rw [if_pos none_,if_pos ⟨calm,none_⟩,enterTask_nobody none_]
  · have other : ¬ (k.iNesting = 0 ∧ k.Nobody h) := fun both => none_ both.2
    rw [if_neg none_,if_neg other]
    repeat' split
    all_goals exact exitTask_of room rfl

theorem osUnBlockTask_sections (room : k.Roomy) (h : ℕ) : (k.osUnBlockTask h).1.sections = k.sections := by
  simp only [osUnBlockTask]
  split_ifs
  all_goals exact exitNesting_of room (by simp)

theorem foldl_sections {f : Kernel cfg → ℕ → Kernel cfg} (same : ∀ k t, (f k t).sections = k.sections)
    (l : List ℕ) (k : Kernel cfg) : (l.foldl f k).sections = k.sections := by
  induction l generalizing k with
  | nil => rfl
  | cons t l ih => exact (ih (f k t)).trans (same k t)

theorem osBlockMultipleTask_sections (room : k.Roomy) (a n : ℕ) :
    (k.osBlockMultipleTask a n).1.sections = k.sections := by
  simp only [osBlockMultipleTask]
  split_ifs
  · rfl
  · refine exitTask_of room (foldl_sections (fun k t => ?_) _ _)
    split_ifs <;> rfl

/-- The last test of OSUnBlockMultipleTask is that of exitTask. -/
theorem osUnBlockMultipleTask_sections (room : k.Roomy) (a n : ℕ) :
    (k.osUnBlockMultipleTask a n).1.sections = k.sections := by
  simp only [osUnBlockMultipleTask]
  by_cases busy : 0 < k.iNesting
  · rw [if_pos busy]
  rw [if_neg busy]
  generalize fold : (taskRange a n).foldl _ _ = l
  have same : l.sections = k.enterTask.sections := by
    rw [← fold]
    refine foldl_sections (fun k t => ?_) _ _
    split_ifs <;> rfl
  have current := currentTask_of_sections (changeContextUnnested_sections l)
  have left := exitTask_of room ((changeContextUnnested_sections l).trans same)
  unfold exitTask at left
  rw [current] at left
  split_ifs at left ⊢
  · exact left
  · exact (changeContextUnnested_sections l).symm.trans left

theorem osDelayTask_sections (room : k.Roomy) (w : ℕ) : (k.osDelayTask w).1.sections = k.sections := by
  simp only [osDelayTask]
  repeat' split
  all_goals first | rfl | exact osExitCritical_of room (by simp)

theorem suspend_sections (room : k.Roomy) (o : Obj) (w : ℕ) :
    (k.osEnterCritical.suspend o w).1.sections = k.sections := by
  refine osExitCritical_of room ?_
  simp only [changeContext_sections]
  split_ifs <;> simp

theorem serve_sections (room : k.Roomy) (c : Call) (block : ∀ h, c ≠ .blockTask h) :
    (k.serve c).1.sections = k.sections := by
  cases c with
  | install f n p => exact osInstallTask_sections room f n p
  | blockPriority p => exact osBlockPriority_sections room p
  | unBlockPriority p => exact osUnBlockPriority_sections room p
  | blockTask h => exact absurd rfl (block h)
  | unBlockTask h => exact osUnBlockTask_sections room h
  | blockMultipleTask a n => exact osBlockMultipleTask_sections room a n
  | unBlockMultipleTask a n => exact osUnBlockMultipleTask_sections room a n
  | delayTask w => exact osDelayTask_sections room w
  | semCreate cnt =>
    simp only [serve,osSemCreate]
    repeat' split
    all_goals first | rfl | exact exitTask_of room rfl
  | semBinaryCreate bit =>
    simp only [serve,osSemBinaryCreate]
    repeat' split
    all_goals first | rfl | exact exitTask_of room rfl
  | semDelete i =>
    simp only [serve,osSemDelete]
    split_ifs
    · rfl
    · exact osExitCritical_of room rfl
  | semPend i w =>
    simp only [serve,osSemPend]
    repeat' split
    all_goals first | rfl | exact suspend_sections room _ w | exact osExitCritical_of room rfl
  | semPost i =>
    simp only [serve,osSemPost]
    repeat' split
    all_goals exact exitNesting_of room (by simp)
  | mutexCreate p =>
    simp only [serve,osMutexCreate]
    repeat' split
    all_goals first | rfl | exact exitTask_of room rfl
  | mutexDelete i =>
    simp only [serve,osMutexDelete]
    split_ifs
    · rfl
    · exact osExitCritical_of room rfl
  | mutexAcquire i w =>
    simp only [serve,osMutexAcquire]
    repeat' split
    all_goals first | rfl | exact suspend_sections room _ w | exact osExitCritical_of room (by simp)
  | mutexRelease i =>
    simp only [serve,osMutexRelease]
    repeat' split
    all_goals first | rfl | exact osExitCritical_of room (by simp)
  | mboxCreate m =>
    simp only [serve,osMboxCreate]
    repeat' split
    all_goals first | rfl | exact exitTask_of room rfl
  | mboxDelete i =>
    simp only [serve,osMboxDelete]
    split_ifs
    · rfl
    · exact osExitCritical_of room rfl
  | mboxPend i w =>
    simp only [serve,osMboxPend]
    repeat' split
    all_goals first | rfl | exact suspend_sections room _ w | exact osExitCritical_of room rfl
  | mboxPost i m =>
    simp only [serve,osMboxPost]
    repeat' split
    all_goals exact exitNesting_of room (by simp)
  | queueCreate size =>
    simp only [serve,osQueueCreate]
    repeat' split
    all_goals first | rfl | exact exitTask_of room rfl
  | dqueueCreate a l t =>
    simp only [serve,osDQueueCreate]
    repeat' split
    all_goals first | rfl | exact exitTask_of room rfl
  | dqueueDelete i =>
    simp only [serve,osDQueueDelete]
    split_ifs
    · rfl
    · exact osExitCritical_of room rfl
  | queueClean d i => exact exitNesting_of room (by simp)
  | queueWrite i b =>
    simp only [serve,osWQueue]
    split
    all_goals exact exitNesting_of room (by simp)
  | queueRead i =>
    simp only [serve,osRQueue]
    split_ifs
    all_goals exact exitNesting_of room (by simp)
  | queuePend d i w =>
    simp only [serve,queuePend]
    repeat' split
    all_goals first | rfl | exact suspend_sections room _ w | exact osExitCritical_of room (by simp)
  | queuePost i b =>
    simp only [serve,osQueuePost,queuePost]
    repeat' split
    all_goals exact exitNesting_of room (by simp)
  | dqueuePost i pdata =>
    simp only [serve,osDQueuePost,queuePost]
    repeat' split
    all_goals exact exitNesting_of room (by simp)

theorem resumePend_sections (room : k.Roomy) (o : Obj) (p w : ℕ) :
    (k.resumePend o p w).1.sections = k.sections := by
  cases o with
  | sem i =>
    simp only [resumePend,resumeSemPend]
    split_ifs
    · rfl
    all_goals exact osExitCritical_of room (by simp)
  | mutex i =>
    simp only [resumePend,resumeMutexAcquire]
    split_ifs
    all_goals exact osExitCritical_of room (by simp)
  | mbox i =>
    simp only [resumePend,resumeMboxPend]
    split_ifs
    all_goals exact osExitCritical_of room (by simp)
  | queue i | dqueue i =>
    simp only [resumePend,resumeQueuePend]
    split_ifs
    all_goals exact osExitCritical_of room (by simp)

/-! ### The tick handler -/

theorem expire_sections (room : k.Roomy) (t : ℕ) : (k.expire t).sections = k.sections := by
  simp only [expire,removeFromDelayList_sections]
  split_ifs
  · exact osExitCritical_of room rfl
  · rfl

theorem tickLoop_sections {fuel : ℕ} {p : Option ℕ} (room : k.Roomy) (h : tickLoop fuel p k = some l) :
    l.sections = k.sections := by
  induction fuel generalizing p k with
  | zero =>
    cases p with
    | none => exact congrArg sections (Option.some.inj h).symm
    | some t => simp [tickLoop] at h
  | succ n ih =>
    cases p with
    | none => exact congrArg sections (Option.some.inj h).symm
    | some t =>
      rw [tickLoop] at h
      split_ifs at h
      · have same := expire_sections room t
        exact (ih (room.of_sections same) h).trans same
      · exact ih room h

theorem tick_sections {fuel : ℕ} (room : k.Roomy) (h : k.tick fuel = some l) : l.sections = k.sections :=
  (tickLoop_sections (k := k.osIncCounter) room h).trans rfl

/-! ### The build with dynamic tasks -/

theorem proceedUninstall_sections (room : k.Roomy) (t : ℕ) (same : l.sections = k.enterTask.sections) :
    (l.proceedUninstall t).1.sections = k.sections := by
  simp only [proceedUninstall]
  refine exitTask_of room (Eq.trans ?_ same)
  split_ifs <;> rfl

theorem named_eq_zero_iff (h : ℕ) : k.named h = 0 ↔ k.Nobody h := by
  unfold named
  split_ifs with zero
  · exact ⟨fun none_ => ⟨zero,none_⟩,fun none_ => none_.2⟩
  · exact iff_of_false zero fun none_ => zero none_.1

theorem Uninstalls.sections {off t : ℕ} (way : Uninstalls k off t l) (room : k.Roomy) :
    l.sections = k.sections := by
  cases way with
  | ready isReady => exact proceedUninstall_sections room t rfl
  | @waiting isNot unsafe_ fuel linked found =>
    refine proceedUninstall_sections room t ?_
    split_ifs
    · exact removeFromDelayList_sections _ _
    · rfl

/-- As in OSBlockTask the exit for a handle that stands for nobody has no entry. -/
theorem osUninstallTask_sections (room : k.Roomy) {fuel h off code : ℕ}
    (done : k.osUninstallTask fuel h off = some (l,code)) :
    l.sections = if k.Nobody h then k.osExitCritical.sections else k.sections := by
  have outcome := osUninstallTask_outcome k fuel h off
  rw [done] at outcome
  generalize answer : some (l,code) = r at outcome
  cases outcome with
  | nobody none_ =>
    obtain ⟨rfl,_⟩ := Prod.mk.inj (Option.some.inj answer)
    exact (if_pos (c := k.Nobody h) none_).symm
  | outside named far | endless named => simp at answer
  | idle named zero | waits named isNot safe =>
    obtain ⟨rfl,_⟩ := Prod.mk.inj (Option.some.inj answer)
    rw [if_neg (mt (named_eq_zero_iff h).mpr named)]
    exact exitTask_of room rfl
  | done named inside user fits way =>
    obtain ⟨rfl,_⟩ := Prod.mk.inj (Option.some.inj answer)
    rw [if_neg (mt (named_eq_zero_iff h).mpr named)]
    exact way.sections room

/-! ### OSDelayTaskHMSM, wide queues, and the functions that only read -/

theorem delayLoops_sections {m : Meanwhile cfg} (quiet : ∀ n k, (m.run n k).sections = k.sections)
    (room : k.Roomy) (n : ℕ) : (delayLoops m n k).1.sections = k.sections := by
  induction n generalizing k with
  | zero => rfl
  | succ n ih =>
    have first : (m.run n (k.delayCall 60000).1).sections = k.sections :=
      (quiet n _).trans (osDelayTask_sections room _)
    exact (ih (room.of_sections first)).trans first

theorem osDelayTaskHMSM_sections {m : Meanwhile cfg} (quiet : ∀ n k, (m.run n k).sections = k.sections)
    (room : k.Roomy) (rate hours minutes seconds miliseconds : ℕ) :
    (osDelayTaskHMSM m rate k hours minutes seconds miliseconds).1.sections = k.sections := by
  simp only [osDelayTaskHMSM]
  split_ifs
  · rfl
  · rfl
  · rfl
  · have first := (quiet (ticksOf rate hours minutes seconds miliseconds/60000) _).trans
      (osDelayTask_sections room (ticksOf rate hours minutes seconds miliseconds%60000%65536%(cfg.maxTimer+1)))
    exact (delayLoops_sections quiet (room.of_sections first) _).trans first
  · rfl

theorem carve_sections (room : k.Roomy) (elem size : ℕ) :
    (k.enterTask.carve elem size).1.sections = k.sections := by
  simp only [carve]
  split_ifs
  all_goals exact exitTask_of room rfl

theorem osQueue16Create_sections (room : k.Roomy) (size : ℕ) :
    (k.osQueue16Create size).1.sections = k.sections := by
  simp only [osQueue16Create]
  by_cases busy : 0 < k.iNesting
  · rw [if_pos busy]
  · rw [if_neg busy]
    exact carve_sections room 2 _

theorem osQueue32Create_sections (room : k.Roomy) (size : ℕ) :
    (k.osQueue32Create size).1.sections = k.sections := by
  simp only [osQueue32Create]
  split_ifs
  · rfl
  · exact carve_sections room 4 size

theorem wQueueWide_sections (room : k.Roomy) (q : OsWideRing) (width data : ℕ) :
    (k.wQueueWide q width data).1.sections = k.sections := by
  simp only [wQueueWide]
  split
  all_goals exact exitNesting_of room rfl

theorem rQueueWide_sections (room : k.Roomy) (q : OsWideRing) (width : ℕ) :
    (k.rQueueWide q width).1.sections = k.sections := by
  simp only [rQueueWide]
  split
  all_goals exact exitNesting_of room rfl

theorem cleanQueueWide_sections (room : k.Roomy) (q : OsWideRing) :
    (k.cleanQueueWide q).1.sections = k.sections :=
  exitNesting_of room rfl

theorem osGetCurrentTaskHandle_sections (room : k.Roomy) : k.osGetCurrentTaskHandle.1.sections = k.sections :=
  osExitCritical_of room rfl

theorem osGetTaskPriority_sections (room : k.Roomy) (h : ℕ) : (k.osGetTaskPriority h).1.sections = k.sections :=
  osExitCritical_of room rfl

/-- Where there is room for its section, OSGetTickCount is a plain read of the counter. -/
theorem osGetTickCount_eq (room : k.Roomy) : k.osGetTickCount = (k,k.osTickCounter) := by
  have same : k.osEnterCritical.osExitCritical.sections = k.sections := osExitCritical_of room rfl
  have count := critical_of_sections same
  have held := mutex_of_sections same
  have nesting := iNesting_of_sections same
  have back : k.osEnterCritical.osExitCritical = k := by
    calc _ = { k with
            critical := k.osEnterCritical.osExitCritical.critical
            interruptEventMutex := k.osEnterCritical.osExitCritical.interruptEventMutex
            iNesting := k.osEnterCritical.osExitCritical.iNesting } := rfl
      _ = k := by rw [count,held,nesting]
  simp only [osGetTickCount,back]
  rfl

end Kernel
end Brtos
