import Brtos.Delayed

/-! BRTOS.c with BRTOS_DYNAMIC_TASKS_ENABLED: tasks have their stacks on the heap and can be taken out
again. -/
namespace Brtos

def taskWaitingEvent : ℕ := 12
def cannotUninstallIdleTask : ℕ := 13

/-- What BRTOS_ALLOC returns for a new task, none for NULL, and where CreateDVirtualStack leaves the
stack pointer in it. -/
structure StackBlock where
  stackInit : Option ℕ
  stackPoint : ℕ
  deriving DecidableEq, Repr

namespace Kernel
variable {cfg : Config} (k : Kernel cfg)

/-- The part of OSInstallTask behind its tests. -/
def installOnHeap (task stackInit stackPoint iPriority : ℕ) : Kernel cfg :=
  let k := { k with
    taskAlloc := k.taskAlloc ||| BitVec.twoPow 32 (task-1)
    numberOfInstalledTasks := (k.numberOfInstalledTasks+1)%256 }
  let k := k.setTask task fun c => { c with stackInit := stackInit, priority := iPriority }
  let k := k.setPriorityVector iPriority task
  let k := k.setTask task fun c => { c with
    stackPoint := stackPoint, timeToWait := cfg.noTimeout, next := none, previous := none }
  k.setReady iPriority

/-- OSInstallTask. The second result is what it stores through TaskHandle. -/
def osInstallTaskDynamic (stack : StackBlock) (fctPtr : Entry) (userStackedBytes iPriority : ℕ) :
    Kernel cfg × ℕ × Option ℕ :=
  let k := k.enterTask
  let userStackedBytes := userStackedBytes-userStackedBytes%cfg.sizeofCpuType
  if userStackedBytes < cfg.numberMinOfStackedBytes then (k.exitTask,stackSizeTooSmall,none)
  else if iPriority ≠ 0 ∧ iPriority > cfg.width-1 then (k.exitTask,endOfAvailablePriorities,none)
  else if iPriority ≠ 0 ∧ k.priorityVector iPriority ≠ emptyPrio then (k.exitTask,busyPriority,none)
  else if iPriority = 0 ∧ fctPtr ≠ .idle then (k.exitTask,cannotAssignIdleTaskPrio,none)
  else match stack.stackInit with
    | none => (k.exitTask,noMemory,none)
    | some stackInit => match k.findTcb with
      | none => (k.exitTask,endOfAvailableTcb,none)
      | some i =>
        ((k.installOnHeap (i+1) stackInit stack.stackPoint iPriority).exitTask,ok,some (i+1))

def brtosStartDynamic (stack : StackBlock) : Kernel cfg × ℕ :=
  let r := k.osInstallTaskDynamic stack .idle cfg.idleStackSize 0
  if r.2.1 ≠ ok then (r.1,noMemory)
  else ({ r.1 with currentTask := r.1.osSchedule, iNesting := 0 },ok)

/-- `while(Task_timer != NULL)`: is the task on the list from `p` on? None where the bound on the length
is too small. -/
def searchDelayList (task : ℕ) : ℕ → Option ℕ → Option Bool
  | _,none => some false
  | 0,some _ => none
  | n+1,some t => if t = task then some true else searchDelayList task n (k.contextTask t).next

/-- "Proceed with the uninstall": the end of OSUninstallTask. -/
def proceedUninstall (taskHandle : ℕ) : Kernel cfg × ℕ :=
  let k := { k with taskAlloc := k.taskAlloc &&& ~~~ BitVec.twoPow 32 (taskHandle-1) }
  let k := k.setPriorityVector (k.contextTask taskHandle).priority emptyPrio
  let k := k.setTask taskHandle fun _ =>
    ⟨0,0,cfg.noTimeout,emptyPrio,none,none⟩
  let k := { k with numberOfInstalledTasks := (k.numberOfInstalledTasks+255)%256 }
  let k := if taskHandle = k.currentTask then k.changeContext else k
  (k.exitTask,ok)

/-- OSUninstallTask. None where an index lies outside ContextTask, PriorityMask or PriorityVector, or
where the search for the task has no end. -/
def osUninstallTask (fuel taskHandle safetyOff : ℕ) : Option (Kernel cfg × ℕ) :=
  let taskTimer := k.head
  let k := k.enterTask
  -- before the start there is no task to stand for handle 0, and no section to leave
  if taskHandle = 0 ∧ k.currentTask = 0 then some (k.osExitCritical,notValidTask) else
  let taskHandle := if taskHandle = 0 then k.currentTask else taskHandle
  if cfg.numberOfTasks < taskHandle then none else
  let iPriority := (k.contextTask taskHandle).priority
  if iPriority = 0 then some (k.exitTask,cannotUninstallIdleTask) else
  if cfg.width ≤ iPriority then none else
  if k.osReadyList &&& priorityMask cfg iPriority ≠ priorityMask cfg iPriority then
    if safetyOff = 1 then
      (k.searchDelayList taskHandle fuel taskTimer).map fun linked =>
        (if linked then k.removeFromDelayList taskHandle else k).proceedUninstall taskHandle
    else some (k.exitTask,taskWaitingEvent)
  else some ((k.clearReady iPriority).proceedUninstall taskHandle)

end Kernel

/-- The actions of a system with dynamic tasks. Installations and the start have their own functions. -/
inductive DynamicAction
  | base (a : Action)
  | start (stack : StackBlock)
  | install (stack : StackBlock) (fctPtr : Entry) (userStackedBytes iPriority : ℕ)
  | uninstall (fuel taskHandle safetyOff : ℕ)
  deriving DecidableEq, Repr

/-- The services that the two builds have in common. -/
def Action.common : Action → Bool
  | .start | .main (.install _ _ _) | .call (.install _ _ _) => false
  | _ => true

namespace System
variable {cfg : Config} (s : System cfg)

/-- Main before the start, or a task that runs, may call the two functions. -/
def Free : Prop := s.started = false ∨ s.Running ∧ s.point s.currentTask = .run ∧ s.inst s.currentTask ≠ 0

instance : Decidable s.Free := by unfold Free; infer_instance

/-- The bookkeeping forgets a task that has been taken out. -/
def forget (taskHandle : ℕ) : System cfg :=
  { s with
    point := Function.update s.point taskHandle .run
    inst := Function.update s.inst taskHandle 0
    held := Function.update s.held taskHandle [] }

/-- The handle that OSUninstallTask works on. -/
def named (taskHandle : ℕ) : ℕ := if taskHandle = 0 then s.currentTask else taskHandle

def stepDynamic : DynamicAction → Option (System cfg)
  | .base a => if a.common then s.step a else none
  | .start stack =>
    if s.started = false then
      let r := s.brtosStartDynamic stack
      some { s with toKernel := r.1, started := r.2 == ok }
    else none
  | .install stack fctPtr userStackedBytes iPriority =>
    if s.Free then
      let r := s.osInstallTaskDynamic stack fctPtr userStackedBytes iPriority
      some { s with
        toKernel := r.1
        inst := s.nextInst (.install fctPtr userStackedBytes iPriority) r.2.1 r.2.2.toList }
    else none
  | .uninstall fuel taskHandle safetyOff =>
    if s.Free then
      (s.osUninstallTask fuel taskHandle safetyOff).map fun r =>
        let t := { s with toKernel := r.1 }
        if r.2 = ok then t.forget (s.named taskHandle) else t
    else none

end System
end Brtos
