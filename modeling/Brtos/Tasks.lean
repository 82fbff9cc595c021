import Brtos.Kernel

/-! Task installation, blocking, delays and the tick handler of BRTOS.c (static-task build). -/
namespace Brtos

/-- A task's entry address. The kernel only compares it with that of Idle. -/
inductive Entry
  | idle
  | user (n : ℕ)
  deriving DecidableEq, Repr

namespace Kernel
variable {cfg : Config} (k : Kernel cfg)

/-- The first clear bit of TaskAlloc among the first NUMBER_OF_TASKS. -/
def findTcb : Option ℕ := (List.range cfg.numberOfTasks).find? fun i => !k.taskAlloc.getLsbD i

/-- The part of OSInstallTask behind its tests, for the free control block `task`. -/
def installInto (task userStackedBytes iPriority : ℕ) : Kernel cfg :=
  let k := { k with
    taskAlloc := k.taskAlloc ||| BitVec.twoPow 32 (task-1)
    numberOfInstalledTasks := (k.numberOfInstalledTasks+1)%256 }
  let k := k.setTask task fun c => { c with
    stackPoint :=
      if cfg.stackGrowth then k.stackAddress+cfg.numberMinOfStackedBytes
      else k.stackAddress+(userStackedBytes-cfg.numberMinOfStackedBytes)
    stackInit := if cfg.stackGrowth then k.stackAddress else k.stackAddress+userStackedBytes
    priority := iPriority }
  let k := k.setPriorityVector iPriority task
  let k := { k with
    iStackAddress := (k.iStackAddress+userStackedBytes/cfg.sizeofCpuType)%65536
    stackAddress := k.stackAddress+userStackedBytes }
  let k := k.setTask task fun c => { c with
    timeToWait := cfg.noTimeout, next := none, previous := none }
  k.setReady iPriority

/-- OSInstallTask. The second result is what it stores through TaskHandle. -/
def osInstallTask (fctPtr : Entry) (userStackedBytes iPriority : ℕ) : Kernel cfg × ℕ × Option ℕ :=
  let k := k.enterTask
  let userStackedBytes := userStackedBytes-userStackedBytes%cfg.sizeofCpuType
  if userStackedBytes < cfg.numberMinOfStackedBytes then (k.exitTask,stackSizeTooSmall,none)
  else if k.iStackAddress+userStackedBytes/cfg.sizeofCpuType > cfg.heapSize/cfg.sizeofCpuType then
    (k.exitTask,noMemory,none)
  else if iPriority ≠ 0 ∧ iPriority > cfg.width-1 then (k.exitTask,endOfAvailablePriorities,none)
  else if iPriority ≠ 0 ∧ k.priorityVector iPriority ≠ emptyPrio then (k.exitTask,busyPriority,none)
  else if iPriority = 0 ∧ fctPtr ≠ .idle then (k.exitTask,cannotAssignIdleTaskPrio,none)
  else match k.findTcb with
    | none => (k.exitTask,endOfAvailableTcb,none)
    | some i => ((k.installInto (i+1) userStackedBytes iPriority).exitTask,ok,some (i+1))

/-- BRTOSStart up to the first task: BTOSStartFirstTask clears iNesting. -/
def brtosStart : Kernel cfg × ℕ :=
  let r := k.osInstallTask .idle cfg.idleStackSize 0
  if r.2.1 ≠ ok then (r.1,noMemory)
  else ({ r.1 with currentTask := r.1.osSchedule, iNesting := 0 },ok)

/-! ### Blocking -/

def osBlockPriority (iPriority : ℕ) : Kernel cfg × ℕ :=
  if 0 < k.iNesting then (k,irqPendErr) else
  let k := k.enterTask
  let blockedTask := k.priorityVector iPriority
  let k := k.setBlocked iPriority
  let k := if k.currentTask = blockedTask then k.changeContext else k
  (k.exitTask,ok)

def osUnBlockPriority (iPriority : ℕ) : Kernel cfg × ℕ :=
  let k := k.enterNesting
  let k := k.clearBlocked iPriority
  let k := if k.currentTask ≠ 0 then k.changeContextUnnested else k
  (k.exitNesting,ok)

def osBlockTask (taskHandle : ℕ) : Kernel cfg × ℕ :=
  if 0 < k.iNesting then (k,irqPendErr) else
  let k := k.enterTask
  -- before the start there is no task to stand for handle 0
  if taskHandle = 0 ∧ k.currentTask = 0 then (k.osExitCritical,notValidTask) else
  let taskHandle := if taskHandle = 0 then k.currentTask else taskHandle
  let k := k.setBlocked (k.contextTask taskHandle).priority
  let k := if k.currentTask = taskHandle then k.changeContext else k
  (k.exitTask,ok)

def osUnBlockTask (taskHandle : ℕ) : Kernel cfg × ℕ :=
  let k := k.enterNesting
  let k := k.clearBlocked (k.contextTask taskHandle).priority
  let k := if k.currentTask ≠ 0 then k.changeContextUnnested else k
  (k.exitNesting,ok)

/-- The handles from TaskStart up to the 8-bit sum that ends the loop. -/
def taskRange (taskStart taskNumber : ℕ) : List ℕ :=
  List.range' taskStart ((taskStart+taskNumber)%256-taskStart)

def osBlockMultipleTask (taskStart taskNumber : ℕ) : Kernel cfg × ℕ :=
  if 0 < k.iNesting then (k,irqPendErr) else
  let k := k.enterTask
  let k := (taskRange taskStart taskNumber).foldl (fun k iTask =>
    if iTask ≠ k.currentTask then k.setBlocked (k.contextTask iTask).priority else k) k
  (k.exitTask,ok)

def osUnBlockMultipleTask (taskStart taskNumber : ℕ) : Kernel cfg × ℕ :=
  if 0 < k.iNesting then (k,irqPendErr) else
  let k := k.enterTask
  let k := (taskRange taskStart taskNumber).foldl (fun k iTask =>
    if iTask ≠ k.currentTask then k.clearBlocked (k.contextTask iTask).priority else k) k
  if k.currentTask ≠ 0 then (k.changeContextUnnested.osExitCritical,ok) else (k,ok)

/-! ### Delays and ticks -/

/-- OSDelayTask. The flag says that the caller sleeps; its OK then comes with the wake-up. -/
def osDelayTask (timeWait : ℕ) : Kernel cfg × ℕ × Bool :=
  if 0 < k.iNesting then (k,irqPendErr,false)
  else if k.currentTask = 0 then (k,notValidTask,false)
  else if timeWait = 0 then (k,noTaskDelay,false)
  else
    let k := k.osEnterCritical
    let k := k.setTimeToWait k.currentTask (k.deadline timeWait)
    let k := k.includeTaskIntoDelayList k.currentTask
    let k := k.clearReady k.currentPriority
    (k.changeContext.osExitCritical,ok,true)

/-- The tick handler's work on one task whose wait ends now. -/
def expire (task : ℕ) : Kernel cfg :=
  let iPrio := (k.contextTask task).priority
  let k := if cfg.nestingInt then k.osEnterCritical else k
  let k := k.setReady iPrio
  let k := k.setTimeToWait task cfg.exitByTimeout
  let k := if cfg.nestingInt then k.osExitCritical else k
  k.removeFromDelayList task

/-- The traversal, with a bound on its length: a list that closes on itself has no end. -/
def tickLoop : ℕ → Option ℕ → Kernel cfg → Option (Kernel cfg)
  | _,none,k => some k
  | 0,some _,_ => none
  | n+1,some task,k =>
    let k := if (k.contextTask task).timeToWait = k.osTickCounter then k.expire task else k
    tickLoop n (k.contextTask task).next k

/-- OS_TICK_HANDLER; the CPU load counters are left out. -/
def osTickHandler (fuel : ℕ) : Option (Kernel cfg) := tickLoop fuel k.head k

/-! ### Readings in a section of their own -/

def osGetCurrentTaskHandle : Kernel cfg × ℕ :=
  let k := k.osEnterCritical
  (k.osExitCritical,k.currentTask)

def osGetTaskPriority (taskHandle : ℕ) : Kernel cfg × ℕ :=
  let k := k.osEnterCritical
  (k.osExitCritical,(k.contextTask taskHandle).priority)

def osGetTickCount : Kernel cfg × ℕ :=
  let k := k.osEnterCritical
  (k.osExitCritical,k.osTickCounter)

end Kernel
end Brtos
