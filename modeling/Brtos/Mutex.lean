import Brtos.Event

/-! mutex.c: ownership and the priority ceiling. -/
namespace Brtos.Kernel
variable {cfg : Config} (k : Kernel cfg)

/-- OSMutexCreate. The ceiling is reserved before the search for a control block, and
OSEventOwner is not written. -/
def osMutexCreate (higherPriority : ℕ) : Kernel cfg × Reply :=
  if 0 < k.iNesting then (k,.ret irqPendErr []) else
  let k := k.enterTask
  if 0 < higherPriority ∧ k.priorityVector higherPriority ≠ emptyPrio then
    (k.exitTask,.ret busyPriority [])
  else
    let k := if 0 < higherPriority then k.setPriorityVector higherPriority mutexPrio else k
    match k.findEvent .mutex cfg.brtosMaxMutex with
    | none => (k.exitTask,.ret noAvailableEvent [])
    | some i =>
      (((k.allocEvent (.mutex i)).setMutex i fun m => { m with
        osEventState := availableResource, osMaxPriority := higherPriority }).exitTask,
        .ret allocEventOk [i])

/-- OSMutexDelete leaves the reserved priority in PriorityVector. -/
def osMutexDelete (i : ℕ) : Kernel cfg × Reply :=
  if 0 < k.iNesting then (k,.ret irqPendErr []) else
  let k := k.osEnterCritical
  (((k.freeEvent (.mutex i)).setMutex i fun _ => ⟨0,0,0,0⟩).osExitCritical,.ret deleteEventOk [])

/-- The running task keeps `iPriority` for the release and moves up to the ceiling. -/
def raise (i iPriority : ℕ) : Kernel cfg :=
  let k := k.setMutex i fun m => { m with osOriginalPriority := iPriority }
  let ceiling := (k.brtosMutexTable i).osMaxPriority
  if ceiling > iPriority then
    let k := k.setTask k.currentTask fun c => { c with priority := ceiling }
    let k := k.setPriorityVector ceiling k.currentTask
    (k.clearReady iPriority).setReady ceiling
  else k

def osMutexAcquire (i timeWait : ℕ) : Kernel cfg × Reply :=
  if cfg.errorCheck ∧ 0 < k.iNesting then (k,.ret irqPendErr []) else
  let k := k.osEnterCritical
  if k.notCreated (.mutex i) then (k.osExitCritical,.ret errEventNoCreated [])
  else if k.currentTask = (k.brtosMutexTable i).osEventOwner then (k.osExitCritical,.ret ok [])
  else if (k.brtosMutexTable i).osEventState = availableResource then
    let k := k.setMutex i fun m => { m with
      osEventState := busyResource, osEventOwner := k.currentTask }
    ((k.raise i k.currentPriority).osExitCritical,.ret ok [])
  else if timeWait = cfg.noTimeout then (k.osExitCritical,.ret exitByNoResourceAvailable [])
  else k.suspend (.mutex i) timeWait

/-- OSMutexAcquire behind ChangeContext. -/
def resumeMutexAcquire (i iPriority timeWait : ℕ) : Kernel cfg × ℕ × List ℕ :=
  let woken := k.osEnterCritical.wakeUp (.mutex i) iPriority timeWait
  if woken.2 then (woken.1.osExitCritical,exitByNoResourceAvailable,[])
  else ((woken.1.raise i iPriority).osExitCritical,ok,[])

/-- The caller goes back to the priority it had when it acquired the mutex. -/
def restore (i : ℕ) : Kernel cfg :=
  let iPriority := k.currentPriority
  let original := (k.brtosMutexTable i).osOriginalPriority
  if iPriority ≠ original then
    ((k.clearReady iPriority).setReady original).setTask k.currentTask fun c =>
      { c with priority := original }
  else k

/-- The ownership goes to the highest waiting task. -/
def passOn (i : ℕ) : Kernel cfg :=
  let owner := k.priorityVector (k.highestWaiting (.mutex i))
  (k.wakeHighest (.mutex i)).setMutex i fun m => { m with osEventOwner := owner }

/-- The mutex becomes available and its ceiling is reserved again. -/
def makeAvailable (i : ℕ) : Kernel cfg :=
  let k := k.setMutex i fun m => { m with osEventState := availableResource }
  let ceiling := (k.brtosMutexTable i).osMaxPriority
  if 0 < ceiling then k.setPriorityVector ceiling mutexPrio else k

def osMutexRelease (i : ℕ) : Kernel cfg × Reply :=
  if cfg.errorCheck ∧ 0 < k.iNesting then (k,.ret irqPendErr []) else
  let k := k.osEnterCritical
  if k.notCreated (.mutex i) then (k.osExitCritical,.ret errEventNoCreated [])
  else if (k.brtosMutexTable i).osEventOwner ≠ k.currentTask then
    (k.osExitCritical,.ret errEventOwner [])
  else
    let k := (k.restore i).setMutex i fun m => { m with osEventOwner := 0 }
    if (k.event (.mutex i)).osEventWait ≠ 0 then
      ((k.passOn i).changeContext.osExitCritical,.ret ok [])
    else ((k.makeAvailable i).osExitCritical,.ret ok [])

end Brtos.Kernel
