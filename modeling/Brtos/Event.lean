import Brtos.Tasks

/-! What the four kinds of event have in common: the search for a free control block, the sleep of
a task on a wait list, its selection by a post, and the test it makes when it runs again. -/
namespace Brtos

/-- Where a task goes on when it is scheduled again. The suspended services keep the local
`iPriority` and the argument `time_wait`. -/
inductive Point
  | run
  | delay (timeWait : ℕ)
  | pend (o : Obj) (iPriority timeWait : ℕ)
  deriving DecidableEq, Repr

/-- How a service leaves the kernel. The data is what it stores through its pointer arguments. -/
inductive Reply
  | ret (code : ℕ) (data : List ℕ)
  | sleep (p : Point)
  deriving DecidableEq, Repr

namespace Kernel
variable {cfg : Config} (k : Kernel cfg)

/-- The first control block of a table that is not allocated. -/
def findEvent (obj : ℕ → Obj) (max : ℕ) : Option ℕ :=
  (List.range max).find? fun i => (k.event (obj i)).osEventAllocated != 1

def allocEvent (o : Obj) : Kernel cfg := k.setEvent o fun _ => ⟨1,0,0#_⟩

def freeEvent (o : Obj) : Kernel cfg := k.setEvent o fun _ => ⟨0,0,0#_⟩

/-- `#if (ERROR_CHECK == 1) if (pont_event->OSEventAllocated != TRUE)` -/
def notCreated (o : Obj) : Bool := cfg.errorCheck && (k.event o).osEventAllocated != 1

/-- The caller joins the wait list and leaves the ready list, up to ChangeContext and the end of
the critical section in which the processor is lost. -/
def suspend (o : Obj) (timeWait : ℕ) : Kernel cfg × Reply :=
  let task := k.currentTask
  let iPriority := k.currentPriority
  let k := k.setEvent o fun e => { e with
    osEventWait := (e.osEventWait+1)%256
    osEventWaitList := e.osEventWaitList ||| priorityMask cfg iPriority }
  let k := k.clearReady iPriority
  let k :=
    if timeWait ≠ 0 then
      (k.setTimeToWait task (k.deadline timeWait)).includeTaskIntoDelayList task
    else k.setTimeToWait task cfg.noTimeout
  (k.changeContext.osExitCritical,.sleep (.pend o iPriority timeWait))

/-- Take a priority off a wait list; the counter has eight bits. -/
def unlist (o : Obj) (iPriority : ℕ) : Kernel cfg :=
  k.setEvent o fun e => { e with
    osEventWaitList := e.osEventWaitList &&& ~~~ priorityMask cfg iPriority
    osEventWait := (e.osEventWait+255)%256 }

/-- The highest priority of a wait list. -/
def highestWaiting (o : Obj) : ℕ := saScheduler cfg (k.event o).osEventWaitList

/-- The selected task moves from the wait list to the ready list. -/
def wakeHighest (o : Obj) : Kernel cfg :=
  (k.unlist o (k.highestWaiting o)).setReady (k.highestWaiting o)

/-- The test of a pend whose task runs again. The flag says that the wait ended in a timeout. -/
def wakeUp (o : Obj) (iPriority timeWait : ℕ) : Kernel cfg × Bool :=
  let task := k.currentTask
  if timeWait = 0 then (k,false)
  else if (k.contextTask task).timeToWait = cfg.exitByTimeout then
    -- both the timeout and a post may have come before
    if (k.event o).osEventWaitList &&& priorityMask cfg iPriority ≠ 0#_ then
      (k.unlist o iPriority,true)
    else (k,false)
  else ((k.setTimeToWait task cfg.noTimeout).removeFromDelayList task,false)

end Kernel
end Brtos
