import Brtos.Config

/-! The kernel's variables, its critical sections and the small updates that the services share.
Pointers to control blocks are handles: a task is its index in ContextTask, an event its table
index. The TCB fields that only VERBOSE builds or the load meter use are left out. -/
namespace Brtos
open Bitmap

/-- The event control blocks. Dynamic queues live on the heap, the others in tables. -/
inductive Obj
  | sem (i : ℕ)
  | mutex (i : ℕ)
  | mbox (i : ℕ)
  | queue (i : ℕ)
  | dqueue (i : ℕ)
  deriving DecidableEq, Repr

structure ContextType where
  stackPoint : ℕ
  stackInit : ℕ
  timeToWait : ℕ
  priority : ℕ
  next : Option ℕ
  previous : Option ℕ
  deriving Repr

/-- The three fields that every kind of control block has. -/
structure OsEvent (cfg : Config) where
  osEventAllocated : ℕ
  osEventWait : ℕ
  osEventWaitList : PriorityType cfg

structure BrtosSem where
  osEventCount : ℕ
  binary : Bool
  deriving Repr

structure BrtosMutex where
  osEventState : ℕ
  osEventOwner : ℕ
  osMaxPriority : ℕ
  osOriginalPriority : ℕ
  deriving Repr

structure BrtosMbox where
  osEventState : ℕ
  osEventPointer : ℕ
  deriving Repr

/-- OS_QUEUE and OS_DQUEUE. A static queue has records of one byte, and its OSQSize is the
`osqLength` here; `data` is the byte memory that the four cursors point into. Each queue has one of its
own, as a dynamic queue has in the heap unless OSDQueueCreate has cut its size to sixteen bits. -/
structure OsQueue where
  osqStart : ℕ
  osqEnd : ℕ
  osqIn : ℕ
  osqOut : ℕ
  osqTSize : ℕ
  osqLength : ℕ
  osqEntries : ℕ
  data : ℕ → ℕ

/-- What the ready list, the priorities and the wait lists are made of. -/
structure Core (cfg : Config) where
  osReadyList : PriorityType cfg
  priorityVector : ℕ → ℕ
  contextTask : ℕ → ContextType
  taskAlloc : BitVec 32
  event : Obj → OsEvent cfg
  brtosMutexTable : ℕ → BrtosMutex
  head : Option ℕ
  tail : Option ℕ

structure Kernel (cfg : Config) extends Core cfg where
  osBlockedList : PriorityType cfg
  osTickCounter : ℕ
  currentTask : ℕ
  iNesting : ℕ
  /-- Entries into critical sections less the exits from them. -/
  critical : ℤ
  /-- How often the caller owns the simulator's recursive mutex, which only its owner can release. -/
  interruptEventMutex : ℕ
  /-- Bit 0 is the pending context switch, on every port. The simulator uses the other bits. -/
  pendingInterrupts : BitVec 32
  numberOfInstalledTasks : ℕ
  iStackAddress : ℕ
  stackAddress : ℕ
  iQueueAddress : ℕ
  brtosSemTable : ℕ → BrtosSem
  brtosMboxTable : ℕ → BrtosMbox
  brtosOsQueueTable : ℕ → OsQueue
  osDqueue : ℕ → OsQueue

namespace Kernel
variable {cfg : Config} (k : Kernel cfg)

/-! ### Critical sections and the context switch request -/

def osEnterCritical : Kernel cfg :=
  { k with
    critical := k.critical+1
    interruptEventMutex := k.interruptEventMutex+1
    iNesting := if cfg.criticalNests then (k.iNesting+1)%256 else k.iNesting }

def osExitCritical : Kernel cfg :=
  { k with
    critical := k.critical-1
    interruptEventMutex := k.interruptEventMutex-1
    iNesting := if cfg.criticalNests then k.iNesting-1 else k.iNesting }

/-- `#if (NESTING_INT == 0) if (!iNesting) #endif OSEnterCritical();` -/
def enterNesting : Kernel cfg :=
  if cfg.nestingInt = true ∨ k.iNesting = 0 then k.osEnterCritical else k

def exitNesting : Kernel cfg :=
  if cfg.nestingInt = true ∨ k.iNesting = 0 then k.osExitCritical else k

/-- `if (currentTask) OSEnterCritical();` -/
def enterTask : Kernel cfg := if k.currentTask ≠ 0 then k.osEnterCritical else k

def exitTask : Kernel cfg := if k.currentTask ≠ 0 then k.osExitCritical else k

def interruptSwc : ℕ := 0

/-- Request a context switch: GeraInterrupcaoSimulada(INTERRUPT_SWC) on the simulator. -/
def changeContext : Kernel cfg :=
  { k with pendingInterrupts := k.pendingInterrupts ||| (1#32 <<< interruptSwc) }

/-- `if (!iNesting) ChangeContext();` -/
def changeContextUnnested : Kernel cfg := if k.iNesting = 0 then k.changeContext else k

/-! ### Single-field updates -/

def setTask (t : ℕ) (f : ContextType → ContextType) : Kernel cfg :=
  { k with contextTask := Function.update k.contextTask t (f (k.contextTask t)) }

def setEvent (o : Obj) (f : OsEvent cfg → OsEvent cfg) : Kernel cfg :=
  { k with event := Function.update k.event o (f (k.event o)) }

def setMutex (i : ℕ) (f : BrtosMutex → BrtosMutex) : Kernel cfg :=
  { k with brtosMutexTable := Function.update k.brtosMutexTable i (f (k.brtosMutexTable i)) }

def setSem (i : ℕ) (f : BrtosSem → BrtosSem) : Kernel cfg :=
  { k with brtosSemTable := Function.update k.brtosSemTable i (f (k.brtosSemTable i)) }

def setMbox (i : ℕ) (f : BrtosMbox → BrtosMbox) : Kernel cfg :=
  { k with brtosMboxTable := Function.update k.brtosMboxTable i (f (k.brtosMboxTable i)) }

def setPriorityVector (p v : ℕ) : Kernel cfg :=
  { k with priorityVector := Function.update k.priorityVector p v }

/-- `OSReadyList = OSReadyList | PriorityMask[p];` -/
def setReady (p : ℕ) : Kernel cfg := { k with osReadyList := k.osReadyList ||| priorityMask cfg p }

/-- `OSReadyList = OSReadyList & ~(PriorityMask[p]);` -/
def clearReady (p : ℕ) : Kernel cfg :=
  { k with osReadyList := k.osReadyList &&& ~~~ priorityMask cfg p }

def setBlocked (p : ℕ) : Kernel cfg :=
  { k with osBlockedList := k.osBlockedList &&& ~~~ priorityMask cfg p }

def clearBlocked (p : ℕ) : Kernel cfg :=
  { k with osBlockedList := k.osBlockedList ||| priorityMask cfg p }

/-- The priority of the running task. -/
def currentPriority : ℕ := (k.contextTask k.currentTask).priority

def osSchedule : ℕ :=
  let priority := saScheduler cfg (k.osReadyList &&& k.osBlockedList)
  k.priorityVector priority

/-! ### The delay list -/

/-- A store through a pointer; one through NULL hits no kernel variable. -/
def setNext (p : Option ℕ) (v : Option ℕ) : Kernel cfg :=
  match p with
  | some t => k.setTask t fun c => { c with next := v }
  | none => k

def setPrevious (p : Option ℕ) (v : Option ℕ) : Kernel cfg :=
  match p with
  | some t => k.setTask t fun c => { c with previous := v }
  | none => k

def removeFromDelayList (task : ℕ) : Kernel cfg :=
  if some task = k.head then
    if some task = k.tail then { k with tail := none, head := none }
    else
      let k := { k with head := (k.contextTask task).next }
      k.setPrevious k.head none
  else if some task = k.tail then
    let k := { k with tail := (k.contextTask task).previous }
    k.setNext k.tail none
  else
    let k := k.setPrevious (k.contextTask task).next (k.contextTask task).previous
    k.setNext (k.contextTask task).previous (k.contextTask task).next

def includeTaskIntoDelayList (task : ℕ) : Kernel cfg :=
  if k.tail ≠ none then
    let k := k.setNext k.tail (some task)
    let k := k.setPrevious (some task) k.tail
    let k := { k with tail := some task }
    k.setNext k.tail none
  else
    let k := { k with tail := some task, head := some task }
    let k := k.setNext (some task) none
    k.setPrevious (some task) none

def setTimeToWait (t v : ℕ) : Kernel cfg := k.setTask t fun c => { c with timeToWait := v }

/-- The tick at which a wait of `timeWait` ticks that starts now ends. -/
def deadline (timeWait : ℕ) : ℕ :=
  let timeout := k.osTickCounter+timeWait
  if timeout ≥ cfg.tickCountOverflow then (timeout-cfg.tickCountOverflow)%(cfg.maxTimer+1)
  else timeout%(cfg.maxTimer+1)

def osIncCounter : Kernel cfg :=
  let counter := (k.osTickCounter+1)%(cfg.maxTimer+1)
  { k with osTickCounter := if counter = cfg.tickCountOverflow then 0 else counter }

/-! ### Initialisation -/

/-- The variables as the C start-up code leaves them. -/
def zeroed (cfg : Config) : Kernel cfg where
  osReadyList := 0#_
  priorityVector _ := 0
  contextTask _ := ⟨0,0,0,0,none,none⟩
  taskAlloc := 0#_
  event _ := ⟨0,0,0#_⟩
  brtosMutexTable _ := ⟨0,0,0,0⟩
  head := none
  tail := none
  osBlockedList := BitVec.allOnes _
  osTickCounter := 0
  currentTask := 0
  iNesting := 0
  critical := 0
  interruptEventMutex := 0
  pendingInterrupts := 0#_
  numberOfInstalledTasks := 0
  iStackAddress := 0
  stackAddress := 0
  iQueueAddress := 0
  brtosSemTable _ := ⟨0,false⟩
  brtosMboxTable _ := ⟨0,0⟩
  brtosOsQueueTable _ := ⟨0,0,0,0,0,0,0,fun _ => 0⟩
  osDqueue _ := ⟨0,0,0,0,0,0,0,fun _ => 0⟩

/-- initEvents: the heap's dynamic queues are not part of it. -/
def initEvents : Kernel cfg :=
  { k with event := fun o => match o with
      | .sem i => if i < cfg.brtosMaxSem then { k.event o with osEventAllocated := 0 } else k.event o
      | .mutex i =>
        if i < cfg.brtosMaxMutex then { k.event o with osEventAllocated := 0 } else k.event o
      | .mbox i => if i < cfg.brtosMaxMbox then { k.event o with osEventAllocated := 0 } else k.event o
      | .queue i =>
        if i < cfg.brtosMaxQueue then { k.event o with osEventAllocated := 0 } else k.event o
      | .dqueue _ => k.event o }

/-- StackAddress counts from the start of STACK. -/
def preInstallTasks : Kernel cfg :=
  { k with
    osTickCounter := 0
    currentTask := 0
    numberOfInstalledTasks := 0
    taskAlloc := 0#_
    iStackAddress := 0
    stackAddress := 0
    priorityVector := fun i => if i < cfg.width then emptyPrio else k.priorityVector i
    contextTask := fun i =>
      if 1 ≤ i ∧ i ≤ cfg.numberOfTasks then { k.contextTask i with priority := emptyPrio }
      else k.contextTask i
    tail := none
    head := none }

def brtosInit (cfg : Config) : Kernel cfg := (zeroed cfg).initEvents.preInstallTasks

end Kernel
end Brtos
