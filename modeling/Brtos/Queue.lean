import Brtos.Event

/-! queue.c: the ring of bytes, the static queues on QUEUE_STACK and the dynamic ones on the
heap. The two kinds run the same code; OSDQueuePost and OSDQueuePend copy OSQTSize bytes where the
static ones copy a single byte. -/
namespace Brtos

namespace OsQueue
variable (q : OsQueue)

/-- The byte-copying loop of a post. -/
def writeBytes (q : OsQueue) : List ℕ → OsQueue
  | [] => q
  | b::rest =>
    writeBytes { q with data := Function.update q.data q.osqIn b, osqIn := q.osqIn+1 } rest

/-- The byte-copying loop of a pend. -/
def readBytes (q : OsQueue) : ℕ → OsQueue × List ℕ
  | 0 => (q,[])
  | n+1 =>
    let r := readBytes { q with osqOut := q.osqOut+1 } n
    (r.1,q.data q.osqOut :: r.2)

/-- The ring part of a post, none when the queue is full. -/
def write (bytes : List ℕ) : Option OsQueue :=
  if q.osqEntries < q.osqLength then
    let q := { q with osqEntries := q.osqEntries+1 }
    let q := if q.osqIn = q.osqEnd then { q with osqIn := q.osqStart } else q
    some (q.writeBytes bytes)
  else none

/-- The ring part of a pend. The 16-bit counter is decremented without a test. -/
def read : OsQueue × List ℕ :=
  let q := if q.osqOut = q.osqEnd then { q with osqOut := q.osqStart } else q
  let r := q.readBytes q.osqTSize
  ({ r.1 with osqEntries := if r.1.osqEntries = 0 then 65535 else r.1.osqEntries-1 },r.2)

def clean : OsQueue := { q with osqEntries := 0, osqIn := q.osqStart, osqOut := q.osqStart }

end OsQueue

namespace Kernel
variable {cfg : Config} (k : Kernel cfg)

/-- The two places where queues live. -/
inductive QueueKind
  | static
  | dynamic
  deriving DecidableEq, Repr

def QueueKind.obj : QueueKind → ℕ → Obj
  | .static => .queue
  | .dynamic => .dqueue

def queue (d : QueueKind) (i : ℕ) : OsQueue :=
  match d with
  | .static => k.brtosOsQueueTable i
  | .dynamic => k.osDqueue i

def setQueue (d : QueueKind) (i : ℕ) (q : OsQueue) : Kernel cfg :=
  match d with
  | .static => { k with brtosOsQueueTable := Function.update k.brtosOsQueueTable i q }
  | .dynamic => { k with osDqueue := Function.update k.osDqueue i q }

/-- `(iQueueAddress + words) > (QUEUE_HEAP_SIZE / sizeof(OS_CPU_TYPE))`, a sum of type size_t. -/
def NoRoom (words : ℕ) : Prop :=
  (k.iQueueAddress+words)%(cfg.sizeMax+1) > cfg.queueHeapSize/cfg.sizeofCpuType

instance (words : ℕ) : Decidable (k.NoRoom words) := by unfold NoRoom; infer_instance

/-- OSQueueCreate. Sizes are rounded up to OS_CPU_TYPE, in sixteen bits. -/
def osQueueCreate (size : ℕ) : Kernel cfg × Reply :=
  if 0 < k.iNesting then (k,.ret irqPendErr []) else
  let k := k.enterTask
  let size :=
    if size%cfg.sizeofCpuType ≠ 0 then
      (size+(cfg.sizeofCpuType-size%cfg.sizeofCpuType))%65536
    else size
  if k.NoRoom (size/cfg.sizeofCpuType) then (k.exitTask,.ret noMemory [])
  else match k.findEvent .queue cfg.brtosMaxQueue with
    | none => (k.exitTask,.ret noAvailableEvent [])
    | some i =>
      let start := k.iQueueAddress*cfg.sizeofCpuType
      let k := { k with iQueueAddress := (k.iQueueAddress+size/cfg.sizeofCpuType)%65536 }
      let k := k.setQueue .static i { k.queue .static i with
        osqStart := start, osqTSize := 1, osqLength := size, osqEntries := 0, osqEnd := start+size,
        osqIn := start, osqOut := start }
      ((k.allocEvent (.queue i)).exitTask,.ret allocEventOk [i])

/-- The three results of BRTOS_ALLOC in OSDQueueCreate: the handler's block, the address of the
data and the event block. Blocks are named by the index of the queue. -/
structure Alloc where
  handler : Option ℕ
  start : Option ℕ
  event : Bool
  deriving DecidableEq, Repr

/-- OSDQueueCreate. It leaves OSEventAllocated as the heap block has it. -/
def osDQueueCreate (a : Alloc) (queueLength typeSize : ℕ) : Kernel cfg × Reply :=
  if 0 < k.iNesting then (k,.ret irqPendErr []) else
  let k := k.enterTask
  if 0 < queueLength ∧ 0 < typeSize then
    match a.handler,a.start with
    | some i,some start =>
      if a.event then
        let sizeInBytes := queueLength*typeSize%65536
        let k := k.setQueue .dynamic i { k.queue .dynamic i with
          osqStart := start, osqLength := queueLength, osqTSize := typeSize%65536, osqEntries := 0,
          osqEnd := start+sizeInBytes, osqIn := start, osqOut := start }
        let k := k.setEvent (.dqueue i) fun e => { e with osEventWait := 0, osEventWaitList := 0#_ }
        (k.exitTask,.ret allocEventOk [i])
      else (k.exitTask,.ret noAvailableEvent [])
    | _,_ => (k.exitTask,.ret noAvailableMemory [])
  else (k.exitTask,.ret invalidParameters [])

def osDQueueDelete (i : ℕ) : Kernel cfg × Reply :=
  if 0 < k.iNesting then (k,.ret irqPendErr []) else
  ((k.osEnterCritical.freeEvent (.dqueue i)).osExitCritical,.ret deleteEventOk [])

/-- OSQueueClean and OSDQueueClean. -/
def queueClean (d : QueueKind) (i : ℕ) : Kernel cfg × Reply :=
  let k := k.enterNesting
  ((k.setQueue d i (k.queue d i).clean).exitNesting,.ret cleanBufferOk [])

def osQueueClean (i : ℕ) : Kernel cfg × Reply := k.queueClean .static i
def osDQueueClean (i : ℕ) : Kernel cfg × Reply := k.queueClean .dynamic i

/-- OSWQueue: a write that looks at no wait list. -/
def osWQueue (i data : ℕ) : Kernel cfg × Reply :=
  let k := k.enterNesting
  match (k.queue .static i).write [data] with
  | none => (k.exitNesting,.ret bufferUnderrun [])
  | some q => ((k.setQueue .static i q).exitNesting,.ret writeBufferOk [])

def osRQueue (i : ℕ) : Kernel cfg × Reply :=
  let k := k.enterNesting
  if 0 < (k.queue .static i).osqEntries then
    let r := (k.queue .static i).read
    ((k.setQueue .static i r.1).exitNesting,.ret readBufferOk r.2)
  else (k.exitNesting,.ret noEntryAvailable [])

/-- OSQueuePend and OSDQueuePend up to ChangeContext. -/
def queuePend (d : QueueKind) (i timeWait : ℕ) : Kernel cfg × Reply :=
  if cfg.errorCheck ∧ 0 < k.iNesting then (k,.ret irqPendErr []) else
  let k := k.osEnterCritical
  if k.notCreated (d.obj i) then (k.osExitCritical,.ret errEventNoCreated [])
  else if 0 < (k.queue d i).osqEntries then
    let r := (k.queue d i).read
    ((k.setQueue d i r.1).osExitCritical,.ret readBufferOk r.2)
  else if timeWait = cfg.noTimeout then (k.osExitCritical,.ret exitByNoEntryAvailable [])
  else k.suspend (d.obj i) timeWait

def osQueuePend (i timeWait : ℕ) : Kernel cfg × Reply := k.queuePend .static i timeWait
def osDQueuePend (i timeWait : ℕ) : Kernel cfg × Reply := k.queuePend .dynamic i timeWait

/-- OSQueuePend and OSDQueuePend behind ChangeContext. A task that a post has selected reads the
ring without looking at OSQEntries again. -/
def resumeQueuePend (d : QueueKind) (i iPriority timeWait : ℕ) : Kernel cfg × ℕ × List ℕ :=
  let woken := k.osEnterCritical.wakeUp (d.obj i) iPriority timeWait
  let k := woken.1
  if woken.2 then (k.osExitCritical,timeout,[])
  else
    let r := (k.queue d i).read
    ((k.setQueue d i r.1).osExitCritical,readBufferOk,r.2)

/-- OSQueuePost and OSDQueuePost. -/
def queuePost (d : QueueKind) (i : ℕ) (bytes : List ℕ) : Kernel cfg × Reply :=
  let k := k.enterNesting
  if k.notCreated (d.obj i) then (k.exitNesting,.ret errEventNoCreated [])
  else match (k.queue d i).write bytes with
    | none => (k.exitNesting,.ret bufferUnderrun [])
    | some q =>
      let k := k.setQueue d i q
      if (k.event (d.obj i)).osEventWait ≠ 0 then
        ((k.wakeHighest (d.obj i)).changeContextUnnested.exitNesting,.ret writeBufferOk [])
      else (k.exitNesting,.ret writeBufferOk [])

def osQueuePost (i data : ℕ) : Kernel cfg × Reply := k.queuePost .static i [data]

/-- The record's bytes are the first OSQTSize ones at `pdata`. -/
def osDQueuePost (i : ℕ) (pdata : ℕ → ℕ) : Kernel cfg × Reply :=
  k.queuePost .dynamic i ((List.range (k.osDqueue i).osqTSize).map pdata)

end Kernel
end Brtos
