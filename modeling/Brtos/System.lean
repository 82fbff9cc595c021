import Brtos.Semaphore
import Brtos.Mutex
import Brtos.Mbox
import Brtos.Queue
import Brtos.Library.Run

/-! The kernel among its tasks and interrupts. A step is one service call up to its return or to
the loss of the processor, the rest of a suspended service, one action of an interrupt handler, or
a context switch. The fields behind the kernel's own are bookkeeping that no service reads. -/
namespace Brtos
open Kernel (QueueKind Alloc)

inductive Call
  | install (fctPtr : Entry) (userStackedBytes iPriority : ℕ)
  | blockPriority (iPriority : ℕ)
  | unBlockPriority (iPriority : ℕ)
  | blockTask (taskHandle : ℕ)
  | unBlockTask (taskHandle : ℕ)
  | blockMultipleTask (taskStart taskNumber : ℕ)
  | unBlockMultipleTask (taskStart taskNumber : ℕ)
  | delayTask (timeWait : ℕ)
  | semCreate (cnt : ℕ)
  | semBinaryCreate (bit : ℕ)
  | semDelete (i : ℕ)
  | semPend (i timeWait : ℕ)
  | semPost (i : ℕ)
  | mutexCreate (higherPriority : ℕ)
  | mutexDelete (i : ℕ)
  | mutexAcquire (i timeWait : ℕ)
  | mutexRelease (i : ℕ)
  | mboxCreate (message : ℕ)
  | mboxDelete (i : ℕ)
  | mboxPend (i timeWait : ℕ)
  | mboxPost (i message : ℕ)
  | queueCreate (size : ℕ)
  | dqueueCreate (a : Alloc) (queueLength typeSize : ℕ)
  | dqueueDelete (i : ℕ)
  | queueClean (d : QueueKind) (i : ℕ)
  | queueWrite (i data : ℕ)
  | queueRead (i : ℕ)
  | queuePend (d : QueueKind) (i timeWait : ℕ)
  | queuePost (i data : ℕ)
  | dqueuePost (i : ℕ) (pdata : List ℕ)
  deriving DecidableEq, Repr

/-- The services that an interrupt handler may use. -/
def Call.fromIsr : Call → Bool
  | .unBlockPriority _ | .unBlockTask _ | .semPost _ | .mboxPost _ _ => true
  | .queueClean _ _ | .queueWrite _ _ | .queueRead _ | .queuePost _ _ | .dqueuePost _ _ => true
  | _ => false

/-- The services that main may use before BRTOSStart, when no task is running. -/
def Call.fromMain : Call → Bool
  | .semPend _ _ | .mutexAcquire _ _ | .mutexRelease _ | .mboxPend _ _ | .queuePend _ _ _ => false
  | _ => true

/-- The call that a task suspended on `o` has made. -/
def Obj.pendCall : Obj → ℕ → Call
  | .sem i => .semPend i
  | .mutex i => .mutexAcquire i
  | .mbox i => .mboxPend i
  | .queue i => .queuePend .static i
  | .dqueue i => .queuePend .dynamic i

namespace Kernel
variable {cfg : Config} (k : Kernel cfg)

def serve : Call → Kernel cfg × Reply
  | .install fctPtr userStackedBytes iPriority =>
    let r := k.osInstallTask fctPtr userStackedBytes iPriority
    (r.1,.ret r.2.1 r.2.2.toList)
  | .blockPriority p => ((k.osBlockPriority p).1,.ret (k.osBlockPriority p).2 [])
  | .unBlockPriority p => ((k.osUnBlockPriority p).1,.ret (k.osUnBlockPriority p).2 [])
  | .blockTask t => ((k.osBlockTask t).1,.ret (k.osBlockTask t).2 [])
  | .unBlockTask t => ((k.osUnBlockTask t).1,.ret (k.osUnBlockTask t).2 [])
  | .blockMultipleTask t n => ((k.osBlockMultipleTask t n).1,.ret (k.osBlockMultipleTask t n).2 [])
  | .unBlockMultipleTask t n => ((k.osUnBlockMultipleTask t n).1,.ret (k.osUnBlockMultipleTask t n).2 [])
  | .delayTask w =>
    let r := k.osDelayTask w
    (r.1,if r.2.2 then .sleep (.delay w) else .ret r.2.1 [])
  | .semCreate cnt => k.osSemCreate cnt
  | .semBinaryCreate bit => k.osSemBinaryCreate bit
  | .semDelete i => k.osSemDelete i
  | .semPend i w => k.osSemPend i w
  | .semPost i => k.osSemPost i
  | .mutexCreate p => k.osMutexCreate p
  | .mutexDelete i => k.osMutexDelete i
  | .mutexAcquire i w => k.osMutexAcquire i w
  | .mutexRelease i => k.osMutexRelease i
  | .mboxCreate m => k.osMboxCreate m
  | .mboxDelete i => k.osMboxDelete i
  | .mboxPend i w => k.osMboxPend i w
  | .mboxPost i m => k.osMboxPost i m
  | .queueCreate size => k.osQueueCreate size
  | .dqueueCreate a l t => k.osDQueueCreate a l t
  | .dqueueDelete i => k.osDQueueDelete i
  | .queueClean d i => k.queueClean d i
  | .queueWrite i b => k.osWQueue i b
  | .queueRead i => k.osRQueue i
  | .queuePend d i w => k.queuePend d i w
  | .queuePost i b => k.osQueuePost i b
  | .dqueuePost i pdata => k.osDQueuePost i fun n => pdata.getD n 0

/-- The part of a suspended pend that is still to be run. -/
def resumePend : Obj → ℕ → ℕ → Kernel cfg × ℕ × List ℕ
  | .sem i => k.resumeSemPend i
  | .mutex i => k.resumeMutexAcquire i
  | .mbox i => k.resumeMboxPend i
  | .queue i => k.resumeQueuePend .static i
  | .dqueue i => k.resumeQueuePend .dynamic i

def switchPending : Bool := k.pendingInterrupts.getLsbD interruptSwc

/-- SwitchContext, and the end of an outermost interrupt handler: the selected task runs. -/
def select : Kernel cfg := { k with currentTask := k.osSchedule }

def clearInterrupt (n : ℕ) : Kernel cfg :=
  { k with pendingInterrupts := k.pendingInterrupts &&& ~~~ (1#32 <<< n) }

/-- GeraInterrupcaoSimulada, called by a device. -/
def raiseInterrupt (n : ℕ) : Kernel cfg :=
  { k with pendingInterrupts := k.pendingInterrupts ||| (1#32 <<< n) }

/-- The tick interrupt: the counter, then the delay list. -/
def tick (fuel : ℕ) : Option (Kernel cfg) := k.osIncCounter.osTickHandler fuel

end Kernel

/-- A service call that has returned. Messages carry the serial number of the call that wrote
them into the mailbox. `woke` says that the call found a task on the wait list. -/
structure Record where
  who : Option ℕ
  call : Call
  code : ℕ
  data : List ℕ
  tag : ℕ
  woke : Bool
  deriving DecidableEq, Repr

structure System (cfg : Config) extends Kernel cfg where
  started : Bool
  point : ℕ → Point
  /-- The priority each task was installed with. -/
  inst : ℕ → ℕ
  /-- The mutexes that OSMutexAcquire has returned OK for, the last one first. -/
  held : ℕ → List ℕ
  /-- The serial number of the message in each mailbox. -/
  mail : ℕ → ℕ
  /-- The calls that have returned, the last one first. -/
  log : List Record

inductive Action
  | main (c : Call)
  | start
  | call (c : Call)
  | resume
  | isrEnter
  | isrTick (fuel : ℕ)
  | isrCall (c : Call)
  | isrExit
  | switch
  | raise (n : ℕ)
  | process (fuel uartQueue uartData : ℕ)
  deriving DecidableEq, Repr

def interruptTick : ℕ := 1
def interruptUart : ℕ := 2
def maxInterrupts : ℕ := 3

namespace System
variable {cfg : Config} (s : System cfg)

def init (cfg : Config) : System cfg :=
  { Kernel.brtosInit cfg with
    started := false, point := fun _ => .run, inst := fun _ => 0, held := fun _ => []
    mail := fun _ => 0, log := [] }

def nextInst : Call → ℕ → List ℕ → ℕ → ℕ
  | .install _ _ p,code,[t] => if code = ok then Function.update s.inst t p else s.inst
  | _,_,_ => s.inst

def nextHeld (who : ℕ) : Call → ℕ → ℕ → List ℕ
  | .mutexAcquire i _,code =>
    if code = ok ∧ i ∉ s.held who then Function.update s.held who (i :: s.held who) else s.held
  | .mutexRelease i,code =>
    if code = ok then Function.update s.held who ((s.held who).erase i) else s.held
  | _,_ => s.held

def nextMail : Call → ℕ → List ℕ → ℕ → ℕ
  | .mboxCreate _,_,[i] => Function.update s.mail i s.log.length
  | .mboxPost i _,code,_ => if code = ok then Function.update s.mail i s.log.length else s.mail
  | _,_,_ => s.mail

/-- A post is tagged with its own number, a pend with that of the message it may have read. -/
def tagOf : Call → ℕ
  | .mboxPend i _ => s.mail i
  | _ => s.log.length

/-- Did a post find a task waiting? -/
def wokeBy : Call → Bool
  | .semPost i => (s.event (.sem i)).osEventWait != 0
  | .mboxPost i _ => (s.event (.mbox i)).osEventWait != 0
  | .queuePost i _ => (s.event (.queue i)).osEventWait != 0
  | .dqueuePost i _ => (s.event (.dqueue i)).osEventWait != 0
  | _ => false

/-- A call returns: the kernel's new state and the bookkeeping. -/
def returned (who : Option ℕ) (c : Call) (k : Kernel cfg) (code : ℕ) (data : List ℕ) : System cfg :=
  { s with
    toKernel := k
    inst := s.nextInst c code data
    held := s.nextHeld (who.getD 0) c code
    mail := s.nextMail c code data
    log := ⟨who,c,code,data,s.tagOf c,s.wokeBy c⟩ :: s.log }

def setPoint (t : ℕ) (p : Point) : System cfg := { s with point := Function.update s.point t p }

/-- A service runs until it returns or its caller goes to sleep. -/
def enter (who : Option ℕ) (c : Call) : System cfg :=
  let k := (s.serve c).1
  match (s.serve c).2 with
  | .ret code data => s.returned who c k code data
  | .sleep p => ({ s with toKernel := k } : System cfg).setPoint s.currentTask p

/-- The running task takes up the service it was suspended in. -/
def proceed : Option (System cfg) :=
  match s.point s.currentTask with
  | .run => none
  | .delay w =>
    some ((s.setPoint s.currentTask .run).returned (some s.currentTask) (.delayTask w) s.toKernel ok [])
  | .pend o p w =>
    let r := s.resumePend o p w
    some ((s.setPoint s.currentTask .run).returned (some s.currentTask) (o.pendCall w) r.1 r.2.1 r.2.2)

/-- One round of ProcessaInterrupcoesSimuladas. The UART handler posts the received character; while the
UART has no queue it posts nothing, which is what a post to a queue not yet created does. -/
def process (fuel uartQueue uartData : ℕ) : Option (System cfg) :=
  let pending := s.pendingInterrupts
  let s := { s with toKernel := s.clearInterrupt Kernel.interruptSwc }
  let s := if pending.getLsbD interruptTick then
      (s.tick fuel).map fun k => { s with toKernel := k.clearInterrupt interruptTick }
    else some s
  s.map fun s =>
    let s := if pending.getLsbD interruptUart then
        let s := s.enter none (.queuePost uartQueue uartData)
        { s with toKernel := s.clearInterrupt interruptUart }
      else s
    { s with toKernel := s.select }

/-- The state in which the running task may execute: no handler is active and no switch is due. -/
def Running : Prop := s.started = true ∧ s.iNesting = 0 ∧ s.switchPending = false

instance : Decidable s.Running := by unfold Running; infer_instance

/-- One step of the whole system, none where the action is not possible. The two interrupt models
exclude each other: nested handlers on the ports, a handler thread on the simulator. The Idle task
(installed at priority zero) calls no service. -/
def step (s : System cfg) : Action → Option (System cfg)
  | .main c => if s.started = false ∧ c.fromMain then some (s.enter none c) else none
  | .start =>
    if s.started = false then
      some { s with toKernel := s.brtosStart.1, started := s.brtosStart.2 == ok }
    else none
  | .call c =>
    if s.Running ∧ s.point s.currentTask = .run ∧ s.inst s.currentTask ≠ 0 then
      some (s.enter (some s.currentTask) c)
    else none
  | .resume => if s.Running then s.proceed else none
  | .isrEnter =>
    if s.started ∧ cfg.criticalNests = false then some { s with iNesting := s.iNesting+1 } else none
  | .isrTick fuel =>
    if s.started ∧ cfg.criticalNests = false ∧ 0 < s.iNesting then
      (s.tick fuel).map fun k => { s with toKernel := k }
    else none
  | .isrCall c =>
    if s.started ∧ cfg.criticalNests = false ∧ 0 < s.iNesting ∧ c.fromIsr then
      some (s.enter none c)
    else none
  | .isrExit =>
    if s.started ∧ cfg.criticalNests = false ∧ 0 < s.iNesting then
      let s := { s with iNesting := s.iNesting-1 }
      some { s with toKernel := if s.iNesting = 0 then s.select else s.toKernel }
    else none
  | .switch =>
    if s.started ∧ cfg.criticalNests = false ∧ s.iNesting = 0 ∧ s.switchPending then
      some { s with toKernel := s.select.clearInterrupt Kernel.interruptSwc }
    else none
  | .raise n =>
    if s.started ∧ cfg.criticalNests ∧ 0 < n ∧ n < maxInterrupts then
      some { s with toKernel := s.raiseInterrupt n }
    else none
  | .process fuel uartQueue uartData =>
    if s.started ∧ cfg.criticalNests ∧ s.pendingInterrupts ≠ 0#_ then
      s.process fuel uartQueue uartData
    else none

end System
end Brtos
