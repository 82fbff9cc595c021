import Brtos.Event

/-! mbox.c. A message is the address it points to, zero for NULL. -/
namespace Brtos.Kernel
variable {cfg : Config} (k : Kernel cfg)

def osMboxCreate (message : ℕ) : Kernel cfg × Reply :=
  if 0 < k.iNesting then (k,.ret irqPendErr []) else
  let k := k.enterTask
  match k.findEvent .mbox cfg.brtosMaxMbox with
  | none => (k.exitTask,.ret noAvailableEvent [])
  | some i =>
    (((k.allocEvent (.mbox i)).setMbox i fun _ =>
      ⟨if message ≠ 0 then availableMessage else noMessage,message⟩).exitTask,.ret allocEventOk [i])

def osMboxDelete (i : ℕ) : Kernel cfg × Reply :=
  if 0 < k.iNesting then (k,.ret irqPendErr []) else
  let k := k.osEnterCritical
  (((k.freeEvent (.mbox i)).setMbox i fun _ => ⟨noMessage,0⟩).osExitCritical,.ret deleteEventOk [])

/-- Read the pointer and free the slot. -/
def takeMail (i : ℕ) : Kernel cfg × List ℕ :=
  (k.setMbox i fun m => { m with osEventState := noMessage },[(k.brtosMboxTable i).osEventPointer])

/-- With ERROR_CHECK a call from an interrupt gets a NULL message. -/
def osMboxPend (i timeWait : ℕ) : Kernel cfg × Reply :=
  if cfg.errorCheck ∧ 0 < k.iNesting then (k,.ret irqPendErr [0]) else
  let k := k.osEnterCritical
  if k.notCreated (.mbox i) then (k.osExitCritical,.ret errEventNoCreated [])
  else if (k.brtosMboxTable i).osEventState = availableMessage then
    ((k.takeMail i).1.osExitCritical,.ret ok (k.takeMail i).2)
  else if timeWait = cfg.noTimeout then (k.osExitCritical,.ret exitByNoEntryAvailable [])
  else k.suspend (.mbox i) timeWait

/-- OSMboxPend behind ChangeContext; a timeout stores a NULL message. -/
def resumeMboxPend (i iPriority timeWait : ℕ) : Kernel cfg × ℕ × List ℕ :=
  let woken := k.osEnterCritical.wakeUp (.mbox i) iPriority timeWait
  if woken.2 then (woken.1.osExitCritical,timeout,[0])
  else ((woken.1.takeMail i).1.osExitCritical,ok,(woken.1.takeMail i).2)

def osMboxPost (i message : ℕ) : Kernel cfg × Reply :=
  let k := k.enterNesting
  if k.notCreated (.mbox i) then (k.exitNesting,.ret errEventNoCreated [])
  else
    let waiting := (k.event (.mbox i)).osEventWait ≠ 0
    let k := if waiting then k.wakeHighest (.mbox i) else k
    let k := k.setMbox i fun _ => ⟨availableMessage,message⟩
    let k := if waiting then k.changeContextUnnested else k
    (k.exitNesting,.ret ok [])

end Brtos.Kernel
