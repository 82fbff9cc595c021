import Brtos.Event

/-! semaphore.c. A pend is split where it loses the processor. -/
namespace Brtos.Kernel
variable {cfg : Config} (k : Kernel cfg)

/-- OSSemCreate; the reply carries the index of the control block. -/
def osSemCreate (cnt : ℕ) : Kernel cfg × Reply :=
  if 0 < k.iNesting then (k,.ret irqPendErr []) else
  let k := k.enterTask
  match k.findEvent .sem cfg.brtosMaxSem with
  | none => (k.exitTask,.ret noAvailableEvent [])
  | some i => (((k.allocEvent (.sem i)).setSem i fun _ => ⟨cnt,false⟩).exitTask,.ret allocEventOk [i])

/-- OSSemBinaryCreate. The initial value is set only by a `bit` above one. -/
def osSemBinaryCreate (bit : ℕ) : Kernel cfg × Reply :=
  if 0 < k.iNesting then (k,.ret irqPendErr []) else
  let k := k.enterTask
  match k.findEvent .sem cfg.brtosMaxSem with
  | none => (k.exitTask,.ret noAvailableEvent [])
  | some i =>
    (((k.allocEvent (.sem i)).setSem i fun _ => ⟨if bit > 1 then 1 else 0,true⟩).exitTask,
      .ret allocEventOk [i])

def osSemDelete (i : ℕ) : Kernel cfg × Reply :=
  if 0 < k.iNesting then (k,.ret irqPendErr []) else
  let k := k.osEnterCritical
  (((k.freeEvent (.sem i)).setSem i fun s => { s with osEventCount := 0 }).osExitCritical,
    .ret deleteEventOk [])

def osSemPend (i timeWait : ℕ) : Kernel cfg × Reply :=
  if cfg.errorCheck ∧ 0 < k.iNesting then (k,.ret irqPendErr []) else
  let k := k.osEnterCritical
  if k.notCreated (.sem i) then (k.osExitCritical,.ret errEventNoCreated [])
  else if 0 < (k.brtosSemTable i).osEventCount then
    ((k.setSem i fun s => { s with osEventCount := s.osEventCount-1 }).osExitCritical,.ret ok [])
  else if timeWait = cfg.noTimeout then (k.osExitCritical,.ret exitByNoEntryAvailable [])
  else k.suspend (.sem i) timeWait

/-- OSSemPend behind ChangeContext. Without a timeout it has nothing left to do. -/
def resumeSemPend (i iPriority timeWait : ℕ) : Kernel cfg × ℕ × List ℕ :=
  if timeWait = 0 then (k,ok,[]) else
  let woken := k.osEnterCritical.wakeUp (.sem i) iPriority timeWait
  (woken.1.osExitCritical,if woken.2 then timeout else ok,[])

def osSemPost (i : ℕ) : Kernel cfg × Reply :=
  let k := k.enterNesting
  if k.notCreated (.sem i) then (k.exitNesting,.ret errEventNoCreated [])
  else if (k.event (.sem i)).osEventWait ≠ 0 then
    ((k.wakeHighest (.sem i)).changeContextUnnested.exitNesting,.ret ok [])
  else if (k.brtosSemTable i).osEventCount < 255 then
    ((k.setSem i fun s => { s with
      osEventCount := if s.binary then 1 else s.osEventCount+1 }).exitNesting,.ret ok [])
  else (k.exitNesting,.ret errSemOvf [])

end Brtos.Kernel
