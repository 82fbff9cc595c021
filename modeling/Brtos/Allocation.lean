import Brtos.Deletion
import Brtos.Delivery

/-! ERROR_CHECK builds: OSEventAllocated from the creation of an event to its deletion. Four create
functions write the flag; OSDQueueCreate leaves what the heap has in its place. -/
namespace Brtos
open Kernel

/-- The event that a successful create call returns. -/
def Call.creates : Call → List ℕ → Option Obj
  | .semCreate _,[i] | .semBinaryCreate _,[i] => some (.sem i)
  | .mutexCreate _,[i] => some (.mutex i)
  | .mboxCreate _,[i] => some (.mbox i)
  | .queueCreate _,[i] => some (.queue i)
  | .dqueueCreate _ _ _,[i] => some (.dqueue i)
  | _,_ => none

theorem Call.heap_of_creates {c : Call} {data : List ℕ} {o : Obj} (creates : c.creates data = some o)
    (heap : o.onHeap = true) : ∃ a n size, c = .dqueueCreate a n size := by
  unfold Call.creates at creates
  split at creates
  · obtain rfl := Option.some.inj creates
    simp [Obj.onHeap] at heap
  · obtain rfl := Option.some.inj creates
    simp [Obj.onHeap] at heap
  · obtain rfl := Option.some.inj creates
    simp [Obj.onHeap] at heap
  · obtain rfl := Option.some.inj creates
    simp [Obj.onHeap] at heap
  · obtain rfl := Option.some.inj creates
    simp [Obj.onHeap] at heap
  · exact ⟨_,_,_,rfl⟩
  · simp at creates

/-- The pends and posts, the acquire and the release: the calls that test OSEventAllocated. -/
def Call.checks : Call → Option Obj
  | .semPend i _ | .semPost i => some (.sem i)
  | .mutexAcquire i _ | .mutexRelease i => some (.mutex i)
  | .mboxPend i _ | .mboxPost i _ => some (.mbox i)
  | .queuePost i _ => some (.queue i)
  | .dqueuePost i _ => some (.dqueue i)
  | .queuePend d i _ => some (d.obj i)
  | _ => none

/-- The calls that end the life of an event: its deletion, and for a dynamic queue the allocation of
its block for another one. -/
def Call.Discards (o : Obj) : Call → Prop
  | .semDelete i => o = .sem i
  | .mutexDelete i => o = .mutex i
  | .mboxDelete i => o = .mbox i
  | .dqueueDelete i => o = .dqueue i
  | .dqueueCreate a _ _ => ∃ i, a.handler = some i ∧ o = .dqueue i
  | _ => False

def Action.Discards (o : Obj) : Action → Prop
  | .main c | .call c | .isrCall c => c.Discards o
  | _ => False

namespace Kernel
variable {cfg : Config} {k : Kernel cfg} {o : Obj}

/-- The flag of an event. -/
def allocated (k : Kernel cfg) (o : Obj) : ℕ := (k.event o).osEventAllocated

theorem allocated_of_cell {l : Kernel cfg} (h : l.cell o = k.cell o) :
    l.allocated o = k.allocated o := by
  rw [allocated,event_of_cell h,allocated]

@[simp] theorem exitTask_allocated : k.exitTask.allocated o = k.allocated o :=
  congrArg (fun c : Core cfg => (c.event o).osEventAllocated) k.exitTask_toCore

@[simp] theorem setMutex_allocated (i : ℕ) (f : BrtosMutex → BrtosMutex) :
    (k.setMutex i f).allocated o = k.allocated o := rfl
@[simp] theorem setSem_allocated (i : ℕ) (f : BrtosSem → BrtosSem) :
    (k.setSem i f).allocated o = k.allocated o := rfl
@[simp] theorem setMbox_allocated (i : ℕ) (f : BrtosMbox → BrtosMbox) :
    (k.setMbox i f).allocated o = k.allocated o := rfl

@[simp] theorem allocEvent_allocated : (k.allocEvent o).allocated o = 1 := by
  simp [allocated,allocEvent,setEvent]

theorem queuePost_allocated (d : QueueKind) (i : ℕ) (bytes : List ℕ) :
    ((k.queuePost d i bytes).1.event o).osEventAllocated = (k.event o).osEventAllocated := by
  simp only [queuePost]
  repeat' split
  all_goals simp [wakeHighest_allocated]

theorem restore_event (i : ℕ) : (k.restore i).event = k.event := by
  simp only [restore]
  split_ifs <;> rfl

theorem makeAvailable_event (i : ℕ) : (k.makeAvailable i).event = k.event := by
  simp only [makeAvailable]
  split_ifs <;> rfl

theorem raise_event (i p : ℕ) : (k.raise i p).event = k.event := System.raise_event k i p

theorem osMutexAcquire_allocated (i w : ℕ) :
    ((k.osMutexAcquire i w).1.event o).osEventAllocated = (k.event o).osEventAllocated := by
  simp only [osMutexAcquire]
  split_ifs
  · rfl
  · rfl
  · rfl
  · exact congrArg OsEvent.osEventAllocated (congrFun (raise_event _ _) o)
  · rfl
  · exact suspend_allocated _ _

theorem osMutexRelease_allocated (i : ℕ) :
    ((k.osMutexRelease i).1.event o).osEventAllocated = (k.event o).osEventAllocated := by
  have kept : ∀ l : Kernel cfg, ((l.restore i).setMutex i fun m => { m with
      osEventOwner := 0 }).event = l.event := fun l => restore_event i
  simp only [osMutexRelease]
  split_ifs
  · rfl
  · rfl
  · rfl
  · refine (wakeHighest_allocated _).trans ?_
    exact congrArg OsEvent.osEventAllocated (congrFun (kept _) o)
  · refine congrArg OsEvent.osEventAllocated (congrFun ((makeAvailable_event _).trans (kept _)) o)

/-- No service but the deletions writes the flag of an event that is in use. -/
theorem serve_allocated {c : Call} (keeps : ¬ c.Discards o)
    (live : o.onHeap = false → k.allocated o = 1) :
    (k.serve c).1.allocated o = k.allocated o := by
  by_cases near : ¬ k.Touches o c
  · exact allocated_of_cell (serve_cell near)
  have touches := not_not.mp near
  cases c with
  | semCreate | semBinaryCreate | mutexCreate | mboxCreate | queueCreate =>
    obtain ⟨i,found,rfl⟩ := touches
    exact absurd (live rfl) (System.findEvent_free found)
  | semDelete | mutexDelete | mboxDelete | dqueueDelete | dqueueCreate => exact absurd touches keeps
  | semPend i w =>
    simp only [serve,osSemPend,allocated]
    split_ifs <;> simp [suspend_allocated]
  | semPost i =>
    simp only [serve,osSemPost,allocated]
    split_ifs <;> simp [wakeHighest_allocated]
  | mutexAcquire i w => exact osMutexAcquire_allocated i w
  | mutexRelease i => exact osMutexRelease_allocated i
  | mboxPend i w =>
    simp only [serve,osMboxPend,allocated]
    split_ifs <;> simp [suspend_allocated,takeMail]
  | mboxPost i m =>
    simp only [serve,osMboxPost,allocated]
    split_ifs <;> simp [wakeHighest_allocated]
  | queueWrite | queueRead =>
    simp only [serve,osWQueue,osRQueue,allocated]
    split <;> simp
  | queueClean d i =>
    simp only [serve,queueClean,allocated]
    simp
  | queuePend d i w =>
    simp only [serve,queuePend,allocated]
    split_ifs <;> simp [suspend_allocated]
  | queuePost i b => exact queuePost_allocated _ _ _
  | dqueuePost i data => exact queuePost_allocated _ _ _
  | _ => exact touches.elim

/-- A control block from a table is marked as allocated. -/
theorem allocated_of_create {c : Call} {data : List ℕ} (creates : c.creates data = some o)
    (static : o.onHeap = false) (reply : (k.serve c).2 = .ret allocEventOk data) :
    (k.serve c).1.allocated o = 1 := by
  cases c with
  | semCreate | semBinaryCreate =>
    have calm : ¬ 0 < k.iNesting := fun nested => by
      simp [serve,osSemCreate,osSemBinaryCreate,nested,irqPendErr,allocEventOk] at reply
    simp only [serve,osSemCreate,osSemBinaryCreate,enterTask_findEvent,calm,if_false] at reply ⊢
    cases found : k.findEvent .sem cfg.brtosMaxSem with
    | none => simp [found,noAvailableEvent,allocEventOk] at reply
    | some i =>
      obtain rfl : [i] = data := by simpa [found] using reply
      obtain rfl : .sem i = o := Option.some.inj creates
      simp
  | mutexCreate p =>
    have calm : ¬ 0 < k.iNesting := fun nested => by
      simp [serve,osMutexCreate,nested,irqPendErr,allocEventOk] at reply
    have same : (if 0 < p then k.enterTask.setPriorityVector p mutexPrio else k.enterTask).findEvent
        .mutex cfg.brtosMaxMutex = k.findEvent .mutex cfg.brtosMaxMutex := by
      rw [← k.enterTask_findEvent .mutex]
      split_ifs <;> rfl
    simp only [serve,osMutexCreate,same,calm,if_false] at reply ⊢
    by_cases busy : 0 < p ∧ k.enterTask.priorityVector p ≠ emptyPrio
    · rw [if_pos busy] at reply
      simp [busyPriority,allocEventOk] at reply
    rw [if_neg busy] at reply ⊢
    cases found : k.findEvent .mutex cfg.brtosMaxMutex with
    | none => simp [found,noAvailableEvent,allocEventOk] at reply
    | some i =>
      obtain rfl : [i] = data := by simpa [found] using reply
      obtain rfl : .mutex i = o := Option.some.inj creates
      simp
  | mboxCreate m =>
    have calm : ¬ 0 < k.iNesting := fun nested => by
      simp [serve,osMboxCreate,nested,irqPendErr,allocEventOk] at reply
    simp only [serve,osMboxCreate,enterTask_findEvent,calm,if_false] at reply ⊢
    cases found : k.findEvent .mbox cfg.brtosMaxMbox with
    | none => simp [found,noAvailableEvent,allocEventOk] at reply
    | some i =>
      obtain rfl : [i] = data := by simpa [found] using reply
      obtain rfl : .mbox i = o := Option.some.inj creates
      simp
  | queueCreate size =>
    rcases data with - | ⟨i,_ | ⟨j,rest⟩⟩
    · simp [Call.creates] at creates
    · obtain rfl : .queue i = o := Option.some.inj creates
      exact (System.osQueueCreate_ok reply).1
    · simp [Call.creates] at creates
  | dqueueCreate a n size =>
    rcases data with - | ⟨i,_ | ⟨j,rest⟩⟩
    · simp [Call.creates] at creates
    · obtain rfl : .dqueue i = o := Option.some.inj creates
      simp [Obj.onHeap] at static
    · simp [Call.creates] at creates
  | _ => simp [Call.creates] at creates

/-- OSDQueueCreate leaves the flag as the heap has it. -/
theorem osDQueueCreate_allocated (a : Alloc) (n size : ℕ) :
    (k.osDQueueCreate a n size).1.allocated o = k.allocated o := by
  have begun : k.enterTask.exitTask.allocated o = k.allocated o := by
    rw [exitTask_allocated]
    exact congrArg (fun c : Core cfg => (c.event o).osEventAllocated) k.enterTask_toCore
  have written : ∀ i q (f : OsEvent cfg → OsEvent cfg),
      (∀ e, (f e).osEventAllocated = e.osEventAllocated) →
        ((k.enterTask.setQueue .dynamic i q).setEvent (.dqueue i) f).exitTask.allocated o =
          k.allocated o := fun i q f hf => by
    rw [exitTask_allocated]
    refine (setEvent_allocated _ hf).trans ?_
    exact (exitTask_allocated (k := k.enterTask)).symm.trans begun
  simp only [osDQueueCreate]
  split_ifs
  · rfl
  · split
    · exact written _ _ _ fun _ => rfl
    · exact begun
  · split
    · exact begun
    · exact begun
  · exact begun

theorem queuePost_passes (d : QueueKind) (i : ℕ) (bytes : List ℕ)
    (passes : k.enterNesting.notCreated (d.obj i) = false) (data : List ℕ) :
    (k.queuePost d i bytes).2 ≠ .ret errEventNoCreated data := by
  intro reply
  simp only [queuePost,passes,Bool.false_eq_true,if_false] at reply
  cases room : (k.enterNesting.queue d i).write bytes with
  | none =>
    simp only [room] at reply
    simp [bufferUnderrun,errEventNoCreated] at reply
  | some q =>
    simp only [room] at reply
    split_ifs at reply <;> simp [writeBufferOk,errEventNoCreated] at reply

/-- A call whose test passes reports no missing event. -/
theorem serve_passes {c : Call} (checks : c.checks = some o) (passes : k.notCreated o = false)
    (data : List ℕ) : (k.serve c).2 ≠ .ret errEventNoCreated data := by
  have enters : k.osEnterCritical.notCreated o = false := passes
  have nests : k.enterNesting.notCreated o = false := by
    unfold enterNesting
    split_ifs
    · exact passes
    · exact passes
  intro reply
  cases c with
  | semPend | semPost =>
    obtain rfl := Option.some.inj checks
    simp only [serve,osSemPend,osSemPost,enters,nests,Bool.false_eq_true,if_false] at reply
    split_ifs at reply <;> simp [suspend,irqPendErr,errEventNoCreated,ok,exitByNoEntryAvailable,
      errSemOvf] at reply
  | mutexAcquire | mutexRelease =>
    obtain rfl := Option.some.inj checks
    simp only [serve,osMutexAcquire,osMutexRelease,enters,Bool.false_eq_true,if_false] at reply
    split_ifs at reply <;> simp [suspend,irqPendErr,errEventNoCreated,ok,exitByNoResourceAvailable,
      errEventOwner] at reply
  | mboxPend i w =>
    obtain rfl := Option.some.inj checks
    simp only [serve,osMboxPend,enters,Bool.false_eq_true,if_false] at reply
    split_ifs at reply <;> simp [suspend,irqPendErr,errEventNoCreated,ok,exitByNoEntryAvailable]
      at reply
  | mboxPost i m =>
    obtain rfl := Option.some.inj checks
    simp only [serve,osMboxPost,nests,Bool.false_eq_true,if_false] at reply
    simp [errEventNoCreated,ok] at reply
  | queuePend d i w =>
    obtain rfl := Option.some.inj checks
    simp only [serve,queuePend,enters,Bool.false_eq_true,if_false] at reply
    split_ifs at reply <;> simp [suspend,irqPendErr,errEventNoCreated,readBufferOk,
      exitByNoEntryAvailable] at reply
  | queuePost i b =>
    obtain rfl := Option.some.inj checks
    exact queuePost_passes .static i _ nests data reply
  | dqueuePost i pdata =>
    obtain rfl := Option.some.inj checks
    exact queuePost_passes .dynamic i _ nests data reply
  | _ => simp [Call.checks] at checks

end Kernel

namespace System
variable {cfg : Config} {s t u : System cfg} {o : Obj}

/-- A step keeps the flag of an event that is in use and that it does not discard. -/
theorem allocated_step (dormant : s.Dormant) {a : Action} (keeps : ¬ a.Discards o)
    (live : o.onHeap = false → s.allocated o = 1) (next : s.step a = some t) :
    t.allocated o = s.allocated o := by
  have served : ∀ who c, ¬ c.Discards o → (s.enter who c).allocated o = s.allocated o :=
    fun who c keeps => by
      have kept := Kernel.serve_allocated keeps live
      rw [← enter_toKernel who] at kept
      exact kept
  cases step_happens dormant o next with
  | quiet apart => exact Kernel.allocated_of_cell apart.cell
  | main _ _ _ => exact served _ _ keeps
  | call _ _ _ _ => exact served _ _ keeps
  | isr _ _ _ => exact served _ _ keeps
  | resume running point proceeds =>
    have event := proceed_event point proceeds
    rw [Kernel.allocated,event]
    exact Kernel.wakeUp_allocated _ _ _
  | @uart fuel i b v event begun =>
    subst event
    have apart : v.allocated (.queue i) = s.allocated (.queue i) :=
      Kernel.allocated_of_cell (uartState_apart begun).cell
    have posted := Kernel.serve_allocated (k := v.toKernel) (o := .queue i) (c := .queuePost i b) id
      fun h => apart.trans (live h)
    rw [← enter_toKernel none] at posted
    exact posted.trans apart

/-- Until an event is discarded its flag stays as its creation has left it. -/
theorem allocated_of_reach (dormant : s.Dormant) (live : o.onHeap = false → s.allocated o = 1)
    (run : Run.Reach step (fun _ a => ¬ a.Discards o) s t) :
    t.Dormant ∧ t.allocated o = s.allocated o := by
  induction run with
  | refl => exact ⟨dormant,rfl⟩
  | tail _ keeps next ih =>
    exact ⟨ih.1.step next,(allocated_step ih.1 keeps (fun h => ih.2.trans (live h)) next).trans ih.2⟩

variable (s) in
/-- The step posts to no dynamic queue whose size OSDQueueCreate has cut to sixteen bits: the bytes of
such a post do not stay in the queue's block. -/
def Fits : Action → Prop
  | .main (.dqueuePost i _) | .call (.dqueuePost i _) | .isrCall (.dqueuePost i _) =>
    (s.osDqueue i).osqLength*(s.osDqueue i).osqTSize < 65536
  | _ => True

/-- The steps after the creation of an event: they do not discard it, and every post fits. -/
def Keeps (o : Obj) (s : System cfg) (a : Action) : Prop := ¬ a.Discards o ∧ s.Fits a

/-- A create call in the log was served in the step that entered it. -/
theorem served_of_creates {r : Record} (creates : r.call.creates r.data = some o)
    (logs : s.Logs t r) :
    (s.serve r.call).2 = .ret r.code r.data ∧ t.allocated o = (s.serve r.call).1.allocated o := by
  cases logs with
  | @served who reply next =>
    refine ⟨reply,?_⟩
    rw [next,enter_toKernel]
  | resumed call =>
    rcases call with ⟨w,hc⟩ | ⟨q,w,hc⟩
    · rw [hc] at creates
      simp [Call.creates] at creates
    · rw [hc] at creates
      cases q <;> simp [Obj.pendCall,Call.creates] at creates
  | uart call =>
    obtain ⟨i,b,hc⟩ := call
    rw [hc] at creates
    simp [Call.creates] at creates

/-- The flag behind a successful create call. -/
theorem allocated_of_logs {r : Record} (creates : r.call.creates r.data = some o)
    (success : r.code = allocEventOk) (logs : s.Logs t r) :
    t.allocated o = if o.onHeap then s.allocated o else 1 := by
  obtain ⟨reply,flag⟩ := served_of_creates creates logs
  rw [flag]
  cases heap : o.onHeap with
  | false =>
    rw [success] at reply
    exact Kernel.allocated_of_create creates heap reply
  | true =>
    obtain ⟨a,n,size,call⟩ := Call.heap_of_creates creates heap
    rw [call]
    exact Kernel.osDQueueCreate_allocated a n size

theorem notCreated_iff (checked : cfg.errorCheck = true) :
    s.notCreated o = false ↔ s.allocated o = 1 := by
  simp [Kernel.notCreated,checked,Kernel.allocated]

/-- With ERROR_CHECK: every pend and post, acquire and release on a created event passes the test of
OSEventAllocated, whatever has been called since, exactly if the event is none of the heap's or the
heap's memory already read TRUE there. -/
theorem created_passes (checked : cfg.errorCheck = true) (dormant : s.Dormant) {a : Action}
    (next : s.step a = some t) {r : Record} (logged : t.log = r :: s.log)
    (creates : r.call.creates r.data = some o) (success : r.code = allocEventOk) :
    (∀ u, Run.Reach step (Keeps o) t u → ∀ c : Call, c.checks = some o →
      ∀ data, (u.serve c).2 ≠ .ret errEventNoCreated data) ↔
        (o.onHeap = true → s.allocated o = 1) := by
  have logs : s.Logs t r := by
    rcases step_log next with same | ⟨r',more,logs⟩
    · simp [logged] at same
    · obtain ⟨rfl,_⟩ := List.cons.inj (logged.symm.trans more)
      exact logs
  have flag := allocated_of_logs creates success logs
  constructor
  · intro passes heap
    rw [if_pos heap] at flag
    by_contra garbage
    have absent : t.notCreated o = true := by
      by_contra present
      exact garbage (flag ▸ (notCreated_iff checked).mp (by simpa using present))
    cases o with
    | dqueue i =>
      exact passes t .refl (.dqueuePost i []) rfl []
        (congrArg Prod.snd (Kernel.queuePost_error (d := .dynamic) absent _))
    | _ => simp [Obj.onHeap] at heap
  · intro heap u run c checks data
    have one : t.allocated o = 1 := by
      rw [flag]
      split_ifs with h
      · exact heap h
      · rfl
    have kept := (allocated_of_reach (dormant.step next) (fun _ => one)
      (run.mono fun _ _ keeps => keeps.1)).2
    exact Kernel.serve_passes checks ((notCreated_iff checked).mpr (kept.trans one)) data

end System

/-- The build with ERROR_CHECK. -/
def Config.checking : Config := { Config.port with errorCheck := true }

namespace System

/-- A semaphore. -/
theorem created_run : ∃ t : System .checking, (init .checking).step (.main (.semCreate 0)) = some t ∧
    ∀ u, Run.Reach step (Keeps (.sem 0)) t u → ∀ c : Call,
      c.checks = some (.sem 0) → ∀ data, (u.serve c).2 ≠ .ret errEventNoCreated data := by
  obtain ⟨t,next,logged⟩ : ∃ t ∈ (init .checking).step (.main (.semCreate 0)),
      t.log = [⟨none,.semCreate 0,allocEventOk,[0],0,false⟩] := by decide +kernel
  exact ⟨t,next,(created_passes rfl (fun _ => ⟨rfl,fun _ => rfl⟩) next logged rfl rfl).mpr
    fun heap => absurd heap (by decide)⟩

/-- A dynamic queue in memory that reads zero: its first post is refused. -/
theorem created_fails : ∃ s : System .checking,
    Run.Reach step (fun s a => s.Lawful .oneCeiling a) (init .checking) s ∧ s.Running ∧
      (s.log.map fun r => (r.call,r.code,r.data)) =
        [(.dqueueCreate ⟨some 0,some 0,true⟩ 1 1,allocEventOk,[0]),(.install (.user 1) 16 3,ok,[1])] ∧
      (s.serve (.dqueuePost 0 [7])).2 = .ret errEventNoCreated [] :=
  Run.exists_reach_of_exec _ _ _ [.main (.install (.user 1) 16 3),
    .main (.dqueueCreate ⟨some 0,some 0,true⟩ 1 1),.start] _ (by decide +kernel)

end System
end Brtos
