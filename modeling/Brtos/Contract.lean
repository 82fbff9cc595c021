import Brtos.Frame

/-! What callers owe the kernel: handles come from a create call, priorities fit the vectors, the
block of a dynamic queue has a size that sixteen bits hold, and nothing is deleted under a waiting
task. -/
namespace Brtos

def Point.on : Point → Option Obj
  | .pend o _ _ => some o
  | _ => none

/-- The event that a call names. -/
def Call.target : Call → Option Obj
  | .semDelete i | .semPend i _ | .semPost i => some (.sem i)
  | .mutexDelete i | .mutexAcquire i _ | .mutexRelease i => some (.mutex i)
  | .mboxDelete i | .mboxPend i _ | .mboxPost i _ => some (.mbox i)
  | .queueWrite i _ | .queueRead i | .queuePost i _ => some (.queue i)
  | .dqueueDelete i | .dqueuePost i _ => some (.dqueue i)
  | .queueClean d i | .queuePend d i _ => some (d.obj i)
  | _ => none

/-- The services that may suspend their caller. -/
def Call.suspends : Call → Bool
  | .delayTask _ | .semPend _ _ | .mutexAcquire _ _ | .mboxPend _ _ | .queuePend _ _ _ => true
  | _ => false

def Call.installsIdle : Call → Bool
  | .install .idle _ _ => true
  | _ => false

def Action.installsIdle : Action → Bool
  | .main c | .call c => c.installsIdle
  | _ => false

namespace System
variable {cfg : Config} (s : System cfg)

abbrev view : View := s.toCore.view s.point s.inst s.held

/-- No task is suspended on the event. Handles end at 32. -/
def Quiet (o : Obj) : Prop := ∀ t < 33, (s.point t).on ≠ some o

instance (o : Obj) : Decidable (s.Quiet o) := by unfold Quiet; infer_instance

/-- The contract of each service. -/
def Legal : Call → Prop
  | .blockPriority p | .unBlockPriority p => p < cfg.width
  | .blockTask t => t = 0 ∨ s.Installed t
  | .unBlockTask t => s.Installed t
  | .blockMultipleTask a n | .unBlockMultipleTask a n => ∀ t ∈ Kernel.taskRange a n, s.Installed t
  | .semDelete i => s.Created (.sem i) ∧ s.Quiet (.sem i)
  | .mboxDelete i => s.Created (.mbox i) ∧ s.Quiet (.mbox i)
  | .mutexDelete i =>
    s.Created (.mutex i) ∧ s.Quiet (.mutex i) ∧ (s.brtosMutexTable i).osEventOwner = 0
  -- OSDQueueCreate cuts the size of the block to an INT16U, and a post writes behind a short block
  | .dqueueCreate a queueLength typeSize =>
    queueLength*typeSize < 65536 ∧ ∀ i ∈ a.handler, s.Quiet (.dqueue i)
  | .dqueueDelete i => s.Quiet (.dqueue i)
  | .mutexCreate p => p < cfg.width
  | .semPend i _ | .semPost i => s.Created (.sem i)
  | .mutexAcquire i _ | .mutexRelease i => s.Created (.mutex i)
  | .mboxPend i _ | .mboxPost i _ => s.Created (.mbox i)
  | .queueClean d i | .queuePend d i _ => s.Created (d.obj i)
  | .queueWrite i _ | .queueRead i | .queuePost i _ => s.Created (.queue i)
  | .dqueuePost i _ => s.Created (.dqueue i)
  | .install _ _ _ | .delayTask _ | .semCreate _ | .semBinaryCreate _ | .mboxCreate _ => True
  | .queueCreate _ => True

instance (c : Call) : Decidable (s.Legal c) := by
  rcases c <;> unfold Legal <;> infer_instance

/-- What the policy asks of a call by task `t`. -/
def Meets (P : View.Policy) (t : ℕ) : Call → Prop
  | .mutexAcquire m _ => m ∉ s.held t → P.acquire s.view t m
  | .mutexRelease m => m ∈ s.held t → P.release s.view t m
  | .install fctPtr _ p => p ≠ 0 ∨ fctPtr = .idle → P.install s.view p
  | _ => True

instance (P : View.Policy) [∀ v t m, Decidable (P.acquire v t m)]
    [∀ v t m, Decidable (P.release v t m)] [∀ v p, Decidable (P.install v p)] (t : ℕ) (c : Call) :
    Decidable (s.Meets P t c) := by
  rcases c <;> unfold Meets <;> infer_instance

/-- The actions of a system whose services are called as the contracts and the policy say. -/
def Lawful (P : View.Policy) : Action → Prop
  | .main c | .call c => s.Legal c ∧ s.Meets P s.currentTask c
  | .isrCall c => s.Legal c
  | .start => P.install s.view 0
  | _ => True

instance (P : View.Policy) [∀ v t m, Decidable (P.acquire v t m)]
    [∀ v t m, Decidable (P.release v t m)] [∀ v p, Decidable (P.install v p)] (a : Action) :
    Decidable (s.Lawful P a) := by
  rcases a <;> unfold Lawful <;> infer_instance

/-- The actions of a well-behaved system, which leaves Idle to BRTOSStart. -/
def Allowed (P : View.Policy) (a : Action) : Prop := s.Lawful P a ∧ a.installsIdle = false

instance (P : View.Policy) [∀ v t m, Decidable (P.acquire v t m)]
    [∀ v t m, Decidable (P.release v t m)] [∀ v p, Decidable (P.install v p)] (a : Action) :
    Decidable (s.Allowed P a) := by
  unfold Allowed
  infer_instance

section
variable {s} {P P' : View.Policy}

theorem Meets.mono {t : ℕ} {c : Call} (h : s.Meets P t c)
    (acquire : ∀ m, P.acquire s.view t m → P'.acquire s.view t m)
    (release : ∀ m ∈ s.held t, P.release s.view t m → P'.release s.view t m)
    (install : ∀ p, P.install s.view p → P'.install s.view p) : s.Meets P' t c := by
  cases c with
  | mutexAcquire m w => exact fun new => acquire m (h new)
  | mutexRelease m => exact fun own => release m own (h own)
  | install e n p => exact fun user => install p (h user)
  | _ => trivial

/-- A policy may be replaced by one that asks for less where the action is taken. -/
theorem Allowed.mono {a : Action} (h : s.Allowed P a)
    (acquire : ∀ m, P.acquire s.view s.currentTask m → P'.acquire s.view s.currentTask m)
    (release : ∀ m ∈ s.held s.currentTask, P.release s.view s.currentTask m →
      P'.release s.view s.currentTask m)
    (install : ∀ p, P.install s.view p → P'.install s.view p) : s.Allowed P' a := by
  refine ⟨?_,h.2⟩
  cases a with
  | main c | call c => exact ⟨h.1.1,h.1.2.mono acquire release install⟩
  | start => exact install 0 h.1
  | _ => exact h.1

end

/-- A service called by main or by task `t` in a well-behaved system. -/
structure Proper (P : View.Policy) (t : ℕ) (c : Call) : Prop where
  legal : s.Legal c
  meets : s.Meets P t c
  notIdle : c.installsIdle = false

end System
end Brtos
