import Brtos.Preemption

/-! Along every run: when the running task is the one that the scheduler would choose. -/
namespace Brtos
open Bitmap

namespace Kernel
variable {cfg : Config} (k : Kernel cfg)

@[simp] theorem wakeUp_pending (o : Obj) (p w : ℕ) :
    (k.wakeUp o p w).1.pendingInterrupts = k.pendingInterrupts := by
  simp only [wakeUp]
  split_ifs
  · rfl
  · rfl
  · rfl
  · exact removeFromDelayList_pending _ _

end Kernel

/-- The actions by which the running task calls a service or goes on with one. -/
def Action.ofTask : Action → Bool
  | .call _ | .resume => true
  | _ => false

namespace System
variable {cfg : Config} (s : System cfg)

/-- The running task finds itself still waiting after its timeout. -/
def TimedOut (o : Obj) (p w : ℕ) : Prop :=
  w ≠ 0 ∧ (s.contextTask s.currentTask).timeToWait = cfg.exitByTimeout ∧
    (s.event o).osEventWaitList &&& priorityMask cfg p ≠ 0#_

/-- A task that has been given a mutex goes on at a ceiling that is blocked. -/
def ResumesBlocked : Point → Prop
  | .pend (.mutex i) p w => ¬ s.TimedOut (.mutex i) p w ∧ s.RaisesToBlocked i
  | _ => False

/-- The actions that make another task the highest eligible one and request no context switch. -/
def Silent : Action → Prop
  | .call c => s.Unrequested c
  | .resume => s.ResumesBlocked (s.point s.currentTask)
  | _ => False

instance (o : Obj) (p w : ℕ) : Decidable (s.TimedOut o p w) := by unfold TimedOut; infer_instance

instance (p : Point) : Decidable (s.ResumesBlocked p) := by
  unfold ResumesBlocked
  split <;> infer_instance

instance (a : Action) : Decidable (s.Silent a) := by
  rcases a <;> unfold Silent <;> infer_instance

variable {s} {t : System cfg}

theorem wakeUp_timedOut (o : Obj) (p w : ℕ) :
    (s.osEnterCritical.wakeUp o p w).2 = true ↔ s.TimedOut o p w := by
  simp only [Kernel.wakeUp,TimedOut]
  change _ ↔ w ≠ 0 ∧ (s.osEnterCritical.contextTask s.osEnterCritical.currentTask).timeToWait =
    cfg.exitByTimeout ∧ (s.osEnterCritical.event o).osEventWaitList &&& priorityMask cfg p ≠ 0#_
  split_ifs with h1 h2 h3
  · exact ⟨by simp,fun h => absurd h1 h.1⟩
  · exact ⟨fun _ => ⟨h1,h2,h3⟩,fun _ => rfl⟩
  · exact ⟨by simp,fun h => absurd h.2.2 h3⟩
  · exact ⟨by simp,fun h => absurd h.2.1 h2⟩

/-! ### The rest of a suspended service -/

theorem resumeMutexAcquire_iff (h : s.Leads) {i p w : ℕ} (hp : s.currentPriority = p) :
    s.Prompt (s.resumeMutexAcquire i p w).1 ↔
      ¬ (¬ s.TimedOut (.mutex i) p w ∧ s.RaisesToBlocked i) := by
  subst hp
  have stage : (s.osEnterCritical.wakeUp (.mutex i) s.currentPriority w).1.stage = s.stage := by simp
  have vital : (s.osEnterCritical.wakeUp (.mutex i) s.currentPriority w).1.vital = s.vital := by
    rw [← Kernel.shell_vital,Kernel.wakeUp_shell,Kernel.shell_vital,Kernel.osEnterCritical_vital]
  have late := wakeUp_timedOut (s := s) (.mutex i) s.currentPriority w
  simp only [Kernel.resumeMutexAcquire]
  by_cases timed : s.TimedOut (.mutex i) s.currentPriority w
  · rw [if_pos (late.mpr timed),prompt_osExitCritical]
    simp only [timed,not_true,false_and,not_false_iff,iff_true]
    exact h.same stage
  · rw [if_neg fun hl => timed (late.mp hl),prompt_osExitCritical]
    simp only [timed,not_false_iff,true_and]
    refine raise_iff h i stage (Kernel.currentTask_of_vital vital) (Kernel.wakeUp_pending _ _ _ _) ?_
    have early : (s.osEnterCritical.wakeUp (.mutex i) s.currentPriority w).2 = false :=
      Bool.eq_false_iff.mpr fun hl => timed (late.mp hl)
    exact congrArg (fun v : View => (v.mutex i).osMaxPriority)
      (s.osEnterCritical.wakeUp_view_false s.point s.inst s.held early)

/-- What the rest of a suspended service does about the scheduler's choice. -/
theorem proceed_iff (h : s.Leads) (ht : s.proceed = some t) :
    s.Prompt t.toKernel ↔ ¬ s.ResumesBlocked (s.point s.currentTask) := by
  unfold proceed at ht
  cases hp : s.point s.currentTask with
  | run => simp [hp] at ht
  | delay w =>
    simp only [hp,Option.some.injEq] at ht
    subst ht
    exact ⟨fun _ => id,fun _ => h.same rfl⟩
  | pend o p w =>
    simp only [hp,Option.some.injEq] at ht
    subst ht
    have quiet : ∀ {k : Kernel cfg}, k.stage = s.stage → (s.Prompt k ↔ ¬ False) :=
      fun hk => ⟨fun _ => id,fun _ => h.same hk⟩
    cases o with
    | sem i =>
      refine quiet ?_
      simp only [Kernel.resumePend,Kernel.resumeSemPend]
      split_ifs <;> simp
    | mutex i => exact resumeMutexAcquire_iff h (h.sound.pending hp).2.1
    | mbox i =>
      refine quiet ?_
      simp only [Kernel.resumePend,Kernel.resumeMboxPend,Kernel.takeMail]
      split_ifs <;> simp
    | queue i =>
      refine quiet ?_
      simp only [Kernel.resumePend,Kernel.resumeQueuePend]
      split_ifs <;> simp
    | dqueue i =>
      refine quiet ?_
      simp only [Kernel.resumePend,Kernel.resumeQueuePend]
      split_ifs <;> simp

/-! ### The scheduler's choice -/

/-- The scheduler chooses a user's task exactly when it is the foremost one. -/
theorem foremost_iff (hs : View.Sound cfg s.view) (idle : ∃ u, s.Installed u ∧ s.inst u = 0) {u : ℕ}
    (hu : s.Installed u) (user : s.inst u ≠ 0) : s.Foremost u ↔ s.osSchedule = u := by
  constructor
  · rintro ⟨hp,top⟩
    obtain ⟨hi,hq,top'⟩ := osSchedule_highest hs ⟨_,hp⟩
    exact hs.prio_inj hi hu (le_antisymm (top _ hq) (top' _ hp))
  · rintro rfl
    rcases (osSchedule_selected hs idle).2 with ⟨hp,top⟩ | ⟨_,h0⟩
    · exact ⟨hp,top⟩
    · exact absurd h0 user

theorem Inv.leads (h : s.Inv) (running : s.Running) (user : s.inst s.currentTask ≠ 0)
    (chosen : s.currentTask = s.osSchedule) : s.Leads :=
  { h with
    running := running, user := user
    foremost := (foremost_iff h.sound (h.idle running.1) (h.current running.1) user).mpr chosen.symm }

/-- The state behind a service, seen from its caller. -/
theorem prompt_iff_chosen (ht : t.Inv) (started : t.started = true)
    (current : t.currentTask = s.currentTask) (user : t.inst t.currentTask ≠ 0) :
    s.Prompt t.toKernel ↔ (t.osSchedule ≠ t.currentTask → t.switchPending = true) := by
  have head := foremost_iff ht.sound (ht.idle started) (ht.current started) user
  rw [current] at head ⊢
  unfold Prompt
  rw [head]
  tauto

theorem chosen_of_call (h : s.Inv) (chosen : s.currentTask = s.osSchedule) {c : Call}
    (hr : s.Running) (run : s.point s.currentTask = .run) (user : s.inst s.currentTask ≠ 0)
    (ok : s.Proper .restoring s.currentTask c) :
    ((s.enter (some s.currentTask) c).osSchedule ≠ (s.enter (some s.currentTask) c).currentTask →
      (s.enter (some s.currentTask) c).switchPending = true) ↔ ¬ s.Unrequested c := by
  have e := call_entered View.Policy.restoring_safe h trivial hr run user ok
  have inv := (inv_call View.Policy.restoring_safe h trivial hr run user ok).2
  have started := (enter_started (s := s) (some s.currentTask) c).trans hr.1
  have user' : (s.enter (some s.currentTask) c).inst (s.enter (some s.currentTask) c).currentTask ≠
      0 := by
    rw [e.currentTask]
    exact (e.moves.inst (h.current hr.1)).trans_ne user
  rw [← prompt_iff_chosen inv started e.currentTask user',enter_toKernel]
  exact serve_iff (h.leads hr user chosen) run ok

/-- A suspended task is not Idle. -/
theorem Inv.user (h : s.Inv) (started : s.started = true) (hp : s.point s.currentTask ≠ .run) :
    s.inst s.currentTask ≠ 0 :=
  fun h0 => hp (h.sound.idle (h.current started) h0).1

theorem proceed_suspended (ht : s.proceed = some t) : s.point s.currentTask ≠ .run := by
  intro hp
  simp [proceed,hp] at ht

theorem chosen_of_resume (h : s.Inv) (chosen : s.currentTask = s.osSchedule) (hr : s.Running)
    (ht : s.proceed = some t) : (t.osSchedule ≠ t.currentTask → t.switchPending = true) ↔
      ¬ s.ResumesBlocked (s.point s.currentTask) := by
  have e : Entered .restoring s t := proceeded h.sound h.links (h.due hr.1 hr.2.2) ht
  have inv := (inv_resume View.Policy.restoring_safe h trivial hr ht).2
  have user := h.user hr.1 (proceed_suspended ht)
  have user' : t.inst t.currentTask ≠ 0 := by
    rw [e.currentTask]
    exact (e.moves.inst (h.current hr.1)).trans_ne user
  rw [← prompt_iff_chosen inv ((proceed_started ht).trans hr.1) e.currentTask user']
  exact proceed_iff (h.leads hr user chosen) ht

/-- While the running task is the one the scheduler would choose, its service requests a switch
whenever the choice becomes another one, unless it is one of the silent ones. -/
theorem requests_iff (run : Reaches .restoring (init cfg) s) (chosen : s.currentTask = s.osSchedule)
    {a : Action} (task : a.ofTask = true) (ok : s.Allowed .restoring a) (next : s.step a = some t) :
    (t.osSchedule ≠ t.currentTask → t.switchPending = true) ↔ ¬ s.Silent a := by
  obtain ⟨_,h,_⟩ := run.inv View.Policy.restoring_safe trivial init_inv
  cases a with
  | call c =>
    simp only [step] at next
    split_ifs at next with hg
    obtain rfl := Option.some.inj next
    exact chosen_of_call h chosen hg.1 hg.2.1 hg.2.2 ⟨ok.1.1,ok.1.2,ok.2⟩
  | resume =>
    simp only [step] at next
    split_ifs at next with hg
    exact chosen_of_resume h chosen hg next
  | _ => simp [Action.ofTask] at task

/-- A post wakes a task of higher priority, and the switch has been requested. -/
def wakingRun : List Action :=
  [.main (.install (.user 1) 16 3),.main (.install (.user 2) 16 4),.main (.semCreate 0),.start,
    .call (.semPend 0 0),.switch]

theorem requests_wakingRun : ∃ s t : System .port, s.step (.call (.semPost 0)) = some t ∧
    t.currentTask = 1 ∧ t.osSchedule = 2 ∧ t.switchPending = true := by
  obtain ⟨s,run,⟨ok,loud,chosen⟩,t,next,current,other⟩ := Run.exists_reach_of_exec step
    (fun s a => s.Allowed .restoring a) (init .port) wakingRun
    (fun s => (s.Allowed .restoring (.call (.semPost 0)) ∧ ¬ s.Silent (.call (.semPost 0)) ∧
      s.currentTask = s.osSchedule) ∧
      ∃ t ∈ s.step (.call (.semPost 0)), t.currentTask = 1 ∧ t.osSchedule = 2) (by decide +kernel)
  refine ⟨s,t,next,current,other,(requests_iff run chosen rfl ok next).mpr loud ?_⟩
  omega

/-- A release takes its caller below another ready task, a task installs one above itself, and an
acquisition goes to a blocked ceiling: no switch is requested. -/
theorem requests_fails :
    (∃ s : System .port, Reaches .restoring (init .port) s ∧ s.currentTask = s.osSchedule ∧
      ∃ t ∈ s.step (.call (.mutexRelease 0)), t.osSchedule ≠ t.currentTask ∧
        t.switchPending = false) ∧
    (∃ s : System .port, Reaches .restoring (init .port) s ∧ s.currentTask = s.osSchedule ∧
      ∃ t ∈ s.step (.call (.install (.user 2) 16 4)), t.osSchedule ≠ t.currentTask ∧
        t.switchPending = false) ∧
    ∃ s : System .port, Reaches .restoring (init .port) s ∧ s.currentTask = s.osSchedule ∧
      ∃ t ∈ s.step (.call (.mutexAcquire 0 0)), t.osSchedule ≠ t.currentTask ∧
        t.switchPending = false :=
  ⟨Run.exists_reach_of_exec _ _ _
    [.main (.install (.user 1) 16 3),.main (.install (.user 2) 16 4),.main (.mutexCreate 5),.start,
      .call (.delayTask 1),.switch,.call (.mutexAcquire 0 0),.isrEnter,.isrTick 2,.isrExit] _
    (by decide +kernel),
  Run.exists_reach_of_exec _ _ _ [.main (.install (.user 1) 16 3),.start] _ (by decide +kernel),
  Run.exists_reach_of_exec _ _ _ [.main (.install (.user 1) 16 3),.main (.mutexCreate 5),.start,
    .call (.blockPriority 5)] _ (by decide +kernel)⟩

/-! ### Runs -/

/-- Outside the handlers and the switches that are due, the task that runs is the scheduler's
choice. -/
def Chosen (s : System cfg) : Prop :=
  s.started = true → s.iNesting = 0 → s.switchPending = false → s.currentTask = s.osSchedule

theorem start_chosen :
    ({ s with toKernel := s.brtosStart.1, started := s.brtosStart.2 == ok } : System cfg).Chosen := by
  have hb : s.brtosStart = if (s.osInstallTask .idle cfg.idleStackSize 0).2.1 ≠ ok then
      ((s.osInstallTask .idle cfg.idleStackSize 0).1,noMemory)
    else ({ (s.osInstallTask .idle cfg.idleStackSize 0).1 with
      currentTask := (s.osInstallTask .idle cfg.idleStackSize 0).1.osSchedule, iNesting := 0 },ok) := rfl
  rw [hb]
  split_ifs with hi
  · intro h
    simp [noMemory,ok] at h
  · exact fun _ _ _ => rfl

theorem process_chosen {fuel uartQueue uartData : ℕ}
    (ht : s.process fuel uartQueue uartData = some t) : t.Chosen := by
  unfold process at ht
  obtain ⟨u,_,rfl⟩ := Option.map_eq_some_iff.mp ht
  exact fun _ _ _ => rfl

theorem tick_nesting (h : s.Tidy) (port : cfg.criticalNests = false) {fuel : ℕ} {k : Kernel cfg}
    (hk : s.tick fuel = some k) : k.iNesting = s.iNesting := by
  have ticked := tick_ticked (P := .restoring) h hk
  have same := Kernel.handlers_of_vital (Kernel.vital_of_shell ticked.shell)
  rwa [Kernel.handlers_of_port _ port,Kernel.handlers_of_port _ port] at same

theorem isrCall_nesting (h : s.Tidy) (port : cfg.criticalNests = false) {c : Call}
    (isr : c.fromIsr = true) (legal : s.Legal c) : (s.enter none c).iNesting = s.iNesting := by
  have e := isr_entered View.Policy.restoring_safe h trivial isr legal
  have same := Kernel.handlers_of_vital e.vital'
  rwa [Kernel.handlers_of_port _ port,Kernel.handlers_of_port _ port] at same

/-- Each step that is not silent keeps the scheduler's choice running. -/
theorem step_chosen (h : s.Inv) (hc : s.Chosen) {a : Action} (ok : s.Allowed .restoring a)
    (loud : ¬ s.Silent a) (next : s.step a = some t) : t.Chosen := by
  have of_iff : ∀ {u : System cfg}, ((u.osSchedule ≠ u.currentTask → u.switchPending = true) ↔
      ¬ s.Silent a) → u.Chosen := fun hu _ _ quiet => by
    by_contra hne
    simp [quiet] at hu
    exact hne ((hu.mpr loud).symm)
  cases a with
  | main c =>
    simp only [step] at next
    split_ifs at next with hg
    obtain rfl := Option.some.inj next
    intro started
    simp [enter_started,hg.1] at started
  | start =>
    simp only [step] at next
    split_ifs at next with hg
    obtain rfl := Option.some.inj next
    exact start_chosen
  | call c =>
    simp only [step] at next
    split_ifs at next with hg
    obtain rfl := Option.some.inj next
    have chosen := hc hg.1.1 hg.1.2.1 hg.1.2.2
    exact of_iff (chosen_of_call h chosen hg.1 hg.2.1 hg.2.2 ⟨ok.1.1,ok.1.2,ok.2⟩)
  | resume =>
    simp only [step] at next
    split_ifs at next with hg
    exact of_iff (chosen_of_resume h (hc hg.1 hg.2.1 hg.2.2) hg next)
  | isrEnter =>
    simp only [step] at next
    split_ifs at next with hg
    obtain rfl := Option.some.inj next
    intro _ h0
    simp at h0
  | isrTick fuel =>
    simp only [step] at next
    split_ifs at next with hg
    obtain ⟨k,hk,rfl⟩ := Option.map_eq_some_iff.mp next
    intro _ h0
    have := tick_nesting h.toTidy hg.2.1 hk
    exact absurd (this.symm.trans h0) (by omega)
  | isrCall c =>
    simp only [step] at next
    split_ifs at next with hg
    obtain rfl := Option.some.inj next
    intro _ h0
    have := isrCall_nesting h.toTidy hg.2.1 hg.2.2.2 ok.1
    exact absurd (this.symm.trans h0) (by omega)
  | isrExit =>
    simp only [step] at next
    split_ifs at next with hg h1
    · obtain rfl := Option.some.inj next
      exact fun _ _ _ => rfl
    · obtain rfl := Option.some.inj next
      intro _ h0
      exact absurd h0 h1
  | switch =>
    simp only [step] at next
    split_ifs at next with hg
    obtain rfl := Option.some.inj next
    exact fun _ _ _ => rfl
  | raise n =>
    simp only [step] at next
    split_ifs at next with hg
    obtain rfl := Option.some.inj next
    intro started h0 quiet
    refine hc started h0 ?_
    simp only [Kernel.switchPending,Kernel.raiseInterrupt,BitVec.getLsbD_or,Bool.or_eq_false_iff]
      at quiet
    exact quiet.1
  | process fuel i b =>
    simp only [step] at next
    split_ifs at next with hg
    exact process_chosen next

/-- The runs without silent steps. -/
abbrev Announces : System cfg → System cfg → Prop :=
  Run.Reach step fun s a => s.Allowed .restoring a ∧ ¬ s.Silent a

/-- In runs without silent steps the highest eligible task runs whenever no handler and no switch is
due. -/
theorem chosen_of_announces (run : Announces (init cfg) s) : s.Chosen := by
  refine (run.invariant (P := fun s => s.Inv ∧ s.Chosen) ⟨init_inv,?_⟩ ?_).2
  · intro started
    simp [init] at started
  · intro s a t h met next
    exact ⟨(step_inv View.Policy.restoring_safe h.1 trivial met.1 next).2,
      step_chosen h.1 h.2 met.1 met.2 next⟩

/-- On the simulator a task waits for a semaphore, and the next one to run is the scheduler's choice
again. -/
theorem chosen_announced : ∃ s : System .simulator, s.started = true ∧ s.iNesting = 0 ∧
    s.pendingInterrupts = 0#32 ∧ s.currentTask = 1 ∧ s.osSchedule = 1 := by
  obtain ⟨s,run,started,still,quiet,current⟩ := Run.exists_reach_of_exec step
    (fun s a => s.Allowed .restoring a ∧ ¬ s.Silent a) (init .simulator)
    [.main (.install (.user 1) 16 3),.main (.install (.user 2) 16 4),.main (.semCreate 0),.start,
      .call (.semPend 0 0),.process 0 0 0]
    (fun s => s.started = true ∧ s.iNesting = 0 ∧ s.pendingInterrupts = 0#32 ∧ s.currentTask = 1)
    (by decide +kernel)
  refine ⟨s,started,still,quiet,current,?_⟩
  rw [← chosen_of_announces run started still (by simp [Kernel.switchPending,quiet]),current]

/-- On the simulator a post wakes a task of higher priority, and nobody is told. -/
theorem chosen_fails : ∃ s : System .simulator, Reaches .restoring (init .simulator) s ∧
    s.started = true ∧ s.iNesting = 0 ∧ s.pendingInterrupts = 0#32 ∧ s.currentTask ≠ s.osSchedule :=
  Run.exists_reach_of_exec _ _ _
    [.main (.install (.user 1) 16 3),.main (.install (.user 2) 16 4),.main (.semCreate 0),.start,
      .call (.semPend 0 0),.process 0 0 0,.call (.semPost 0)] _ (by decide +kernel)

end System
end Brtos
