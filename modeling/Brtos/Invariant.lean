import Brtos.Ownership

/-! The invariant of the whole system, kept by every step of a run whose calls are proper. -/
namespace Brtos
open Bitmap

namespace View
variable {cfg : Config} {P : Policy} {v w : View}

/-- Only an installation changes who is installed and with which priority. -/
theorem Move.roster (h : Move cfg P v w) : (w.installed = v.installed ∧ w.inst = v.inst) ∨
    ∃ t p, ¬ v.installed t ∧ P.install v p ∧
      w.installed = (fun u => v.installed u ∨ u = t) ∧ w.inst = Function.update v.inst t p := by
  cases h with
  | @enroll t p fresh _ _ _ _ met => exact Or.inr ⟨t,p,fresh,met,rfl,rfl⟩
  | @take t m => exact Or.inl ⟨lift_installed _ t m,lift_inst _ t m⟩
  | @obtain t m => exact Or.inl ⟨lift_installed _ t m,lift_inst _ t m⟩
  | @release t m => exact Or.inl ⟨v.restore_installed t m,v.restore_inst t m⟩
  | @handOver t m => exact Or.inl ⟨v.restore_installed t m,v.restore_inst t m⟩
  | _ => exact Or.inl ⟨rfl,rfl⟩

theorem Move.installed (h : Move cfg P v w) {t : ℕ} (ht : v.installed t) : w.installed t := by
  rcases h.roster with ⟨hw,_⟩ | ⟨_,_,_,_,hw,_⟩
  · exact hw ▸ ht
  · exact hw ▸ Or.inl ht

/-- A task keeps the priority it was installed with. -/
theorem Move.inst (h : Move cfg P v w) {t : ℕ} (ht : v.installed t) : w.inst t = v.inst t := by
  rcases h.roster with ⟨_,hi⟩ | ⟨u,_,fresh,_,_,hi⟩
  · rw [hi]
  · rw [hi,Function.update_of_ne]
    rintro rfl
    exact fresh ht

theorem Move.blank (h : Move cfg P v w) (hb : ∀ t, ¬ v.installed t → v.inst t = 0) (t : ℕ)
    (ht : ¬ w.installed t) : w.inst t = 0 := by
  rcases h.roster with ⟨hw,hi⟩ | ⟨u,_,_,_,hw,hi⟩
  · rw [hi]
    exact hb t (hw ▸ ht)
  · rw [hw,not_or] at ht
    rw [hi,Function.update_of_ne ht.2]
    exact hb t ht.1

/-- Nobody but Idle is installed at priority zero. -/
def Policy.usersOnly : Policy where
  acquire _ _ _ := True
  release v t m := v.Restorable t m
  install _ p := p ≠ 0

theorem Move.noIdle (h : Move cfg Policy.usersOnly v w) (hv : ∀ t, v.installed t → v.inst t ≠ 0)
    (t : ℕ) (ht : w.installed t) : w.inst t ≠ 0 := by
  rcases h.roster with ⟨hw,hi⟩ | ⟨u,p,_,met,hw,hi⟩
  · rw [hi]
    exact hv t (hw ▸ ht)
  · rw [hi]
    by_cases e : t = u
    · rw [e,Function.update_self]
      exact met
    · rw [hw] at ht
      rw [Function.update_of_ne e]
      exact hv t (ht.resolve_right e)

end View

namespace Moves
variable {cfg : Config} {P : View.Policy} {v w : View}

theorem installed (h : Moves cfg P v w) {t : ℕ} (ht : v.installed t) : w.installed t := by
  induction h with
  | refl => exact ht
  | tail _ step ih => exact step.installed ih

theorem inst (h : Moves cfg P v w) {t : ℕ} (ht : v.installed t) : w.inst t = v.inst t := by
  induction h with
  | refl => rfl
  | tail moves step ih => exact (step.inst (Moves.installed moves ht)).trans ih

theorem blank (h : Moves cfg P v w) (hb : ∀ t, ¬ v.installed t → v.inst t = 0) :
    ∀ t, ¬ w.installed t → w.inst t = 0 := by
  induction h with
  | refl => exact hb
  | tail _ step ih => exact step.blank ih

theorem noIdle (h : Moves cfg .usersOnly v w) (hv : ∀ t, v.installed t → v.inst t ≠ 0) :
    ∀ t, w.installed t → w.inst t ≠ 0 := by
  induction h with
  | refl => exact hv
  | tail _ step ih => exact step.noIdle ih

end Moves

namespace Kernel
variable {cfg : Config} {P : View.Policy} (k : Kernel cfg)
variable (point : ℕ → Point) (inst : ℕ → ℕ) (held : ℕ → List ℕ)

theorem expire_view (t : ℕ) (hp : (k.contextTask t).priority < cfg.width) :
    (k.expire t).view point inst held = (k.view point inst held).expire t cfg.exitByTimeout := by
  have ready := k.setReady_view point inst held hp
  simp only [expire]
  split_ifs
  · simp only [removeFromDelayList_view,osExitCritical_toCore,setTimeToWait_view]
    have := k.osEnterCritical.setReady_view point inst held hp
    rw [this]
    rfl
  · simp only [removeFromDelayList_view,setTimeToWait_view,ready]
    rfl

theorem expire_shell (t : ℕ) : (k.expire t).shell = k.shell := by
  simp only [expire]
  split_ifs <;> simp

theorem tickLoop_shell {k l : Kernel cfg} {fuel : ℕ} {p : Option ℕ} (h : tickLoop fuel p k = some l) :
    l.shell = k.shell := by
  induction fuel generalizing p k with
  | zero =>
    cases p with
    | none => exact congrArg shell (Option.some.inj h).symm
    | some t => simp [tickLoop] at h
  | succ n ih =>
    cases p with
    | none => exact congrArg shell (Option.some.inj h).symm
    | some t =>
      rw [tickLoop] at h
      rw [ih h]
      split_ifs <;> simp [expire_shell]

theorem removeFromDelayList_pending (t : ℕ) :
    (k.removeFromDelayList t).pendingInterrupts = k.pendingInterrupts := by
  have next : ∀ (k : Kernel cfg) p q, (k.setNext p q).pendingInterrupts = k.pendingInterrupts :=
    fun k p q => by cases p <;> rfl
  have previous : ∀ (k : Kernel cfg) p q,
      (k.setPrevious p q).pendingInterrupts = k.pendingInterrupts :=
    fun k p q => by cases p <;> rfl
  unfold removeFromDelayList
  split_ifs
  · rfl
  · exact previous _ _ _
  · exact next _ _ _
  · rw [next,previous]

theorem expire_pending (t : ℕ) : (k.expire t).pendingInterrupts = k.pendingInterrupts := by
  simp only [expire,removeFromDelayList_pending]
  split_ifs <;> rfl

variable {k} {L : ℕ → Prop}

theorem LinksIn.expire (h : k.LinksIn L) (t : ℕ) : (k.expire t).LinksIn L := by
  have entered : (k.osEnterCritical.setReady (k.contextTask t).priority).LinksIn L := h
  have plain : (k.setReady (k.contextTask t).priority).LinksIn L := h
  simp only [Kernel.expire]
  split_ifs
  · have late : ((k.osEnterCritical.setReady (k.contextTask t).priority).setTimeToWait t
        cfg.exitByTimeout).osExitCritical.LinksIn L := entered.setTimeToWait t _
    exact late.remove t
  · exact (plain.setTimeToWait t _).remove t

/-- What a traversal of the delay list may do to the kernel. -/
structure Ticked (P : View.Policy) (k l : Kernel cfg) (point : ℕ → Point) (inst : ℕ → ℕ)
    (held : ℕ → List ℕ) : Prop where
  moves : Moves cfg P (k.view point inst held) (l.view point inst held)
  shell : l.shell = k.shell
  links : l.LinksIn k.Installed
  prio (t : ℕ) : (l.contextTask t).priority = (k.contextTask t).priority
  ready {p : ℕ} : p ∈ bits k.osReadyList → p ∈ bits l.osReadyList
  pending : l.pendingInterrupts = k.pendingInterrupts

theorem Ticked.trans {k l m : Kernel cfg} (h : Ticked P k l point inst held)
    (hm : Ticked P l m point inst held) (same : l.Installed = k.Installed) :
    Ticked P k m point inst held where
  moves := h.moves.trans hm.moves
  shell := hm.shell.trans h.shell
  links := same ▸ hm.links
  prio t := (hm.prio t).trans (h.prio t)
  ready hp := hm.ready (h.ready hp)
  pending := hm.pending.trans h.pending

theorem expire_ticked (hs : View.Sound cfg (k.view point inst held))
    (links : k.LinksIn k.Installed) (late : k.osTickCounter < cfg.tickCountOverflow) {t : ℕ}
    (ht : k.Installed t) (due : (k.contextTask t).timeToWait = k.osTickCounter) :
    Ticked P k (k.expire t) point inst held := by
  have hv := k.expire_view point inst held t (hs.prio_lt ht)
  refine ⟨?_,k.expire_shell t,links.expire t,fun u => congrFun (congrArg View.prio hv) u,?_,
    k.expire_pending t⟩
  · rw [hv]
    exact .one (.expire ht (by rw [← due] at late; exact late))
  · intro p hp
    have : p ∈ ((k.expire t).view point inst held).ready := by
      rw [hv]
      exact Finset.mem_insert_of_mem hp
    exact this

/-- The traversal of the delay list makes `expire` moves and no others. -/
theorem tickLoop_ticked {n : ℕ} {p : Option ℕ} {k l : Kernel cfg} (h : tickLoop n p k = some l)
    (hs : View.Sound cfg (k.view point inst held)) (links : k.LinksIn k.Installed)
    (late : k.osTickCounter < cfg.tickCountOverflow) (hp : ∀ t, p = some t → k.Installed t) :
    Ticked P k l point inst held := by
  induction n generalizing p k with
  | zero =>
    cases p with
    | none =>
      obtain rfl : k = l := by simpa [tickLoop] using h
      exact ⟨.refl,rfl,links,fun _ => rfl,id,rfl⟩
    | some t => simp [tickLoop] at h
  | succ n ih =>
    cases p with
    | none =>
      obtain rfl : k = l := by simpa [tickLoop] using h
      exact ⟨.refl,rfl,links,fun _ => rfl,id,rfl⟩
    | some t =>
      simp only [tickLoop] at h
      split_ifs at h with due
      · have first := expire_ticked (P := P) point inst held hs links late (hp t rfl) due
        have same : (k.expire t).Installed = k.Installed :=
          congrArg View.installed (k.expire_view point inst held t (hs.prio_lt (hp t rfl)))
        have counter : (k.expire t).osTickCounter = k.osTickCounter :=
          osTickCounter_of_vital (vital_of_shell (k.expire_shell t))
        have sound : View.Sound cfg ((k.expire t).view point inst held) := by
          rw [k.expire_view point inst held t (hs.prio_lt (hp t rfl))]
          exact hs.expire (hp t rfl) (by rw [← due] at late; exact late)
        refine first.trans point inst held (ih h sound (same ▸ first.links) (counter ▸ late) ?_) same
        exact fun u hu => same ▸ first.links u (Or.inr (Or.inr ⟨t,Or.inl hu⟩))
      · exact ih h hs links late fun u hu => links u (Or.inr (Or.inr ⟨t,Or.inl hu⟩))

end Kernel

namespace System
variable {cfg : Config} {P : View.Policy} {s : System cfg}

/-- The kernel's data between two service calls: the scheduler's part is sound, and the delay
list leads to tasks. -/
structure Tidy (s : System cfg) : Prop where
  sound : View.Sound cfg s.view
  links : s.LinksIn s.Installed
  counter : s.osTickCounter < cfg.tickCountOverflow
  blank {t : ℕ} : ¬ s.Installed t → s.inst t = 0

/-- Every state of a run: the data are tidy, and the running task is one that may run. -/
structure Inv (s : System cfg) : Prop extends Tidy s where
  current : s.started = true → s.Installed s.currentTask
  dormant : s.started = false → s.currentTask = 0 ∧ ∀ t, s.point t = .run
  idle : s.started = true → ∃ t, s.Installed t ∧ s.inst t = 0
  noIdle : s.started = false → ∀ t, s.Installed t → s.inst t ≠ 0
  /-- A suspended task that has the processor back has been made ready. -/
  due : s.started = true → s.switchPending = false → s.point s.currentTask ≠ .run →
    s.view.prio s.currentTask ∈ s.view.ready

/-- The caller of a service that may suspend it. -/
theorem Inv.caller (h : s.Inv) (running : s.started = true) (run : s.point s.currentTask = .run)
    (idle : s.inst s.currentTask ≠ 0) : s.Caller := ⟨h.current running,idle,run⟩

/-- Each service makes moves only. -/
theorem entered (hs : View.Sound cfg s.view) (links : s.LinksIn s.Installed) {c : Call}
    {who : Option ℕ} (legal : s.Legal c) (meets : s.Meets P s.currentTask c)
    (task : c.fromMain = false → s.Caller ∧ who = some s.currentTask)
    (delay : s.currentTask ≠ 0 → c.fromIsr = false → s.Caller)
    (idle : ∀ stack, c = .install .idle stack 0 → ∀ t, s.Installed t → s.inst t ≠ 0)
    (back : ∀ {t m}, m ∈ s.held t → P.release s.view t m → s.view.Restorable t m) :
    Entered P s (s.enter who c) := by
  cases c with
  | install e stack p => exact enter_install links who (fun he hp => idle stack (by rw [he,hp])) meets
  | blockPriority p => exact enter_blockPriority links who p
  | unBlockPriority p => exact enter_unBlockPriority links who p
  | blockTask t => exact enter_blockTask links who t
  | unBlockTask t => exact enter_unBlockTask links who t
  | blockMultipleTask a n => exact enter_blockMultipleTask links who a n
  | unBlockMultipleTask a n => exact enter_unBlockMultipleTask links who a n
  | delayTask w => exact enter_delayTask hs links (fun h => delay h rfl) who w
  | semCreate cnt => exact enter_semCreate hs links who cnt
  | semBinaryCreate bit => exact enter_semBinaryCreate hs links who bit
  | semDelete i => exact enter_semDelete hs links legal who
  | semPend i w => exact enter_semPend hs links (task rfl).1 legal who w
  | semPost i => exact enter_semPost hs links who i
  | mutexCreate p => exact enter_mutexCreate hs links legal who
  | mutexDelete i => exact enter_mutexDelete hs links legal who
  | mutexAcquire i w =>
    obtain ⟨caller,rfl⟩ := task rfl
    exact enter_mutexAcquire hs links caller legal w meets
  | mutexRelease i =>
    obtain ⟨caller,rfl⟩ := task rfl
    exact enter_mutexRelease hs links caller meets fun hm => back hm (meets hm)
  | mboxCreate m => exact enter_mboxCreate hs links who m
  | mboxDelete i => exact enter_mboxDelete hs links legal who
  | mboxPend i w => exact enter_mboxPend hs links (task rfl).1 legal who w
  | mboxPost i m => exact enter_mboxPost hs links who i m
  | queueCreate size => exact enter_queueCreate hs links who size
  | dqueueCreate a l t => exact enter_dqueueCreate hs links legal who
  | dqueueDelete i => exact enter_dqueueDelete hs links legal who
  | queueClean d i => exact enter_queueClean links who d i
  | queueWrite i b => exact enter_queueWrite links who i b
  | queueRead i => exact enter_queueRead links who i
  | queuePend d i w => exact enter_queuePend hs links (task rfl).1 legal who w
  | queuePost i b =>
    exact enter_queuePost hs links who .static i [b] _ (fun _ _ => rfl) (fun _ _ => rfl) rfl
  | dqueuePost i pdata =>
    exact enter_queuePost hs links who .dynamic i _ _ (fun _ _ => rfl) (fun _ _ => rfl) rfl

theorem resumeSemPend_core (i p w : ℕ) :
    (s.resumeSemPend i p w).1.toCore = (s.osEnterCritical.wakeUp (.sem i) p w).1.toCore ∧
      (s.resumeSemPend i p w).1.shell = s.shell := by
  by_cases h : w = 0
  · simp [Kernel.resumeSemPend,Kernel.wakeUp,h]
  · simp [Kernel.resumeSemPend,h]

theorem resumeMboxPend_core (i p w : ℕ) :
    (s.resumeMboxPend i p w).1.toCore = (s.osEnterCritical.wakeUp (.mbox i) p w).1.toCore ∧
      (s.resumeMboxPend i p w).1.shell.vital = s.shell.vital := by
  simp only [Kernel.resumeMboxPend,Kernel.takeMail]
  split_ifs <;> simp

theorem resumeQueuePend_core (d : Kernel.QueueKind) (i p w : ℕ) :
    (s.resumeQueuePend d i p w).1.toCore = (s.osEnterCritical.wakeUp (d.obj i) p w).1.toCore ∧
      (s.resumeQueuePend d i p w).1.shell.vital = s.shell.vital := by
  simp only [Kernel.resumeQueuePend]
  split_ifs <;> simp

/-- The rest of a suspended service makes moves only. -/
theorem proceeded (hs : View.Sound cfg s.view) (links : s.LinksIn s.Installed)
    (due : s.point s.currentTask ≠ .run → s.view.prio s.currentTask ∈ s.view.ready)
    {t : System cfg} (h : s.proceed = some t) : Entered P s t := by
  unfold proceed at h
  cases hp : s.point s.currentTask with
  | run => simp [hp] at h
  | delay w =>
    simp only [hp,Option.some.injEq] at h
    subst h
    refine ⟨?_,rfl,links⟩
    refine (Moves.one (.wakeNap hp (due (by simp [hp])))).trans (Moves.same ?_)
    simp only [View.goOn,Function.update_eq_self]
    rfl
  | pend o p w =>
    simp only [hp,Option.some.injEq] at h
    subst h
    have ready : p ∈ s.view.ready := by
      have := due (by simp [hp])
      rwa [(hs.pending (t := s.currentTask) hp).2.1] at this
    cases o with
    | sem i =>
      obtain ⟨hc,hv⟩ := resumeSemPend_core (s := s) i p w
      exact .woken hs links hp ready (by simp) hc (by rw [← hv]; rfl) (fun _ => rfl) fun _ => rfl
    | mutex i => exact resume_mutex hs links hp ready
    | mbox i =>
      obtain ⟨hc,hv⟩ := resumeMboxPend_core (s := s) i p w
      exact .woken hs links hp ready (by simp) hc hv (fun _ => rfl) fun _ => rfl
    | queue i =>
      obtain ⟨hc,hv⟩ := resumeQueuePend_core (s := s) .static i p w
      exact .woken hs links hp ready (by simp) hc hv (fun _ => rfl) fun _ => rfl
    | dqueue i =>
      obtain ⟨hc,hv⟩ := resumeQueuePend_core (s := s) .dynamic i p w
      exact .woken hs links hp ready (by simp) hc hv (fun _ => rfl) fun _ => rfl

theorem proceed_started {t : System cfg} (h : s.proceed = some t) : t.started = s.started := by
  unfold proceed at h
  split at h <;> simp only [Option.some.injEq,reduceCtorEq] at h
  · exact h ▸ rfl
  · exact h ▸ rfl

/-- Behind the rest of a service its task runs. -/
theorem proceed_point {t : System cfg} (h : s.proceed = some t) :
    t.point = Function.update s.point s.currentTask .run := by
  unfold proceed at h
  split at h <;> simp only [Option.some.injEq,reduceCtorEq] at h
  · exact h ▸ rfl
  · exact h ▸ rfl

theorem enter_started (who : Option ℕ) (c : Call) : (s.enter who c).started = s.started := by
  unfold enter
  split <;> rfl

@[simp] theorem changeContext_switchPending (k : Kernel cfg) :
    k.changeContext.switchPending = true := by
  simp [Kernel.switchPending,Kernel.changeContext,Kernel.interruptSwc]

theorem suspend_switchPending (k : Kernel cfg) (o : Obj) (w : ℕ) :
    (k.suspend o w).1.switchPending = true := changeContext_switchPending _

/-- A caller that does not return is a task, and it has requested a switch. -/
theorem serve_sleeps {c : Call} {p : Point} (h : (s.serve c).2 = .sleep p) :
    (s.serve c).1.switchPending = true ∧ c.fromIsr = false ∧
      (c.fromMain = true → s.currentTask ≠ 0) ∧ p.on = c.target ∧ c.suspends = true := by
  cases c with
  | semPend i w =>
    simp only [Kernel.serve,Kernel.osSemPend] at h ⊢
    split_ifs at h ⊢
    exact ⟨suspend_switchPending _ _ _,rfl,by simp [Call.fromMain],Reply.sleep.inj h ▸ rfl,rfl⟩
  | mboxPend i w =>
    simp only [Kernel.serve,Kernel.osMboxPend] at h ⊢
    split_ifs at h ⊢
    exact ⟨suspend_switchPending _ _ _,rfl,by simp [Call.fromMain],Reply.sleep.inj h ▸ rfl,rfl⟩
  | queuePend d i w =>
    simp only [Kernel.serve,Kernel.queuePend] at h ⊢
    split_ifs at h ⊢
    exact ⟨suspend_switchPending _ _ _,rfl,by simp [Call.fromMain],Reply.sleep.inj h ▸ rfl,rfl⟩
  | mutexAcquire i w =>
    simp only [Kernel.serve,Kernel.osMutexAcquire] at h ⊢
    split_ifs at h ⊢
    exact ⟨suspend_switchPending _ _ _,rfl,by simp [Call.fromMain],Reply.sleep.inj h ▸ rfl,rfl⟩
  | delayTask w =>
    simp only [Kernel.serve,Kernel.osDelayTask] at h ⊢
    by_cases h1 : 0 < s.iNesting
    · simp [h1] at h
    by_cases h2 : s.currentTask = 0
    · simp [h1,h2] at h
    by_cases h3 : w = 0
    · simp [h1,h2,h3] at h
    rw [if_neg h1,if_neg h2,if_neg h3] at h ⊢
    exact ⟨changeContext_switchPending _,rfl,fun _ => h2,Reply.sleep.inj h ▸ rfl,rfl⟩
  | install | blockPriority | unBlockPriority | blockTask | unBlockTask | blockMultipleTask
  | unBlockMultipleTask | queueClean => simp [Kernel.serve,Kernel.queueClean] at h
  | semCreate | semBinaryCreate | semDelete | semPost =>
    simp only [Kernel.serve,Kernel.osSemCreate,Kernel.osSemBinaryCreate,Kernel.osSemDelete,
      Kernel.osSemPost] at h
    repeat' split at h
    all_goals simp at h
  | mutexCreate | mutexDelete | mutexRelease =>
    simp only [Kernel.serve,Kernel.osMutexCreate,Kernel.osMutexDelete,Kernel.osMutexRelease] at h
    repeat' split at h
    all_goals simp at h
  | mboxCreate | mboxDelete | mboxPost =>
    simp only [Kernel.serve,Kernel.osMboxCreate,Kernel.osMboxDelete,Kernel.osMboxPost] at h
    repeat' split at h
    all_goals simp at h
  | queueCreate | dqueueCreate | dqueueDelete | queueWrite | queueRead | queuePost | dqueuePost =>
    simp only [Kernel.serve,Kernel.osQueueCreate,Kernel.osDQueueCreate,Kernel.osWQueue,
      Kernel.osDQueueDelete,Kernel.osRQueue,Kernel.osQueuePost,Kernel.osDQueuePost,
      Kernel.queuePost] at h
    repeat' split at h
    all_goals simp at h

/-- What a call from an interrupt leaves to the interrupted task. -/
structure Kept (k l : Kernel cfg) : Prop where
  contextTask : l.contextTask = k.contextTask
  ready {p : ℕ} : p ∈ bits k.osReadyList → p ∈ bits l.osReadyList
  pending : k.switchPending = true → l.switchPending = true

theorem Kept.core {k l m : Kernel cfg} (h : Kept k l) (hm : m.toCore = l.toCore)
    (hp : m.pendingInterrupts = l.pendingInterrupts) : Kept k m where
  contextTask := hm ▸ h.contextTask
  ready hr := hm ▸ h.ready hr
  pending := by
    simp only [Kernel.switchPending,hp]
    exact h.pending

theorem Kept.enter (k : Kernel cfg) : Kept k k.enterNesting :=
  Kept.core ⟨rfl,id,id⟩ (by simp) (by unfold Kernel.enterNesting; split_ifs <;> rfl)

theorem Kept.exit {k l : Kernel cfg} (h : Kept k l) : Kept k l.exitNesting :=
  h.core (by simp) (by unfold Kernel.exitNesting; split_ifs <;> rfl)

theorem Kept.wakeHighest {k l : Kernel cfg} (h : Kept k l) (o : Obj) : Kept k (l.wakeHighest o) where
  contextTask := h.contextTask
  ready hr := by
    simp only [Kernel.wakeHighest,Kernel.setReady,Kernel.unlist,Kernel.setEvent,mem_bits,
      BitVec.getLsbD_or,Bool.or_eq_true]
    exact Or.inl (mem_bits.mp (h.ready hr))
  pending := h.pending

theorem Kept.request {k l : Kernel cfg} (h : Kept k l) : Kept k l.changeContextUnnested where
  contextTask := by simp [h.contextTask]
  ready hr := by simpa using h.ready hr
  pending hp := by
    unfold Kernel.changeContextUnnested
    split_ifs
    · simp
    · exact h.pending hp

theorem Kept.setQueue {k l : Kernel cfg} (h : Kept k l) (d : Kernel.QueueKind) (i : ℕ)
    (q : OsQueue) : Kept k (l.setQueue d i q) := h.core (by simp) (by cases d <;> rfl)

theorem Kept.setSem {k l : Kernel cfg} (h : Kept k l) (i : ℕ) (f : BrtosSem → BrtosSem) :
    Kept k (l.setSem i f) := h.core rfl rfl

theorem Kept.setMbox {k l : Kernel cfg} (h : Kept k l) (i : ℕ) (f : BrtosMbox → BrtosMbox) :
    Kept k (l.setMbox i f) := h.core rfl rfl

theorem queuePost_kept (k : Kernel cfg) (d : Kernel.QueueKind) (i : ℕ) (bytes : List ℕ) :
    Kept k (k.queuePost d i bytes).1 := by
  have he := Kept.enter k
  simp only [Kernel.queuePost]
  split_ifs
  · exact he.exit
  · cases (k.enterNesting.queue d i).write bytes with
    | none => exact he.exit
    | some q =>
      dsimp only
      split_ifs
      · exact ((he.setQueue d i q).wakeHighest _).request.exit
      · exact (he.setQueue d i q).exit

/-- A service that interrupts may use leaves priorities alone and makes nobody unready. -/
theorem serve_kept {c : Call} (h : c.fromIsr = true) : Kept s.toKernel (s.serve c).1 := by
  have he := Kept.enter s.toKernel
  cases c with
  | unBlockPriority p =>
    have hb : Kept s.toKernel (s.enterNesting.clearBlocked p) := he.core rfl rfl
    simp only [Kernel.serve,Kernel.osUnBlockPriority]
    split_ifs
    · exact hb.request.exit
    · exact hb.exit
  | unBlockTask t =>
    have hb : Kept s.toKernel (s.enterNesting.clearBlocked (s.enterNesting.contextTask t).priority) :=
      he.core rfl rfl
    simp only [Kernel.serve,Kernel.osUnBlockTask]
    split_ifs
    · exact hb.request.exit
    · exact hb.exit
  | semPost i =>
    simp only [Kernel.serve,Kernel.osSemPost]
    split_ifs
    · exact he.exit
    · exact (he.wakeHighest _).request.exit
    · exact (he.setSem i _).exit
    · exact he.exit
  | mboxPost i m =>
    simp only [Kernel.serve,Kernel.osMboxPost]
    split_ifs
    · exact he.exit
    · exact ((he.wakeHighest (.mbox i)).setMbox i _).request.exit
    · exact (he.setMbox i _).exit
  | queueClean d i => exact (he.setQueue d i _).exit
  | queueWrite i b =>
    simp only [Kernel.serve,Kernel.osWQueue]
    cases (s.enterNesting.queue .static i).write [b] with
    | none => exact he.exit
    | some q => exact (he.setQueue .static i q).exit
  | queueRead i =>
    simp only [Kernel.serve,Kernel.osRQueue]
    split_ifs
    · exact (he.setQueue .static i _).exit
    · exact he.exit
  | queuePost i b => exact queuePost_kept _ .static i _
  | dqueuePost i pdata => exact queuePost_kept _ .dynamic i _
  | _ => simp [Call.fromIsr] at h

/-! ### The scheduler -/

/-- The task that the scheduler has to choose. -/
def Selected (s : System cfg) (t : ℕ) : Prop :=
  s.Installed t ∧
    ((s.view.prio t ∈ bits s.osReadyList ∩ bits s.osBlockedList ∧
        ∀ q ∈ bits s.osReadyList ∩ bits s.osBlockedList, q ≤ s.view.prio t) ∨
      (bits s.osReadyList ∩ bits s.osBlockedList = ∅ ∧ s.inst t = 0))

theorem idle_prio (hs : View.Sound cfg s.view) {t : ℕ} (ht : s.Installed t) (h0 : s.inst t = 0) :
    s.view.prio t = 0 := by
  rcases hs.level ht with h | ⟨m,hm,_⟩
  · exact h.trans h0
  · rw [(hs.idle ht h0).2] at hm
    simp at hm

theorem bits_eligible : bits (s.osReadyList &&& s.osBlockedList) =
    bits s.osReadyList ∩ bits s.osBlockedList := bits_and _ _

/-- While some task is eligible, the scheduler chooses the highest one. -/
theorem osSchedule_highest (hs : View.Sound cfg s.view)
    (hn : (bits s.osReadyList ∩ bits s.osBlockedList).Nonempty) : s.Installed s.osSchedule ∧
      s.view.prio s.osSchedule ∈ bits s.osReadyList ∩ bits s.osBlockedList ∧
      ∀ q ∈ bits s.osReadyList ∩ bits s.osBlockedList, q ≤ s.view.prio s.osSchedule := by
  rw [← bits_eligible] at hn ⊢
  simp only [Kernel.osSchedule,saScheduler_eq_highest]
  have hm := highest_mem hn
  have ready : highest (s.osReadyList &&& s.osBlockedList) ∈ s.view.ready := by
    rw [bits_eligible] at hm
    exact (Finset.mem_inter.mp hm).1
  obtain ⟨t,ht,hp⟩ := hs.ready ready
  have slot : s.priorityVector (highest (s.osReadyList &&& s.osBlockedList)) = t := hp ▸ hs.slot ht
  rw [slot,hp]
  exact ⟨ht,hm,fun q hq => le_highest hq⟩

theorem osSchedule_selected (hs : View.Sound cfg s.view) (idle : ∃ t, s.Installed t ∧ s.inst t = 0) :
    s.Selected s.osSchedule := by
  rcases Finset.eq_empty_or_nonempty (bits s.osReadyList ∩ bits s.osBlockedList) with he | hn
  · obtain ⟨t,ht,h0⟩ := idle
    have slot : s.priorityVector 0 = t := by
      have := hs.slot ht
      rwa [idle_prio hs ht h0] at this
    have first : s.osSchedule = t := by
      rw [← bits_eligible] at he
      simp only [Kernel.osSchedule,saScheduler_eq_highest]
      rw [highest_of_empty he,slot]
    rw [first]
    exact ⟨ht,Or.inr ⟨he,h0⟩⟩
  · obtain ⟨hi,hp⟩ := osSchedule_highest hs hn
    exact ⟨hi,Or.inl hp⟩

/-- A task that the scheduler has chosen is ready, or it is Idle. -/
theorem Selected.due {t : ℕ} (h : s.Selected t) (hs : View.Sound cfg s.view)
    (hp : s.point t ≠ .run) : s.view.prio t ∈ s.view.ready := by
  rcases h with ⟨ht,⟨hr,_⟩ | ⟨_,h0⟩⟩
  · exact (Finset.mem_inter.mp hr).1
  · exact absurd (hs.idle ht h0).1 hp

end System
end Brtos
