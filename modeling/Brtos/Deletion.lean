import Brtos.Waiting
import Brtos.Woken

/-! Suspended tasks and the deletion of events: as long as nothing is deleted under a task that is
inside a pend, every suspended task can still be woken, and only a post or a release wakes it. -/
namespace Brtos
open Bitmap

namespace View
variable {cfg : Config} {P : Policy} {v w : View}

/-- Every task that is suspended on an event is on its wait list or ready. -/
def Alert (v : View) : Prop := ∀ t p w o, v.point t = .pend o p w → p ∈ v.waiting o ∨ p ∈ v.ready

/-- A wait list that nobody is suspended on is cleared. -/
theorem Alert.clear (h : v.Alert) {o : Obj} (unused : v.Unattended o) (point : w.point = v.point)
    (waiting : w.waiting = Function.update v.waiting o ∅) (ready : w.ready = v.ready) : w.Alert := by
  intro t p x q ht
  rw [point] at ht
  have other : q ≠ o := by
    rintro rfl
    exact unused t p x ht
  rw [waiting,ready,Function.update_of_ne other]
  exact h t p x q ht

/-- A task runs on, and its priority leaves no list that another one is on. -/
theorem Alert.goOn (h : v.Alert) {t d : ℕ} : (v.goOn t d).Alert := by
  intro u p x o hu
  by_cases e : u = t
  · subst e
    simp [View.goOn] at hu
  · exact h u p x o (by simpa [View.goOn,Function.update_of_ne e] using hu)

/-- The priority of a suspended task is that of no other task. -/
theorem Sound.apart (hs : Sound cfg v) {t u p x : ℕ} {o : Obj} (inst : v.installed t)
    (hu : v.point u = .pend o p x) (other : u ≠ t) : p ≠ v.prio t := fun same =>
  other (hs.prio_inj (hs.pending hu).1 inst ((hs.pending hu).2.1.trans same))

theorem Sound.apart_run (hs : Sound cfg v) {t u p x : ℕ} {o : Obj} (inst : v.installed t)
    (run : v.point t = .run) (hu : v.point u = .pend o p x) : p ≠ v.prio t := by
  refine hs.apart inst hu ?_
  rintro rfl
  exact absurd (run.symm.trans hu) (by simp)

/-- A change of priority leaves the suspended tasks ready. -/
theorem Alert.changePrio (h : v.Alert) {t q : ℕ}
    (apart : ∀ u p x o, v.point u = .pend o p x → p ≠ v.prio t) : (v.changePrio t q).Alert := by
  intro u p x o hu
  refine (h u p x o hu).imp_right fun hr => ?_
  exact Finset.mem_insert_of_mem (Finset.mem_erase.mpr ⟨apart u p x o hu,hr⟩)

theorem Alert.lift (h : v.Alert) {t m : ℕ}
    (apart : ∀ u p x o, v.point u = .pend o p x → p ≠ v.prio t) : (v.lift t m).Alert := by
  unfold View.lift
  split_ifs
  · exact h.changePrio apart
  · exact h

theorem Alert.restore (h : v.Alert) {t m : ℕ}
    (apart : ∀ u p x o, v.point u = .pend o p x → p ≠ v.prio t) : (v.restore t m).Alert := by
  unfold View.restore
  split_ifs
  · exact h
  · exact h.changePrio apart

/-- A task goes off a wait list to the ready list. -/
theorem Alert.rouse (h : v.Alert) {o : Obj} {p : ℕ} (point : w.point = v.point)
    (waiting : w.waiting = Function.update v.waiting o ((v.waiting o).erase p))
    (ready : w.ready = insert p v.ready) : w.Alert := by
  intro u q x r hu
  rw [point] at hu
  rw [waiting,ready,Finset.mem_insert]
  by_cases e : q = p
  · exact Or.inr (Or.inl e)
  · refine (h _ _ _ _ hu).imp (fun hq => ?_) Or.inr
    by_cases same : r = o
    · subst same
      rw [Function.update_self]
      exact Finset.mem_erase.mpr ⟨e,hq⟩
    · rwa [Function.update_of_ne same]

theorem Alert.sleep (hs : Sound cfg v) (h : v.Alert) {t x d : ℕ} {o : Obj} (inst : v.installed t) :
    (v.sleep t o x d).Alert := by
  intro u p y q hu
  simp only [View.sleep] at hu ⊢
  by_cases e : u = t
  · subst e
    rw [Function.update_self] at hu
    obtain ⟨rfl,rfl,_⟩ := Point.pend.inj hu
    rw [Function.update_self]
    exact Or.inl (Finset.mem_insert_self _ _)
  · rw [Function.update_of_ne e] at hu
    refine (h _ _ _ _ hu).imp (fun hq => ?_) fun hr => Finset.mem_erase.mpr ⟨hs.apart inst hu e,hr⟩
    by_cases same : q = o
    · subst same
      rw [Function.update_self]
      exact Finset.mem_insert_of_mem hq
    · rwa [Function.update_of_ne same]

theorem Alert.nap (hs : Sound cfg v) (h : v.Alert) {t x d : ℕ} (inst : v.installed t) :
    (v.nap t x d).Alert := by
  intro u p y q hu
  simp only [View.nap] at hu ⊢
  by_cases e : u = t
  · subst e
    simp at hu
  · rw [Function.update_of_ne e] at hu
    exact (h _ _ _ _ hu).imp_right fun hr => Finset.mem_erase.mpr ⟨hs.apart inst hu e,hr⟩

theorem Alert.giveUp (hs : Sound cfg v) (h : v.Alert) {t p x : ℕ} {o : Obj}
    (point : v.point t = .pend o p x) : (v.giveUp t o p).Alert := by
  intro u q y r hu
  simp only [View.giveUp] at hu ⊢
  by_cases e : u = t
  · subst e
    simp at hu
  · rw [Function.update_of_ne e] at hu
    refine (h _ _ _ _ hu).imp_left fun hq => ?_
    by_cases same : r = o
    · subst same
      rw [Function.update_self]
      exact Finset.mem_erase.mpr ⟨fun he => e (hs.one point (he ▸ hu)),hq⟩
    · rwa [Function.update_of_ne same]

theorem Alert.keep (hs : Sound cfg v) (h : v.Alert) (hm : Move cfg P v w) : w.Alert := by
  cases hm with
  | enroll => exact fun _ _ _ _ hu => (h _ _ _ _ hu).imp_right Finset.mem_insert_of_mem
  | expire => exact fun _ _ _ _ hu => (h _ _ _ _ hu).imp_right Finset.mem_insert_of_mem
  | reserve => exact h
  | establish unused => exact h.clear unused rfl rfl rfl
  | abolish unused => exact h.clear unused rfl rfl rfl
  | abolishMutex unused => exact h.clear unused rfl rfl rfl
  | establishMutex unused =>
    exact h.clear (fun t p x ht => unused (hs.pending (t := t) ht).2.2) rfl rfl rfl
  | sleep inst => exact h.sleep hs inst
  | nap inst => exact h.nap hs inst
  | rouse => exact h.rouse rfl rfl rfl
  | goOn | wakeNap => exact h.goOn
  | giveUp point => exact h.giveUp hs point
  | @take t m inst _ run =>
    have gained : ((v.gain t m).save t m).Alert := h
    exact gained.lift fun _ _ _ _ hu => hs.apart_run inst run hu
  | @obtain t m p x d point =>
    have gained : (((v.goOn t d).gain t m).save t m).Alert := h.goOn (d := d)
    refine gained.lift fun u q y o hu => ?_
    by_cases e : u = t
    · subst e
      simp [View.save,View.gain,View.goOn] at hu
    · refine hs.apart (hs.pending point).1 (u := u) (o := o) (x := y) ?_ e
      simpa [View.save,View.gain,View.goOn,Function.update_of_ne e] using hu
  | @release t m run owns =>
    exact h.restore fun _ _ _ _ hu => hs.apart_run (hs.held_installed owns) run hu
  | @handOver t m p run owns =>
    have restored : (v.restore t m).Alert :=
      h.restore fun _ _ _ _ hu => hs.apart_run (hs.held_installed owns) run hu
    exact restored.rouse (o := .mutex m) (p := p) rfl (by simp [View.handOver]) rfl

/-- Releases go back to a priority of their caller, and no suspended task is lost. -/
theorem Policy.restoring_alert : Policy.restoring.Safe cfg Alert :=
  ⟨fun hs h hm => h.keep hs hm,fun _ _ _ h => h⟩

end View

/-- The event whose control block a call clears. -/
def Call.deletes : Call → Option Obj
  | .semDelete i => some (.sem i)
  | .mutexDelete i => some (.mutex i)
  | .mboxDelete i => some (.mbox i)
  | _ => none

namespace System
variable {cfg : Config} (s : System cfg)

/-- A deletion that leaves every task inside a pend on the event ready or in the delay list, and
that takes no task off the wait list which would find success when it runs again. -/
structure Harmless (t : System cfg) (o : Obj) : Prop where
  wake {u p w : ℕ} : t.point u = .pend o p w → p ∈ bits t.osReadyList ∨
    (t.contextTask u).timeToWait < cfg.tickCountOverflow
  woken : t.woken o = s.woken o

variable {s} {t : System cfg}

theorem alert_of_reaches (run : Reaches .restoring (init cfg) s) : s.Inv ∧ s.view.Alert := by
  have start : View.Alert (init cfg).view := by
    intro t p w o ht
    simp [view,Core.view,init] at ht
  obtain ⟨_,inv,alert⟩ := run.inv View.Policy.restoring_alert start init_inv
  exact ⟨inv,alert⟩

/-- A deletion clears the control block of its event. -/
theorem serve_deletes {c : Call} {o : Obj} (del : c.deletes = some o) {code : ℕ} {data : List ℕ}
    (reply : (s.serve c).2 = .ret code data) (done : code = deleteEventOk) :
    ((s.serve c).1.event o).osEventWaitList = 0#_ ∧ (s.serve c).1.osReadyList = s.osReadyList := by
  subst done
  cases c with
  | semDelete | mutexDelete | mboxDelete =>
    obtain rfl := Option.some.inj del
    simp only [Kernel.serve,Kernel.osSemDelete,Kernel.osMutexDelete,Kernel.osMboxDelete] at reply ⊢
    split_ifs at reply ⊢
    · simp [irqPendErr,deleteEventOk] at reply
    · simp [Kernel.freeEvent,Kernel.setEvent,Kernel.setMutex]
  | _ => simp [Call.deletes] at del

/-- A pend that returns OK when its task runs again has not found the task on the wait list. -/
theorem resumePend_ok (o : Obj) {p w : ℕ} (done : (s.resumePend o p w).2.1 = ok) :
    (s.osEnterCritical.wakeUp o p w).2 = false := by
  cases o with
  | sem i =>
    simp only [Kernel.resumePend,Kernel.resumeSemPend] at done
    split_ifs at done with h0 late
    · simp [Kernel.wakeUp,h0]
    · simp [timeout,ok] at done
    · simpa using late
  | mutex i =>
    simp only [Kernel.resumePend,Kernel.resumeMutexAcquire] at done
    split_ifs at done with late
    · simp [exitByNoResourceAvailable,ok] at done
    · simpa using late
  | mbox i =>
    simp only [Kernel.resumePend,Kernel.resumeMboxPend] at done
    split_ifs at done with late
    · simp [timeout,ok] at done
    · simpa using late
  | queue i | dqueue i =>
    simp only [Kernel.resumePend,Kernel.resumeQueuePend] at done
    split_ifs at done with late
    · simp [timeout,ok] at done
    · exact (Bool.not_eq_true _).mp late

/-- Clearing the wait list spares the tasks inside a pend exactly when nobody is on it. -/
theorem harmless_iff (hs : View.Sound cfg s.view) (alert : s.view.Alert) {o : Obj}
    (point : t.point = s.point) (cleared : (t.event o).osEventWaitList = 0#_)
    (ready : t.osReadyList = s.osReadyList) :
    s.Harmless t o ↔ (s.event o).osEventWaitList = 0#_ := by
  have list : bits (t.event o).osEventWaitList = ∅ := by simp [cleared]
  constructor
  · intro h
    by_contra hne
    obtain ⟨p,hp⟩ := Finset.nonempty_iff_ne_empty.mpr (mt bits_eq_empty.mp hne)
    obtain ⟨u,w,hu⟩ := hs.waits (o := o) hp
    have mem : u ∈ t.woken o := View.mem_wokenBy.mpr ⟨hs.small hu,p,w,point ▸ hu,by simp [list]⟩
    rw [h.woken] at mem
    obtain ⟨_,q,x,hq,far⟩ := View.mem_wokenBy.mp mem
    obtain ⟨_,rfl,_⟩ := Point.pend.inj (hq.symm.trans hu)
    exact far hp
  · intro empty
    refine ⟨fun {u p w} hu => Or.inl ?_,?_⟩
    · rw [point] at hu
      have hr := (alert u p w o hu).resolve_left (by simp [view,Core.view,empty])
      rwa [ready]
    · simp only [System.woken,point,list,empty,bits_zero]

/-- A task is woken only by a post or a release that succeeds. -/
theorem woken_of_run {o : Obj} {u : ℕ} (inv : s.Inv) (alert : s.view.Alert)
    (run : Reaches .restoring s t) (old : u ∉ s.woken o) : ∃ recent, t.log = recent ++ s.log ∧
      (u ∈ t.woken o → ∃ r ∈ recent, r.call.wakes = some o ∧ r.code = ok) := by
  induction run with
  | refl => exact ⟨[],rfl,fun new => absurd new old⟩
  | @tail v w a run met next ih =>
    have begun : Reaches .restoring s v := run
    obtain ⟨_,inv',_⟩ := begun.inv View.Policy.restoring_alert alert inv
    obtain ⟨recent,log,woke⟩ := ih
    have past : u ∈ v.woken o → ∀ more, ∃ r ∈ more ++ recent, r.call.wakes = some o ∧ r.code = ok :=
      fun before more => by
        obtain ⟨r,mem,hr⟩ := woke before
        exact ⟨r,List.mem_append_right _ mem,hr⟩
    rcases step_log next with same | ⟨x,more,_⟩
    · refine ⟨recent,same.trans log,fun new => ?_⟩
      by_cases before : u ∈ v.woken o
      · exact past before []
      · obtain ⟨r,more,_⟩ := woken_step inv' met next before new
        exact absurd (more.symm.trans same) (List.cons_ne_self _ _)
    · refine ⟨x :: recent,more.trans (congrArg _ log),fun new => ?_⟩
      by_cases before : u ∈ v.woken o
      · exact past before [x]
      · obtain ⟨r,more',hr⟩ := woken_step inv' met next before new
        obtain ⟨rfl,_⟩ := List.cons.inj (more.symm.trans more')
        exact ⟨x,List.mem_cons_self,hr⟩

/-- In every run that deletes nothing under a task inside a pend, and whose releases go back to a
priority of their caller, every suspended task is ready or on the wait list of an event that exists;
a pend that returns OK behind ChangeContext has been woken, and only posts and releases wake. A
deletion spares the tasks inside a pend on its event exactly when the wait list is empty. -/
theorem spared_of_reaches (run : Reaches .restoring (init cfg) s) :
    (∀ {u p w : ℕ} {o : Obj}, s.point u = .pend o p w →
      s.Created o ∧ p ∈ bits (s.event o).osEventWaitList ∨ p ∈ bits s.osReadyList) ∧
    (∀ {t : System cfg} {p w : ℕ} {o : Obj}, s.step .resume = some t →
      s.point s.currentTask = .pend o p w → ∃ r, t.log = r :: s.log ∧ r.call = o.pendCall w ∧
        (r.code = ok → s.currentTask ∈ s.woken o)) ∧
    (∀ {t : System cfg} {u : ℕ} {o : Obj}, Reaches .restoring s t → u ∉ s.woken o →
      ∃ recent, t.log = recent ++ s.log ∧
        (u ∈ t.woken o → ∃ r ∈ recent, r.call.wakes = some o ∧ r.code = ok)) ∧
    ∀ {c : Call} {t : System cfg} {o : Obj} {data : List ℕ}, c.deletes = some o →
      (s.serve c).2 = .ret deleteEventOk data → s.step (.call c) = some t →
        (s.Harmless t o ↔ (s.event o).osEventWaitList = 0#_) := by
  obtain ⟨inv,alert⟩ := alert_of_reaches run
  refine ⟨fun {u p w o} hu => ?_,fun {t p w o} next point => ?_,
    fun later old => woken_of_run inv alert later old,fun {c t o data} del reply next => ?_⟩
  · exact (alert u p w o hu).imp_left fun hp => ⟨(inv.sound.pending (t := u) hu).2.2,hp⟩
  · simp only [step] at next
    split_ifs at next with running
    have moved := proceed_point next
    have event := proceed_event point next
    have woken := woken_resume inv.sound point (inv.due_pend running point) moved event
    unfold proceed at next
    simp only [point,Option.some.injEq] at next
    subst next
    refine ⟨_,rfl,rfl,fun done => ?_⟩
    rw [resumePend_ok o done] at woken
    exact woken.1
  · simp only [step] at next
    split_ifs at next
    obtain rfl := Option.some.inj next
    obtain ⟨cleared,ready⟩ := serve_deletes del reply rfl
    rw [enter_ret reply]
    exact harmless_iff inv.sound alert rfl cleared ready

/-- A task waits for a semaphore, is woken by a post, returns OK, and the semaphore is deleted. -/
theorem spared_run : ∃ s t : System .port, s.step (.call (.semDelete 0)) = some t ∧
    s.Harmless t (.sem 0) ∧ s.log.any (fun r => r.call == .semPend 0 0 && r.code == ok) = true := by
  obtain ⟨s,run,⟨code,empty,log⟩,next⟩ := Run.exists_reach_of_exec step
    (fun s a => s.Allowed .restoring a) (init .port)
    (wakingRun ++ [.call (.semPost 0),.switch,.resume])
    (fun s => ((s.serve (.semDelete 0)).2 = .ret deleteEventOk [] ∧
      (s.event (.sem 0)).osEventWaitList = 0#_ ∧
      s.log.any (fun r => r.call == .semPend 0 0 && r.code == ok) = true) ∧
      (s.step (.call (.semDelete 0))).isSome = true) (by decide +kernel)
  obtain ⟨t,ht⟩ := Option.isSome_iff_exists.mp next
  obtain ⟨_,_,_,spares⟩ := spared_of_reaches run
  exact ⟨s,t,ht,(spares rfl code ht).mpr empty,log⟩

/-- A task that waits without a limit stays suspended for good when the semaphore is deleted; one
that waits for two ticks returns OK although nothing was posted. -/
theorem spared_fails :
    (∃ s t : System .port, Run.Reach step (fun _ _ => True) (init .port) s ∧
      s.step (.call (.semDelete 0)) = some t ∧ s.point 2 = .pend (.sem 0) 4 0 ∧
      t.point 2 = .pend (.sem 0) 4 0 ∧ bits (t.event (.sem 0)).osEventWaitList = ∅ ∧
      (t.event (.sem 0)).osEventAllocated = 0 ∧ t.head = none ∧ 4 ∉ bits t.osReadyList) ∧
    ∃ s : System .port, Run.Reach step (fun _ _ => True) (init .port) s ∧
      s.log.any (fun r => r.call == .semPend 0 2 && r.code == ok) = true ∧
      s.log.all (fun r => r.call != .semPost 0) = true := by
  refine ⟨?_,?_⟩
  · obtain ⟨s,run,t,next,h⟩ := Run.exists_reach_of_exec step (fun _ _ => True) (init .port) wakingRun
      (fun s => ∃ t ∈ s.step (.call (.semDelete 0)), s.point 2 = .pend (.sem 0) 4 0 ∧
        t.point 2 = .pend (.sem 0) 4 0 ∧ bits (t.event (.sem 0)).osEventWaitList = ∅ ∧
        (t.event (.sem 0)).osEventAllocated = 0 ∧ t.head = none ∧ 4 ∉ bits t.osReadyList)
      (by decide +kernel)
    exact ⟨s,t,run,next,h⟩
  · exact Run.exists_reach_of_exec _ _ _
      [.main (.install (.user 1) 16 3),.main (.install (.user 2) 16 4),.main (.semCreate 0),.start,
        .call (.semPend 0 2),.switch,.call (.semDelete 0),.isrEnter,.isrTick 2,.isrTick 2,.isrExit,
        .resume] _ (by decide +kernel)

end System
end Brtos
