import Brtos.Locality

/-! The tasks that a post or a release has taken off a wait list and that have not run since. -/
namespace Brtos
open Bitmap

/-- The task is suspended on the event and no longer on its wait list. -/
def Point.Off (o : Obj) (waiting : Finset ℕ) : Point → Prop
  | .pend q p _ => q = o ∧ p ∉ waiting
  | _ => False

instance (o : Obj) (waiting : Finset ℕ) (p : Point) : Decidable (p.Off o waiting) := by
  unfold Point.Off
  split <;> infer_instance

theorem Point.off_iff {o : Obj} {waiting : Finset ℕ} {x : Point} :
    x.Off o waiting ↔ ∃ p w, x = .pend o p w ∧ p ∉ waiting := by
  unfold Point.Off
  split
  · constructor
    · rintro ⟨rfl,h⟩
      exact ⟨_,_,rfl,h⟩
    · rintro ⟨p,w,h,hp⟩
      obtain ⟨rfl,rfl,rfl⟩ := Point.pend.inj h
      exact ⟨rfl,hp⟩
  · rename_i far
    exact ⟨False.elim,fun ⟨p,w,h,_⟩ => far _ _ _ h⟩

/-- Handles end at 32. -/
def wokenBy (point : ℕ → Point) (o : Obj) (waiting : Finset ℕ) : Finset ℕ :=
  (Finset.range 33).filter fun t => (point t).Off o waiting

namespace View
variable {cfg : Config} {v : View}

theorem mem_wokenBy {point : ℕ → Point} {o : Obj} {waiting : Finset ℕ} {t : ℕ} :
    t ∈ wokenBy point o waiting ↔ t < 33 ∧ ∃ p w, point t = .pend o p w ∧ p ∉ waiting := by
  simp only [wokenBy,Finset.mem_filter,Finset.mem_range,Point.off_iff]

theorem Sound.small (hs : Sound cfg v) {t p w : ℕ} {o : Obj} (ht : v.point t = .pend o p w) : t < 33 := by
  have := (hs.handle (hs.pending ht).1).2
  omega

/-- Two tasks suspended at one priority are one. -/
theorem Sound.one (hs : Sound cfg v) {t u p w x : ℕ} {o q : Obj} (ht : v.point t = .pend o p w)
    (hu : v.point u = .pend q p x) : u = t :=
  hs.prio_inj (hs.pending hu).1 (hs.pending ht).1
    ((hs.pending hu).2.1.trans (hs.pending ht).2.1.symm)

/-- A post or a release takes a task off the list. -/
theorem wokenBy_erase (hs : Sound cfg v) {t p w : ℕ} {o : Obj} (ht : v.point t = .pend o p w)
    (hp : p ∈ v.waiting o) : t ∉ wokenBy v.point o (v.waiting o) ∧
      wokenBy v.point o ((v.waiting o).erase p) = insert t (wokenBy v.point o (v.waiting o)) := by
  refine ⟨fun h => ?_,?_⟩
  · obtain ⟨_,q,x,hq,far⟩ := mem_wokenBy.mp h
    obtain ⟨_,rfl,_⟩ := Point.pend.inj (ht.symm.trans hq)
    exact far hp
  · ext u
    simp only [Finset.mem_insert,mem_wokenBy,Finset.mem_erase,not_and]
    constructor
    · rintro ⟨hu,q,x,hq,far⟩
      by_cases e : q = p
      · subst e
        exact Or.inl (hs.one ht hq)
      · exact Or.inr ⟨hu,q,x,hq,far e⟩
    · rintro (rfl | ⟨hu,q,x,hq,far⟩)
      · exact ⟨hs.small ht,p,w,ht,fun h => absurd rfl h⟩
      · exact ⟨hu,q,x,hq,fun _ => far⟩

/-- A task goes to sleep on the event. -/
theorem wokenBy_sleep (hs : Sound cfg v) {t w : ℕ} {o : Obj} (inst : v.installed t)
    (run : v.point t = .run) :
    wokenBy (Function.update v.point t (.pend o (v.prio t) w)) o (insert (v.prio t) (v.waiting o)) =
      wokenBy v.point o (v.waiting o) := by
  ext u
  simp only [mem_wokenBy,Finset.mem_insert,not_or]
  refine and_congr_right fun hu => ?_
  by_cases e : u = t
  · subst e
    simp only [Function.update_self,run,reduceCtorEq,false_and,exists_false,iff_false]
    rintro ⟨p,x,h,hne,_⟩
    obtain ⟨_,rfl,_⟩ := Point.pend.inj h
    exact hne rfl
  · simp only [Function.update_of_ne e]
    constructor
    · rintro ⟨p,x,h,_,far⟩
      exact ⟨p,x,h,far⟩
    · rintro ⟨p,x,h,far⟩
      refine ⟨p,x,h,fun hp => e ?_,far⟩
      exact hs.prio_inj (hs.pending h).1 inst ((hs.pending h).2.1.trans hp)

/-- A task runs again after its timeout. -/
theorem wokenBy_giveUp (hs : Sound cfg v) {t p w : ℕ} {o : Obj} (ht : v.point t = .pend o p w)
    (hp : p ∈ v.waiting o) :
    wokenBy (Function.update v.point t .run) o ((v.waiting o).erase p) =
      wokenBy v.point o (v.waiting o) := by
  ext u
  simp only [mem_wokenBy,Finset.mem_erase,not_and]
  refine and_congr_right fun hu => ?_
  by_cases e : u = t
  · subst e
    simp only [Function.update_self,reduceCtorEq,false_and,exists_false,false_iff]
    rintro ⟨q,x,h,far⟩
    obtain ⟨_,rfl,_⟩ := Point.pend.inj (ht.symm.trans h)
    exact far hp
  · simp only [Function.update_of_ne e]
    constructor
    · rintro ⟨q,x,h,far⟩
      exact ⟨q,x,h,far fun hq => e (hs.one ht (hq ▸ h))⟩
    · rintro ⟨q,x,h,far⟩
      exact ⟨q,x,h,fun _ => far⟩

/-- A woken task runs again. -/
theorem wokenBy_goOn (hs : Sound cfg v) {t p w : ℕ} {o : Obj} (ht : v.point t = .pend o p w)
    (hp : p ∉ v.waiting o) : t ∈ wokenBy v.point o (v.waiting o) ∧
      wokenBy (Function.update v.point t .run) o (v.waiting o) =
        (wokenBy v.point o (v.waiting o)).erase t := by
  refine ⟨mem_wokenBy.mpr ⟨hs.small ht,p,w,ht,hp⟩,?_⟩
  ext u
  simp only [mem_wokenBy,Finset.mem_erase]
  by_cases e : u = t
  · subst e
    simp
  · simp only [Function.update_of_ne e,ne_eq,e,not_false_iff,true_and]

end View

namespace System
variable {cfg : Config} (s : System cfg) (o : Obj)

/-- The tasks that have been taken off the wait list of an event and have not run since. -/
def woken : Finset ℕ := wokenBy s.point o (bits (s.event o).osEventWaitList)

variable {s o} {t : System cfg}

theorem Apart.event (h : s.Apart o t) : t.event o = s.event o := congrArg Prod.fst h.cell

theorem Apart.woken (h : s.Apart o t) : t.woken o = s.woken o := by
  ext u
  simp only [System.woken,View.mem_wokenBy,h.event,h.point]

theorem woken_of_quiet (h : ∀ t p w, s.point t ≠ .pend o p w) : s.woken o = ∅ := by
  ext u
  simp only [System.woken,View.mem_wokenBy,Finset.notMem_empty,iff_false]
  rintro ⟨_,p,w,hp,_⟩
  exact h u p w hp

/-- A post that finds a task waiting takes one more off the list. -/
theorem woken_of_wakes (hs : View.Sound cfg s.view) (wait : (s.event o).osEventWait ≠ 0)
    (core : t.toCore = (s.wakeHighest o).toCore) (point : t.point = s.point) :
    ∃ u, u ∉ s.woken o ∧ t.woken o = insert u (s.woken o) := by
  have some_ : (s.view.waiting o).Nonempty := by
    rw [← Finset.card_pos,← hs.count o]
    exact Nat.pos_of_ne_zero wait
  have top := s.highestWaiting_isTop s.point s.inst s.held o some_
  have left : bits (t.event o).osEventWaitList = (s.view.waiting o).erase (s.highestWaiting o) := by
    rw [core]
    have woke := s.wakeHighest_view s.point s.inst s.held o some_
    exact (congrFun (congrArg View.waiting woke) o).trans (Function.update_self _ _ _)
  obtain ⟨u,w,hu,_,_⟩ := hs.waiter top.1
  obtain ⟨far,grown⟩ := View.wokenBy_erase hs hu top.1
  refine ⟨u,far,?_⟩
  rw [System.woken,point,left]
  exact grown

/-- A task that goes to sleep has not been woken. -/
theorem woken_suspend (hs : View.Sound cfg s.view) (caller : s.Caller) {k : Kernel cfg}
    (core : k.toCore = s.toCore) (vital : k.vital = s.vital) (w : ℕ) :
    (({ s with toKernel := (k.suspend o w).1 } : System cfg).setPoint s.currentTask
      (.pend o s.currentPriority w)).woken o = s.woken o := by
  have current : k.currentTask = s.currentTask := Kernel.currentTask_of_vital vital
  have prio : k.currentPriority = s.currentPriority := by
    simp only [Kernel.currentPriority,current,core]
  have lt : k.currentPriority < cfg.width := prio ▸ hs.prio_lt (t := s.currentTask) caller.inst
  have slept := k.suspend_view s.point s.inst s.held o w lt
  rw [current,prio,core] at slept
  have grown : bits ((k.suspend o w).1.event o).osEventWaitList =
      insert (s.view.prio s.currentTask) (s.view.waiting o) :=
    (congrFun (congrArg View.waiting slept) o).trans (Function.update_self _ _ _)
  exact (congrArg _ grown).trans (View.wokenBy_sleep hs caller.inst caller.run)

/-- A task that runs again either has timed out on the list, or it has been woken. -/
theorem woken_resume (hs : View.Sound cfg s.view) {p w : ℕ}
    (point : s.point s.currentTask = .pend o p w) (due : p ∈ s.view.ready)
    (next : t.point = Function.update s.point s.currentTask .run)
    (event : t.event o = (s.osEnterCritical.wakeUp o p w).1.event o) :
    if (s.osEnterCritical.wakeUp o p w).2 then s.currentTask ∉ s.woken o ∧ t.woken o = s.woken o
    else s.currentTask ∈ s.woken o ∧ t.woken o = (s.woken o).erase s.currentTask := by
  have pending := hs.pending (t := s.currentTask) point
  have lt : p < cfg.width := pending.2.1 ▸ hs.prio_lt pending.1
  split_ifs with late
  · have left := s.osEnterCritical.wakeUp_view_true s.point s.inst s.held lt late
    have waits := ((s.osEnterCritical.wakeUp_late s.point s.inst s.held lt).mp late).2.2
    have list : bits (t.event o).osEventWaitList = (s.view.waiting o).erase p := by
      rw [event]
      exact (congrFun (congrArg View.waiting left) o).trans (Function.update_self _ _ _)
    refine ⟨fun h => ?_,?_⟩
    · obtain ⟨_,q,x,hq,far⟩ := View.mem_wokenBy.mp h
      obtain ⟨_,rfl,_⟩ := Point.pend.inj (point.symm.trans hq)
      exact far waits
    · rw [System.woken,next,list]
      exact View.wokenBy_giveUp hs point waits
  · have early : (s.osEnterCritical.wakeUp o p w).2 = false := by simpa using late
    have left := s.osEnterCritical.wakeUp_view_false s.point s.inst s.held early
    have list : bits (t.event o).osEventWaitList = s.view.waiting o := by
      rw [event]
      exact congrFun (congrArg View.waiting left) o
    obtain ⟨mem,gone⟩ := View.wokenBy_goOn hs point (selected_of_wakeUp hs point due early)
    refine ⟨mem,?_⟩
    rw [System.woken,next,list]
    exact gone

/-! ### What takes a task off a wait list -/

theorem woken_of_event (event : t.event o = s.event o) (point : t.point = s.point) :
    t.woken o = s.woken o := by
  simp only [System.woken,event,point]

/-- A call that does not return to the event's user suspends its caller there. -/
theorem serve_suspends {c : Call} {p : Point} (reply : (s.serve c).2 = .sleep p)
    (touches : s.Touches o c) : ∃ w, (s.serve c).1 = (s.osEnterCritical.suspend o w).1 ∧
      p = .pend o s.currentPriority w := by
  cases c with
  | semPend i w =>
    obtain rfl := touches
    simp only [Kernel.serve,Kernel.osSemPend] at reply ⊢
    split_ifs at reply ⊢
    exact ⟨w,rfl,(Reply.sleep.inj reply).symm⟩
  | mboxPend i w =>
    obtain rfl := touches
    simp only [Kernel.serve,Kernel.osMboxPend] at reply ⊢
    split_ifs at reply ⊢
    exact ⟨w,rfl,(Reply.sleep.inj reply).symm⟩
  | queuePend d i w =>
    obtain rfl := touches
    simp only [Kernel.serve,Kernel.queuePend] at reply ⊢
    split_ifs at reply ⊢
    exact ⟨w,rfl,(Reply.sleep.inj reply).symm⟩
  | mutexAcquire i w =>
    obtain rfl := touches
    simp only [Kernel.serve,Kernel.osMutexAcquire] at reply ⊢
    split_ifs at reply ⊢
    exact ⟨w,rfl,(Reply.sleep.inj reply).symm⟩
  | semCreate | semBinaryCreate | mutexCreate | mboxCreate | queueCreate | dqueueCreate =>
    simp only [Kernel.serve,Kernel.osSemCreate,Kernel.osSemBinaryCreate,Kernel.osMutexCreate,
      Kernel.osMboxCreate,Kernel.osQueueCreate,Kernel.osDQueueCreate] at reply
    repeat' split at reply
    all_goals simp at reply
  | semDelete | mutexDelete | mboxDelete | dqueueDelete =>
    simp only [Kernel.serve,Kernel.osSemDelete,Kernel.osMutexDelete,Kernel.osMboxDelete,
      Kernel.osDQueueDelete] at reply
    split_ifs at reply
  | mutexRelease i =>
    simp only [Kernel.serve,Kernel.osMutexRelease] at reply
    split_ifs at reply
  | semPost | mboxPost | queueClean | queueWrite | queueRead | queuePost | dqueuePost =>
    simpa [Call.fromIsr] using (serve_sleeps reply).2.1
  | _ => exact touches.elim

theorem raise_event (k : Kernel cfg) (i p : ℕ) : (k.raise i p).event = k.event := by
  simp only [Kernel.raise]
  split_ifs <;> rfl

theorem queuePost_event (k : Kernel cfg) (d : Kernel.QueueKind) (i : ℕ) (bytes : List ℕ) (o : Obj) :
    (k.queuePost d i bytes).1.event o = k.event o ∨
      (k.queuePost d i bytes).2 = .ret writeBufferOk [] := by
  simp only [Kernel.queuePost]
  split_ifs
  · exact Or.inl (by simp)
  · cases (k.enterNesting.queue d i).write bytes with
    | none => exact Or.inl (by simp)
    | some q =>
      right
      dsimp only
      split_ifs <;> rfl

/-- A call that returns leaves a wait list alone, nobody is suspended there, or the call is a post
or a release that has succeeded. Posts need no contract for this. -/
theorem serve_event (hs : View.Sound cfg s.view) {c : Call} (legal : c.wakes = none → s.Legal c) {code : ℕ}
    {data : List ℕ} (reply : (s.serve c).2 = .ret code data) :
    (s.serve c).1.event o = s.event o ∨ s.view.Unattended o ∨ c.wakes = some o ∧ code = ok := by
  by_cases touches : s.Touches o c
  swap
  · exact Or.inl (Kernel.event_of_cell (Kernel.serve_cell touches))
  have fresh : ∀ {obj : ℕ → Obj} {max i : ℕ}, (obj i).onHeap = false →
      s.findEvent obj max = some i → s.view.Unattended (obj i) := fun heap found t p w ht => by
    rcases (hs.pending ht).2.2 with hc | hc
    · simp [heap] at hc
    · exact findEvent_free found hc
  cases c with
  | semCreate | semBinaryCreate | mutexCreate | mboxCreate | queueCreate =>
    obtain ⟨i,found,rfl⟩ := touches
    exact Or.inr (Or.inl (fresh rfl found))
  | dqueueCreate a l t =>
    obtain ⟨i,found,rfl⟩ := touches
    exact Or.inr (Or.inl (unattended_of_quiet hs ((legal rfl).2 i found)))
  | semDelete | mboxDelete =>
    obtain rfl := touches
    exact Or.inr (Or.inl (unattended_of_quiet hs (legal rfl).2))
  | mutexDelete =>
    obtain rfl := touches
    exact Or.inr (Or.inl (unattended_of_quiet hs (legal rfl).2.1))
  | dqueueDelete =>
    obtain rfl := touches
    exact Or.inr (Or.inl (unattended_of_quiet hs (legal rfl)))
  | semPend | mboxPend | queuePend =>
    left
    simp only [Kernel.serve,Kernel.osSemPend,Kernel.osMboxPend,Kernel.queuePend] at reply ⊢
    split_ifs at reply ⊢ <;> simp [Kernel.suspend,Kernel.takeMail] at reply ⊢
  | mutexAcquire i w =>
    left
    simp only [Kernel.serve,Kernel.osMutexAcquire] at reply ⊢
    split_ifs at reply ⊢
    · rfl
    · rfl
    · rfl
    · exact congrFun (raise_event _ _ _) o
    · rfl
    · simp [Kernel.suspend] at reply
  | queueClean | queueWrite | queueRead =>
    left
    simp only [Kernel.serve,Kernel.queueClean,Kernel.osWQueue,Kernel.osRQueue]
    repeat' split
    all_goals simp
  | semPost i =>
    obtain rfl := touches
    simp only [Kernel.serve,Kernel.osSemPost] at reply ⊢
    split_ifs at reply ⊢
    · exact Or.inl (by simp)
    · exact Or.inr (Or.inr ⟨rfl,(Reply.ret.inj reply).1.symm⟩)
    · exact Or.inl (by simp)
    · exact Or.inl (by simp)
  | mboxPost i m =>
    obtain rfl := touches
    simp only [Kernel.serve,Kernel.osMboxPost] at reply ⊢
    split_ifs at reply ⊢
    · exact Or.inl (by simp)
    · exact Or.inr (Or.inr ⟨rfl,(Reply.ret.inj reply).1.symm⟩)
    · exact Or.inl (by simp)
  | queuePost | dqueuePost =>
    obtain rfl := touches
    refine (queuePost_event _ _ _ _ _).imp_right fun posted => Or.inr ⟨rfl,?_⟩
    exact (Reply.ret.inj (reply.symm.trans posted)).1
  | mutexRelease i =>
    obtain rfl := touches
    simp only [Kernel.serve,Kernel.osMutexRelease] at reply ⊢
    split_ifs at reply ⊢
    · exact Or.inl rfl
    · exact Or.inl rfl
    · exact Or.inl rfl
    · exact Or.inr (Or.inr ⟨rfl,(Reply.ret.inj reply).1.symm⟩)
    · exact Or.inr (Or.inr ⟨rfl,(Reply.ret.inj reply).1.symm⟩)
  | _ => exact touches.elim

/-- The owed tasks of an event are those before the call, unless a post or a release has succeeded. -/
theorem woken_enter (hs : View.Sound cfg s.view) {c : Call} (legal : c.wakes = none → s.Legal c)
    {who : Option ℕ}
    (caller : ∀ p, (s.serve c).2 = .sleep p → s.Caller) {u : ℕ} (old : u ∉ s.woken o)
    (new : u ∈ (s.enter who c).woken o) :
    c.wakes = some o ∧ ∃ r, (s.enter who c).log = r :: s.log ∧ r.call = c ∧ r.code = ok := by
  by_cases touches : s.Touches o c
  swap
  · have apart := enter_apart who touches fun p hp => (caller p hp).run
    exact absurd (apart.woken ▸ new) old
  cases reply : (s.serve c).2 with
  | ret code data =>
    rw [enter_ret reply] at new ⊢
    rcases serve_event hs (o := o) legal reply with same | quiet | ⟨wakes,success⟩
    · exact absurd (woken_of_event (s := s) (t := s.returned who c _ code data) same rfl ▸ new) old
    · rw [woken_of_quiet (s := s.returned who c _ code data) quiet] at new
      simp at new
    · exact ⟨wakes,_,rfl,rfl,success⟩
  | sleep p =>
    rw [enter_sleep reply] at new
    obtain ⟨w,kernel,rfl⟩ := serve_suspends reply touches
    rw [kernel] at new
    have same := woken_suspend (o := o) hs (caller _ reply) (k := s.osEnterCritical) rfl (by simp) w
    exact absurd (same ▸ new) old

/-- Behind ChangeContext a pend does to its wait list what the test of its wake-up does. -/
theorem resumePend_event (o : Obj) (p w : ℕ) :
    (s.resumePend o p w).1.event = (s.osEnterCritical.wakeUp o p w).1.event := by
  cases o with
  | sem i => exact congrArg Core.event (resumeSemPend_core i p w).1
  | mbox i => exact congrArg Core.event (resumeMboxPend_core i p w).1
  | queue i => exact congrArg Core.event (resumeQueuePend_core .static i p w).1
  | dqueue i => exact congrArg Core.event (resumeQueuePend_core .dynamic i p w).1
  | mutex i =>
    simp only [Kernel.resumePend,Kernel.resumeMutexAcquire]
    split_ifs
    · rfl
    · exact raise_event _ _ _

theorem proceed_event (point : s.point s.currentTask = .pend o p w) (next : s.proceed = some t) :
    t.event o = (s.osEnterCritical.wakeUp o p w).1.event o := by
  unfold proceed at next
  simp only [point,Option.some.injEq] at next
  rw [← next]
  exact congrFun (resumePend_event o p w) o

theorem Inv.due_pend (h : s.Inv) (running : s.Running) {p w : ℕ}
    (point : s.point s.currentTask = .pend o p w) : p ∈ s.view.ready := by
  have ready := h.due running.1 running.2.2 (by simp [point])
  rwa [(h.sound.pending (t := s.currentTask) point).2.1] at ready

theorem created_of_event (h : s.Created o) (event : t.event o = s.event o) : t.Created o :=
  h.imp_right fun hc => by
    rw [event]
    exact hc

theorem created_of_allocated {o : Obj} (h : s.Created o)
    (same : (t.event o).osEventAllocated = (s.event o).osEventAllocated) : t.Created o :=
  h.imp_right same.trans

/-- Only a post or a release on an event that succeeds takes a task off its wait list. -/
theorem woken_step {P : View.Policy} (inv : s.Inv) {a : Action} (ok' : s.Allowed P a)
    (next : s.step a = some t) {u : ℕ} (old : u ∉ s.woken o) (new : u ∈ t.woken o) :
    ∃ r, t.log = r :: s.log ∧ r.call.wakes = some o ∧ r.code = ok := by
  have served : ∀ {who c}, s.Legal c → (∀ p, (s.serve c).2 = .sleep p → s.Caller) →
      u ∈ (s.enter who c).woken o →
        ∃ r, (s.enter who c).log = r :: s.log ∧ r.call.wakes = some o ∧ r.code = ok :=
    fun legal caller new => by
      obtain ⟨wakes,r,log,rfl,code⟩ := woken_enter inv.sound (fun _ => legal) caller old new
      exact ⟨r,log,wakes,code⟩
  cases step_happens inv.dormant o next with
  | quiet apart => exact absurd (apart.woken ▸ new) old
  | main stopped from_ touches =>
    refine served ok'.1.1 (fun p hp => ?_) new
    exact absurd (inv.dormant stopped).1 ((serve_sleeps hp).2.2.1 from_)
  | call running awake user touches =>
    exact served ok'.1.1 (fun _ _ => inv.caller running.1 awake user) new
  | isr port from_ touches =>
    refine served ok'.1 (fun p hp => ?_) new
    simpa [from_] using (serve_sleeps hp).2.1
  | resume running point proceeds =>
    have woken := woken_resume inv.sound point (inv.due_pend running point) (proceed_point proceeds)
      (proceed_event point proceeds)
    split_ifs at woken
    · exact absurd (woken.2 ▸ new) old
    · rw [woken.2] at new
      exact absurd (Finset.mem_of_mem_erase new) old
  | @uart fuel i b v event begun =>
    subst event
    have apart := uartState_apart (o := .queue i) begun
    have log := uartState_log begun
    obtain ⟨wakes,r,log',call,code⟩ := woken_enter (o := .queue i)
      (uartState_handled inv begun).sound (fun wakes => by cases wakes) (fun p hp => absurd hp (osQueuePost_awake i b p))
      (apart.woken ▸ old) new
    exact ⟨r,log'.trans (log ▸ rfl),call ▸ wakes,code⟩

end System
end Brtos
