import Brtos.Tokens

/-! Mutual exclusion, for tasks that hold one mutex at a time. -/
namespace Brtos
open Bitmap

namespace View
variable {cfg : Config} {P : Policy} {v w : View}

/-- A mutex is acquired only by a task that holds none. -/
def Policy.single : Policy where
  acquire v t _ := v.held t = []
  release _ _ _ := True

/-- A task waits for a mutex only because the policy has let it. -/
theorem Move.pends (h : Move cfg P v w) {t m p x : ℕ} (hw : w.point t = .pend (.mutex m) p x) :
    v.point t = .pend (.mutex m) p x ∨ P.acquire v t m := by
  have other : ∀ {u q}, w.point = Function.update v.point u q → (∀ m p x, q ≠ .pend (.mutex m) p x) →
      v.point t = .pend (.mutex m) p x ∨ P.acquire v t m := fun {u q} hp hq => by
    rw [hp] at hw
    by_cases e : t = u
    · subst e
      rw [Function.update_self] at hw
      exact absurd hw (hq m p x)
    · rw [Function.update_of_ne e] at hw
      exact Or.inl hw
  cases h with
  | @sleep u x d o inst idle run created busy met forever =>
    replace hw : Function.update v.point u (.pend o (v.prio u) x) t = _ := hw
    by_cases e : t = u
    · subst e
      rw [Function.update_self] at hw
      obtain ⟨rfl,_⟩ := Point.pend.inj hw
      exact Or.inr (met m rfl)
    · rw [Function.update_of_ne e] at hw
      exact Or.inl hw
  | nap => exact other rfl (by simp)
  | goOn => exact other rfl (by simp)
  | wakeNap => exact other rfl (by simp)
  | giveUp => exact other rfl (by simp)
  | @take u n => exact Or.inl ((congrFun (lift_point ((v.gain u n).save u n) u n) t).symm.trans hw)
  | @obtain u => exact other (u := u) (q := .run) (lift_point _ _ _) (by simp)
  | release => exact Or.inl ((congrFun (restore_point _ _ _) t).symm.trans hw)
  | handOver => exact Or.inl ((congrFun (restore_point _ _ _) t).symm.trans hw)
  | _ => exact Or.inl hw

/-- A task that comes to hold a mutex has asked for it, now or before it went to sleep. -/
theorem Move.gains (h : Move cfg P v w) {t m : ℕ} (hw : w.held t = m :: v.held t) :
    w.point t = .run ∧ (P.acquire v t m ∨ ∃ p x, v.point t = .pend (.mutex m) p x) := by
  have longer : v.held t ≠ m :: v.held t := fun e => by simpa using congrArg List.length e
  have other : ∀ {u n}, Function.update v.held u (n :: v.held u) t = m :: v.held t → t = u ∧ n = m :=
    fun {u n} hw => by
      by_cases e : t = u
      · subst e
        rw [Function.update_self] at hw
        exact ⟨rfl,(List.cons.inj hw).1⟩
      · rw [Function.update_of_ne e] at hw
        exact absurd hw longer
  have shorter : ∀ {u n}, Function.update v.held u ((v.held u).erase n) t ≠ m :: v.held t :=
    fun {u n} hw => by
      by_cases e : t = u
      · subst e
        rw [Function.update_self] at hw
        have := (v.held t).length_erase_le (a := n)
        simp [hw] at this
      · rw [Function.update_of_ne e] at hw
        exact longer hw
  cases h with
  | @take u n inst idle run created free met =>
    obtain ⟨rfl,rfl⟩ := other ((congrFun (take_held v u n) t).symm.trans hw)
    exact ⟨(congrFun (lift_point _ _ _) t).trans run,Or.inl met⟩
  | @obtain u n p x d point selected late =>
    obtain ⟨rfl,rfl⟩ := other ((congrFun (take_held (v.goOn u d) u n) t).symm.trans hw)
    refine ⟨(congrFun (lift_point _ _ _) t).trans ?_,Or.inr ⟨p,x,point⟩⟩
    exact Function.update_self _ _ _
  | @release u n => exact absurd ((congrFun (release_held v u n) t).symm.trans hw) shorter
  | @handOver u n p => exact absurd ((congrFun (handOver_held v u n p) t).symm.trans hw) shorter
  | _ => exact absurd hw longer

/-- A task holds one mutex at most, which keeps the task's own priority, and none while it waits for
a mutex. -/
structure Solo (v : View) : Prop where
  alone {t m : ℕ} : m ∈ v.held t → v.held t = [m] ∧ v.saved m = v.inst t
  waiting {t m p w : ℕ} : v.point t = .pend (.mutex m) p w → v.held t = []

theorem Solo.untouched (h : v.Solo) (hu : Untouched v w)
    (pends : ∀ {t m p x}, w.point t = .pend (.mutex m) p x → v.held t = []) : w.Solo where
  alone {t m} hm := by
    rw [hu.held] at hm ⊢
    rw [saved,hu.mutex hm,hu.inst (List.ne_nil_of_mem hm)]
    exact h.alone hm
  waiting hp := by
    rw [hu.held]
    exact pends hp

/-- The first mutex of a task keeps the priority the task was installed with. -/
theorem Solo.acquired (h : v.Solo) (hs : Sound cfg v) {t m : ℕ} (ha : Acquired v w t m)
    (bare : v.held t = []) (runs : w.point t = .run)
    (pends : ∀ {t m p x}, w.point t = .pend (.mutex m) p x → v.held t = []) : w.Solo where
  alone {u n} hn := by
    by_cases e : u = t
    · subst e
      rw [ha.held,Function.update_self,bare] at hn ⊢
      obtain rfl := List.mem_singleton.mp hn
      refine ⟨rfl,?_⟩
      rw [ha.fresh,ha.insts]
      rcases hs.level ha.inst with hp | ⟨k,hk,_⟩
      · exact hp
      · simp [bare] at hk
    · rw [ha.held,Function.update_of_ne e] at hn ⊢
      rw [ha.saved (ha.ne hn),ha.insts]
      exact h.alone hn
  waiting {u _ _ _} hp := by
    by_cases e : u = t
    · rw [e,runs] at hp
      simp at hp
    · rw [ha.held,Function.update_of_ne e]
      exact pends hp

theorem Solo.released (h : v.Solo) (hs : Sound cfg v) {t m : ℕ} (hr : Released P v w t m)
    (pends : ∀ {t m p x}, w.point t = .pend (.mutex m) p x → v.held t = []) : w.Solo where
  alone {u n} hn := by
    obtain ⟨old,apart⟩ := (hr.mem hs).mp hn
    have other : u ≠ t := by
      rintro rfl
      have both := (h.alone old).1.symm.trans (h.alone hr.owns).1
      exact apart (List.singleton_inj.mp both)
    rw [hr.held,Function.update_of_ne other,hr.saved,hr.insts]
    exact h.alone old
  waiting {u _ _ _} hp := by
    have bare := pends hp
    rw [hr.held]
    by_cases e : u = t
    · subst e
      rw [Function.update_self,bare]
      rfl
    · rw [Function.update_of_ne e]
      exact bare

theorem Solo.keep (hs : Sound cfg v) (h : v.Solo) (hm : Move cfg Policy.single v w) : w.Solo := by
  have pends : ∀ {t m p x}, w.point t = .pend (.mutex m) p x → v.held t = [] := fun hp =>
    (hm.pends hp).elim h.waiting id
  rcases hm.custody hs with hu | ⟨t,m,ha | hr⟩
  · exact h.untouched hu pends
  · obtain ⟨runs,asked⟩ := hm.gains (t := t) (m := m) (by rw [ha.held,Function.update_self])
    have bare : v.held t = [] := asked.elim id fun ⟨_,_,point⟩ => h.waiting point
    exact h.acquired hs ha bare runs pends
  · exact h.released hs hr pends

theorem Policy.single_safe : Policy.single.Safe cfg Solo :=
  ⟨fun hs h hm => h.keep hs hm,fun _ h hm _ => Or.inl (h.alone hm).2⟩

instance (v : View) (t m : ℕ) : Decidable (Policy.single.acquire v t m) :=
  inferInstanceAs (Decidable (_ = _))
instance (v : View) (t m : ℕ) : Decidable (Policy.single.release v t m) :=
  inferInstanceAs (Decidable True)
instance (v : View) (p : ℕ) : Decidable (Policy.single.install v p) := inferInstanceAs (Decidable True)

theorem handOver_owner (v : View) (t m p : ℕ) : (v.handOver t m p).owner m = v.slot p := by
  simp only [owner,handOver,Function.update_self]

/-- A task that runs is on no wait list. -/
theorem Sound.unlisted (hs : Sound cfg v) {t : ℕ} (inst : v.installed t) (run : v.point t = .run)
    (o : Obj) : v.prio t ∉ v.waiting o := by
  intro listed
  obtain ⟨u,w,hu,hi,hp⟩ := hs.waiter listed
  obtain rfl := hs.prio_inj inst hi hp.symm
  simp [run] at hu

/-- A task that is still on the wait list of a mutex does not own it. -/
theorem Sound.not_owner (hs : Sound cfg v) {t m p w : ℕ} (point : v.point t = .pend (.mutex m) p w)
    (listed : p ∈ v.waiting (.mutex m)) : v.owner m ≠ t := by
  intro owner
  have pos := (hs.handle (hs.pending point).1).1
  rcases (hs.owned (m := m) (by omega)).2 with held | ⟨q,x,hq,far⟩
  · exact (hs.held_owner held).2 p w (owner ▸ point)
  · rw [owner] at hq
    obtain ⟨_,rfl,_⟩ := Point.pend.inj (point.symm.trans hq)
    exact far listed

end View

namespace System
variable {cfg : Config} {P : View.Policy} {s t : System cfg} {i : ℕ}

/-! ### One call -/

theorem mutex_of_body {k l : Kernel cfg} (h : k.body (.mutex i) = l.body (.mutex i)) :
    k.brtosMutexTable i = l.brtosMutexTable i := Body.mutex.inj h

theorem raise_owner (k : Kernel cfg) (i p j : ℕ) :
    ((k.raise i p).brtosMutexTable j).osEventOwner = (k.brtosMutexTable j).osEventOwner := by
  have saved : ((k.setMutex i fun m => { m with osOriginalPriority := p }).brtosMutexTable
      j).osEventOwner = (k.brtosMutexTable j).osEventOwner := by
    by_cases e : j = i
    · subst e
      simp [Kernel.setMutex]
    · simp [Kernel.setMutex,e]
  simp only [Kernel.raise]
  split_ifs
  · exact saved
  · exact saved

/-- The ways of an acquisition of a mutex that exists. -/
inductive AcquireOf (s : System cfg) (i w : ℕ) (k : Kernel cfg) : Reply → Prop
  | again (owner : (s.brtosMutexTable i).osEventOwner = s.currentTask) (core : k.toCore = s.toCore) :
      AcquireOf s i w k (.ret ok [])
  | takes (free : (s.brtosMutexTable i).osEventState = availableResource)
      (owner : (k.brtosMutexTable i).osEventOwner = s.currentTask) : AcquireOf s i w k (.ret ok [])
  | leaves (other : (s.brtosMutexTable i).osEventOwner ≠ s.currentTask) (core : k.toCore = s.toCore) :
      AcquireOf s i w k (.ret exitByNoResourceAvailable [])
  | sleeps (other : (s.brtosMutexTable i).osEventOwner ≠ s.currentTask)
      (table : k.brtosMutexTable i = s.brtosMutexTable i) :
      AcquireOf s i w k (.sleep (.pend (.mutex i) s.currentPriority w))

theorem acquireOf (created : s.notCreated (.mutex i) = false) (calm : s.iNesting = 0) (w : ℕ) :
    AcquireOf s i w (s.osMutexAcquire i w).1 (s.osMutexAcquire i w).2 := by
  have created' : s.osEnterCritical.notCreated (.mutex i) = false := created
  simp only [Kernel.osMutexAcquire,calm,lt_irrefl,and_false,if_false,created',Bool.false_eq_true]
  split_ifs with h1 h2 h3
  · exact .again h1.symm rfl
  · refine .takes h2 ((raise_owner _ i _ i).trans ?_)
    simp [Kernel.setMutex,Kernel.osEnterCritical]
  · exact .leaves (Ne.symm h1) rfl
  · refine .sleeps (Ne.symm h1) (mutex_of_body ?_)
    exact (Kernel.suspend_body _ _).trans (Kernel.body_of_cell Kernel.osEnterCritical_cell)

/-- A release by a task that does not own the mutex has no effect. -/
theorem release_other (created : s.notCreated (.mutex i) = false) (calm : s.iNesting = 0)
    (other : (s.brtosMutexTable i).osEventOwner ≠ s.currentTask) :
    s.osMutexRelease i = (s.toKernel,.ret errEventOwner []) := by
  have created' : s.osEnterCritical.notCreated (.mutex i) = false := created
  simp only [Kernel.osMutexRelease,calm,lt_irrefl,and_false,if_false,created',Bool.false_eq_true]
  rw [if_pos (show (s.osEnterCritical.brtosMutexTable i).osEventOwner ≠ s.osEnterCritical.currentTask
    from other),enter_exit (Or.inl calm)]

/-- A release with waiting tasks makes the highest of them the owner. -/
theorem release_hands (hs : View.Sound cfg s.view) (caller : s.Caller)
    (back : s.view.Restorable s.currentTask i) (created : s.notCreated (.mutex i) = false)
    (calm : s.iNesting = 0) (owner : (s.brtosMutexTable i).osEventOwner = s.currentTask)
    (wait : (s.event (.mutex i)).osEventWait ≠ 0) : (s.osMutexRelease i).2 = .ret ok [] ∧
      ∃ u p w, s.point u = .pend (.mutex i) p w ∧ s.view.IsTop (.mutex i) p ∧
        ((s.osMutexRelease i).1.brtosMutexTable i).osEventOwner = u := by
  obtain ⟨p,top,handed⟩ := passedOn_view hs caller back wait
  obtain ⟨u,w,hu,hi,hp⟩ := hs.waiter top.1
  have calm' : ¬ (cfg.errorCheck = true ∧ 0 < s.iNesting) := by
    rw [calm]
    simp
  rw [osMutexRelease_owner calm' created owner (restored hs caller back).2,if_pos wait]
  refine ⟨rfl,u,p,w,hu,top,?_⟩
  have given := View.handOver_owner (s.view.restore s.currentTask i) s.currentTask i p
  rw [View.restore_slot] at given
  calc _ = _ := congrArg BrtosMutex.osEventOwner (congrFun (congrArg View.mutex handed) i)
    _ = s.view.slot p := given
    _ = u := hp ▸ hs.slot hi

/-- A task that takes up its acquisition owns the mutex and obtains OK, or it gives up without. -/
theorem resume_acquires (hs : View.Sound cfg s.view) {p w : ℕ}
    (point : s.point s.currentTask = .pend (.mutex i) p w) (due : p ∈ s.view.ready)
    (next : s.proceed = some t) : ∃ r, t.log = r :: s.log ∧ r.who = some s.currentTask ∧
      r.call = .mutexAcquire i w ∧
      (t.brtosMutexTable i).osEventOwner = (s.brtosMutexTable i).osEventOwner ∧
      (r.code = ok ∧ (s.brtosMutexTable i).osEventOwner = s.currentTask ∨
        r.code = exitByNoResourceAvailable ∧ (s.brtosMutexTable i).osEventOwner ≠ s.currentTask) := by
  unfold proceed at next
  simp only [point,Option.some.injEq] at next
  subst next
  have pending := hs.pending (t := s.currentTask) point
  have lt : p < cfg.width := pending.2.1 ▸ hs.prio_lt pending.1
  have table : (s.osEnterCritical.wakeUp (.mutex i) p w).1.brtosMutexTable i = s.brtosMutexTable i :=
    mutex_of_body ((Kernel.wakeUp_body _ _ _).trans (Kernel.body_of_cell Kernel.osEnterCritical_cell))
  refine ⟨_,rfl,rfl,rfl,?_⟩
  simp only [returned_toKernel,Kernel.resumePend,Kernel.resumeMutexAcquire]
  split_ifs with late
  · refine ⟨congrArg BrtosMutex.osEventOwner table,Or.inr ⟨rfl,?_⟩⟩
    have listed := ((s.osEnterCritical.wakeUp_late s.point s.inst s.held lt).mp late).2.2
    exact hs.not_owner (t := s.currentTask) point listed
  · have early : (s.osEnterCritical.wakeUp (.mutex i) p w).2 = false := by simpa using late
    refine ⟨(raise_owner _ i p i).trans (congrArg BrtosMutex.osEventOwner table),Or.inl ⟨rfl,?_⟩⟩
    exact hs.assigned (t := s.currentTask) point (selected_of_wakeUp hs point due early)

/-! ### Steps -/

/-- The calls that touch a mutex that exists. -/
theorem touches_mutex (h : s.Created (.mutex i)) {c : Call} (touches : s.Touches (.mutex i) c) :
    c = .mutexRelease i ∨ (∃ w, c = .mutexAcquire i w) ∨ c = .mutexDelete i := by
  have taken : (s.event (.mutex i)).osEventAllocated = 1 := h.resolve_left (by simp [Obj.onHeap])
  cases c <;> simp only [Kernel.Touches,Obj.mutex.injEq,reduceCtorEq,and_false,exists_false] at touches
  case mutexCreate =>
    obtain ⟨j,found,rfl⟩ := touches
    exact absurd taken (findEvent_free found)
  case queueClean d j | queuePend d j _ => cases d <;> simp [Kernel.QueueKind.obj] at touches
  all_goals simp [touches]

/-- What the call that a step enters in the log has done to the mutex. -/
structure Exclusive (s t : System cfg) (i : ℕ) (r : Record) : Prop where
  obtains {w : ℕ} : r.call = .mutexAcquire i w → r.code = ok →
    (t.brtosMutexTable i).osEventOwner = s.currentTask
  refuses : r.call = .mutexRelease i → (s.brtosMutexTable i).osEventOwner ≠ s.currentTask →
    r.code = errEventOwner ∧ t = { s with log := t.log }
  hands : r.call = .mutexRelease i → (s.brtosMutexTable i).osEventOwner = s.currentTask →
    (s.event (.mutex i)).osEventWait ≠ 0 → r.code = ok ∧ ∃ u p w, s.point u = .pend (.mutex i) p w ∧
      (p ∈ bits (s.event (.mutex i)).osEventWaitList ∧
        ∀ q ∈ bits (s.event (.mutex i)).osEventWaitList, q ≤ p) ∧
      (t.brtosMutexTable i).osEventOwner = u
  leaves {w : ℕ} : r.call = .mutexAcquire i w → r.code = exitByNoResourceAvailable →
    (s.brtosMutexTable i).osEventOwner ≠ s.currentTask ∧
    (t.brtosMutexTable i).osEventOwner ≠ s.currentTask ∧
    (t.contextTask s.currentTask).priority ∉ bits (t.event (.mutex i)).osEventWaitList ∧
    (t.event (.mutex i)).osEventWait = (bits (t.event (.mutex i)).osEventWaitList).card

theorem Exclusive.vacuous {r : Record} (acquire : ∀ w, r.call ≠ .mutexAcquire i w)
    (release : r.call ≠ .mutexRelease i) : Exclusive s t i r where
  obtains h := absurd h (acquire _)
  refuses h := absurd h release
  hands h := absurd h release
  leaves h := absurd h (acquire _)

theorem exclusive_release (inv : s.Inv) (solo : s.view.Solo) (running : s.Running)
    (caller : s.Caller) (created : s.Created (.mutex i)) {r : Record}
    (log : (s.enter (some s.currentTask) (.mutexRelease i)).log = r :: s.log) :
    Exclusive s (s.enter (some s.currentTask) (.mutexRelease i)) i r := by
  have created' := notCreated_of_created rfl created
  have acquire : ∀ w, Call.mutexRelease i ≠ .mutexAcquire i w := by simp
  by_cases owner : (s.brtosMutexTable i).osEventOwner = s.currentTask
  · by_cases wait : (s.event (.mutex i)).osEventWait ≠ 0
    · have owns : i ∈ s.held s.currentTask := held_of_owner inv.sound caller owner
      obtain ⟨reply,handed⟩ := release_hands inv.sound caller (Or.inl (solo.alone owns).2) created'
        running.2.1 owner wait
      rw [enter_ret (c := .mutexRelease i) reply] at log ⊢
      obtain rfl := (List.cons.inj log).1
      exact ⟨fun h => absurd h (acquire _),fun _ h => absurd owner h,fun _ _ _ => ⟨rfl,handed⟩,
        fun h => absurd h (acquire _)⟩
    · rcases s.enter_log (some s.currentTask) (.mutexRelease i) with ⟨code,data,_,more⟩ | ⟨p,_,same⟩
      · obtain rfl := (List.cons.inj (log.symm.trans more)).1
        exact ⟨fun h => absurd h (acquire _),fun _ h => absurd owner h,fun _ _ h => absurd h wait,
          fun h => absurd h (acquire _)⟩
      · simp [same] at log
  · have fails := release_other created' running.2.1 owner
    have reply : (s.serve (.mutexRelease i)).2 = .ret errEventOwner [] := congrArg Prod.snd fails
    rw [enter_ret reply] at log ⊢
    obtain rfl := (List.cons.inj log).1
    rw [show (s.serve (.mutexRelease i)).1 = s.toKernel from congrArg Prod.fst fails]
    exact ⟨fun h => absurd h (acquire _),fun _ _ => ⟨rfl,rfl⟩,fun _ h => absurd h owner,
      fun h => absurd h (acquire _)⟩

theorem exclusive_acquire (running : s.Running) (caller : s.Caller) (created : s.Created (.mutex i))
    {w : ℕ} (next : (s.enter (some s.currentTask) (.mutexAcquire i w)).Inv) {r : Record}
    (log : (s.enter (some s.currentTask) (.mutexAcquire i w)).log = r :: s.log) :
    Exclusive s (s.enter (some s.currentTask) (.mutexAcquire i w)) i r := by
  have acquire := acquireOf (notCreated_of_created rfl created) running.2.1 w
  cases hr : (s.osMutexAcquire i w).2 with
  | sleep p =>
    rw [enter_sleep (c := .mutexAcquire i w) hr] at log
    simp [setPoint] at log
  | ret code data =>
    rw [enter_ret (c := .mutexAcquire i w) hr] at log next ⊢
    obtain rfl := (List.cons.inj log).1
    rw [hr] at acquire
    revert next
    generalize hk : (s.serve (.mutexAcquire i w)).1 = k
    rw [show (s.osMutexAcquire i w).1 = k from hk] at acquire
    intro next
    have release : Call.mutexAcquire i w ≠ .mutexRelease i := by simp
    cases acquire with
    | again owner core =>
      refine ⟨fun _ _ => ?_,fun h => absurd h release,fun h => absurd h release,
        fun _ h => by simp [ok,exitByNoResourceAvailable] at h⟩
      rw [returned_toKernel,core]
      exact owner
    | takes free owner =>
      exact ⟨fun _ _ => owner,fun h => absurd h release,fun h => absurd h release,
        fun _ h => by simp [ok,exitByNoResourceAvailable] at h⟩
    | leaves other core =>
      refine ⟨fun _ h => by simp [ok,exitByNoResourceAvailable] at h,fun h => absurd h release,
        fun h => absurd h release,fun _ _ => ⟨other,?_,?_,next.sound.count _⟩⟩
      · rw [returned_toKernel,core]
        exact other
      · refine next.sound.unlisted (t := s.currentTask) ?_ caller.run (.mutex i)
        have inst := caller.inst
        rw [← core] at inst
        exact inst

theorem exclusive_resume (inv : s.Inv) {p w : ℕ} (point : s.point s.currentTask = .pend (.mutex i) p w)
    (due : p ∈ s.view.ready) (next : s.proceed = some t) (after : t.Inv)
    (stays : t.Installed s.currentTask) {r : Record} (log : t.log = r :: s.log) :
    Exclusive s t i r := by
  obtain ⟨x,more,_,call,kept,outcome⟩ := resume_acquires inv.sound point due next
  obtain rfl := (List.cons.inj (log.symm.trans more)).1
  have release : r.call ≠ .mutexRelease i := by simp [call]
  refine ⟨fun _ success => ?_,fun h => absurd h release,fun h => absurd h release,fun _ fails => ?_⟩
  · rcases outcome with ⟨_,owner⟩ | ⟨code,_⟩
    · exact kept.trans owner
    · simp [code,ok,exitByNoResourceAvailable] at success
  · rcases outcome with ⟨code,_⟩ | ⟨_,other⟩
    · simp [code,ok,exitByNoResourceAvailable] at fails
    · refine ⟨other,kept ▸ other,?_,after.sound.count _⟩
      refine after.sound.unlisted (t := s.currentTask) stays ?_ (.mutex i)
      exact (congrFun (proceed_point next) _).trans (Function.update_self _ _ _)

theorem step_exclusive (inv : s.Inv) (solo : s.view.Solo) {a : Action} (ok' : s.Allowed .single a)
    (created : s.Created (.mutex i)) (next : s.step a = some t) {r : Record} (log : t.log = r :: s.log) :
    Exclusive s t i r := by
  obtain ⟨moves,after⟩ := step_inv View.Policy.single_safe inv solo ok' next
  have called : ∀ {who c}, (s.enter who c).log = r :: s.log → r.call = c := fun {who c} log => by
    rcases s.enter_logs who c with same | ⟨x,more,call,_⟩
    · simp [same] at log
    · exact (List.cons.inj (log.symm.trans more)).1 ▸ call
  have deleted : r.call = .mutexDelete i → Exclusive s t i r := fun h => .vacuous (by simp [h]) (by simp [h])
  cases step_happens inv.dormant (.mutex i) next with
  | quiet apart =>
    obtain ⟨l,more,far⟩ := apart.log
    obtain rfl : l = [r] := List.append_cancel_right (more.symm.trans log)
    have other := far r List.mem_cons_self
    refine .vacuous (fun w h => other ?_) fun h => other ?_ <;> rw [h] <;> rfl
  | main stopped from_ touches =>
    rcases touches_mutex created touches with rfl | ⟨w,rfl⟩ | rfl
    · simp [Call.fromMain] at from_
    · simp [Call.fromMain] at from_
    · exact deleted (called log)
  | call running awake user touches =>
    have caller := inv.caller running.1 awake user
    rcases touches_mutex created touches with rfl | ⟨w,rfl⟩ | rfl
    · exact exclusive_release inv solo running caller created log
    · exact exclusive_acquire running caller created after log
    · exact deleted (called log)
  | isr port from_ touches =>
    rcases touches_mutex created touches with rfl | ⟨w,rfl⟩ | rfl <;> simp [Call.fromIsr] at from_
  | resume running point proceeds =>
    exact exclusive_resume inv point (inv.due_pend running point) proceeds after
      (moves.installed (inv.current running.1)) log
  | uart event => simp at event

/-- An acquisition by another task leaves a promised mutex alone. -/
theorem acquire_promised (hs : View.Sound cfg s.view) (calm : s.iNesting = 0)
    (x : ℕ) {u p w : ℕ} (point : s.point u = .pend (.mutex i) p w)
    (owner : (s.brtosMutexTable i).osEventOwner = u) (other : u ≠ s.currentTask) :
    ((s.enter (some s.currentTask) (.mutexAcquire i x)).brtosMutexTable i).osEventOwner = u ∧
      ((s.enter (some s.currentTask) (.mutexAcquire i x)).point u = .pend (.mutex i) p w ∨
        ∃ r, (s.enter (some s.currentTask) (.mutexAcquire i x)).log = r :: s.log ∧ r.who = some u ∧
          r.call = .mutexAcquire i w ∧ r.code = ok) := by
  obtain ⟨inst,_,created⟩ := hs.pending (t := u) point
  have acquire := acquireOf (notCreated_of_created rfl created) calm x
  rw [enter_toKernel,show (s.serve (.mutexAcquire i x)).1 = (s.osMutexAcquire i x).1 from rfl]
  cases hr : (s.osMutexAcquire i x).2 with
  | sleep q =>
    rw [enter_sleep (c := .mutexAcquire i x) hr]
    rw [hr] at acquire
    generalize (s.osMutexAcquire i x).1 = k at acquire
    cases acquire with
    | sleeps _ table =>
      refine ⟨table ▸ owner,Or.inl ?_⟩
      simp only [setPoint,Function.update_of_ne other]
      exact point
  | ret code data =>
    rw [enter_ret (c := .mutexAcquire i x) hr]
    rw [hr] at acquire
    generalize (s.osMutexAcquire i x).1 = k at acquire
    cases acquire with
    | again mine core => exact absurd (owner.symm.trans mine) other
    | takes free =>
      have pos := (hs.handle inst).1
      rcases hs.busy created with ⟨_,nobody,_⟩ | ⟨busy,_⟩
      · have := owner.symm.trans nobody
        omega
      · have := (show s.view.state i = availableResource from free).symm.trans busy
        simp [availableResource,busyResource] at this
    | leaves _ core =>
      rw [core]
      exact ⟨owner,Or.inl point⟩

/-- The ownership that a suspended task has been given stays with it until it obtains OK. -/
theorem step_promised (inv : s.Inv) {a : Action} (ok' : s.Allowed P a) (next : s.step a = some t)
    {u p w : ℕ} (point : s.point u = .pend (.mutex i) p w)
    (owner : (s.brtosMutexTable i).osEventOwner = u) : (t.brtosMutexTable i).osEventOwner = u ∧
      (t.point u = .pend (.mutex i) p w ∨ ∃ r, t.log = r :: s.log ∧ r.who = some u ∧
        r.call = .mutexAcquire i w ∧ r.code = ok) := by
  have hs := inv.sound
  obtain ⟨inst,_,created⟩ := hs.pending (t := u) point
  have created' := notCreated_of_created rfl created
  have quiet : ¬ s.Quiet (.mutex i) := fun h =>
    h u (hs.small (t := u) point) (by rw [point]; rfl)
  cases step_happens inv.dormant (.mutex i) next with
  | quiet apart =>
    refine ⟨?_,Or.inl (apart.point.mpr point)⟩
    rw [mutex_of_body (Kernel.body_of_cell apart.cell)]
    exact owner
  | main stopped from_ touches =>
    rw [(inv.dormant stopped).2 u] at point
    simp at point
  | call running awake user touches =>
    have caller := inv.caller running.1 awake user
    have other : u ≠ s.currentTask := by
      rintro rfl
      simp [caller.run] at point
    rcases touches_mutex created touches with rfl | ⟨w,rfl⟩ | rfl
    · have fails := release_other created' running.2.1 (owner.trans_ne other)
      rw [enter_ret (c := .mutexRelease i) (congrArg Prod.snd fails)]
      refine ⟨?_,Or.inl point⟩
      rw [returned_toKernel,show (s.serve (.mutexRelease i)).1 = s.toKernel from congrArg Prod.fst fails]
      exact owner
    · exact acquire_promised hs running.2.1 w point owner other
    · exact absurd ok'.1.1.2.1 quiet
  | isr port from_ touches =>
    rcases touches_mutex created touches with rfl | ⟨w,rfl⟩ | rfl <;> simp [Call.fromIsr] at from_
  | @resume t q x running point' proceeds =>
    obtain ⟨r,log,who,call,kept,outcome⟩ :=
      resume_acquires hs point' (inv.due_pend running point') proceeds
    refine ⟨kept.trans owner,?_⟩
    by_cases e : u = s.currentTask
    · subst e
      obtain ⟨_,_,rfl⟩ := Point.pend.inj (point.symm.trans point')
      rcases outcome with ⟨code,_⟩ | ⟨_,other⟩
      · exact Or.inr ⟨r,log,who,call,code⟩
      · exact absurd owner other
    · rw [proceed_point proceeds,Function.update_of_ne e]
      exact Or.inl point
  | uart event => simp at event

/-! ### Runs -/

theorem init_solo : (init cfg).view.Solo where
  alone h := by simp [view,Core.view,init] at h
  waiting h := by simp [view,Core.view,init] at h

/-- In every run whose tasks hold one mutex at a time: a mutex is busy exactly when it has an owner,
who has obtained OK for it or has been selected and will; each call does to it what `Exclusive` says;
and nobody loses an ownership before it has returned OK. -/
theorem exclusive_of_reaches (run : Reaches .single (init cfg) s) (created : s.Created (.mutex i)) :
    ((s.brtosMutexTable i).osEventState = busyResource ↔ (s.brtosMutexTable i).osEventOwner ≠ 0) ∧
    (∀ u, (s.brtosMutexTable i).osEventOwner = u → u ≠ 0 → i ∈ s.held u ∨
      ∃ p w, s.point u = .pend (.mutex i) p w ∧ p ∉ bits (s.event (.mutex i)).osEventWaitList) ∧
    ∀ {a : Action} {t : System cfg}, s.Allowed .single a → s.step a = some t →
      (∀ r, t.log = r :: s.log → Exclusive s t i r) ∧
      ∀ {u p w}, s.point u = .pend (.mutex i) p w → (s.brtosMutexTable i).osEventOwner = u →
        (t.brtosMutexTable i).osEventOwner = u ∧ (t.point u = .pend (.mutex i) p w ∨
          ∃ r, t.log = r :: s.log ∧ r.who = some u ∧ r.call = .mutexAcquire i w ∧ r.code = ok) := by
  obtain ⟨_,inv,solo⟩ := run.inv View.Policy.single_safe init_solo init_inv
  refine ⟨?_,?_,fun ok' next => ⟨fun r log => step_exclusive inv solo ok' created next log,
    fun point owner => step_promised inv ok' next point owner⟩⟩
  · rcases inv.sound.busy created with ⟨free,nobody,_⟩ | ⟨busy,somebody⟩
    · rw [show (s.brtosMutexTable i).osEventState = _ from free,
        show (s.brtosMutexTable i).osEventOwner = _ from nobody]
      simp [availableResource,busyResource]
    · exact iff_of_true busy somebody
  · rintro u rfl owned
    exact (inv.sound.owned owned).2

/-- Task 2 waits for the mutex of task 1, which gives it back. -/
theorem exclusive_run : ∃ s t : System .port, ∃ r, s.step (.call (.mutexRelease 0)) = some t ∧
    (s.brtosMutexTable 0).osEventOwner = 1 ∧ s.point 2 = .pend (.mutex 0) 4 0 ∧
    r.call = .mutexRelease 0 ∧ Exclusive s t 0 r := by
  obtain ⟨s,run,⟨ok',created,owner,point⟩,t,next,r,_,log,call⟩ := Run.exists_reach_of_exec step
    (fun s a => s.Allowed .single a) (init .port)
    [.main (.install (.user 1) 16 3),.main (.install (.user 2) 16 4),.main (.mutexCreate 0),.start,
      .call (.delayTask 1),.switch,.call (.mutexAcquire 0 0),.isrEnter,.isrTick 2,.isrExit,.resume,
      .call (.mutexAcquire 0 0),.switch]
    (fun s => (s.Allowed .single (.call (.mutexRelease 0)) ∧ s.Created (.mutex 0) ∧
      (s.brtosMutexTable 0).osEventOwner = 1 ∧ s.point 2 = .pend (.mutex 0) 4 0) ∧
        ∃ t ∈ s.step (.call (.mutexRelease 0)), ∃ r ∈ t.log.head?, t.log = r :: s.log ∧
          r.call = .mutexRelease 0) (by decide +kernel)
  exact ⟨s,t,r,next,owner,point,call,((exclusive_of_reaches run created).2.2 ok' next).1 r log⟩

end System
end Brtos
